import CodeSeeX.Core.ContextProtocol
import CodeSeeX.Proxy.BudgetSelection

/-!
# An input over the budget

No step of the budget changes the turn that a message is, and none brings back a data URL that
compacting replaced.
-/
namespace CodeSeeX.Proxy.Budget
open List Blocks Redaction Context

variable {messages : List ChatMessage} {valid : Finset Text} {start maxBytes : ℕ}

/-- What every pass keeps is kept by shrinking. -/
theorem shrunken_keeps {P : List ChatMessage → Prop}
    (hpass : ∀ messages limit, P messages →
      P (messages.map fun message => forceShrinkMessage message limit)) (h : P messages) :
    P (forceShrinkMessagesToBudget messages maxBytes).messages := by
  have hloop : ∀ (limits : List ℕ) (result : ForceShrinkResult), P result.messages →
      P (shrinkLoop maxBytes limits result).messages := by
    intro limits
    induction limits with
    | nil => exact fun _ h => h
    | cons limit limits ih =>
      intro result h
      have hnext := hpass result.messages limit h
      rw [shrinkLoop]
      split_ifs
      · exact hnext
      · exact ih _ hnext
  rw [forceShrinkMessagesToBudget]
  split_ifs
  · exact h
  · exact hloop _ _ h

theorem legal_selected (h : LegalChat valid messages) :
    LegalChat valid (selectBudgetedMessageBlocks messages start maxBytes).messages := by
  have hwhole := (finalSelection_whole messages start maxBytes).2
  rw [messageBlocks_eq_positions] at hwhole
  obtain ⟨chosen, hchosen, hpick⟩ := pick_flatten hwhole
  rw [messageGroups_flatten] at hpick
  rw [selectBudgetedMessageBlocks, hpick]
  exact legal_flatten fun group hgroup => legal_messageGroups h group (hchosen.subset hgroup)

/-- What is sent of an input over the budget is a legal conversation of some of its turns and holds
no data URL. -/
theorem budgeted_input_obeys_protocol (crates : CoreCrates) (input : Value) (start maxBytes : ℕ) :
    let compiled := (compileResponsesInputWithToolOutputs crates input ∅).messages
    let selected := selectBudgetedMessageBlocks (compiled.map compactMessageForBudget) start maxBytes
    let sent := (forceShrinkMessagesToBudget selected.messages maxBytes).messages
    LegalChat ∅ sent ∧ (sent.map ChatMessage.turn).Sublist (compiled.map ChatMessage.turn) ∧
      ∀ message ∈ sent, ¬ dataMarker <:+: message.content := by
  intro compiled selected sent
  have hturns : (compiled.map compactMessageForBudget).map ChatMessage.turn =
      compiled.map ChatMessage.turn := map_map
  have hsub : selected.messages.Sublist (compiled.map compactMessageForBudget) := pick_sublist
  apply @shrunken_keeps selected.messages maxBytes fun sent =>
    LegalChat ∅ sent ∧ (sent.map ChatMessage.turn).Sublist (compiled.map ChatMessage.turn) ∧
      ∀ message ∈ sent, ¬ dataMarker <:+: message.content
  · rintro passed limit ⟨hlegal, hsome, hclean⟩
    have hpassed : (passed.map fun message => forceShrinkMessage message limit).map
        ChatMessage.turn = passed.map ChatMessage.turn := by
      rw [map_map]
      apply map_congr_left
      intro message _
      rw [Function.comp_apply, forceShrinkMessage]
      split_ifs <;> rfl
    rw [LegalChat, hpassed, forall_mem_map]
    refine ⟨hlegal, hsome, fun message hmessage => ?_⟩
    rw [forceShrinkMessage, apply_ite ChatMessage.content]
    split_ifs
    · exact hclean message hmessage
    · exact marker_not_in_truncated (hclean message hmessage) _
    · exact hclean message hmessage
  · refine ⟨legal_selected ?_, hturns ▸ hsub.map _, fun message hmessage => ?_⟩
    · rw [LegalChat, hturns]
      exact legalChat_compiled crates input ∅
    · obtain ⟨original, -, rfl⟩ := mem_map.mp (hsub.subset hmessage)
      exact marker_not_in_truncated (marker_not_in_redacted original.content) _

end CodeSeeX.Proxy.Budget
