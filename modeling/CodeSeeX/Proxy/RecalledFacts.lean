import CodeSeeX.Proxy.ResponseHistory
import CodeSeeX.Store.ToolFacts

/-!
# Tool facts from the store to the prompt

The store keeps the newest facts behind a marker, and the message for the model lists its first
entries: of more than a hundred facts, the oldest ones kept.
-/
namespace CodeSeeX.Store
open List Option ResponseHistory Redaction

/-- What the model is shown of the facts that were appended to a request. -/
def recalledFacts (facts : List Text) : List Text :=
  if facts.length ≤ maxToolFactsPerRequest then facts.take 80
  else omittedFacts (min (facts.length - maxToolFactsPerRequest) 2) ::
    (newest maxToolFactsPerRequest facts).take 79

def recalledText (facts : List Text) : Text :=
  toolFactHeader ++ ((recalledFacts facts).flatMap fun fact =>
    ("- " : Text) ++ compactLine (redactInlineDataUrls fact) 1600 ++ ("\n" : Text)) ++
  if min facts.length 101 > 80 then
    ("- " : Text) ++ Text.ofNat (min facts.length 101 - 80) ++
      (" older tool fact(s) omitted by the deterministic replay budget.\n" : Text)
  else []

variable {crates : StoreCrates} {redactSecretText : Text → Text} {inner : StoreInner}

/-- The facts that any run appends to a request without facts, whatever else it does, are shown as
the marker and the window leave them. -/
theorem recalled_of_run {operations : List (DateTime × Operation)} {id : Text} {facts : List Text}
    (hreachable : Reachable crates redactSecretText inner)
    (hnone : toolFactsOf inner id = some []) (hnew : id ∉ checkpointedIds operations)
    (hfacts : toolFactsOf (run crates redactSecretText inner operations) id = some facts) :
    (toolFactMessage facts).content = recalledText
      ((appendedFacts id operations).map (sanitizeLogString crates redactSecretText)) := by
  obtain ⟨earlier, rfl⟩ := hreachable
  obtain ⟨request, hbefore, hempty⟩ := map_eq_some_iff.mp hnone
  obtain ⟨later, hafter, rfl⟩ := map_eq_some_iff.mp hfacts
  have hrun := toolFacts_run (WellFormed.default.run earlier) hbefore hnew hafter
  rw [hempty, ← appendToolFacts, appendToolFacts_eq] at hrun
  have htake : later.toolFacts.take 80 = recalledFacts
      ((appendedFacts id operations).map (sanitizeLogString crates redactSecretText)) := by
    rw [hrun, recalledFacts, length_map]
    split_ifs <;> rfl
  have hlength : later.toolFacts.length = min (appendedFacts id operations).length 101 := by
    rw [hrun, maxToolFactsPerRequest]
    split_ifs with hfew
    · rw [length_map]
      omega
    · rw [length_cons, newest_length, length_map]
      omega
  rw [toolFactMessage, ChatMessage.text, htake, hlength, recalledText, length_map]

/-- Of a hundred and three facts the last twenty-one are not shown. -/
theorem recalled_of_103 : ∃ facts,
    toolFactsOf (run epochCrates id checkpointed (repeatedFact 103)) "resp_a" = some facts ∧
      (toolFactMessage facts).content = recalledText
        ((appendedFacts "resp_a" (repeatedFact 103)).map (sanitizeLogString epochCrates id)) := by
  have hstored : (toolFactsOf (run epochCrates id checkpointed (repeatedFact 103))
      "resp_a").isSome = true := by decide +kernel
  obtain ⟨facts, hfacts⟩ := isSome_iff_exists.mp hstored
  exact ⟨facts, hfacts, recalled_of_run checkpointed_reachable (by decide +kernel)
    (by decide +kernel) hfacts⟩

end CodeSeeX.Store
