import CodeSeeX.Proxy.CallDispatch
import CodeSeeX.Proxy.CallHandover

/-!
# Consistency of streamed calls

In a turn the client gets for each of its calls an announcement, the arguments in parts and the
done events. They agree with each other and belong to one call each, unless the pieces of a call
go on after the announcement in a way that changes what was announced.
-/
namespace CodeSeeX.VisibleBridge
open Tools StreamToolCalls List Option Text Prod

variable {calls : List (ℕ × ChatToolCall)} {entry : ℕ × ChatToolCall} {pieces : List CallPieces}
  {index : ℕ} {kind : VisibleToolKind} {state : VisibleToolState}

open Native (stripStart stripStart_append stripStart_eq_some)

section
variable {texts : ItemTexts} {uuid callUuid : ℕ → Text} {responseId : Text}
  {toolContext : ToolContext} {communityTools : CommunityToolSet}

/-! ## The client's calls -/

/-- A call by this name is handed over to the client. -/
def isClientName (toolContext : ToolContext) (name : Text) : Bool :=
  isNativeApplyPatchTool name ||
    (!isWebSearchTool name && toolContext.hasExternalTool name)

theorem not_preview {name : Text} (h : isClientName toolContext name = true) :
    name ≠ lit "web_search_preview" := by
  intro hname
  have hnative : isNativeApplyPatchTool name = false := by
    rw [hname]
    decide
  rw [isClientName, hnative, ToolTurn.isWebSearchTool_iff.mpr (Or.inl hname), Bool.not_true,
    Bool.false_and] at h
  exact Bool.false_ne_true h

theorem clientOwner_iff (call : ChatToolCall) :
    isClientOwner (callOwner communityTools toolContext call) = true ↔
      isClientName toolContext call.name = true := by
  by_cases hpreview : call.name = lit "web_search_preview"
  · refine iff_of_false ?_ fun h => not_preview h hpreview
    have howner : callOwner communityTools toolContext call = .codeseexHosted .webSearch := by
      rw [callOwner, canonicalCall, canonicalToolName, if_pos hpreview]
      rfl
    rw [howner]
    decide
  · rw [callOwner, canonicalCall_eq_iff.mpr hpreview, resolveToolOwner, isClientName]
    by_cases hnative : isNativeApplyPatchTool call.name = true
    · simp [hnative, isClientOwner]
    · by_cases hsearch : isWebSearchTool call.name = true
      · simp [hnative, hsearch, isClientOwner]
      · by_cases hexternal : toolContext.hasExternalTool call.name = true
        · simp [hnative, hsearch, hexternal, isClientOwner]
        · simp only [hnative, hsearch, hexternal]
          split_ifs <;> simp_all [isClientOwner]

theorem nativeOwner_iff {call : ChatToolCall}
    (h : isClientOwner (callOwner communityTools toolContext call) = true) :
    callOwner communityTools toolContext call = .codexNativeApplyPatch ↔
      isNativeApplyPatchTool call.name = true := by
  rw [callOwner, canonicalCall_eq_iff.mpr (not_preview ((clientOwner_iff call).mp h)),
    resolveToolOwner]
  split_ifs with hnative <;> simp_all

theorem visibleKind_of_client {name : Text} (h : isClientName toolContext name = true) :
    ∃ kind, visibleKind toolContext name = some kind := by
  by_cases hnative : isNativeApplyPatchTool name = true
  · exact ⟨_, visibleKind_native.mpr hnative⟩
  · rw [isClientName, eq_false_of_ne_true hnative, Bool.false_or, Bool.and_eq_true] at h
    exact ⟨_, visibleKind_external (eq_false_of_ne_true hnative) h.2⟩

/-- The client's calls, each with its index, in the order in which they are handed over. -/
def clientCalls (callUuid : ℕ → Text) (communityTools : CommunityToolSet)
    (toolContext : ToolContext) (toolStates : ToolStates) : List (ℕ × ChatToolCall) :=
  let calls := indexedToolCalls callUuid toolStates
  indexedOwnedBy toolContext communityTools calls .codexNativeApplyPatch ++
    indexedOwnedBy toolContext communityTools calls .external

/-- The call that the collector makes of its pieces. -/
def collectedCall (callUuid : ℕ → Text) (index : ℕ) (pieces : List CallPieces) : ChatToolCall where
  id := if (idOf pieces).isBlank then ("call_" : Text) ++ callUuid index else idOf pieces
  name := nameOf pieces
  arguments := if (argumentsOf pieces).isBlank then "\x7b\x7d" else argumentsOf pieces

theorem mem_indexedOwnedBy {owner : ToolOwner} (howner : isClientOwner owner = true) :
    entry ∈ indexedOwnedBy toolContext communityTools calls owner ↔
      entry ∈ calls ∧ callOwner communityTools toolContext entry.2 = owner := by
  rw [indexedOwnedBy, List.mem_map]
  have hsame : ∀ call : ChatToolCall, callOwner communityTools toolContext call = owner →
      canonicalCall call = call := by
    intro call hcall
    rw [canonicalCall_eq_iff]
    exact not_preview ((clientOwner_iff call).mp (hcall ▸ howner))
  constructor
  · rintro ⟨⟨index, call⟩, hmem, rfl⟩
    obtain ⟨hmem, hcall⟩ := mem_filter.mp hmem
    have hcall := of_decide_eq_true hcall
    rw [hsame call hcall]
    exact ⟨hmem, hcall⟩
  · rintro ⟨hmem, hcall⟩
    refine ⟨entry, mem_filter.mpr ⟨hmem, decide_eq_true hcall⟩, ?_⟩
    rw [hsame entry.2 hcall]

theorem mem_clientCalls {seen : List (ℕ × CallPieces)} {last : ℕ} {toolStates : ToolStates}
    (h : CollectorTracks seen last toolStates) :
    entry ∈ clientCalls callUuid communityTools toolContext toolStates ↔
      (nameOf (ofCall entry.1 seen)).isBlank = false ∧
        isClientName toolContext (nameOf (ofCall entry.1 seen)) = true ∧
          entry.2 = collectedCall callUuid entry.1 (ofCall entry.1 seen) := by
  obtain ⟨index, call⟩ := entry
  have hindexed : (index, call) ∈ indexedToolCalls callUuid toolStates ↔
      (nameOf (ofCall index seen)).isBlank = false ∧
        call = collectedCall callUuid index (ofCall index seen) := by
    have hstate := h.states index
    simp only [indexedToolCalls, List.mem_map, mem_filter, Prod.exists, Prod.mk.injEq,
      ← BTreeMap.get_eq_some, Bool.not_eq_true']
    constructor
    · rintro ⟨other, state, ⟨hget, hname⟩, rfl, rfl⟩
      rw [hstate] at hget
      split_ifs at hget
      obtain rfl := Option.some.inj hget
      exact ⟨hname, rfl⟩
    · rintro ⟨hname, rfl⟩
      have hpieces : ofCall index seen ≠ [] := by
        intro hnil
        rw [hnil] at hname
        exact absurd hname (by decide)
      rw [if_neg hpieces] at hstate
      exact ⟨index, _, ⟨hstate, hname⟩, rfl, rfl⟩
  have howners : (callOwner communityTools toolContext call = .codexNativeApplyPatch ∨
      callOwner communityTools toolContext call = .external) ↔
      isClientName toolContext call.name = true := by
    rw [← @clientOwner_iff toolContext communityTools, isClientOwner, Bool.or_eq_true,
      decide_eq_true_iff, decide_eq_true_iff]
  rw [clientCalls, mem_append, mem_indexedOwnedBy rfl, mem_indexedOwnedBy rfl, ← and_or_left,
    howners, hindexed]
  constructor
  · rintro ⟨⟨hname, hcall⟩, hclient⟩
    rw [hcall] at hclient
    exact ⟨hname, hclient, hcall⟩
  · rintro ⟨hname, hclient, hcall⟩
    refine ⟨⟨hname, hcall⟩, ?_⟩
    have hcallName : call.name = nameOf (ofCall index seen) := congrArg ChatToolCall.name hcall
    rw [hcallName]
    exact hclient

theorem clientCalls_nodup (toolStates : ToolStates) :
    ((clientCalls callUuid communityTools toolContext toolStates).map Prod.fst).Nodup := by
  have hindexes : ((indexedToolCalls callUuid toolStates).map fst).Nodup := by
    rw [indexedToolCalls, List.map_map]
    exact (toolStates.states.keys_nodup).sublist (filter_sublist.map _)
  have hpart (owner : ToolOwner) :
      ((indexedOwnedBy toolContext communityTools
        (indexedToolCalls callUuid toolStates) owner).map fst).Sublist
        ((indexedToolCalls callUuid toolStates).map fst) := by
    rw [indexedOwnedBy, List.map_map]
    exact filter_sublist.map _
  rw [clientCalls, map_append]
  refine Nodup.append (hindexes.sublist (hpart _)) (hindexes.sublist (hpart _)) ?_
  intro index hnative hexternal
  obtain ⟨⟨_, native⟩, hmem, rfl⟩ := mem_map.mp hnative
  obtain ⟨⟨_, other⟩, hother, rfl⟩ := mem_map.mp hexternal
  obtain ⟨hmem, hnative⟩ := (mem_indexedOwnedBy rfl).mp hmem
  obtain ⟨hother, hexternal⟩ := (mem_indexedOwnedBy rfl).mp hother
  have hsame := inj_on_of_nodup_map hindexes hmem hother rfl
  rw [← hsame, hnative] at hexternal
  exact absurd hexternal (by decide)

/-! ## The handovers of a turn -/

def CallTurn.handOver (texts : ItemTexts) (uuid : ℕ → Text) (responseId : Text)
    (toolContext : ToolContext) (turn : CallTurn) (call : ℕ × ChatToolCall) : CallTurn :=
  turn.takeFinished call.1
    (VisibleBridge.handOver texts uuid responseId toolContext turn.bridge call.2
      turn.counters)

theorem handOverAll_eq (turn : CallTurn) :
    turn.handOverAll texts uuid responseId toolContext callUuid communityTools =
      (clientCalls callUuid communityTools toolContext turn.toolStates).foldl
        (CallTurn.handOver texts uuid responseId toolContext) turn := by
  have hcalls (owner : ToolOwner) (howner : isClientOwner owner = true) :
      ∀ call ∈ indexedOwnedBy toolContext communityTools
        (indexedToolCalls callUuid turn.toolStates) owner,
        owner = .codexNativeApplyPatch ↔ isNativeApplyPatchTool call.2.name = true := by
    intro call hcall
    obtain ⟨-, rfl⟩ := (mem_indexedOwnedBy howner).mp hcall
    exact nativeOwner_iff howner
  rw [CallTurn.handOverAll, clientCalls, foldl_append]
  rw [foldl_ext (CallTurn.handOverNative texts uuid responseId)
    (CallTurn.handOver texts uuid responseId toolContext) turn]
  · refine foldl_ext _ _ _ fun turn call hcall => ?_
    have hnative := (hcalls .external rfl call hcall).not.mp nofun
    rw [CallTurn.handOverExternal, CallTurn.handOver, VisibleBridge.handOver, if_neg hnative]
  · intro turn call hcall
    have hnative := (hcalls .codexNativeApplyPatch rfl call hcall).mp rfl
    rw [CallTurn.handOverNative, CallTurn.handOver, VisibleBridge.handOver, if_pos hnative]

/-- What the events of a call say behind its handover. -/
structure HandedOver (toolContext : ToolContext) (texts : ItemTexts)
    (kind : VisibleToolKind) (call : ℕ × ChatToolCall) (turn later : CallTurn) (found : Bool)
    (emitted : Text) : Prop where
  events : ∃ reading, readEvents (ofCall call.1 later.events) =
      readEvents (ofCall call.1 turn.events) ++ reading ∧
    reading.added = (if found then [] else [shownName toolContext kind call.2.name]) ∧
    HandoverReading toolContext kind call.2 emitted reading

/-- Every call of some client's calls finds its own state or none. -/
def FindsOwn (toolContext : ToolContext) (bridge : StreamingVisibleToolBridge)
    (calls : List (ℕ × ChatToolCall)) : Prop :=
  ∀ call ∈ calls, ∀ kind, visibleKind toolContext call.2.name = some kind →
    ∀ found, bridge.findStateMut call.2 kind = some found → found.1 = call.1

section
variable {turn : CallTurn} {call : ℕ × ChatToolCall} {kind : VisibleToolKind}

theorem ofCall_handOver (index : ℕ) :
    ofCall index (turn.handOver texts uuid responseId toolContext call).events =
      ofCall index turn.events ++
        if call.1 = index then
          (handOver texts uuid responseId toolContext turn.bridge call.2
            turn.counters).events
        else [] := by
  rw [CallTurn.handOver, CallTurn.takeFinished, ofCall_append]
  split_ifs with hindex
  · rw [hindex, ofCall_self]
  · rw [ofCall_other hindex]

/-- A handover leaves the states of the other calls alone. -/
theorem handOver_keeps (hkind : visibleKind toolContext call.2.name = some kind)
    (hown : ∀ found, turn.bridge.findStateMut call.2 kind = some found → found.1 = call.1) :
    let later := turn.handOver texts uuid responseId toolContext call
    SameCalls turn.bridge later.bridge ∧
      ∀ other, other ≠ call.1 → later.bridge.states.get other = turn.bridge.states.get other := by
  cases hfind : turn.bridge.findStateMut call.2 kind with
  | none =>
    have hspec := @handOver_whole texts uuid responseId _ _ _ turn.counters _ hkind hfind
    rw [CallTurn.handOver, CallTurn.takeFinished, hspec.same]
    exact ⟨fun _ => rfl, fun _ _ => rfl⟩
  | some found =>
    obtain ⟨index, state⟩ := found
    obtain rfl : index = call.1 := hown _ hfind
    have hspec := @handOver_found texts uuid responseId _ _ _ _ _ turn.counters _ hkind hfind
    exact ⟨hspec.same, hspec.others⟩

theorem FindsOwn.of_same {bridge later : StreamingVisibleToolBridge}
    (h : FindsOwn toolContext bridge calls) (hsame : SameCalls bridge later) :
    FindsOwn toolContext later calls := by
  intro call hcall kind hkind found hfound
  have hfind := @SameCalls.find _ _ call.2 kind hsame
  rw [hfound, map_some] at hfind
  obtain ⟨first, hfirst, heq⟩ := map_eq_some_iff.mp hfind.symm
  rw [← heq]
  exact h call hcall kind hkind first hfirst

/-- The handovers one after the other: each call gets the events of its own handover. -/
theorem handOvers_read {calls : List (ℕ × ChatToolCall)} (hnodup : (calls.map Prod.fst).Nodup)
    (hkinds : ∀ call ∈ calls, ∃ kind, visibleKind toolContext call.2.name = some kind)
    (hown : FindsOwn toolContext turn.bridge calls) :
    let later := calls.foldl (CallTurn.handOver texts uuid responseId toolContext) turn
    (∀ index, index ∉ calls.map fst → ofCall index later.events = ofCall index turn.events) ∧
      ∀ call ∈ calls, ∀ kind, visibleKind toolContext call.2.name = some kind →
        (turn.bridge.findStateMut call.2 kind = none →
          HandedOver toolContext texts kind call turn later false []) ∧
        ∀ state, turn.bridge.findStateMut call.2 kind = some (call.1, state) →
          HandedOver toolContext texts kind call turn later true state.emittedInput := by
  induction calls generalizing turn with
  | nil => exact ⟨fun _ _ => rfl, fun _ hcall => absurd hcall not_mem_nil⟩
  | cons first calls ih =>
    obtain ⟨hfirst, hnodup⟩ := nodup_cons.mp hnodup
    obtain ⟨kind, hkind⟩ := hkinds first mem_cons_self
    obtain ⟨hsame, hothers⟩ := @handOver_keeps texts uuid responseId _ _ _ _ hkind
      (hown first mem_cons_self kind hkind)
    have hrest : FindsOwn toolContext turn.bridge calls :=
      fun call hcall => hown call (mem_cons_of_mem _ hcall)
    obtain ⟨hkeeps, hreads⟩ := ih hnodup
      (fun call hcall => hkinds call (mem_cons_of_mem _ hcall)) (hrest.of_same hsame)
    rw [foldl_cons]
    refine ⟨fun index hindex => ?_, fun call hcall => ?_⟩
    · rw [map_cons, mem_cons, not_or] at hindex
      rw [hkeeps index hindex.2, ofCall_handOver, if_neg (Ne.symm hindex.1), append_nil]
    · rcases mem_cons.mp hcall with rfl | hcall
      · intro other hother
        obtain rfl : kind = other := some.inj (hkind.symm.trans hother)
        have hevents := hkeeps call.1 hfirst
        rw [ofCall_handOver, if_pos rfl] at hevents
        refine ⟨fun hnone => ⟨?_⟩, fun state hfound => ⟨?_⟩⟩
        · have hspec := @handOver_whole texts uuid responseId _ _ _ turn.counters _ hkind hnone
          rw [hevents, readEvents_append]
          exact ⟨_, rfl, hspec.added, hspec.reading⟩
        · have hspec := @handOver_found texts uuid responseId _ _ _ _ _ turn.counters _ hkind hfound
          rw [hevents, readEvents_append]
          exact ⟨_, rfl, hspec.added, hspec.reading⟩
      · intro other hother
        have hne : call.1 ≠ first.1 := by
          intro heq
          exact hfirst (heq ▸ mem_map_of_mem hcall)
        have hevents := @ofCall_handOver texts uuid responseId toolContext turn first call.1
        rw [if_neg hne.symm, append_nil] at hevents
        obtain ⟨hnone, hsome⟩ := hreads call hcall other hother
        have hfind := @SameCalls.find _ _ call.2 other hsame
        refine ⟨fun hmissing => ?_, fun state hfound => ?_⟩
        · rw [hmissing, map_none, map_eq_none_iff] at hfind
          obtain ⟨reading, hreading⟩ := (hnone hfind).events
          rw [hevents] at hreading
          exact ⟨reading, hreading⟩
        · rw [hfound, map_some] at hfind
          obtain ⟨⟨index, later⟩, hlater, rfl⟩ := map_eq_some_iff.mp hfind
          have hstate := (findStateMut_eq_some.mp hlater).1
          rw [hothers _ hne, (findStateMut_eq_some.mp hfound).1] at hstate
          obtain rfl := some.inj hstate
          obtain ⟨reading, hreading⟩ := (hsome _ hlater).events
          rw [hevents] at hreading
          exact ⟨reading, hreading⟩

end

/-! ## What is expected of a turn -/

/-- The events of a call agree: one announcement, one name, and the arguments that were sent. -/
structure ConsistentReading (reading : CallReading) : Prop where
  once : reading.added.length ≤ 1
  names : ∀ added ∈ reading.added, ∀ done ∈ reading.done, added = done
  arguments : ∀ arguments ∈ reading.arguments, reading.sent = arguments

/-- The states of the announced calls are found again. -/
def FindsAnnounced (callUuid : ℕ → Text) (communityTools : CommunityToolSet)
    (toolContext : ToolContext) (turn : CallTurn) : Prop :=
  ∀ call ∈ clientCalls callUuid communityTools toolContext turn.toolStates,
    ∀ kind, visibleKind toolContext call.2.name = some kind →
      ∀ state, turn.bridge.states.get call.1 = some state → state.started.isSome = true →
        turn.bridge.findStateMut call.2 kind = some (call.1, state)

/-- Each call has one view and consistent events, and one that was announced is found again. -/
structure StreamsConsistently (texts : ItemTexts) (uuid callUuid : ℕ → Text) (responseId : Text)
    (toolContext : ToolContext) (communityTools : CommunityToolSet)
    (turn : CallTurn) : Prop where
  views : ∀ index,
    (turn.bridge.states.get index).map (fun state => (state.id, state.name, state.arguments)) =
      (turn.toolStates.states.get index).map fun state => (state.id, state.name, state.arguments)
  events : ∀ index, ConsistentReading (readEvents (ofCall index
    (turn.handOverAll texts uuid responseId toolContext callUuid communityTools).events))
  found : FindsAnnounced callUuid communityTools toolContext turn

/-- The tool that a name stands for, as the client sees it. -/
def shownTool (toolContext : ToolContext) (name : Text) :
    Option (VisibleToolKind × Option Text) :=
  (visibleKind toolContext name).map fun kind => (kind, shownName toolContext kind name)

/-- The pieces of a call keep to what was announced of it: the id does not get lost, the name goes
on to no other tool, the arguments of a function are not mere blanks, and no earlier call was
announced that ends with the same id, name and kind. -/
structure KeepsAnnouncement (toolContext : ToolContext) (seen : List (ℕ × CallPieces))
    (index : ℕ) (front : List CallPieces) : Prop where
  id : (idOf (ofCall index seen)).isBlank = false
  tool : shownTool toolContext (nameOf front) =
    shownTool toolContext (nameOf (ofCall index seen))
  arguments : visibleKind toolContext (nameOf front) = some .externalFunction →
    (argumentsOf (ofCall index seen)).isBlank = true → argumentsOf (ofCall index seen) = []
  first : ∀ earlier < index, ∀ other,
    announcedAt toolContext (ofCall earlier seen) = some other →
      idOf (ofCall earlier seen) = idOf (ofCall index seen) →
        nameOf (ofCall earlier seen) = nameOf (ofCall index seen) →
          visibleKind toolContext (nameOf other) ≠
            visibleKind toolContext (nameOf front)

/-- Every call that is the client's in the end keeps to its announcement. -/
def KeepAnnouncements (toolContext : ToolContext) (arrivals : List Arrival) : Prop :=
  ∀ index, isClientName toolContext (nameOf (ofCall index (turnPieces arrivals))) = true →
    ∀ front, announcedAt toolContext (ofCall index (turnPieces arrivals)) = some front →
      KeepsAnnouncement toolContext (turnPieces arrivals) index front

/-- The done events state the arguments that were sent unless these are blanks. -/
theorem complete_iff (arguments : Text) :
    (let final : Text := if arguments.isBlank then "\x7b\x7d" else arguments
     arguments ++ (stripStart arguments final).getD [] = final) ↔
      (arguments.isBlank = true → arguments = []) := by
  dsimp only
  by_cases hblank : arguments.isBlank = true
  · rw [if_pos hblank]
    constructor
    · intro h _
      cases arguments with
      | nil => rfl
      | cons first rest =>
        have hspace := isBlank_iff.mp hblank first mem_cons_self
        have hfirst : first = Char.ofNat 123 := (cons.inj h).1
        rw [hfirst] at hspace
        exact absurd hspace (by decide)
    · intro h
      rw [h hblank]
      rfl
  · rw [if_neg hblank]
    have hself := stripStart_append arguments []
    rw [append_nil] at hself
    rw [hself]
    exact iff_of_true (append_nil _) fun h => absurd h hblank

/-- A fresh id of a call is none that the provider sends. -/
def FreshCallIds (callUuid : ℕ → Text) (arrivals : List Arrival) : Prop :=
  ∀ index, ∀ entry ∈ turnPieces arrivals, entry.2.id ≠ some (("call_" : Text) ++ callUuid index)

theorem idOf_mem (h : idOf pieces ≠ []) :
    ∃ piece ∈ pieces, piece.id = some (idOf pieces) := by
  rw [idOf] at h
  cases hlast : (pieces.filterMap CallPieces.id).getLast? with
  | none =>
    rw [hlast] at h
    exact absurd rfl h
  | some id =>
    obtain ⟨piece, hmem, hid⟩ := mem_filterMap.mp (mem_of_getLast? hlast)
    refine ⟨piece, hmem, ?_⟩
    rw [hid, idOf, hlast]
    rfl

theorem mem_ofCall {α : Type*} {tagged : List (ℕ × α)} {entry : α} :
    entry ∈ ofCall index tagged ↔ (index, entry) ∈ tagged := by
  simp [ofCall]

theorem fresh_ne {arrivals : List Arrival} (hfresh : FreshCallIds callUuid arrivals)
    (index other : ℕ) :
    idOf (ofCall other (turnPieces arrivals)) ≠ ("call_" : Text) ++ callUuid index := by
  intro heq
  have hne : idOf (ofCall other (turnPieces arrivals)) ≠ [] := by
    rw [heq]
    nofun
  obtain ⟨piece, hmem, hid⟩ := idOf_mem hne
  rw [heq] at hid
  exact hfresh index _ (mem_ofCall.mp hmem) hid

theorem fresh_not_blank (fresh : Text) : (("call_" : Text) ++ fresh).isBlank = false :=
  isBlank_cons (by decide)

/-! ## Announced calls -/

theorem announcedAt_prefix {pieces front : List CallPieces}
    (h : announcedAt toolContext pieces = some front) :
    front <+: pieces ∧ namesVisible toolContext front = true := by
  exact ⟨(mem_inits _ _).mp (mem_of_find?_eq_some h), find?_some h⟩

theorem namesVisible_iff :
    namesVisible toolContext pieces = true ↔ (idOf pieces).isBlank = false ∧
      (nameOf pieces).isBlank = false ∧
        ∃ kind, visibleKind toolContext (nameOf pieces) = some kind := by
  simp only [namesVisible, Bool.and_eq_true, Bool.not_eq_true', isSome_iff_exists, and_assoc]

/-- A name that goes on is not blank if its beginning is not. -/
theorem nameOf_not_blank {pieces front : List CallPieces} (h : front <+: pieces)
    (hname : (nameOf front).isBlank = false) : (nameOf pieces).isBlank = false := by
  obtain ⟨back, rfl⟩ := h
  rw [← Bool.not_eq_true, isBlank_iff] at hname ⊢
  intro hall
  refine hname fun c hc => hall c ?_
  rw [nameOf, map_append, flatten_append]
  exact mem_append_left _ hc

/-- A call that names a tool of the client and was not announced has no id. -/
theorem blank_of_waiting (hname : (nameOf pieces).isBlank = false)
    (hkind : visibleKind toolContext (nameOf pieces) = some kind)
    (h : announcedAt toolContext pieces = none) : (idOf pieces).isBlank = true := by
  rw [announcedAt, find?_eq_none] at h
  have hnot := h pieces ((mem_inits _ _).mpr (prefix_refl pieces))
  rw [namesVisible_iff] at hnot
  by_contra hid
  exact hnot ⟨eq_false_of_ne_true hid, hname, kind, hkind⟩

section
variable {seen : List (ℕ × CallPieces)} {last : ℕ} {bridge : StreamingVisibleToolBridge}
  {events : List (ℕ × Value)} {index : ℕ} {state : VisibleToolState} {kind : VisibleToolKind}
  {started : StartedTool} {front : List CallPieces}

section
variable (h : BridgeTracks toolContext seen last bridge events)
include h

theorem BridgeTracks.stateAt (hstate : bridge.states.get index = some state) :
    CallTracks toolContext (ofCall index seen) state (ofCall index events) := by
  have hcall := h.calls index
  rw [hstate, getD_some] at hcall
  exact hcall

theorem BridgeTracks.exists_state
    (hpieces : ofCall index seen ≠ []) : ∃ state, bridge.states.get index = some state :=
  isSome_iff_exists.mp ((h.known index).mpr hpieces)

/-- Whether a state is the announced one of a collected call, from the pieces of both. -/
theorem isStateOf_collected (hstate : bridge.states.get index = some state) (call : ChatToolCall) :
    StreamingVisibleToolBridge.isStateOf call kind state = true ↔
      idOf (ofCall index seen) = call.id ∧ nameOf (ofCall index seen) = call.name ∧
        ∃ front, announcedAt toolContext (ofCall index seen) = some front ∧
          visibleKind toolContext (nameOf front) = some kind := by
  have htracks := h.stateAt hstate
  rw [isStateOf_iff, htracks.id, htracks.name]
  refine and_congr_right fun _ => and_congr_right fun _ => ?_
  cases htracks.progress with
  | waiting hstarted hnone hsent hevents =>
    rw [hstarted, hnone]
    exact iff_of_false (by simp) (by simp)
  | announced started front reading hstarted hfront hkind hsent hevents =>
    rw [hstarted, hfront]
    constructor
    · rintro ⟨other, hother, rfl⟩
      obtain rfl := some.inj hother
      exact ⟨front, rfl, hkind⟩
    · rintro ⟨other, hother, hotherKind⟩
      obtain rfl := some.inj hother
      exact ⟨started, rfl, some.inj (hkind.symm.trans hotherKind)⟩

end

/-- The final id is that of the collected call if it is not blank. -/
theorem collectedCall_id {pieces : List CallPieces} :
    idOf pieces = (collectedCall callUuid index pieces).id ↔ (idOf pieces).isBlank = false := by
  rw [collectedCall]
  dsimp only
  split_ifs with hblank
  · refine iff_of_false (fun heq => ?_) (by simp [hblank])
    have hfresh := fresh_not_blank (callUuid index)
    rw [← heq, hblank] at hfresh
    exact Bool.false_ne_true hfresh.symm
  · exact iff_of_true rfl (eq_false_of_ne_true hblank)

/-- An announced call is found again if its pieces keep to the announcement. -/
theorem found_iff (h : BridgeTracks toolContext seen last bridge events)
    (hstate : bridge.states.get index = some state)
    (hfront : announcedAt toolContext (ofCall index seen) = some front)
    (hkind : visibleKind toolContext (nameOf (ofCall index seen)) = some kind) :
    bridge.findStateMut (collectedCall callUuid index (ofCall index seen)) kind =
        some (index, state) ↔
      (idOf (ofCall index seen)).isBlank = false ∧
        visibleKind toolContext (nameOf front) =
          visibleKind toolContext (nameOf (ofCall index seen)) ∧
          ∀ earlier < index, ∀ other,
            announcedAt toolContext (ofCall earlier seen) = some other →
              idOf (ofCall earlier seen) = idOf (ofCall index seen) →
                nameOf (ofCall earlier seen) = nameOf (ofCall index seen) →
                  visibleKind toolContext (nameOf other) ≠
                    visibleKind toolContext (nameOf front) := by
  rw [findStateMut_eq_some, isStateOf_collected h hstate, collectedCall_id, hfront, hkind]
  simp only [hstate, true_and, some.injEq, exists_eq_left']
  have hname : nameOf (ofCall index seen) =
      (collectedCall callUuid index (ofCall index seen)).name := rfl
  rw [and_iff_right hname, and_assoc]
  refine and_congr_right fun hid => and_congr_right fun hsame => ?_
  have hcallId := (@collectedCall_id callUuid index _).mpr hid
  refine forall_congr' fun earlier => forall_congr' fun _ => ?_
  constructor
  · intro hearlier other hother hotherId hotherName hotherKind
    have hpieces : ofCall earlier seen ≠ [] := by
      intro hnil
      rw [hnil] at hother
      cases hother
    obtain ⟨first, hfirst⟩ := h.exists_state hpieces
    have hnot := hearlier first hfirst
    rw [← Bool.not_eq_true, isStateOf_collected h hfirst] at hnot
    exact hnot ⟨hotherId.trans hcallId, hotherName, other, hother, hotherKind.trans hsame⟩
  · intro hearlier first hfirst
    rw [← Bool.not_eq_true, isStateOf_collected h hfirst]
    rintro ⟨hotherId, hotherName, other, hother, hotherKind⟩
    exact hearlier other hother (hotherId.trans hcallId.symm) hotherName
      (hotherKind.trans hsame.symm)

end

/-! ## The events of a call -/

/-- What was sent before a handover announces nothing and states nothing. -/
theorem Sent.reading {arguments : Text} {reading : CallReading}
    (h : Sent kind arguments state reading) :
    reading.added = [] ∧ reading.done = [] ∧ reading.arguments = [] ∧
      (kind = .externalFunction → reading.sent = arguments ∧ state.emittedInput = arguments) := by
  obtain ⟨-, hkind⟩ := h
  cases kind with
  | nativeApplyPatch =>
    obtain rfl : reading = {} := hkind
    exact ⟨rfl, rfl, rfl, nofun⟩
  | externalFunction =>
    rw [hkind.2]
    exact ⟨rfl, rfl, rfl, fun _ => ⟨rfl, hkind.1⟩⟩
  | codexToolSearch =>
    obtain rfl : reading = {} := hkind
    exact ⟨rfl, rfl, rfl, nofun⟩

section
variable {kind : VisibleToolKind} {call : ChatToolCall} {reading : CallReading}

/-- A call that is announced at its handover is consistent. -/
theorem consistent_whole
    (hadded : reading.added = [shownName toolContext kind call.name])
    (h : HandoverReading toolContext kind call [] reading) :
    ConsistentReading reading := by
  refine ⟨by rw [hadded, length_singleton], ?_, ?_⟩
  · intro added hmem done hdone
    rw [hadded, mem_singleton] at hmem
    rw [hmem, h.names done hdone]
  · intro arguments hmem
    rw [h.arguments] at hmem
    split_ifs at hmem with hkind
    · rw [h.sent, if_pos hkind, stripStart_nil, mem_singleton.mp hmem]
      rfl
    · exact absurd hmem not_mem_nil

/-- A call that was announced before is consistent if the names are the same and what is sent at
its handover completes its arguments. -/
theorem consistent_finished {name arguments : Text} {before : CallReading}
    (hbefore : Sent kind arguments state before) (hadded : reading.added = [])
    (h : HandoverReading toolContext kind call state.emittedInput reading) :
    ConsistentReading ({ added := [shownName toolContext kind name] } ++ before ++ reading) ↔
      shownName toolContext kind name = shownName toolContext kind call.name ∧
        (kind = .externalFunction →
          arguments ++ (stripStart arguments call.arguments).getD [] = call.arguments) := by
  obtain ⟨hnone, hdone, hstated, hsent⟩ := hbefore.reading
  have hall : ({ added := [shownName toolContext kind name] } : CallReading) ++ before ++
      reading = { before ++ reading with
        added := [shownName toolContext kind name], done := reading.done,
        arguments := reading.arguments, sent := before.sent ++ reading.sent } := by
    simp [CallReading.append_eq, CallReading.append, hnone, hdone, hstated, hadded]
  rw [hall]
  constructor
  · rintro ⟨-, hnames, harguments⟩
    constructor
    · obtain ⟨done, hmem⟩ := exists_mem_of_ne_nil _ h.done
      rw [hnames _ mem_cons_self done hmem, h.names done hmem]
    · intro hkind
      obtain ⟨hsentBefore, hemitted⟩ := hsent hkind
      have hstated := harguments call.arguments (by rw [h.arguments, if_pos hkind]; simp)
      rw [hsentBefore, h.sent, if_pos hkind, hemitted] at hstated
      exact hstated
  · rintro ⟨hname, hcomplete⟩
    refine ⟨by simp, ?_, ?_⟩
    · intro added hmem done hdone
      rw [mem_singleton.mp hmem, h.names done hdone, hname]
    · intro stated hmem
      rw [h.arguments] at hmem
      split_ifs at hmem with hkind
      · obtain ⟨hsentBefore, hemitted⟩ := hsent hkind
        rw [hsentBefore, h.sent, if_pos hkind, hemitted, hcomplete hkind,
          mem_singleton.mp hmem]
      · exact absurd hmem not_mem_nil

end

/-- As long as a call is not handed over its events are consistent. -/
theorem consistent_before {events : List Value}
    (h : CallTracks toolContext pieces state events) :
    ConsistentReading (readEvents events) := by
  cases h.progress with
  | waiting hstarted hnone hsent hevents =>
    rw [hevents]
    exact ⟨Nat.zero_le _, nofun, nofun⟩
  | announced started front reading hstarted hfront hkind hsent hevents =>
    obtain ⟨hadded, hdone, harguments, -⟩ := hsent.reading
    rw [hevents, CallReading.append_eq, CallReading.append, hadded, hdone, harguments]
    exact ⟨le_refl _, fun _ _ _ hmem => absurd hmem not_mem_nil,
      fun _ hmem => absurd hmem not_mem_nil⟩

/-! ## Turns -/

section
variable {arrivals : List Arrival} {last : ℕ} {bridge : StreamingVisibleToolBridge}
  {events : List (ℕ × Value)} {index : ℕ} {kind : VisibleToolKind}

/-- A call without an id finds no state. -/
theorem waiting_notFound (hfresh : FreshCallIds callUuid arrivals)
    (h : BridgeTracks toolContext (turnPieces arrivals) last bridge events)
    (hblank : (idOf (ofCall index (turnPieces arrivals))).isBlank = true) :
    bridge.findStateMut (collectedCall callUuid index (ofCall index (turnPieces arrivals))) kind =
      none := by
  rw [findStateMut_eq_none]
  intro other state hstate
  rw [← Bool.not_eq_true, isStateOf_collected h hstate, collectedCall]
  rw [if_pos hblank]
  rintro ⟨hid, -⟩
  exact fresh_ne hfresh index other hid

end

theorem shownTool_eq_iff {name other : Text} (h : visibleKind toolContext name = some kind)
    :
    shownTool toolContext name = shownTool toolContext other ↔
      visibleKind toolContext name = visibleKind toolContext other ∧
        shownName toolContext kind name = shownName toolContext kind other := by
  rw [shownTool, shownTool, h]
  cases hother : visibleKind toolContext other with
  | none => simp
  | some otherKind =>
    simp only [map_some, some.injEq, Prod.mk.injEq]
    exact and_congr_right fun heq => by rw [heq]

section
variable {arrivals : List Arrival} {turn : CallTurn} {last : ℕ}

/-- The parts of an announced call of the client. -/
structure AnnouncedCall (toolContext : ToolContext) (arrivals : List Arrival)
    (turn : CallTurn) (index : ℕ) (state : VisibleToolState) (kind : VisibleToolKind)
    (front : List CallPieces) (before : CallReading) : Prop where
  stateAt : turn.bridge.states.get index = some state
  isStarted : state.started.isSome = true
  frontKind : visibleKind toolContext (nameOf front) = some kind
  sent : Sent kind (argumentsOf (ofCall index (turnPieces arrivals))) state before
  events : readEvents (ofCall index turn.events) =
    { added := [shownName toolContext kind (nameOf front)] } ++ before

section
variable (h : BridgeTracks toolContext (turnPieces arrivals) last turn.bridge turn.events)
  {index : ℕ}
include h

theorem announcedCall {front : List CallPieces}
    (hfront : announcedAt toolContext (ofCall index (turnPieces arrivals)) = some front) :
    ∃ state kind before, AnnouncedCall toolContext arrivals turn index state kind front
      before := by
  have hpieces : ofCall index (turnPieces arrivals) ≠ [] := by
    intro hnil
    rw [hnil] at hfront
    cases hfront
  obtain ⟨state, hstate⟩ := h.exists_state hpieces
  have htracks := h.stateAt hstate
  cases htracks.progress with
  | waiting hstarted hnone hsent hevents =>
    rw [hfront] at hnone
    cases hnone
  | announced started first reading hstarted hfirst hkind hsent hevents =>
    obtain rfl : front = first := some.inj (hfront.symm.trans hfirst)
    rw [htracks.arguments] at hsent
    exact ⟨state, started.kind, reading, hstate, by rw [hstarted]; rfl, hkind, hsent, hevents⟩

theorem announcedAt_of_started (hstate : turn.bridge.states.get index = some state)
    (hstarted : state.started.isSome = true) :
    ∃ front, announcedAt toolContext (ofCall index (turnPieces arrivals)) = some front := by
  cases (h.stateAt hstate).progress with
  | waiting hnone hat hsent hevents =>
    rw [hnone] at hstarted
    cases hstarted
  | announced started front reading hsome hfront hkind hsent hevents => exact ⟨front, hfront⟩

theorem events_of_waiting
    (hnone : announcedAt toolContext (ofCall index (turnPieces arrivals)) = none) :
    readEvents (ofCall index turn.events) = {} := by
  cases (h.calls index).progress with
  | waiting hstarted hat hsent hevents => exact hevents
  | announced started front reading hsome hfront hkind hsent hevents =>
    rw [hnone] at hfront
    cases hfront

end

/-- A call of the client that was not announced finds no state. -/
theorem find_of_waiting (hfresh : FreshCallIds callUuid arrivals)
    (h : BridgeTracks toolContext (turnPieces arrivals) last turn.bridge turn.events)
    (hname : (nameOf (ofCall index (turnPieces arrivals))).isBlank = false)
    (hkind : visibleKind toolContext (nameOf (ofCall index (turnPieces arrivals))) = some kind)
    (hnone : announcedAt toolContext (ofCall index (turnPieces arrivals)) = none) :
    turn.bridge.findStateMut
      (collectedCall callUuid index (ofCall index (turnPieces arrivals))) kind = none :=
  waiting_notFound hfresh h (blank_of_waiting hname hkind hnone)

/-- If the announced states are found again, every call finds its own state or none. -/
theorem findsOwn (hfresh : FreshCallIds callUuid arrivals)
    (hcollector : CollectorTracks (turnPieces arrivals) last turn.toolStates)
    (h : BridgeTracks toolContext (turnPieces arrivals) last turn.bridge turn.events)
    (hfound : FindsAnnounced callUuid communityTools toolContext turn) :
    FindsOwn toolContext turn.bridge
      (clientCalls callUuid communityTools toolContext turn.toolStates) := by
  rintro ⟨index, call⟩ hmem kind hkind found hfind
  obtain ⟨hname, -, hcall⟩ := (mem_clientCalls hcollector).mp hmem
  dsimp only at hname hcall hkind hfind ⊢
  subst hcall
  cases hat : announcedAt toolContext (ofCall index (turnPieces arrivals)) with
  | none =>
    rw [find_of_waiting hfresh h hname hkind hat] at hfind
    cases hfind
  | some front =>
    obtain ⟨state, _, _, hannounced⟩ := announcedCall h hat
    rw [hfound _ hmem kind hkind state hannounced.stateAt hannounced.isStarted] at hfind
    rw [← some.inj hfind]

theorem visibleKind_of_mem (hcollector : CollectorTracks (turnPieces arrivals) last turn.toolStates) :
    ∀ call ∈ clientCalls callUuid communityTools toolContext turn.toolStates,
      ∃ kind, visibleKind toolContext call.2.name = some kind := by
  intro call hcall
  obtain ⟨-, hclient, hcollected⟩ := (mem_clientCalls hcollector).mp hcall
  rw [hcollected]
  exact visibleKind_of_client hclient

/-- The two sides have the same view of every call. -/
theorem views_eq (hcollector : CollectorTracks (turnPieces arrivals) last turn.toolStates)
    (h : BridgeTracks toolContext (turnPieces arrivals) last turn.bridge turn.events)
    (index : ℕ) :
    (turn.bridge.states.get index).map (fun state => (state.id, state.name, state.arguments)) =
      (turn.toolStates.states.get index).map fun state => (state.id, state.name, state.arguments) := by
  rw [hcollector.states]
  split_ifs with hpieces
  · have hnone : turn.bridge.states.get index = none := by
      rw [← not_isSome_iff_eq_none, h.known]
      exact not_not_intro hpieces
    rw [hnone]
    rfl
  · obtain ⟨state, hstate⟩ := h.exists_state hpieces
    have htracks := h.stateAt hstate
    rw [hstate, map_some, map_some, htracks.id, htracks.name, htracks.arguments]

/-- The events of a call of the client are consistent if what was announced of it is what is handed
over. -/
theorem consistent_iff (hfresh : FreshCallIds callUuid arrivals)
    (hcollector : CollectorTracks (turnPieces arrivals) last turn.toolStates)
    (h : BridgeTracks toolContext (turnPieces arrivals) last turn.bridge turn.events)
    (hfound : FindsAnnounced callUuid communityTools toolContext turn)
    (hmem : (index, collectedCall callUuid index (ofCall index (turnPieces arrivals))) ∈
      clientCalls callUuid communityTools toolContext turn.toolStates) :
    ConsistentReading (readEvents (ofCall index (turn.handOverAll texts uuid responseId
        toolContext callUuid communityTools).events)) ↔
      ∀ front, announcedAt toolContext (ofCall index (turnPieces arrivals)) = some front →
        shownTool toolContext (nameOf front) =
            shownTool toolContext (nameOf (ofCall index (turnPieces arrivals))) ∧
          (visibleKind toolContext (nameOf front) = some .externalFunction →
            (argumentsOf (ofCall index (turnPieces arrivals))).isBlank = true →
              argumentsOf (ofCall index (turnPieces arrivals)) = []) := by
  obtain ⟨hname, hclient, -⟩ := (mem_clientCalls hcollector).mp hmem
  obtain ⟨kind, hkind⟩ := visibleKind_of_client hclient
  rw [handOverAll_eq]
  obtain ⟨hnone, hsome⟩ := (@handOvers_read texts uuid responseId _ _ _ (clientCalls_nodup _)
    (visibleKind_of_mem hcollector) (findsOwn hfresh hcollector h hfound)).2 _ hmem kind hkind
  cases hat : announcedAt toolContext (ofCall index (turnPieces arrivals)) with
  | none =>
    obtain ⟨reading, hreading, hadded, hspec⟩ :=
      (hnone (find_of_waiting hfresh h hname hkind hat)).events
    refine iff_of_true ?_ nofun
    rw [hreading, events_of_waiting h hat, CallReading.nil_append]
    exact consistent_whole hadded hspec
  | some front =>
    obtain ⟨state, other, before, hannounced⟩ := announcedCall h hat
    have hfind := hfound _ hmem kind hkind state hannounced.stateAt hannounced.isStarted
    obtain ⟨-, his, -⟩ := findStateMut_eq_some.mp hfind
    obtain ⟨-, -, first, hfirst, hfirstKind⟩ :=
      (isStateOf_collected h hannounced.stateAt _).mp his
    obtain rfl : front = first := some.inj (hat.symm.trans hfirst)
    obtain rfl : kind = other := some.inj (hfirstKind.symm.trans hannounced.frontKind)
    obtain ⟨reading, hreading, hadded, hspec⟩ := (hsome state hfind).events
    rw [hreading, hannounced.events, consistent_finished hannounced.sent hadded hspec]
    simp only [some.injEq, forall_eq', shownTool_eq_iff hfirstKind, hfirstKind, hkind,
      true_and]
    refine and_congr_right fun _ => forall_congr' fun _ => ?_
    exact complete_iff _

end

/-- The events of a turn are consistent exactly if every call of the client keeps to what was
announced of it. -/
theorem streamsConsistently_iff {arrivals : List Arrival} (hfresh : FreshCallIds callUuid arrivals)
    (texts : ItemTexts) (uuid : ℕ → Text) (responseId : Text) (toolContext : ToolContext)
    (communityTools : CommunityToolSet) (counters : Counters) :
    StreamsConsistently texts uuid callUuid responseId toolContext communityTools
        (CallTurn.run texts uuid responseId toolContext counters arrivals) ↔
      KeepAnnouncements toolContext arrivals := by
  obtain ⟨hcollector, hbridge⟩ := @run_tracks texts uuid responseId toolContext counters
    arrivals
  generalize CallTurn.run texts uuid responseId toolContext counters arrivals = turn
    at hcollector hbridge ⊢
  constructor
  · rintro ⟨-, hevents, hfound⟩ index hclient front hfront
    obtain ⟨hbegins, hvisible⟩ := announcedAt_prefix hfront
    have hname := nameOf_not_blank hbegins (namesVisible_iff.mp hvisible).2.1
    have hmem : (index, collectedCall callUuid index (ofCall index (turnPieces arrivals))) ∈
        clientCalls callUuid communityTools toolContext turn.toolStates :=
      (mem_clientCalls hcollector).mpr ⟨hname, hclient, rfl⟩
    obtain ⟨kind, hkind⟩ := visibleKind_of_client hclient
    obtain ⟨state, _, _, hannounced⟩ := announcedCall hbridge hfront
    obtain ⟨hid, -, hfirst⟩ := (found_iff hbridge hannounced.stateAt hfront hkind).mp
      (hfound _ hmem kind hkind state hannounced.stateAt hannounced.isStarted)
    obtain ⟨htool, harguments⟩ := (consistent_iff hfresh hcollector hbridge hfound hmem).mp
      (hevents index) front hfront
    exact ⟨hid, htool, harguments, hfirst⟩
  · intro hkeep
    have hfound : FindsAnnounced callUuid communityTools toolContext turn := by
      rintro ⟨index, call⟩ hmem kind hkind state hstate hstarted
      obtain ⟨-, hclient, hcall⟩ := (mem_clientCalls hcollector).mp hmem
      dsimp only at hclient hcall hkind hstate ⊢
      subst hcall
      obtain ⟨front, hfront⟩ := announcedAt_of_started hbridge hstate hstarted
      have hkeeps := hkeep index hclient front hfront
      obtain ⟨_, _, _, hannounced⟩ := announcedCall hbridge hfront
      rw [found_iff hbridge hstate hfront hkind]
      exact ⟨hkeeps.id, ((shownTool_eq_iff hannounced.frontKind).mp hkeeps.tool).1, hkeeps.first⟩
    refine ⟨views_eq hcollector hbridge, fun index => ?_, hfound⟩
    by_cases hmem : index ∈
        (clientCalls callUuid communityTools toolContext turn.toolStates).map fst
    · obtain ⟨⟨_, call⟩, hcall, rfl⟩ := mem_map.mp hmem
      obtain ⟨-, hclient, hcollected⟩ := (mem_clientCalls hcollector).mp hcall
      dsimp only at hclient hcollected ⊢
      subst hcollected
      rw [consistent_iff hfresh hcollector hbridge hfound hcall]
      intro front hfront
      have hkeeps := hkeep _ hclient front hfront
      exact ⟨hkeeps.tool, hkeeps.arguments⟩
    · have hown := findsOwn hfresh hcollector hbridge hfound
      rw [handOverAll_eq, (handOvers_read (clientCalls_nodup _) (visibleKind_of_mem hcollector)
        hown).1 index hmem]
      exact consistent_before (hbridge.calls index)

end

/-! ## An id that gets lost -/

def getTools : ToolContext := { entries := BTreeMap.empty.insert "get" ⟨"get", none, .function⟩ }

def plainTexts : ItemTexts := ⟨fun _ => none, id, fun _ => .null, fun _ => none⟩

/-- A delta with one piece of the call at index 0. -/
def pieceOfGet (id name arguments : Text) : Arrival :=
  .delta (.object [("tool_calls", .array [.object [
    ("function", .object [("arguments", .string arguments), ("name", .string name)]),
    ("id", .string id), ("index", natValue 0)]])])

/-- A call in two pieces; the second has an id again. -/
def getInTwoPieces (id : Text) : List Arrival :=
  [pieceOfGet "call_1" "get" "\x7b", pieceOfGet id [] "\x7d"]

theorem getInTwoPieces_pieces (id : Text) : turnPieces (getInTwoPieces id) =
    [(0, ⟨some "call_1", some "get", some "\x7b"⟩), (0, ⟨some id, some [], some "\x7d"⟩)] := rfl

theorem getInTwoPieces_keeps : KeepAnnouncements getTools (getInTwoPieces "call_1") := by
  intro index hclient front hfront
  rw [getInTwoPieces_pieces] at hfront ⊢
  by_cases hindex : index = 0
  · subst hindex
    obtain rfl : [⟨some "call_1", some "get", some "\x7b"⟩] = front :=
      some.inj (Eq.trans (by rfl) hfront)
    refine ⟨by decide, by decide, fun _ hblank => absurd hblank (by decide), ?_⟩
    intro earlier hlt
    exact absurd hlt (Nat.not_lt_zero _)
  · have hnone : ofCall index [(0, (⟨some "call_1", some "get", some "\x7b"⟩ : CallPieces)),
        (0, ⟨some "call_1", some [], some "\x7d"⟩)] = [] := by
      simp [ofCall, Ne.symm hindex]
    rw [hnone] at hfront
    cases hfront

theorem getInTwoPieces_consistent : StreamsConsistently plainTexts ofNat (fun _ => "0")
    "resp_1" getTools CommunityToolSet.empty
    (CallTurn.run plainTexts ofNat "resp_1" getTools {} (getInTwoPieces "call_1")) := by
  refine (streamsConsistently_iff ?_ _ _ _ _ _ _).mpr getInTwoPieces_keeps
  intro index entry hentry
  rw [getInTwoPieces_pieces] at hentry
  have hid : entry.2.id = some (lit "call_1") := by
    simp only [mem_cons, not_mem_nil, or_false] at hentry
    rcases hentry with rfl | rfl <;> rfl
  rw [hid]
  show some (lit "call_1") ≠ some (("call_" : Text) ++ "0")
  decide

/-- With an empty id in the second piece the call is announced twice. -/
theorem lostId_announcedTwice : ¬StreamsConsistently plainTexts ofNat (fun _ => "0")
    "resp_1" getTools CommunityToolSet.empty
    (CallTurn.run plainTexts ofNat "resp_1" getTools {} (getInTwoPieces [])) := by
  intro h
  have honce := (h.events 0).once
  revert honce
  decide +kernel

end CodeSeeX.VisibleBridge
