import CodeSeeX.Proxy.Continuation

/-!
# What a continuation loses and doubles

How often each client item and each retained item is copied into the merged input,
and from that when a continuation keeps, replays and answers everything once.
-/
namespace CodeSeeX.Native
open List Option

variable {item : Value} {id : Text} {i : ℕ} (index : ℕ) {out : Value} {round : NativeInjectedItems}

namespace NativeInjectedItems

variable (round : NativeInjectedItems)

/-- How many provider items of the round make the call. -/
def calls (id : Text) : ℕ :=
  round.items.countP fun item => ! isToolOutput item && decide (callId item = some id)

/-- How many of them wait for an output of the client. -/
def openCalls (id : Text) : ℕ := if (round.hostedIndex id).isSome then 0 else round.calls id

variable {round} {input : List Value}

theorem outputOrigin_eq_client {index i : ℕ} :
    round.outputOrigin index input item = some (.client i) ↔
      ∃ id, callId item = some id ∧ round.hostedIndex id = none ∧ clientIndex input id = some i := by
  rw [outputOrigin, bind_eq_some_iff]
  apply exists_congr
  intro id
  apply and_congr Iff.rfl
  cases round.hostedIndex id <;> simp

theorem outputOrigin_eq_record {index r k : ℕ} :
    round.outputOrigin index input item = some (.record r k) ↔
      index = r ∧ ∃ id, callId item = some id ∧ round.hostedIndex id = some k := by
  rw [outputOrigin, bind_eq_some_iff, ← exists_and_left]
  apply exists_congr
  intro id
  rw [and_left_comm]
  apply and_congr Iff.rfl
  cases round.hostedIndex id <;> simp

theorem clientIndex_eq_some :
    clientIndex input id = some i ↔ ∃ out, input[i]? = some out ∧ answers id out = true ∧
      ∀ earlier ∈ input.take i, answers id earlier = false := by
  rw [clientIndex, findIdx?_eq_some_iff_getElem]
  constructor
  · rintro ⟨hlt, hanswers, hbefore⟩
    refine ⟨input[i], List.getElem?_eq_getElem hlt, hanswers, fun earlier hmem => ?_⟩
    obtain ⟨j, hj, rfl⟩ := mem_take_iff_getElem.mp hmem
    simpa using hbefore j (by omega)
  · rintro ⟨out, hout, hanswers, hbefore⟩
    obtain ⟨hlt, rfl⟩ := List.getElem?_eq_some_iff.mp hout
    refine ⟨hlt, hanswers, fun j hj => ?_⟩
    have hno := hbefore input[j] (mem_take_iff_getElem.mpr ⟨j, by omega, rfl⟩)
    simp [hno]

theorem callId_of_answers (h : answers id item = true) :
    isToolOutput item = true ∧ callId item = some id := by
  simpa [answers] using h

/-- The outputs of a replayed turn that come from one origin. -/
theorem count_outputs (origin : Origin) :
    ((round.items.zipIdx.filter fun entry => ! isToolOutput entry.1).filterMap
        fun entry => round.outputOrigin index input entry.1).count origin =
      round.items.countP fun item =>
        ! isToolOutput item && decide (round.outputOrigin index input item = some origin) := by
  have hitems : round.items = round.items.zipIdx.map Prod.fst := (zipIdx_map_fst 0 _).symm
  rw [count_filterMap, countP_filter]
  conv_rhs => rw [hitems, countP_map]
  apply countP_congr
  intro entry _
  simp [and_comm]

theorem count_client_replayed (hout : input[i]? = some out) :
    (round.replayedOrigins index input).count (.client i) =
      match callId out with
      | some id => if clientIndex input id = some i then round.openCalls id else 0
      | none => 0 := by
  have hprovider : Origin.client i ∉ (round.items.zipIdx.filter fun entry =>
      ! isToolOutput entry.1).map fun entry => Origin.record index entry.2 := by
    intro hmem
    obtain ⟨_, _, heq⟩ := mem_map.mp hmem
    cases heq
  rw [replayedOrigins, count_append, count_eq_zero_of_not_mem hprovider, Nat.zero_add,
    count_outputs]
  have hcall : ∀ id, clientIndex input id = some i → callId out = some id := by
    intro id hindex
    obtain ⟨other, hother, hanswers, _⟩ := clientIndex_eq_some.mp hindex
    obtain rfl := some_inj.mp (hout.symm.trans hother)
    exact (callId_of_answers hanswers).2
  cases hid : callId out with
  | none =>
    rw [countP_eq_zero]
    intro item _ hitem
    simp only [Bool.and_eq_true, decide_eq_true_eq] at hitem
    obtain ⟨id, _, _, hindex⟩ := outputOrigin_eq_client.mp hitem.2
    rw [hcall id hindex] at hid
    cases hid
  | some id =>
    simp only []
    have hunique : ∀ other, clientIndex input other = some i → other = id := by
      intro other hindex
      exact some_inj.mp ((hcall other hindex).symm.trans hid)
    split
    · rename_i hindex
      rw [openCalls]
      cases hhosted : round.hostedIndex id with
      | some k =>
        rw [if_pos (by rfl), countP_eq_zero]
        intro item _ hitem
        simp only [Bool.and_eq_true, decide_eq_true_eq] at hitem
        obtain ⟨other, _, hnone, hother⟩ := outputOrigin_eq_client.mp hitem.2
        obtain rfl := hunique other hother
        rw [hhosted] at hnone
        cases hnone
      | none =>
        apply countP_congr
        intro item _
        simp only [Bool.and_eq_true, decide_eq_true_eq, outputOrigin_eq_client]
        apply and_congr Iff.rfl
        constructor
        · rintro ⟨other, hitem, _, hother⟩
          rw [hitem, hunique other hother]
        · intro hitem
          exact ⟨id, hitem, hhosted, hindex⟩
    · rename_i hindex
      rw [countP_eq_zero]
      intro item _ hitem
      simp only [Bool.and_eq_true, decide_eq_true_eq] at hitem
      obtain ⟨other, _, _, hother⟩ := outputOrigin_eq_client.mp hitem.2
      rw [hunique other hother] at hother
      exact hindex hother

/-- A provider item is replayed once; an output once for each call, if it is the last for it. -/
theorem count_record_replayed {k : ℕ} (hitem : round.items[k]? = some item) :
    (round.replayedOrigins index input).count (.record index k) =
      if isToolOutput item then
        match callId item with
        | some id => if round.hostedIndex id = some k then round.calls id else 0
        | none => 0
      else 1 := by
  have hhosted : ∀ id, round.hostedIndex id = some k →
      isToolOutput item = true ∧ callId item = some id := by
    intro id hindex
    obtain ⟨other, hother, hanswers, _⟩ := lastIdx?_eq_some.mp hindex
    obtain rfl := some_inj.mp (hitem.symm.trans hother)
    exact callId_of_answers hanswers
  rw [replayedOrigins, count_append, count_outputs]
  have hprovider : ((round.items.zipIdx.filter fun entry => ! isToolOutput entry.1).map
      fun entry => Origin.record index entry.2).count (.record index k) =
        if isToolOutput item then 0 else 1 := by
    have hinj : Function.Injective (Origin.record index) := fun _ _ heq => by
      cases heq
      rfl
    have hmap : ((round.items.zipIdx.filter fun entry => ! isToolOutput entry.1).map
        fun entry => Origin.record index entry.2) =
          ((round.items.zipIdx.filter fun entry => ! isToolOutput entry.1).map Prod.snd).map
            (Origin.record index) := by
      rw [List.map_map]
      rfl
    have hnodup : ((round.items.zipIdx.filter fun entry => ! isToolOutput entry.1).map
        Prod.snd).Nodup := by
      have hall : (round.items.zipIdx.map Prod.snd).Nodup := by
        rw [zipIdx_map_snd]
        exact nodup_range'
      exact hall.sublist (filter_sublist.map _)
    rw [hmap, count_map_of_injective _ _ hinj]
    split
    · rename_i houtput
      apply count_eq_zero_of_not_mem
      intro hmem
      obtain ⟨entry, hentry, rfl⟩ := mem_map.mp hmem
      obtain ⟨hstored, hkind⟩ := mem_filter.mp hentry
      have heq := mem_zipIdx_iff_getElem?.mp hstored
      obtain rfl := some_inj.mp (hitem.symm.trans heq)
      simp [houtput] at hkind
    · rename_i houtput
      apply count_eq_one_of_mem hnodup
      exact mem_map.mpr ⟨(item, k), mem_filter.mpr
        ⟨mem_zipIdx_iff_getElem?.mpr hitem, by simpa using houtput⟩, rfl⟩
  rw [hprovider]
  split
  · rename_i houtput
    rw [Nat.zero_add]
    cases hid : callId item with
    | none =>
      rw [countP_eq_zero]
      intro other _ hother
      simp only [Bool.and_eq_true, decide_eq_true_eq] at hother
      obtain ⟨_, id, _, hindex⟩ := outputOrigin_eq_record.mp hother.2
      rw [(hhosted id hindex).2] at hid
      cases hid
    | some id =>
      simp only []
      have hunique : ∀ other, round.hostedIndex other = some k → other = id := by
        intro other hindex
        exact some_inj.mp ((hhosted other hindex).2.symm.trans hid)
      split
      · rename_i hindex
        apply countP_congr
        intro other _
        simp only [Bool.and_eq_true, decide_eq_true_eq, outputOrigin_eq_record, true_and]
        apply and_congr Iff.rfl
        constructor
        · rintro ⟨otherId, hother, hotherIndex⟩
          rw [hother, hunique otherId hotherIndex]
        · exact fun hother => ⟨id, hother, hindex⟩
      · rename_i hindex
        rw [countP_eq_zero]
        intro other _ hother
        simp only [Bool.and_eq_true, decide_eq_true_eq] at hother
        obtain ⟨_, otherId, _, hotherIndex⟩ := outputOrigin_eq_record.mp hother.2
        rw [hunique otherId hotherIndex] at hotherIndex
        exact hindex hotherIndex
  · rename_i houtput
    rw [Nat.add_eq_left, countP_eq_zero]
    intro other _ hother
    simp only [Bool.and_eq_true, decide_eq_true_eq] at hother
    obtain ⟨_, id, _, hindex⟩ := outputOrigin_eq_record.mp hother.2
    exact houtput (hhosted id hindex).1

/-- A round replays no item of another. -/
theorem count_record_other {index r k : ℕ} (h : index ≠ r) :
    (round.replayedOrigins index input).count (.record r k) = 0 := by
  apply count_eq_zero_of_not_mem
  intro hmem
  rcases mem_append.mp hmem with hmem | hmem
  · obtain ⟨_, _, heq⟩ := mem_map.mp hmem
    cases heq
    exact h rfl
  · obtain ⟨entry, _, heq⟩ := mem_filterMap.mp hmem
    exact h (outputOrigin_eq_record.mp heq).1

end NativeInjectedItems

namespace PendingNativeToolGroup

variable {group : PendingNativeToolGroup} {input : List Value}

/-- How many provider items of the record wait for the client's output for a call. -/
def openCalls (group : PendingNativeToolGroup) (id : Text) : ℕ :=
  (group.injectedItems.map (·.openCalls id)).sum

/-- An item's origin is counted in the client's items and in the rounds. -/
theorem count_origins (group : PendingNativeToolGroup) (input : List Value) (origin : Origin) :
    (group.origins input).count origin =
      (((range input.length).filter (· ∉ group.dropped input)).map Origin.client).count origin +
        (group.injectedItems.zipIdx.map fun entry =>
          (entry.1.replayedOrigins entry.2 input).count origin).sum := by
  have hperm := @mergeOrigins_perm input (group.dropped input)
    group.injectedItems.zipIdx input.zipIdx
  rw [zipIdx_map_snd, ← range_eq_range'] at hperm
  rw [origins, hperm.count_eq, count_append, count_flatMap]
  rfl

theorem count_client (hout : input[i]? = some out) :
    (group.origins input).count (.client i) =
      (if i ∈ group.dropped input then 0 else 1) +
        match callId out with
        | some id =>
            if NativeInjectedItems.clientIndex input id = some i then group.openCalls id else 0
        | none => 0 := by
  have hlt : i < input.length := (List.getElem?_eq_some_iff.mp hout).1
  have hinj : Function.Injective Origin.client := fun _ _ heq => by
    cases heq
    rfl
  have hkept : ((range input.length).filter (· ∉ group.dropped input)).count i =
      if i ∈ group.dropped input then 0 else 1 := by
    split
    · rename_i hdropped
      apply count_eq_zero_of_not_mem
      simp [hdropped]
    · rename_i hdropped
      apply count_eq_one_of_mem (nodup_range.filter _)
      simp [hlt, hdropped]
  have hrounds : (group.injectedItems.zipIdx.map fun entry =>
      (entry.1.replayedOrigins entry.2 input).count (.client i)) =
        group.injectedItems.map fun round =>
          match callId out with
          | some id =>
              if NativeInjectedItems.clientIndex input id = some i then round.openCalls id else 0
          | none => 0 := by
    conv_rhs => rw [← zipIdx_map_fst 0 group.injectedItems, List.map_map]
    apply map_congr_left
    intro entry _
    exact NativeInjectedItems.count_client_replayed entry.2 hout
  rw [count_origins, count_map_of_injective _ _ hinj, hkept, hrounds]
  congr 1
  cases callId out with
  | none => simp
  | some id =>
    simp only []
    split
    · rfl
    · simp

/-- Of the rounds of a record only the one at its own index counts. -/
theorem sum_zipIdx {f : NativeInjectedItems × ℕ → ℕ} {rounds : List NativeInjectedItems} {r n : ℕ}
    {round : NativeInjectedItems} (h : rounds[r]? = some round)
    (hother : ∀ entry : NativeInjectedItems × ℕ, entry.2 ≠ n + r → f entry = 0) :
    ((rounds.zipIdx n).map f).sum = f (round, n + r) := by
  induction rounds generalizing r n with
  | nil => simp at h
  | cons first rounds ih =>
    rw [zipIdx_cons, map_cons, sum_cons]
    cases r with
    | zero =>
      obtain rfl : first = round := by simpa using h
      have hrest : ∀ entry ∈ rounds.zipIdx (n + 1), f entry = 0 := by
        intro entry hmem
        have hle := (mem_zipIdx_iff_le_and_getElem?_sub.mp hmem).1
        exact hother entry (by omega)
      have hzero : ((rounds.zipIdx (n + 1)).map f).sum = 0 := by
        apply sum_eq_zero
        intro count hmem
        obtain ⟨entry, hentry, rfl⟩ := mem_map.mp hmem
        exact hrest entry hentry
      rw [hzero, Nat.add_zero, Nat.add_zero]
    | succ r =>
      rw [hother (first, n) (by simp), Nat.zero_add]
      have hrest := @ih r (n + 1) (by simpa using h) fun entry hne => hother entry (by omega)
      rw [hrest]
      congr 2
      omega

theorem count_record {r k : ℕ} (hround : group.injectedItems[r]? = some round)
    (hitem : round.items[k]? = some item) :
    (group.origins input).count (.record r k) =
      if isToolOutput item then
        match callId item with
        | some id => if round.hostedIndex id = some k then round.calls id else 0
        | none => 0
      else 1 := by
  have hclient : Origin.record r k ∉
      ((range input.length).filter (· ∉ group.dropped input)).map Origin.client := by
    intro hmem
    obtain ⟨_, _, heq⟩ := mem_map.mp hmem
    cases heq
  have hsum := @sum_zipIdx (fun entry => (entry.1.replayedOrigins entry.2 input).count (.record r k))
    group.injectedItems r 0 round hround fun entry hne =>
      NativeInjectedItems.count_record_other (by omega)
  rw [count_origins, count_eq_zero_of_not_mem hclient, Nat.zero_add, hsum, Nat.zero_add]
  exact NativeInjectedItems.count_record_replayed r hitem

/-! ## Nothing lost, nothing doubled -/

/-- An output of some tool, whatever its kind. -/
def isOutput (item : Value) : Bool := (itemType item).any (·.endsWith "_output")

/-- The record replays reasoning. -/
def ReplaysReasoning (group : PendingNativeToolGroup) : Prop :=
  ∃ round ∈ group.injectedItems, ∃ item ∈ round.items, itemType item = some ("reasoning" : Text)

/-- A client item that is neither owned nor the client's copy of replayed reasoning. -/
def IsClientsOwn (group : PendingNativeToolGroup) (input : List Value) (index : ℕ) : Prop :=
  index < input.length ∧ ¬ group.OwnedAt input index ∧
    ¬ (group.ReplaysReasoning ∧ group.OpensTurn input index)

/-- The merged input is made of copies: the client's own items once and in order, every retained
item once, and every output of the client for an owned call once. -/
structure MergesFaithfully (group : PendingNativeToolGroup) (input : List Value) : Prop where
  copies : (group.continuation input).mergedInput.map some =
    (group.origins input).map (group.itemAt input)
  keeps : ∀ index, group.IsClientsOwn input index → (group.origins input).count (.client index) = 1
  ordered : ∀ first second, first < second → group.IsClientsOwn input first →
    group.IsClientsOwn input second →
    [Origin.client first, Origin.client second].Sublist (group.origins input)
  replays : ∀ r k round item, group.injectedItems[r]? = some round → round.items[k]? = some item →
    (group.origins input).count (.record r k) = 1
  reattaches : ∀ index out, input[index]? = some out → isOutput out = true →
    ownedHere out group.ownedIds = true → (group.origins input).count (.client index) = 1

/-- The condition on the record and on the client's items. -/
structure Mergeable (group : PendingNativeToolGroup) (input : List Value) : Prop where
  /-- Reasoning directly before the first owned item is only there if the record has reasoning. -/
  reasoning : ∀ index, group.OpensTurn input index → group.ReplaysReasoning
  /-- A retained output is the last one of its round for its call, which the round makes once. -/
  outputs : ∀ round ∈ group.injectedItems, ∀ k out, round.items[k]? = some out →
    isToolOutput out = true → ∃ id, callId out = some id ∧ round.calls id = 1 ∧
      ∀ later ∈ round.items.drop (k + 1), answers id later = false
  /-- An output of the client for an owned call is in the tail, of one of the two kinds that the
  code knows, the first for its call, and the call is open once; or it is before the tail and not
  also attached. -/
  answered : ∀ index out id, input[index]? = some out → isOutput out = true → callId out = some id →
    id ∈ group.ownedIds →
    (group.tailStart input ≤ index ∧ isToolOutput out = true ∧
        (∀ earlier ∈ input.take index, answers id earlier = false) ∧ group.openCalls id = 1) ∨
      (index < group.tailStart input ∧
        (isToolOutput out = true → (∀ earlier ∈ input.take index, answers id earlier = false) →
          group.openCalls id = 0))

theorem ownedHere_iff {owned : List Text} :
    ownedHere item owned = true ↔ ∃ id, callId item = some id ∧ id ∈ owned := by
  simp [ownedHere, Option.any_eq_true]

/-- A call that some item of a round makes is owned. -/
theorem mem_ownedIds (hround : round ∈ group.injectedItems) (hitem : item ∈ round.items)
    (hid : callId item = some id) : id ∈ group.ownedIds :=
  mem_flatMap.mpr ⟨round, hround, mem_filterMap.mpr ⟨item, hitem, hid⟩⟩

theorem openCalls_eq_zero (h : id ∉ group.ownedIds) : group.openCalls id = 0 := by
  apply sum_eq_zero
  intro count hmem
  obtain ⟨round, hround, rfl⟩ := mem_map.mp hmem
  rw [NativeInjectedItems.openCalls]
  split
  · rfl
  · rw [NativeInjectedItems.calls, countP_eq_zero]
    intro item hitem hcall
    simp only [Bool.and_eq_true, decide_eq_true_eq] at hcall
    exact h (mem_ownedIds hround hitem hcall.2)

/-- An item that is not owned is attached nowhere. -/
theorem count_notOwned (hlt : i < input.length) (h : ¬ group.OwnedAt input i) :
    (group.origins input).count (.client i) = if i ∈ group.dropped input then 0 else 1 := by
  have hout := getElem?_eq_getElem hlt
  have hfree : ∀ id, callId input[i] = some id → group.openCalls id = 0 := by
    intro id hid
    apply openCalls_eq_zero
    intro hmem
    exact h ⟨input[i], hout, ownedHere_iff.mpr ⟨id, hid, hmem⟩⟩
  rw [count_client hout]
  cases hid : callId input[i] with
  | none => rfl
  | some id =>
    simp only [hfree id hid, ite_self, Nat.add_zero]

theorem count_owned (hout : input[i]? = some out) (hid : callId out = some id)
    (howned : id ∈ group.ownedIds) :
    (group.origins input).count (.client i) =
      (if group.tailStart input ≤ i then 0 else 1) +
        if NativeInjectedItems.clientIndex input id = some i then group.openCalls id else 0 := by
  have hdropped : i ∈ group.dropped input ↔ group.tailStart input ≤ i := by
    rw [mem_dropped]
    constructor
    · rintro (h | h)
      · exact h.1
      · exact h.1
    · exact fun h => .inl ⟨h, out, hout, ownedHere_iff.mpr ⟨id, hid, howned⟩⟩
  rw [count_client hout, hid]
  simp only [hdropped]

/-- An item that belongs to the opening reasoning is not owned. -/
theorem OpensTurn.not_owned {index : ℕ} (h : group.OpensTurn input index) :
    index < input.length ∧ ¬ group.OwnedAt input index := by
  obtain ⟨hstart, first, ⟨_, ⟨item, hitem, _⟩, hbefore⟩, hlt, _⟩ := h
  have hfirst := (List.getElem?_eq_some_iff.mp hitem).1
  exact ⟨by omega, hbefore index hstart hlt⟩

/-! ### Order -/

/-- Client items that are kept in place and owned by no one. -/
def isKept (group : PendingNativeToolGroup) (input : List Value) : Origin → Bool
  | .client index => decide (index ∉ group.dropped input) &&
      ! (input[index]?.any fun item => ownedHere item group.ownedIds)
  | .record _ _ => false

theorem isKept_replayed (entry : NativeInjectedItems × ℕ) (hentry : entry ∈ group.injectedItems.zipIdx)
    (origin : Origin) (horigin : origin ∈ entry.1.replayedOrigins entry.2 input) :
    group.isKept input origin = false := by
  rcases mem_append.mp horigin with hmem | hmem
  · obtain ⟨_, _, rfl⟩ := mem_map.mp hmem
    rfl
  · obtain ⟨item, hitem, heq⟩ := mem_filterMap.mp hmem
    cases origin with
    | record r k => rfl
    | client index =>
      obtain ⟨id, hid, _, hindex⟩ := NativeInjectedItems.outputOrigin_eq_client.mp heq
      obtain ⟨out, hout, hanswers, _⟩ := NativeInjectedItems.clientIndex_eq_some.mp hindex
      have hstored : item.1 ∈ entry.1.items :=
        mem_of_getElem? (mem_zipIdx_iff_getElem?.mp (mem_of_mem_filter hitem))
      have hround : entry.1 ∈ group.injectedItems :=
        mem_of_getElem? (mem_zipIdx_iff_getElem?.mp hentry)
      have howned : ownedHere out group.ownedIds = true := ownedHere_iff.mpr
        ⟨id, (NativeInjectedItems.callId_of_answers hanswers).2, mem_ownedIds hround hstored hid⟩
      simp [isKept, hout, howned]

theorem pair_sublist_range {first second n : ℕ} (h : first < second) (hn : second < n) :
    [first, second].Sublist (range n) := by
  have hfirst : [first].Sublist ((range n).take second) := by
    rw [singleton_sublist, take_range, mem_range]
    omega
  have hsecond : [second].Sublist ((range n).drop second) := by
    rw [singleton_sublist, mem_iff_getElem?]
    exact ⟨0, by rw [getElem?_drop, getElem?_range (by omega), Nat.add_zero]⟩
  have hboth := hfirst.append hsecond
  rwa [take_append_drop] at hboth

/-- Items that are kept and not owned stand in the client's order. -/
theorem kept_ordered {first second : ℕ} (h : first < second) (hlt : second < input.length)
    (hfirst : group.isKept input (.client first) = true)
    (hsecond : group.isKept input (.client second) = true) :
    [Origin.client first, Origin.client second].Sublist (group.origins input) := by
  have hfilter := @mergeOrigins_filter input (group.isKept input) (group.dropped input)
    group.injectedItems.zipIdx input.zipIdx isKept_replayed
  rw [zipIdx_map_snd, ← range_eq_range'] at hfilter
  have hdropped : ∀ index, group.isKept input (.client index) = true →
      index ∉ group.dropped input := by
    intro index hkept
    simp only [isKept, Bool.and_eq_true, decide_eq_true_eq] at hkept
    exact hkept.1
  have hpair := (pair_sublist_range h hlt).filter (· ∉ group.dropped input)
  rw [filter_cons_of_pos (by simpa using hdropped first hfirst),
    filter_cons_of_pos (by simpa using hdropped second hsecond), filter_nil] at hpair
  have hkept := (hpair.map Origin.client).filter (group.isKept input)
  rw [map_cons, map_cons, map_nil, filter_cons_of_pos hfirst,
    filter_cons_of_pos hsecond, filter_nil] at hkept
  have horigins : [Origin.client first, Origin.client second].Sublist
      ((group.origins input).filter (group.isKept input)) := by
    rw [origins, hfilter]
    exact hkept
  exact horigins.trans filter_sublist

/-! ### Both directions -/

theorem replays_iff : (∀ r k round item, group.injectedItems[r]? = some round →
    round.items[k]? = some item → (group.origins input).count (.record r k) = 1) ↔
      ∀ round ∈ group.injectedItems, ∀ k out, round.items[k]? = some out →
        isToolOutput out = true → ∃ id, callId out = some id ∧ round.calls id = 1 ∧
          ∀ later ∈ round.items.drop (k + 1), answers id later = false := by
  constructor
  · intro h round hround k out hout houtput
    obtain ⟨r, hr⟩ := mem_iff_getElem?.mp hround
    have hcount := h r k round out hr hout
    rw [count_record hr hout, if_pos houtput] at hcount
    cases hid : callId out with
    | none => simp [hid] at hcount
    | some id =>
      rw [hid] at hcount
      simp only [] at hcount
      split at hcount
      · rename_i hindex
        obtain ⟨_, _, _, hlater⟩ := lastIdx?_eq_some.mp hindex
        exact ⟨id, rfl, hcount, hlater⟩
      · cases hcount
  · intro h r k round item hround hitem
    rw [count_record hround hitem]
    split
    · rename_i houtput
      obtain ⟨id, hid, hcalls, hlater⟩ :=
        h round (mem_of_getElem? hround) k item hitem houtput
      have hindex : round.hostedIndex id = some k :=
        lastIdx?_eq_some.mpr ⟨item, hitem, by simp [answers, houtput, hid], hlater⟩
      rw [hid]
      simp only [hindex, if_pos, hcalls]
    · rfl

theorem reattaches_iff {index : ℕ} (hout : input[index]? = some out) (hid : callId out = some id)
    (howned : id ∈ group.ownedIds) :
    (group.origins input).count (.client index) = 1 ↔
      (group.tailStart input ≤ index ∧ isToolOutput out = true ∧
        (∀ earlier ∈ input.take index, answers id earlier = false) ∧ group.openCalls id = 1) ∨
      (index < group.tailStart input ∧
        (isToolOutput out = true → (∀ earlier ∈ input.take index, answers id earlier = false) →
          group.openCalls id = 0)) := by
  have hindex : NativeInjectedItems.clientIndex input id = some index ↔ isToolOutput out = true ∧
      ∀ earlier ∈ input.take index, answers id earlier = false := by
    rw [NativeInjectedItems.clientIndex_eq_some]
    constructor
    · rintro ⟨other, hother, hanswers, hbefore⟩
      obtain rfl := some_inj.mp (hout.symm.trans hother)
      exact ⟨(NativeInjectedItems.callId_of_answers hanswers).1, hbefore⟩
    · rintro ⟨houtput, hbefore⟩
      exact ⟨out, hout, by simp [answers, houtput, hid], hbefore⟩
  rw [count_owned hout hid howned]
  by_cases hstart : group.tailStart input ≤ index
  · rw [if_pos hstart, Nat.zero_add]
    have hnot : ¬ index < group.tailStart input := by omega
    by_cases hfirst : NativeInjectedItems.clientIndex input id = some index
    · have hboth := hindex.mp hfirst
      rw [if_pos hfirst]
      constructor
      · exact fun hopen => .inl ⟨hstart, hboth.1, hboth.2, hopen⟩
      · rintro (h | h)
        · exact h.2.2.2
        · exact absurd h.1 hnot
    · rw [if_neg hfirst]
      constructor
      · intro hzero
        cases hzero
      · rintro (h | h)
        · exact absurd (hindex.mpr ⟨h.2.1, h.2.2.1⟩) hfirst
        · exact absurd h.1 hnot
  · rw [if_neg hstart, Nat.add_eq_left]
    have hlt : index < group.tailStart input := by omega
    by_cases hfirst : NativeInjectedItems.clientIndex input id = some index
    · have hboth := hindex.mp hfirst
      rw [if_pos hfirst]
      constructor
      · exact fun hopen => .inr ⟨hlt, fun _ _ => hopen⟩
      · rintro (h | h)
        · exact absurd h.1 hstart
        · exact h.2 hboth.1 hboth.2
    · rw [if_neg hfirst]
      constructor
      · exact fun _ => .inr ⟨hlt, fun houtput hbefore =>
          absurd (hindex.mpr ⟨houtput, hbefore⟩) hfirst⟩
      · exact fun _ => rfl

end PendingNativeToolGroup

/-! ## An output that is dropped -/

def toolItem (type call : Text) : Value :=
  .object [("call_id", .string call), ("type", .string type)]

/-- A turn with a hosted call and a `tool_search_call` of the client. -/
def searchRound : PendingNativeToolGroup where
  responseId := "resp_a"
  requestAnchor := some "cache:thread-a"
  clientCallIds := ["call_tools"]
  injectedItems := [{
    offset := 1
    items := [toolItem "tool_search_call" "call_tools", toolItem "function_call" "call_web",
      toolItem "function_call_output" "call_web"] }]
  createdAt := 0

/-- The client answers its call with a `tool_search_output`. -/
def searchAnswered : List Value :=
  [.object [("type", .string "message")], toolItem "tool_search_call" "call_tools",
    toolItem "tool_search_output" "call_tools"]

end CodeSeeX.Native
