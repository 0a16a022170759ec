import Mathlib.Tactic

/-!
# Following a cursor

A list is served in pages of at most `limit` entries. The cursor of a page is its
last entry, and the next page holds what `before` puts behind that cursor.
Following the cursor lists everything when `before` orders the neighbours of the
list, and with pages of one entry only then. With one limit only the entries at
the ends of the pages have to separate the list.
-/
namespace CodeSeeX.Paging
open List

variable {α : Type} {before : α → α → Prop} [DecidableRel before]

/-- What a cursor leaves to list: the entries `x` with `before x cursor`. -/
def remaining (before : α → α → Prop) [DecidableRel before] (items : List α) :
    Option α → List α
  | none => items
  | some cursor => items.filter fun x => before x cursor

/-- `Lists limit items cursor out`: the pages that follow `cursor` hold `out`. -/
inductive Lists (before : α → α → Prop) [DecidableRel before] (limit : ℕ) (items : List α) :
    Option α → List α → Prop
  | last {cursor : Option α} (h : (remaining before items cursor).length ≤ limit) :
      Lists before limit items cursor (remaining before items cursor)
  | more {cursor : Option α} {last : α} {rest : List α}
      (h : limit < (remaining before items cursor).length)
      (hlast : ((remaining before items cursor).take limit).getLast? = some last)
      (hrest : Lists before limit items (some last) rest) :
      Lists before limit items cursor ((remaining before items cursor).take limit ++ rest)

/-- `before` is a strict order on the entries of the list. -/
structure StrictOn (before : α → α → Prop) (items : List α) : Prop where
  irrefl : ∀ x ∈ items, ¬ before x x
  trans : ∀ x ∈ items, ∀ y ∈ items, ∀ z ∈ items, before x y → before y z → before x z

/-- In an ordered list the last entry listed leaves exactly the rest. -/
theorem remaining_of_pairwise {done todo : List α} (hstrict : StrictOn before (done ++ todo))
    (hitems : (done ++ todo).Pairwise fun x y => before y x) :
    remaining before (done ++ todo) done.getLast? = todo := by
  rcases eq_nil_or_concat done with rfl | ⟨front, last, rfl⟩
  · rfl
  · rw [concat_eq_append] at *
    rw [pairwise_append] at hitems
    obtain ⟨hdone, _, hcross⟩ := hitems
    rw [pairwise_append] at hdone
    have hfront : ∀ x ∈ front ++ [last], ¬ before x last := by
      intro x hx
      rcases mem_append.mp hx with hx | hx
      · intro h
        have hback := hdone.2.2 x hx last (by simp)
        exact hstrict.irrefl x (by simp [hx])
          (hstrict.trans x (by simp [hx]) last (by simp) x (by simp [hx]) h hback)
      · rw [mem_singleton.mp hx]
        exact hstrict.irrefl last (by simp)
    rw [getLast?_concat, remaining, filter_append,
      filter_eq_nil_iff.mpr (by simpa using hfront), nil_append]
    exact filter_eq_self.mpr fun x hx => decide_eq_true (hcross last (by simp) x hx)

variable {limit : ℕ} {items : List α}

omit [DecidableRel before] in
theorem pairwise_of_chain (hstrict : StrictOn before items)
    (h : items.IsChain fun x y => before y x) : items.Pairwise fun x y => before y x := by
  induction items with
  | nil => exact List.Pairwise.nil
  | cons x items ih =>
    rw [isChain_cons] at h
    have hrest := ih ⟨fun y hy => hstrict.irrefl y (mem_cons_of_mem _ hy),
      fun a ha b hb c hc => hstrict.trans a (mem_cons_of_mem _ ha) b
        (mem_cons_of_mem _ hb) c (mem_cons_of_mem _ hc)⟩ h.2
    refine List.Pairwise.cons (fun z hz => ?_) hrest
    cases items with
    | nil => simp at hz
    | cons y items =>
      have hyx := h.1 y (by simp)
      rcases mem_cons.mp hz with rfl | hz'
      · exact hyx
      · have hzy := (pairwise_cons.mp hrest).1 z hz'
        exact hstrict.trans z (by simp [hz']) y (by simp) x (by simp) hzy hyx

/-- Wherever a full page ends, its last entry leaves exactly the rest. -/
def Separates (before : α → α → Prop) [DecidableRel before] (limit : ℕ) (items : List α) : Prop :=
  ∀ done todo, done ++ todo = items → todo ≠ [] → limit ∣ done.length →
    remaining before items done.getLast? = todo

theorem lists_behind (hlimit : 0 < limit)
    (h : Separates before limit items) (done todo : List α) (happ : done ++ todo = items)
    (hdvd : limit ∣ done.length) (hremaining : remaining before items done.getLast? = todo) :
    Lists before limit items done.getLast? todo := by
  by_cases hfits : todo.length ≤ limit
  · have hlast := @Lists.last α before _ limit items done.getLast? (by rwa [hremaining])
    rwa [hremaining] at hlast
  · have hlength : (todo.take limit).length = limit := by
      rw [length_take]
      omega
    have hpage : todo.take limit ≠ [] := ne_nil_of_length_pos (by omega)
    have hdrop : todo.drop limit ≠ [] := ne_nil_of_length_pos (by rw [length_drop]; omega)
    have happ' : (done ++ todo.take limit) ++ todo.drop limit = items := by
      rw [append_assoc, take_append_drop, happ]
    have hdvd' : limit ∣ (done ++ todo.take limit).length := by
      rw [length_append, hlength]
      exact Nat.dvd_add_self_right.mpr hdvd
    have hrest := lists_behind hlimit h (done ++ todo.take limit) (todo.drop limit) happ' hdvd'
      (h _ _ happ' hdrop hdvd')
    rw [getLast?_append_of_ne_nil _ hpage, getLast?_eq_some_getLast hpage] at hrest
    have hmore := @Lists.more α before _ limit items done.getLast?
      ((todo.take limit).getLast hpage) (todo.drop limit) (by rw [hremaining]; omega)
      (by rw [hremaining, getLast?_eq_some_getLast hpage]) hrest
    rwa [hremaining, take_append_drop] at hmore
termination_by todo.length

/-- Following the cursor lists everything if the ends of the pages separate it. -/
theorem lists_of_separates (hlimit : 0 < limit) (h : Separates before limit items) :
    Lists before limit items none items :=
  lists_behind hlimit h [] items rfl (by simp) rfl

/-- Following the cursor lists an ordered list, whatever the limit. -/
theorem lists_of_pairwise (hlimit : 0 < limit)
    (hstrict : StrictOn before items) (hitems : items.Pairwise fun x y => before y x) :
    Lists before limit items none items := by
  refine lists_of_separates hlimit ?_
  rintro done todo rfl _ _
  exact remaining_of_pairwise hstrict hitems

theorem lists_of_chain (hstrict : StrictOn before items)
    (hlimit : 0 < limit) (hitems : items.IsChain fun x y => before y x) :
    Lists before limit items none items :=
  lists_of_pairwise hlimit hstrict (pairwise_of_chain hstrict hitems)

/-- Pages that list everything once separate it. -/
theorem separates_of_lists (hstrict : StrictOn before items)
    (hnodup : items.Nodup) {cursor : Option α} {todo : List α}
    (h : Lists before limit items cursor todo) :
    ∀ done, done ++ todo = items → done.getLast? = cursor → limit ∣ done.length →
      remaining before items cursor = todo ∧
      ∀ front back, front ++ back = items → back ≠ [] → limit ∣ front.length →
        done.length ≤ front.length → remaining before items front.getLast? = back := by
  induction h with
  | @last cursor hfits =>
    intro done happ hcursor hdvd
    refine ⟨rfl, fun front back hfront hback hdvd' hle => ?_⟩
    have hlengths := congrArg length (happ.trans hfront.symm)
    simp only [length_append] at hlengths
    have hpos := length_pos_iff.mpr hback
    have hless : front.length - done.length < limit := by omega
    have hsame := Nat.eq_zero_of_dvd_of_lt (Nat.dvd_sub hdvd' hdvd) hless
    obtain ⟨rfl, rfl⟩ := append_inj (happ.trans hfront.symm) (by omega)
    rw [hcursor]
  | @more cursor last rest hmore hlast hrest ih =>
    intro done happ hcursor hdvd
    obtain ⟨page, hpage⟩ : ∃ page, (remaining before items cursor).take limit = page := ⟨_, rfl⟩
    rw [hpage] at hlast happ
    have hlength : page.length = limit := by
      rw [← hpage, length_take]
      omega
    have hmem := mem_of_getLast? hlast
    obtain ⟨hbehind, hlater⟩ := ih (done ++ page) (by rw [append_assoc, happ])
      (by rw [getLast?_append_of_ne_nil _ (ne_nil_of_mem hmem), hlast])
      (by rw [length_append, hlength]; exact Nat.dvd_add_self_right.mpr hdvd)
    have hremaining : remaining before items cursor = page ++ rest := by
      cases cursor with
      | none =>
        rw [getLast?_eq_none_iff.mp hcursor, nil_append] at happ
        exact happ.symm
      | some c =>
        have hc := mem_of_getLast? hcursor
        have hpageBefore : ∀ x ∈ page, before x c := by
          intro x hx
          have hleft := mem_of_mem_take (hpage ▸ hx)
          simpa using (mem_filter.mp hleft).2
        have hrestBefore : ∀ x ∈ rest, before x c := by
          intro x hx
          have hxlast : before x last := by
            rw [← hbehind] at hx
            simpa using (mem_filter.mp hx).2
          refine hstrict.trans x ?_ last ?_ c ?_ hxlast (hpageBefore last hmem) <;>
            simp [← happ, hx, hmem, hc]
        have hdone : done.filter (fun x => before x c) = [] := by
          cases hfilter : done.filter (fun x => before x c) with
          | nil => rfl
          | cons x xs =>
            -- it would be listed again, as the first entry of the page
            have hdone := (mem_filter.mp (hfilter ▸ mem_cons_self)).1
            rw [remaining, ← happ, filter_append, hfilter, cons_append] at hpage
            have hx : x ∈ page := by
              obtain ⟨n, rfl⟩ := Nat.exists_eq_add_of_lt (hlength ▸ length_pos_of_mem hmem)
              rw [← hpage, take_succ_cons]
              exact mem_cons_self
            rw [← happ] at hnodup
            exact absurd (mem_append_left rest hx) (disjoint_of_nodup_append hnodup hdone)
        rw [remaining, ← happ, filter_append, filter_append, hdone, nil_append,
          filter_eq_self.mpr fun x hx => decide_eq_true (hpageBefore x hx),
          filter_eq_self.mpr fun x hx => decide_eq_true (hrestBefore x hx)]
    rw [hpage]
    refine ⟨hremaining, fun front back hfront hback hdvd' hle => ?_⟩
    rcases eq_or_lt_of_le hle with heq | hlt
    · obtain ⟨rfl, rfl⟩ := append_inj (happ.trans hfront.symm) heq
      rw [hcursor, hremaining]
    · refine hlater front back hfront hback hdvd' ?_
      rw [length_append, hlength]
      have hstep := Nat.le_of_dvd (Nat.sub_pos_of_lt hlt) (Nat.dvd_sub hdvd' hdvd)
      omega

/-- Pages of one limit list everything once exactly when their ends separate it. -/
theorem lists_iff_separates (hlimit : 0 < limit) (hstrict : StrictOn before items)
    (hnodup : items.Nodup) :
    Lists before limit items none items ↔ Separates before limit items := by
  refine ⟨fun h done todo happ htodo hdvd => ?_, lists_of_separates hlimit⟩
  obtain ⟨_, hpages⟩ := separates_of_lists hstrict hnodup h [] rfl rfl (by simp)
  exact hpages done todo happ htodo hdvd (Nat.zero_le _)

/-- Pages of one entry list neighbours in order. -/
theorem chain_of_lists_one {cursor : Option α} {out : List α}
    (h : Lists before 1 items cursor out) :
    out.IsChain (fun x y => before y x) ∧
      ∀ last, cursor = some last → ∀ x ∈ out.head?, before x last := by
  have hhead : ∀ {cursor : Option α} {x : α} {xs : List α},
      remaining before items cursor = x :: xs → ∀ last, cursor = some last → before x last := by
    intro cursor x xs hremaining last hlast
    subst hlast
    have hmem : x ∈ items.filter fun x => before x last := by
      rw [remaining] at hremaining
      rw [hremaining]
      exact mem_cons_self
    simpa using (mem_filter.mp hmem).2
  induction h with
  | @last cursor h =>
    match hremaining : remaining before items cursor with
    | [] => simp
    | [x] =>
      refine ⟨by simp, fun last hlast y hy => ?_⟩
      obtain rfl : x = y := by simpa using hy
      exact hhead hremaining last hlast
    | x :: y :: xs =>
      rw [hremaining] at h
      simp at h
  | @more cursor last rest h hlast hrest ih =>
    match hremaining : remaining before items cursor with
    | [] => simp [hremaining] at h
    | x :: xs =>
      obtain rfl : x = last := by simpa [hremaining] using hlast
      have hchain : ([x] ++ rest).IsChain fun x y => before y x := by
        rw [singleton_append, isChain_cons]
        exact ⟨fun y hy => ih.2 x rfl y hy, ih.1⟩
      refine ⟨by simpa using hchain, fun last hlast y hy => ?_⟩
      obtain rfl : x = y := by simpa using hy
      exact hhead hremaining last hlast

end CodeSeeX.Paging
