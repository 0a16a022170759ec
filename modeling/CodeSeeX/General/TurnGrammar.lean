import Mathlib.Tactic

/-!
# The call-and-answer grammar of a conversation

A conversation is a list of turns: plain ones, turns that issue calls, and turns
that answer one call. `Legal answers loose` derives the conversations in which
every issuing turn is followed at once by a block of answers that `answers`
accepts for its calls, and every answer outside such a block is a `loose` one.
The identifiers of calls are arbitrary.
-/
namespace CodeSeeX.TurnGrammar
open List

variable {ι : Type*}

inductive Turn (ι : Type*) where
  | plain
  | calls (ids : List ι)
  | answer (id : ι)

/-- One answer for each call, in call order, the calls being distinct. -/
def InCallOrder (ids given : List ι) : Prop := given = ids ∧ ids.Nodup

inductive Legal (answers : List ι → List ι → Prop) (loose : ι → Prop) :
    List (Turn ι) → Prop where
  | nil : Legal answers loose []
  | plain {ts} : Legal answers loose ts → Legal answers loose (.plain :: ts)
  | loose {ts id} : loose id → Legal answers loose ts → Legal answers loose (.answer id :: ts)
  | group {ts ids given} : answers ids given → Legal answers loose ts →
      Legal answers loose (.calls ids :: (given.map .answer ++ ts))

namespace Legal

variable {answers answers' : List ι → List ι → Prop} {loose loose' : ι → Prop}
  {ts us : List (Turn ι)}

theorem mono (ha : ∀ ids given, answers ids given → answers' ids given)
    (hl : ∀ id, loose id → loose' id) (h : Legal answers loose ts) :
    Legal answers' loose' ts := by
  induction h with
  | nil => exact .nil
  | plain _ ih => exact .plain ih
  | loose hid _ ih => exact .loose (hl _ hid) ih
  | group hg _ ih => exact .group (ha _ _ hg) ih

theorem append (h : Legal answers loose ts) (k : Legal answers loose us) :
    Legal answers loose (ts ++ us) := by
  induction h with
  | nil => exact k
  | plain _ ih => exact .plain ih
  | loose hid _ ih => exact .loose hid ih
  | group hg _ ih => simpa using Legal.group hg ih

theorem plain_iff : Legal answers loose (.plain :: ts) ↔ Legal answers loose ts := by
  constructor
  · intro h
    cases h with
    | plain h => exact h
  · exact .plain

theorem answer_iff {id : ι} :
    Legal answers loose (.answer id :: ts) ↔ loose id ∧ Legal answers loose ts := by
  constructor
  · intro h
    cases h with
    | loose hid h => exact ⟨hid, h⟩
  · rintro ⟨hid, h⟩
    exact .loose hid h

/-- What a legal conversation does behind an issuing turn, wherever that turn stands. -/
theorem after_calls {ids : List ι} (h : Legal answers loose (ts ++ .calls ids :: us)) :
    ∃ given rest, us = given.map .answer ++ rest ∧ answers ids given ∧
      Legal answers loose rest := by
  generalize hall : ts ++ .calls ids :: us = all at h
  induction h generalizing ts with
  | nil => simp at hall
  | plain h ih =>
    cases ts with
    | nil => simp at hall
    | cons t ts => exact ih (cons_eq_cons.mp hall).2
  | loose _ h ih =>
    cases ts with
    | nil => simp at hall
    | cons t ts => exact ih (cons_eq_cons.mp hall).2
  | @group vs ids' given hg h ih =>
    cases ts with
    | nil =>
      obtain ⟨rfl, rfl⟩ := hall
      exact ⟨given, vs, rfl, hg, h⟩
    | cons t ts =>
      have htail : ts ++ .calls ids :: us = given.map .answer ++ vs := (cons_eq_cons.mp hall).2
      -- the issuing turn cannot stand inside the block of answers
      obtain ⟨as, hts, hvs⟩ | ⟨as, hts, hvs⟩ := append_eq_append_iff.mp htail
      · cases as with
        | nil =>
          exact @ih [] hvs
        | cons a as =>
          have hmem : Turn.calls ids ∈ given.map Turn.answer := by
            rw [hts, cons_eq_cons.mp hvs |>.1]
            simp
          simp at hmem
      · exact ih hvs.symm

/-- What holds of the loose answers and of the answers of every block holds of all. -/
theorem of_answer_mem {P : ι → Prop} (hg : ∀ ids given, answers ids given → ∀ id ∈ given, P id)
    (hl : ∀ id, loose id → P id) (h : Legal answers loose ts) {id : ι}
    (hid : Turn.answer id ∈ ts) : P id := by
  induction h with
  | nil => simp at hid
  | plain _ ih => exact ih (by simpa using hid)
  | loose hloose _ ih =>
    rcases mem_cons.mp hid with heq | hmem
    · exact Turn.answer.inj heq ▸ hl _ hloose
    · exact ih hmem
  | group hans _ ih =>
    simp only [mem_cons, reduceCtorEq, false_or, mem_append, mem_map,
      Turn.answer.injEq, exists_eq_right] at hid
    rcases hid with hmem | hmem
    · exact hg _ _ hans id hmem
    · exact ih hmem

end Legal

section Filter

variable {α : Type*} {view : α → Turn ι} {keep : α → Bool}

/-- A filter that drops plain turns only leaves a block of answers as it is. -/
theorem kept_of_view {a : α} {turn : Turn ι} (hkeep : keep a = false → view a = .plain)
    (hview : view a = turn) (hturn : turn ≠ .plain) : keep a = true := by
  by_contra hno
  exact hturn (hview.symm.trans (hkeep (by simpa using hno)))

theorem filter_answers {given : List ι} {as : List α} {ts : List (Turn ι)}
    (hkeep : ∀ a ∈ as, keep a = false → view a = .plain)
    (has : as.map view = given.map .answer ++ ts) :
    ∃ bs : List α, (∀ b ∈ bs, b ∈ as) ∧ bs.map view = ts ∧
      (as.filter keep).map view = given.map .answer ++ (bs.filter keep).map view := by
  induction given generalizing as with
  | nil => exact ⟨as, fun _ hb => hb, by simpa using has, by simp⟩
  | cons id given ih =>
    cases as with
    | nil => simp at has
    | cons a as =>
      simp only [map_cons, cons_append, cons.injEq] at has
      obtain ⟨bs, hsub, hbs, hfilter⟩ := ih (fun b hb => hkeep b (by simp [hb])) has.2
      have ha := kept_of_view (hkeep a (by simp)) has.1 nofun
      exact ⟨bs, fun b hb => by simp [hsub b hb], hbs, by simp [ha, has.1, hfilter]⟩

/-- Dropping plain turns keeps a conversation legal. -/
theorem Legal.filter {answers : List ι → List ι → Prop} {loose : ι → Prop} {as : List α}
    (hkeep : ∀ a ∈ as, keep a = false → view a = .plain)
    (h : Legal answers loose (as.map view)) :
    Legal answers loose ((as.filter keep).map view) := by
  generalize hts : as.map view = ts at h
  induction h generalizing as with
  | nil => simp_all [Legal.nil]
  | plain h ih =>
    cases as with
    | nil => simp at hts
    | cons a as =>
      simp only [map_cons, cons.injEq] at hts
      have hrest := ih (fun b hb => hkeep b (by simp [hb])) hts.2
      by_cases ha : keep a = true
      · simpa [ha, hts.1] using Legal.plain hrest
      · simpa [ha] using hrest
  | loose hid h ih =>
    cases as with
    | nil => simp at hts
    | cons a as =>
      simp only [map_cons, cons.injEq] at hts
      have ha := kept_of_view (hkeep a (by simp)) hts.1 nofun
      simpa [ha, hts.1] using Legal.loose hid (ih (fun b hb => hkeep b (by simp [hb])) hts.2)
  | group hg h ih =>
    cases as with
    | nil => simp at hts
    | cons a as =>
      simp only [map_cons, cons.injEq] at hts
      have ha := kept_of_view (hkeep a (by simp)) hts.1 nofun
      obtain ⟨bs, hsub, hbs, hfilter⟩ :=
        filter_answers (fun b hb => hkeep b (by simp [hb])) hts.2
      have hrest := ih (fun b hb => hkeep b (by simp [hsub b hb])) hbs
      simpa [ha, hts.1, hfilter] using Legal.group hg hrest

end Filter

end CodeSeeX.TurnGrammar
