import Mathlib.Data.List.Basic
import Mathlib.Data.List.Flatten
import Mathlib.Tactic.Cases

/-!
# Two channels that are closed on the way

Pieces of two channels and cuts between them. The side channel is closed by the first piece of the
main channel behind it, and both are closed by a cut behind them; what arrives for a closed channel
is dropped. Nothing is dropped exactly if three patterns are missing from the kinds of the pieces.
-/
namespace CodeSeeX.Channels
open List

variable {α : Type}

inductive Kind where
  | main
  | side
  | cut
  deriving DecidableEq

inductive Piece (α : Type) where
  | main (xs : List α)
  | side (xs : List α)
  | cut

namespace Piece

def mainPart : Piece α → List α
  | main xs => xs
  | _ => []

def sidePart : Piece α → List α
  | side xs => xs
  | _ => []

/-- The kind of a piece; an empty piece has none. -/
def kind : Piece α → Option Kind
  | main xs => if xs.isEmpty then none else some .main
  | side xs => if xs.isEmpty then none else some .side
  | cut => some .cut

end Piece

def mainOf (pieces : List (Piece α)) : List α := (pieces.map Piece.mainPart).flatten
def sideOf (pieces : List (Piece α)) : List α := (pieces.map Piece.sidePart).flatten
def kinds (pieces : List (Piece α)) : List Kind := pieces.filterMap Piece.kind

theorem mainOf_append (pieces later : List (Piece α)) :
    mainOf (pieces ++ later) = mainOf pieces ++ mainOf later := by simp [mainOf]

theorem sideOf_append (pieces later : List (Piece α)) :
    sideOf (pieces ++ later) = sideOf pieces ++ sideOf later := by simp [sideOf]

/-- What was kept of the channels, and which are closed; `opened` says that the main channel has
begun. -/
@[ext] structure State (α : Type) where
  main : List α := []
  side : List α := []
  opened : Bool := false
  closed : Bool := false
  sideClosed : Bool := false

namespace State

def closeSide (s : State α) : State α :=
  { s with sideClosed := s.sideClosed || !s.side.isEmpty }

def step (s : State α) : Piece α → State α
  | .main xs =>
      if xs.isEmpty || s.closed then s
      else { s.closeSide with opened := true, main := s.main ++ xs }
  | .side xs => if xs.isEmpty || s.sideClosed then s else { s with side := s.side ++ xs }
  | .cut => { s.closeSide with closed := s.closed || s.opened }

def run (s : State α) (pieces : List (Piece α)) : State α := pieces.foldl step s

@[simp] theorem run_nil (s : State α) : s.run [] = s := rfl

@[simp] theorem run_cons (s : State α) (piece : Piece α) (pieces : List (Piece α)) :
    s.run (piece :: pieces) = (s.step piece).run pieces := rfl

theorem run_append (s : State α) (pieces later : List (Piece α)) :
    s.run (pieces ++ later) = (s.run pieces).run later := foldl_append

/-- The piece is dropped. -/
def Drops (s : State α) (piece : Piece α) : Prop :=
  match piece with
  | .main xs => xs ≠ [] ∧ s.closed = true
  | .side xs => xs ≠ [] ∧ s.sideClosed = true
  | .cut => False

/-- The pattern of kinds with which the main channel loses a piece. -/
def MainFits (s : State α) (ks : List Kind) : Prop :=
  if s.closed then ¬ [.main].Sublist ks
  else if s.opened then ¬ [.cut, .main].Sublist ks
  else ¬ [.main, .cut, .main].Sublist ks

/-- The patterns of kinds with which the side channel loses a piece. -/
def SideFits (s : State α) (ks : List Kind) : Prop :=
  if s.sideClosed then ¬ [.side].Sublist ks
  else if s.side ≠ [] then ¬ [.main, .side].Sublist ks ∧ ¬ [.cut, .side].Sublist ks
  else ¬ [.side, .main, .side].Sublist ks ∧ ¬ [.side, .cut, .side].Sublist ks

theorem sublist_same {k : Kind} {pattern ks : List Kind} :
    (k :: pattern).Sublist (k :: ks) ↔ pattern.Sublist ks := cons_sublist_cons

theorem sublist_other {k other : Kind} {pattern ks : List Kind} (h : k ≠ other) :
    (k :: pattern).Sublist (other :: ks) ↔ (k :: pattern).Sublist ks := by
  rw [sublist_cons_iff]
  constructor
  · intro hor
    rcases hor with hlater | ⟨rest, heq, -⟩
    · exact hlater
    · rw [cons.injEq] at heq
      exact absurd heq.1 h
  · exact Or.inl

/-! ### One piece -/

variable {s : State α}

theorem step_kept {piece : Piece α} (h : ¬ s.Drops piece) :
    (s.step piece).main = s.main ++ piece.mainPart ∧
      (s.step piece).side = s.side ++ piece.sidePart := by
  cases piece with
  | main xs =>
    cases xs with
    | nil => simp [step, Piece.mainPart, Piece.sidePart]
    | cons x xs =>
      have hopen : s.closed = false := by simpa [Drops] using h
      simp [step, hopen, closeSide, Piece.mainPart, Piece.sidePart]
  | side xs =>
    cases xs with
    | nil => simp [step, Piece.mainPart, Piece.sidePart]
    | cons x xs =>
      have hopen : s.sideClosed = false := by simpa [Drops] using h
      simp [step, hopen, Piece.mainPart, Piece.sidePart]
  | cut => simp [step, closeSide, Piece.mainPart, Piece.sidePart]

/-- A piece that is dropped changes nothing. -/
theorem step_dropped {piece : Piece α} (h : s.Drops piece) : s.step piece = s := by
  cases piece with
  | main xs => simp [step, h.2]
  | side xs => simp [step, h.2]
  | cut => exact h.elim

theorem not_pair {k last : Kind} {ks : List Kind} (h : last ∉ ks) : ¬ [k, last].Sublist ks :=
  fun hsub => h (hsub.subset (mem_cons_of_mem _ (mem_singleton_self _)))

theorem mainFits_cut (s : State α) (ks : List Kind) :
    s.MainFits (.cut :: ks) ↔ (s.step .cut).MainFits ks := by
  by_cases hclosed : s.closed = true
  · simp [MainFits, step, hclosed]
  · by_cases hopened : s.opened = true
    · simp [MainFits, step, hclosed, hopened]
    · simp [MainFits, step, closeSide, hclosed, hopened, sublist_other]

theorem sideFits_cut (s : State α) (ks : List Kind) :
    s.SideFits (.cut :: ks) ↔ (s.step .cut).SideFits ks := by
  by_cases hclosed : s.sideClosed = true
  · simp [SideFits, step, closeSide, hclosed]
  · by_cases hempty : s.side = []
    · simp [SideFits, step, closeSide, hclosed, hempty, sublist_other]
    · simpa [SideFits, step, closeSide, hclosed, hempty, sublist_other] using not_pair

section
variable {x : α} {xs : List α}

theorem mainFits_main (hopen : s.closed = false)
    (ks : List Kind) : s.MainFits (.main :: ks) ↔ (s.step (.main (x :: xs))).MainFits ks := by
  by_cases hopened : s.opened = true
  · simp [MainFits, step, closeSide, hopen, hopened, sublist_other]
  · simp [MainFits, step, closeSide, hopen, hopened]

theorem sideFits_main (hopen : s.closed = false)
    (ks : List Kind) : s.SideFits (.main :: ks) ↔ (s.step (.main (x :: xs))).SideFits ks := by
  by_cases hclosed : s.sideClosed = true
  · simp [SideFits, step, closeSide, hopen, hclosed]
  · by_cases hempty : s.side = []
    · simp [SideFits, step, closeSide, hopen, hclosed, hempty, sublist_other]
    · simpa [SideFits, step, closeSide, hopen, hclosed, hempty, sublist_other] using not_pair

theorem mainFits_side (ks : List Kind) :
    s.MainFits (.side :: ks) ↔ (s.step (.side (x :: xs))).MainFits ks := by
  by_cases hsideClosed : s.sideClosed = true <;> simp [MainFits, step, hsideClosed, sublist_other]

theorem sideFits_side (hopen : s.sideClosed = false)
    (ks : List Kind) : s.SideFits (.side :: ks) ↔ (s.step (.side (x :: xs))).SideFits ks := by
  by_cases hempty : s.side = []
  · simp [SideFits, step, hopen, hempty]
  · simp [SideFits, step, hopen, hempty, sublist_other]

end

/-- Both channels keep everything. -/
def Fits (s : State α) (pieces : List (Piece α)) : Prop :=
  s.MainFits (kinds pieces) ∧ s.SideFits (kinds pieces)

theorem fits_step {piece : Piece α} (h : ¬ s.Drops piece) (pieces : List (Piece α)) :
    s.Fits (piece :: pieces) ↔ (s.step piece).Fits pieces := by
  cases piece with
  | main xs =>
    cases xs with
    | nil => exact Iff.rfl
    | cons x xs =>
      have hopen : s.closed = false := by simpa [Drops] using h
      exact and_congr (mainFits_main hopen _) (sideFits_main hopen _)
  | side xs =>
    cases xs with
    | nil => exact Iff.rfl
    | cons x xs =>
      have hopen : s.sideClosed = false := by simpa [Drops] using h
      exact and_congr (mainFits_side _) (sideFits_side hopen _)
  | cut => exact and_congr (mainFits_cut s _) (sideFits_cut s _)

theorem not_fits_of_drops {piece : Piece α} (h : s.Drops piece)
    (pieces : List (Piece α)) : ¬ s.Fits (piece :: pieces) := by
  intro hfits
  cases piece with
  | main xs =>
    cases xs with
    | nil => exact h.1 rfl
    | cons x xs =>
      have hmain := hfits.1
      rw [MainFits, if_pos h.2] at hmain
      exact hmain (sublist_same.mpr (nil_sublist _))
  | side xs =>
    cases xs with
    | nil => exact h.1 rfl
    | cons x xs =>
      have hside := hfits.2
      rw [SideFits, if_pos h.2] at hside
      exact hside (sublist_same.mpr (nil_sublist _))
  | cut => exact h

/-! ### All pieces -/

/-- A closed side channel stays closed. -/
theorem sideClosed_run (h : s.sideClosed = true) (pieces : List (Piece α)) :
    (s.run pieces).sideClosed = true := by
  induction pieces generalizing s with
  | nil => exact h
  | cons piece pieces ih =>
    refine ih ?_
    cases piece with
    | main xs => by_cases hdrop : (xs.isEmpty || s.closed) = true <;> simp [step, closeSide, hdrop, h]
    | side xs => simp [step, h]
    | cut => simp [step, closeSide, h]

/-- A closed side channel drops its pieces. -/
theorem run_side_closed (h : s.sideClosed = true) (texts : List (List α)) :
    s.run (texts.map .side) = s := by
  induction texts with
  | nil => rfl
  | cons text texts ih => simpa [step, h] using ih

/-- A channel keeps at most what arrives. -/
theorem length_run_le (s : State α) (pieces : List (Piece α)) :
    (s.run pieces).main.length ≤ s.main.length + (mainOf pieces).length ∧
      (s.run pieces).side.length ≤ s.side.length + (sideOf pieces).length := by
  induction pieces generalizing s with
  | nil => simp
  | cons piece pieces ih =>
    obtain ⟨hmain, hside⟩ := ih (s.step piece)
    have hmainOf : mainOf (piece :: pieces) = piece.mainPart ++ mainOf pieces := rfl
    have hsideOf : sideOf (piece :: pieces) = piece.sidePart ++ sideOf pieces := rfl
    rw [run_cons, hmainOf, hsideOf, length_append, length_append]
    by_cases hdrops : s.Drops piece
    · rw [step_dropped hdrops] at hmain hside ⊢
      omega
    · obtain ⟨hkeptMain, hkeptSide⟩ := step_kept hdrops
      rw [hkeptMain, length_append] at hmain
      rw [hkeptSide, length_append] at hside
      omega

theorem kept_iff (s : State α) (pieces : List (Piece α)) :
    ((s.run pieces).main = s.main ++ mainOf pieces ∧
        (s.run pieces).side = s.side ++ sideOf pieces) ↔ s.Fits pieces := by
  induction pieces generalizing s with
  | nil =>
    have hfits : s.Fits [] := by
      rw [Fits, MainFits, SideFits]
      constructor <;> split_ifs <;> simp [kinds]
    simp [hfits, mainOf, sideOf]
  | cons piece pieces ih =>
    have hmainOf : mainOf (piece :: pieces) = piece.mainPart ++ mainOf pieces := rfl
    have hsideOf : sideOf (piece :: pieces) = piece.sidePart ++ sideOf pieces := rfl
    rw [run_cons, hmainOf, hsideOf]
    by_cases hdrops : s.Drops piece
    · refine iff_of_false (fun hkept => ?_) (not_fits_of_drops hdrops pieces)
      -- What was dropped is missing in the number of what was kept.
      obtain ⟨hmain, hside⟩ := length_run_le s pieces
      rw [step_dropped hdrops] at hkept
      rw [hkept.1] at hmain
      rw [hkept.2] at hside
      simp only [length_append] at hmain hside
      cases piece with
      | main xs =>
        have hpos := length_pos_iff.mpr hdrops.1
        simp only [Piece.mainPart] at hmain
        omega
      | side xs =>
        have hpos := length_pos_iff.mpr hdrops.1
        simp only [Piece.sidePart] at hside
        omega
      | cut => exact hdrops
    · obtain ⟨hkeptMain, hkeptSide⟩ := step_kept hdrops
      rw [fits_step hdrops, ← ih, hkeptMain, hkeptSide, append_assoc, append_assoc]

end State

/-- A stretch of one channel is not torn apart: no main piece comes behind a main piece and a cut,
and no side piece behind a side piece and a main piece or a cut. -/
def Untorn (ks : List Kind) : Prop :=
  ¬ [.main, .cut, .main].Sublist ks ∧ ¬ [.side, .main, .side].Sublist ks ∧
    ¬ [.side, .cut, .side].Sublist ks

instance (ks : List Kind) : Decidable (Untorn ks) := inferInstanceAs (Decidable (_ ∧ _ ∧ _))

/-- Nothing is lost exactly if no stretch is torn apart. -/
theorem run_kept_iff (pieces : List (Piece α)) :
    ((({} : State α).run pieces).main = mainOf pieces ∧
        (({} : State α).run pieces).side = sideOf pieces) ↔ Untorn (kinds pieces) := by
  have hkept := State.kept_iff ({} : State α) pieces
  simp only [nil_append] at hkept
  rw [hkept]
  simp [State.Fits, State.MainFits, State.SideFits, Untorn]

end CodeSeeX.Channels
