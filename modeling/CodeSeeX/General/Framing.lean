import Mathlib.Tactic

/-!
# Framed input

A cutter takes the first frame off a buffer, together with the delimiter behind it. What
it takes off depends on these two alone, so that the frames of an input are the same
whether it arrives at once or in parts.
-/
namespace CodeSeeX.Framing
open List

variable {α : Type*}

/-- A frame with the delimiter behind it. -/
structure Piece (α : Type*) where
  frame : List α
  delimiter : List α

def Piece.whole (p : Piece α) : List α := p.frame ++ p.delimiter

/-- A cut is decided by the piece alone: it comes out the same whatever follows it. -/
structure Cutter (α : Type*) where
  cut : List α → Option (Piece α × List α)
  cut_eq : ∀ {xs p rest}, cut xs = some (p, rest) → xs = p.whole ++ rest
  delimiter_ne : ∀ {xs p rest}, cut xs = some (p, rest) → p.delimiter ≠ []
  cut_again : ∀ {xs p rest}, cut xs = some (p, rest) → ∀ ys, cut (p.whole ++ ys) = some (p, ys)

namespace Cutter

variable (C : Cutter α)

theorem cut_length {xs rest : List α} {p : Piece α} (h : C.cut xs = some (p, rest)) :
    rest.length < xs.length := by
  have hpos := length_pos_iff.mpr (C.delimiter_ne h)
  rw [C.cut_eq h]
  simp only [Piece.whole, length_append]
  omega

/-- The complete frames of a buffer, and what is left behind them. -/
def drain (xs : List α) : List (Piece α) × List α :=
  match _h : C.cut xs with
  | none => ([], xs)
  | some (p, rest) => (p :: (drain rest).1, (drain rest).2)
termination_by xs.length
decreasing_by all_goals exact C.cut_length _h

theorem drain_of_none {xs : List α} (h : C.cut xs = none) : C.drain xs = ([], xs) := by
  rw [drain]
  split
  · rfl
  · rename_i heq
    simp [h] at heq

theorem drain_of_some {xs rest : List α} {p : Piece α} (h : C.cut xs = some (p, rest)) :
    C.drain xs = (p :: (C.drain rest).1, (C.drain rest).2) := by
  rw [drain]
  split
  · rename_i heq
    simp [h] at heq
  · rename_i heq
    rw [h] at heq
    cases heq
    rfl

/-- Induction along the frames of a buffer. -/
theorem drain_induction {motive : List α → Prop} (hnone : ∀ xs, C.cut xs = none → motive xs)
    (hsome : ∀ xs p rest, C.cut xs = some (p, rest) → motive rest → motive xs) (xs : List α) :
    motive xs := by
  induction hn : xs.length using Nat.strong_induction_on generalizing xs with
  | _ n ih =>
    cases hcut : C.cut xs with
    | none => exact hnone xs hcut
    | some pr =>
      obtain ⟨p, rest⟩ := pr
      exact hsome xs p rest hcut (ih rest.length (hn ▸ C.cut_length hcut) rest rfl)

theorem cut_drain_rest (xs : List α) : C.cut (C.drain xs).2 = none := by
  induction xs using C.drain_induction with
  | hnone xs h => rwa [C.drain_of_none h]
  | hsome xs p rest h ih => rwa [C.drain_of_some h]

/-- Nothing is lost. -/
theorem drain_flatten (xs : List α) : (C.drain xs).1.flatMap Piece.whole ++ (C.drain xs).2 = xs := by
  induction xs using C.drain_induction with
  | hnone xs h => simp [C.drain_of_none h]
  | hsome xs p rest h ih =>
    rw [C.drain_of_some h, flatMap_cons, append_assoc, ih, ← C.cut_eq h]

/-- More input behind a buffer adds its frames behind those of the buffer. -/
theorem drain_append (xs ys : List α) : C.drain (xs ++ ys) =
    ((C.drain xs).1 ++ (C.drain ((C.drain xs).2 ++ ys)).1, (C.drain ((C.drain xs).2 ++ ys)).2) := by
  induction xs using C.drain_induction with
  | hnone xs h => simp [C.drain_of_none h]
  | hsome xs p rest h ih =>
    have happ : C.cut (xs ++ ys) = some (p, rest ++ ys) := by
      rw [C.cut_eq h, append_assoc]
      exact C.cut_again h _
    rw [C.drain_of_some happ, C.drain_of_some h, ih]
    rfl

/-- What is left in a buffer is shorter than the piece that it becomes. -/
theorem length_lt_of_cut_append {xs ys rest : List α} {p : Piece α} (hnone : C.cut xs = none)
    (h : C.cut (xs ++ ys) = some (p, rest)) : xs.length < p.whole.length := by
  by_contra hle
  have hpre : p.whole <+: xs := by
    refine prefix_of_prefix_length_le ⟨rest, (C.cut_eq h).symm⟩ (prefix_append xs ys) ?_
    omega
  obtain ⟨zs, rfl⟩ := hpre
  simp [C.cut_again h zs] at hnone

/-- The frames of an input that ends: what is left behind the last delimiter is a frame without
one, unless it is empty. -/
def frames (xs : List α) : List (Piece α) :=
  (C.drain xs).1 ++ if (C.drain xs).2 = [] then [] else [⟨(C.drain xs).2, []⟩]

theorem frames_append (xs ys : List α) :
    C.frames (xs ++ ys) = (C.drain xs).1 ++ C.frames ((C.drain xs).2 ++ ys) := by
  rw [frames, frames, C.drain_append, append_assoc]

/-- What is left in a buffer is part of a frame of the input. -/
theorem rest_length_le {rest ys : List α} {limit : ℕ} (hcut : C.cut rest = none)
    (h : ∀ p ∈ C.frames (rest ++ ys), p.whole.length ≤ limit) : rest.length ≤ limit := by
  cases hnext : C.cut (rest ++ ys) with
  | some next =>
    obtain ⟨p, behind⟩ := next
    have hle := h p (by simp [frames, C.drain_of_some hnext])
    have hlt := C.length_lt_of_cut_append hcut hnext
    omega
  | none =>
    by_cases hempty : rest ++ ys = []
    · simp [(append_eq_nil_iff.mp hempty).1]
    · have hle := h ⟨rest ++ ys, []⟩ (by
        rw [frames, C.drain_of_none hnext]
        simp [hempty])
      simp only [Piece.whole, append_nil, length_append] at hle
      omega

end Cutter

/-! ## Images -/

section
variable {β γ : Type*}

def Piece.map (f : α → β) (p : Piece α) : Piece β := ⟨p.frame.map f, p.delimiter.map f⟩

@[simp] theorem Piece.map_whole (f : α → β) (p : Piece α) : (p.map f).whole = p.whole.map f := by
  simp [Piece.map, Piece.whole]

namespace Cutter

/-- The piece at the front of a list that a cutter finds in its image. -/
def pullPiece (xs : List α) (p : Piece β) : Piece α :=
  ⟨xs.take p.frame.length, (xs.drop p.frame.length).take p.delimiter.length⟩

theorem pullPiece_whole (xs : List α) (p : Piece β) :
    (pullPiece xs p).whole = xs.take p.whole.length := by
  rw [pullPiece, Piece.whole, ← take_add, Piece.whole, length_append]

theorem pullPiece_map {f : α → β} {xs : List α} {p : Piece β} {rest : List β}
    (h : xs.map f = p.whole ++ rest) : (pullPiece xs p).map f = p := by
  have hframe : (xs.take p.frame.length).map f = p.frame := by
    rw [map_take, h, Piece.whole, append_assoc, take_left]
  have hdelimiter : ((xs.drop p.frame.length).take p.delimiter.length).map f = p.delimiter := by
    rw [map_take, map_drop, h, Piece.whole, append_assoc, drop_left,
      take_left]
  rw [pullPiece, Piece.map, hframe, hdelimiter]

theorem pullPiece_append {f : α → β} {p : Piece α} {q : Piece β} (h : p.map f = q) (ys : List α) :
    pullPiece (p.whole ++ ys) q = p ∧ (p.whole ++ ys).drop q.whole.length = ys := by
  subst h
  have hframe : (p.map f).frame.length = p.frame.length := length_map _
  have hdelimiter : (p.map f).delimiter.length = p.delimiter.length := length_map _
  constructor
  · rw [pullPiece, hframe, hdelimiter, Piece.whole, append_assoc, take_left,
      drop_left, take_left]
  · rw [Piece.map_whole, length_map, drop_left]

/-- A cutter for lists of which it sees an image. -/
def comap (C : Cutter β) (f : α → β) : Cutter α where
  cut xs := (C.cut (xs.map f)).map fun (p, _) => (pullPiece xs p, xs.drop p.whole.length)
  cut_eq := by
    intro xs p rest h
    obtain ⟨⟨q, behind⟩, _, heq⟩ := Option.map_eq_some_iff.mp h
    cases heq
    rw [pullPiece_whole, take_append_drop]
  delimiter_ne := by
    intro xs p rest h hnil
    obtain ⟨⟨q, behind⟩, hcut, heq⟩ := Option.map_eq_some_iff.mp h
    cases heq
    have hmap := congrArg Piece.delimiter (pullPiece_map (C.cut_eq hcut))
    rw [Piece.map, hnil, map_nil] at hmap
    exact C.delimiter_ne hcut hmap.symm
  cut_again := by
    intro xs p rest h ys
    obtain ⟨⟨q, behind⟩, hcut, heq⟩ := Option.map_eq_some_iff.mp h
    cases heq
    have hmap := pullPiece_map (C.cut_eq hcut)
    have hagain : C.cut (((pullPiece xs q).whole ++ ys).map f) = some (q, ys.map f) := by
      rw [map_append, ← Piece.map_whole, hmap]
      exact C.cut_again hcut _
    obtain ⟨hself, hrest⟩ := pullPiece_append hmap ys
    simp only [hagain, Option.map_some, hself, hrest]

variable (C : Cutter γ)

/-- Cutting the image cuts the list. -/
theorem comap_cut_map (g : α → β) (f : β → γ) (xs : List α) :
    (C.comap f).cut (xs.map g) =
      ((C.comap (f ∘ g)).cut xs).map fun (p, rest) => (p.map g, rest.map g) := by
  simp only [comap, map_map, Option.map_map]
  refine congrArg (fun k => Option.map k (C.cut (xs.map (f ∘ g)))) ?_
  funext q
  simp [pullPiece, Piece.map]

theorem comap_drain_map (g : α → β) (f : β → γ) (xs : List α) :
    (C.comap f).drain (xs.map g) =
      (((C.comap (f ∘ g)).drain xs).1.map (Piece.map g), ((C.comap (f ∘ g)).drain xs).2.map g) := by
  induction xs using (C.comap (f ∘ g)).drain_induction with
  | hnone xs h =>
    have hmap : (C.comap f).cut (xs.map g) = none := by rw [comap_cut_map, h]; rfl
    rw [drain_of_none _ hmap, drain_of_none _ h]
    rfl
  | hsome xs p rest h ih =>
    have hmap : (C.comap f).cut (xs.map g) = some (p.map g, rest.map g) := by
      rw [comap_cut_map, h]
      rfl
    rw [drain_of_some _ hmap, drain_of_some _ h, ih]
    rfl

end Cutter

end

/-! ## Bounded reading

A reader holds frames up to a limit. What it cannot hold closes it, and a closed reader
reads nothing more.
-/

structure Reader (α : Type*) where
  buffer : List α := []
  closed : Bool := false

/-- What a reader gets: more input, or the order to close. -/
inductive Feed (α : Type*) where
  | input (xs : List α)
  | close

namespace Reader

variable (C : Cutter α) (limit : ℕ)

/-- The frames read among the pieces of a buffer, `rest` being left behind them. -/
def readPieces (rest : List α) : List (Piece α) → List (List α) × Reader α
  | [] => if limit < rest.length then ([], ⟨[], true⟩) else ([], ⟨rest, false⟩)
  | p :: pieces =>
      if limit < p.frame.length then ([], ⟨[], true⟩)
      else (p.frame :: (readPieces rest pieces).1, (readPieces rest pieces).2)

def feed (s : Reader α) : Feed α → List (List α) × Reader α
  | .input xs =>
      if s.closed then ([], s)
      else readPieces limit (C.drain (s.buffer ++ xs)).2 (C.drain (s.buffer ++ xs)).1
  | .close => ([], { s with closed := true })

/-- The frames read so far, and the reader behind them. -/
def feedAll (s : Reader α) : List (Feed α) → List (List α) × Reader α
  | [] => ([], s)
  | f :: feeds =>
      ((s.feed C limit f).1 ++ (feedAll (s.feed C limit f).2 feeds).1,
        (feedAll (s.feed C limit f).2 feeds).2)

/-- The frames read in a whole run, the last one without a delimiter included, and whether the
reader was closed. -/
def run (s : Reader α) : List (Feed α) → List (List α) × Bool
  | [] => (if s.closed ∨ s.buffer = [] then [] else [s.buffer], s.closed)
  | f :: feeds =>
      ((s.feed C limit f).1 ++ (run (s.feed C limit f).2 feeds).1,
        (run (s.feed C limit f).2 feeds).2)

variable {C limit}

theorem feed_of_closed {s : Reader α} (h : s.closed = true) (f : Feed α) :
    s.feed C limit f = ([], s) := by
  cases f with
  | input xs => simp [feed, h]
  | close =>
    cases s
    simpa [feed] using h.symm

/-- A closed reader has read its last frame. -/
theorem run_of_closed {s : Reader α} (h : s.closed = true) (feeds : List (Feed α)) :
    s.run C limit feeds = ([], true) := by
  induction feeds with
  | nil => simp [run, h]
  | cons f feeds ih => rw [run, feed_of_closed h, ih]; rfl

theorem feedAll_of_closed {s : Reader α} (h : s.closed = true) (feeds : List (Feed α)) :
    s.feedAll C limit feeds = ([], s) := by
  induction feeds with
  | nil => rfl
  | cons f feeds ih => rw [feedAll, feed_of_closed h, ih]; rfl

theorem run_append (s : Reader α) (feeds more : List (Feed α)) :
    s.run C limit (feeds ++ more) =
      ((s.feedAll C limit feeds).1 ++ ((s.feedAll C limit feeds).2.run C limit more).1,
        ((s.feedAll C limit feeds).2.run C limit more).2) := by
  induction feeds generalizing s with
  | nil => rfl
  | cons f feeds ih => simp [feedAll, run, ih, append_assoc]

theorem run_close (s : Reader α) (feeds : List (Feed α)) :
    s.run C limit (.close :: feeds) = ([], true) := by
  have hclosed : (s.feed C limit .close).2.closed = true := rfl
  rw [run, run_of_closed hclosed]
  rfl

theorem readPieces_fits (rest : List α) (pieces : List (Piece α)) :
    (∀ frame ∈ (readPieces limit rest pieces).1, frame.length ≤ limit) ∧
      (readPieces limit rest pieces).2.buffer.length ≤ limit := by
  induction pieces with
  | nil =>
    simp only [readPieces]
    split_ifs with h
    · simp
    · simpa using h
  | cons p pieces ih =>
    simp only [readPieces]
    split_ifs with h
    · simp
    · refine ⟨fun frame hframe => ?_, ih.2⟩
      rcases mem_cons.mp hframe with rfl | hframe
      · omega
      · exact ih.1 frame hframe

section
variable {s : Reader α} (hs : s.buffer.length ≤ limit)
include hs

theorem feed_fits (f : Feed α) :
    (∀ frame ∈ (s.feed C limit f).1, frame.length ≤ limit) ∧
      (s.feed C limit f).2.buffer.length ≤ limit := by
  cases f with
  | close => exact ⟨by simp [feed], hs⟩
  | input xs =>
    simp only [feed]
    split_ifs
    · exact ⟨by simp, hs⟩
    · exact readPieces_fits _ _

theorem feedAll_fits (feeds : List (Feed α)) :
    (∀ frame ∈ (s.feedAll C limit feeds).1, frame.length ≤ limit) ∧
      (s.feedAll C limit feeds).2.buffer.length ≤ limit := by
  induction feeds generalizing s with
  | nil => exact ⟨by simp [feedAll], hs⟩
  | cons f feeds ih =>
    refine ⟨fun frame hframe => ?_, (ih (feed_fits hs f).2).2⟩
    rcases mem_append.mp hframe with hframe | hframe
    · exact (feed_fits hs f).1 frame hframe
    · exact (ih (feed_fits hs f).2).1 frame hframe

/-- A reader never reads more than it can hold. -/
theorem run_fits (feeds : List (Feed α)) :
    ∀ frame ∈ (s.run C limit feeds).1, frame.length ≤ limit := by
  induction feeds generalizing s with
  | nil =>
    simp only [run]
    split_ifs
    · simp
    · simpa using hs
  | cons f feeds ih =>
    intro frame hframe
    rcases mem_append.mp hframe with hframe | hframe
    · exact (feed_fits hs f).1 frame hframe
    · exact ih (feed_fits hs f).2 frame hframe

end

end Reader

end CodeSeeX.Framing
