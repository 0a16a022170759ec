import CodeSeeX.General.Wildcards
import CodeSeeX.Text

/-!
# Path globs

The search includes and excludes paths by patterns. The matcher walks over the pattern and the
path with two cursors and comes back to the star it met last when it is stuck. A byte of the
pattern that equals the byte of the path is taken first, and so is a star that meets a star.
-/
namespace CodeSeeX.Globs
open Wildcards Bool List

abbrev Bytes := List UInt8

/-- `b'*'` -/
def star : UInt8 := 42

/-- `b'?'` -/
def question : UInt8 := 63

def isStar (s : UInt8) : Bool := s = star

/-- `pattern[p] == b'?' || pattern[p] == value[v]` -/
def hits (s b : UInt8) : Bool := s = question || s = b

/-! ## The matcher -/

/-- The star that was met last: the pattern behind it and what it has not swallowed yet. -/
structure Mark (pattern value : Bytes) where
  behind : Bytes
  unswallowed : Bytes
  pattern_suffix : pattern <:+ behind
  value_suffix : value <:+ unswallowed

namespace Mark
variable {pattern value : Bytes} {s b : UInt8}

def first (pattern value : Bytes) : Mark pattern value :=
  ⟨pattern, value, suffix_refl _, suffix_refl _⟩

def advance (m : Mark (s :: pattern) (b :: value)) : Mark pattern value :=
  ⟨m.behind, m.unswallowed, (suffix_cons s pattern).trans m.pattern_suffix,
    (suffix_cons b value).trans m.value_suffix⟩

/-- `p = star_index + 1; star_value += 1; v = star_value;` -/
def retry (m : Mark pattern value) : Mark m.behind m.unswallowed.tail :=
  first m.behind m.unswallowed.tail

theorem length_tail_lt (m : Mark pattern (b :: value)) :
    m.unswallowed.tail.length < m.unswallowed.length := by
  have := m.value_suffix.length_le
  rw [length_cons] at this
  rw [length_tail]
  omega

end Mark

/-- The bounds on the loop: what is behind the star, and what the star has not swallowed. -/
def Mark.bounds {pattern value : Bytes} : Option (Mark pattern value) → ℕ × ℕ
  | none => (pattern.length + 1, 0)
  | some m => (m.behind.length, m.unswallowed.length)

/-- The loop of `wildcard_match`, on what is left of the pattern and of the value. -/
def wildcardLoop (pattern value : Bytes) (mark : Option (Mark pattern value)) : Bool :=
  match pattern, value, mark with
  | pattern, [], _ => pattern.all isStar
  | s :: pattern, b :: value, mark =>
      if hits s b then wildcardLoop pattern value (mark.map Mark.advance)
      else if isStar s then wildcardLoop pattern (b :: value) (some (Mark.first pattern (b :: value)))
      else match mark with
        | some m => wildcardLoop m.behind m.unswallowed.tail (some m.retry)
        | none => false
  | [], _ :: _, some m => wildcardLoop m.behind m.unswallowed.tail (some m.retry)
  | [], _ :: _, none => false
termination_by ((Mark.bounds mark).1, (Mark.bounds mark).2, value.length)
decreasing_by
  · cases mark with
    | none => exact Prod.Lex.left _ _ (Nat.lt_succ_self _)
    | some m => exact Prod.Lex.right _ (Prod.Lex.right _ (Nat.lt_succ_self _))
  · cases mark with
    | none => exact Prod.Lex.left _ _ (by simp [Mark.bounds, Mark.first])
    | some m => exact Prod.Lex.left _ _ m.pattern_suffix.length_le
  · exact Prod.Lex.right _ (Prod.Lex.left _ _ m.length_tail_lt)
  · exact Prod.Lex.right _ (Prod.Lex.left _ _ m.length_tail_lt)

/-- Whether the value is in the language of the pattern, the way the source looks for it. -/
def wildcardMatch (pattern value : Bytes) : Bool := wildcardLoop pattern value none

/-! ## What the matcher reads -/

/-- What the loop can still find: from the marked star on, it may swallow as much as it likes. -/
def Mark.Reads {pattern value : Bytes} : Option (Mark pattern value) → Prop
  | none => Eager isStar hits pattern value
  | some m => ∃ w, w <:+ m.unswallowed ∧ Eager isStar hits m.behind w

/-- The cursors came from the mark by hits alone. -/
def Mark.Reached {pattern value : Bytes} (mark : Option (Mark pattern value)) : Prop :=
  ∀ m ∈ mark, Leads hits m.behind m.unswallowed pattern value

variable {s b : UInt8} {pattern value : Bytes}

theorem Mark.reached_first : Mark.Reached (some (Mark.first pattern value)) := by
  intro m hm
  rw [Option.mem_some_iff] at hm
  subst hm
  exact Leads.refl pattern value

section
variable {mark : Option (Mark (s :: pattern) (b :: value))}

theorem Mark.reached_advance
    (h : Mark.Reached mark) (hhit : hits s b = true) : Mark.Reached (mark.map Mark.advance) := by
  intro m hm
  obtain ⟨n, hn, rfl⟩ := Option.mem_map.mp hm
  exact (h n hn).snoc hhit

theorem Mark.reads_advance
    (hhit : hits s b = true) : Mark.Reads (mark.map Mark.advance) ↔ Mark.Reads mark := by
  cases mark with
  | none => exact ⟨Eager.one hhit, fun h => h.tail hhit⟩
  | some m => exact Iff.rfl

/-- A new star does all that the star before it could do. -/
theorem Mark.reads_first
    (h : Mark.Reached mark) (hhit : ¬ hits s b = true) (hstar : isStar s = true) :
    Mark.Reads (some (Mark.first pattern (b :: value))) ↔ Mark.Reads mark := by
  have hmiss : ∀ a ∈ (b :: value).head?, hits s a = false := by
    intro a ha
    rw [head?_cons, Option.mem_some_iff] at ha
    exact ha ▸ eq_false_iff.mpr hhit
  cases mark with
  | none => exact ⟨fun ⟨w, hw, heager⟩ => Eager.many hstar hmiss hw heager, Eager.exists_of_star⟩
  | some m =>
    have hlead := h m rfl
    constructor
    · intro ⟨w, hw, heager⟩
      have hread : Eager isStar hits (s :: pattern) (b :: value) :=
        Eager.many hstar hmiss hw heager
      exact ⟨m.unswallowed, suffix_refl _, hlead.eager_iff.mpr hread⟩
    · intro ⟨w, hw, heager⟩
      obtain ⟨t, ht, heager⟩ := hlead.exists_of_suffix hw heager
      obtain ⟨u, hu, heager⟩ := heager.exists_of_star
      exact ⟨u, hu.trans ht, heager⟩

end

/-- Where the cursors are stuck, the marked star has to swallow one byte more. -/
theorem Mark.reads_retry {m : Mark pattern (b :: value)} (h : Mark.Reached (some m))
    (hstuck : ¬ Eager isStar hits pattern (b :: value)) :
    Mark.Reads (some m.retry) ↔ Mark.Reads (some m) := by
  have hlead := h m rfl
  constructor
  · intro ⟨w, hw, heager⟩
    exact ⟨w, hw.trans (tail_suffix _), heager⟩
  · intro ⟨w, hw, heager⟩
    have hne : m.unswallowed ≠ [] := by
      intro hnil
      have := m.length_tail_lt
      rw [hnil] at this
      exact Nat.lt_irrefl _ this
    obtain ⟨a, rest, hcons⟩ := exists_cons_of_ne_nil hne
    rw [hcons, suffix_cons_iff] at hw
    cases hw with
    | inl heq =>
      rw [heq, ← hcons] at heager
      exact absurd (hlead.eager_iff.mp heager) hstuck
    | inr hw =>
      refine ⟨w, ?_, heager⟩
      show w <:+ m.unswallowed.tail
      rw [hcons]
      exact hw

theorem Mark.reads_nil {mark : Option (Mark pattern [])} (h : Mark.Reached mark) :
    pattern.all isStar = true ↔ Mark.Reads mark := by
  rw [← @eager_nil_iff _ _ isStar hits]
  cases mark with
  | none => exact Iff.rfl
  | some m =>
    have hlead := h m rfl
    constructor
    · intro heager
      exact ⟨m.unswallowed, suffix_refl _, hlead.eager_iff.mpr heager⟩
    · intro ⟨w, hw, heager⟩
      obtain ⟨t, ht, heager⟩ := hlead.exists_of_suffix hw heager
      rw [suffix_nil] at ht
      exact ht ▸ heager

theorem wildcardLoop_iff (mark : Option (Mark pattern value)) (h : Mark.Reached mark) :
    wildcardLoop pattern value mark = true ↔ Mark.Reads mark := by
  induction pattern, value, mark using wildcardLoop.induct with
  | case1 pattern mark =>
    rw [wildcardLoop]
    exact Mark.reads_nil h
  | case2 s pattern b value hhit mark ih =>
    rw [wildcardLoop.eq_def]
    show (if hits s b then _ else _) = true ↔ _
    rw [if_pos hhit, ih (Mark.reached_advance h hhit)]
    exact Mark.reads_advance hhit
  | case3 s pattern b value hhit hstar mark ih =>
    rw [wildcardLoop.eq_def]
    show (if hits s b then _ else if isStar s then _ else _) = true ↔ _
    rw [if_neg hhit, if_pos hstar, ih Mark.reached_first]
    exact Mark.reads_first h hhit hstar
  | case4 s pattern b value hhit hstar m ih =>
    rw [wildcardLoop, if_neg hhit, if_neg hstar, ih Mark.reached_first]
    refine Mark.reads_retry h ?_
    exact not_eager_cons (eq_false_iff.mpr hhit) (eq_false_iff.mpr hstar)
  | case5 s pattern b value hhit hstar =>
    rw [wildcardLoop, if_neg hhit, if_neg hstar]
    refine iff_of_false false_ne_true ?_
    exact not_eager_cons (eq_false_iff.mpr hhit) (eq_false_iff.mpr hstar)
  | case6 b value m ih =>
    unfold wildcardLoop
    rw [ih Mark.reached_first]
    exact Mark.reads_retry h not_eager_nil_cons
  | case7 b value =>
    unfold wildcardLoop
    exact iff_of_false false_ne_true not_eager_nil_cons

theorem wildcardMatch_iff_eager :
    wildcardMatch pattern value = true ↔ Eager isStar hits pattern value :=
  wildcardLoop_iff none nofun

/-- A star is any string, also one with stars in it, and a question mark is any one byte. -/
def InLanguage (pattern value : Bytes) : Prop := Matches isStar hits pattern value

/-- The value can be read with every star that stands in front of a `*` taking that one byte. -/
def StarsAtStars (pattern value : Bytes) : Prop := Eager isStar hits pattern value

theorem StarsAtStars.inLanguage (h : StarsAtStars pattern value) : InLanguage pattern value :=
  Eager.matches h

/-- The matcher is exact on what it can read with its stars at stars. -/
theorem wildcardMatch_exact_iff (pattern value : Bytes) :
    (wildcardMatch pattern value = true ↔ InLanguage pattern value) ↔
      (InLanguage pattern value → StarsAtStars pattern value) := by
  rw [wildcardMatch_iff_eager]
  exact ⟨Iff.mpr, fun h => ⟨StarsAtStars.inLanguage, h⟩⟩

/-- On a value without a `*` the matcher is exact. -/
theorem wildcardMatch_noStar (h : star ∉ value) :
    wildcardMatch pattern value = true ↔ InLanguage pattern value := by
  rw [wildcardMatch_iff_eager]
  refine ⟨StarsAtStars.inLanguage, fun hread => hread.eager fun b hb s hstar => ?_⟩
  obtain rfl : s = star := of_decide_eq_true hstar
  have hne : star ≠ b := fun heq => h (heq ▸ hb)
  simp [hits, hne, show star ≠ question by decide]

/-- `*` does not match `*a`: it is spent on the first byte. -/
theorem star_misses_starA :
    ¬ (wildcardMatch [star] [star, 97] = true ↔ InLanguage [star] [star, 97]) := by
  intro h
  have hread : InLanguage [star] [star, 97] :=
    Matches.many rfl nil_suffix Matches.nil
  have heager := wildcardMatch_iff_eager.mp (h.mpr hread)
  exact not_eager_nil_cons (heager.tail rfl)

/-! ## Paths -/

/-- `text.replace('\\', "/")` -/
def slashed (text : Text) : Text := text.map fun c => if c = '\\' then '/' else c

def pathMatchesPattern (path fileName pattern : Text) : Bool :=
  let pattern := slashed pattern.trim
  if pattern = [] then false
  else if pattern.any fun c => c = '*' || c = '?' then
    wildcardMatch pattern.bytes path.bytes || wildcardMatch pattern.bytes fileName.bytes ||
      wildcardMatch (Text.bytes ('*' :: pattern)) path.bytes
  else fileName = pattern || path = pattern || path.endsWith ('/' :: pattern) ||
    path.contains ('/' :: pattern ++ ['/'])

def pathPassesGlobs (path fileName : Text) (includes excludes : List Text) : Bool :=
  let path := slashed path
  let fileName := slashed fileName
  if excludes.any (pathMatchesPattern path fileName) then false
  else includes.isEmpty || includes.any (pathMatchesPattern path fileName)

end CodeSeeX.Globs
