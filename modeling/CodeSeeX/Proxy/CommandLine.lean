import CodeSeeX.Text

/-!
# Windows command lines

A process gets one line of text and splits it into its arguments. A quote behind an even number of
backslashes toggles quoting, behind an odd number it is literal, and either way every two of the
backslashes give one. Other backslashes are literal, and blanks that are not quoted separate.
-/
namespace CodeSeeX.CommandLine
open List

/-- The loop over an argument: `backslashes` are read and not written yet. The closing quote is
written in the end. -/
def quoteLoop (backslashes : ℕ) : Text → Text
  | [] => replicate (backslashes * 2) '\\' ++ ['"']
  | ch :: rest =>
      if ch = '\\' then quoteLoop (backslashes + 1) rest
      else if ch = '"' then
        replicate (backslashes * 2 + 1) '\\' ++ '"' :: quoteLoop 0 rest
      else replicate backslashes '\\' ++ ch :: quoteLoop 0 rest

def windowsQuoteCommandLineArgument (arg : Text) : Text :=
  if arg ≠ [] ∧ ¬arg.any (fun ch => Text.isWhitespace ch || ch = '"' || ch = '\\') then arg
  else '"' :: quoteLoop 0 arg

def windowsCommandLineArguments (args : List Text) : Text :=
  Text.join " " (args.map windowsQuoteCommandLineArgument)

/-! ## Splitting -/

def isBlank (ch : Char) : Bool := ch = ' ' || ch = '\t'

/-- `backslashes` are read and not yet taken, and `current` is the argument that is being read. -/
def splitLoop (quoted : Bool) (backslashes : ℕ) : Option Text → Text → List Text
  | current, [] =>
      if current = none ∧ backslashes = 0 then []
      else [current.getD [] ++ replicate backslashes '\\']
  | current, ch :: rest =>
      if ch = '\\' then splitLoop quoted (backslashes + 1) current rest
      else if ch = '"' then
        let taken := current.getD [] ++ replicate (backslashes / 2) '\\'
        if backslashes % 2 = 0 then splitLoop (!quoted) 0 (some taken) rest
        else splitLoop quoted 0 (some (taken ++ ['"'])) rest
      else
        let taken := current.getD [] ++ replicate backslashes '\\'
        if isBlank ch ∧ ¬quoted then
          if current = none ∧ backslashes = 0 then splitLoop quoted 0 none rest
          else taken :: splitLoop quoted 0 none rest
        else splitLoop quoted 0 (some (taken ++ [ch])) rest

def splitCommandLine (line : Text) : List Text := splitLoop false 0 none line

section
variable {current : Option Text} {quoted : Bool}

theorem splitLoop_backslashes (count backslashes : ℕ) (rest : Text) :
    splitLoop quoted backslashes current (replicate count '\\' ++ rest) =
      splitLoop quoted (backslashes + count) current rest := by
  induction count generalizing backslashes with
  | zero => rfl
  | succ count ih =>
    rw [replicate_succ, cons_append, splitLoop, if_pos rfl, ih]
    congr 1
    omega

/-- A character that is no quote and no blank, or a quoted one, takes the backslashes before it. -/
theorem splitLoop_char {ch : Char} (hslash : ch ≠ '\\') (hquote : ch ≠ '"')
    (hblank : isBlank ch = true → quoted = true) (backslashes : ℕ) (rest : Text) :
    splitLoop quoted backslashes current (ch :: rest) =
      splitLoop quoted 0
        (some (current.getD [] ++ replicate backslashes '\\' ++ [ch])) rest := by
  rw [splitLoop, if_neg hslash, if_neg hquote]
  refine if_neg ?_
  rintro ⟨h, hnot⟩
  exact hnot (hblank h)

/-- The rest of a quoted argument is read back, with the backslashes that were not written yet. -/
theorem splitLoop_quoteLoop (arg : Text) (taken : Text) (backslashes : ℕ) (rest : Text) :
    splitLoop true 0 (some taken) (quoteLoop backslashes arg ++ rest) =
      splitLoop false 0 (some (taken ++ replicate backslashes '\\' ++ arg)) rest := by
  induction arg generalizing taken backslashes with
  | nil =>
    have hhalf : backslashes * 2 / 2 = backslashes := by omega
    have heven : (0 + backslashes * 2) % 2 = 0 := by omega
    rw [quoteLoop, append_assoc, splitLoop_backslashes, singleton_append, splitLoop,
      if_neg (by decide), if_pos rfl, if_pos heven, Nat.zero_add, hhalf, append_nil]
    rfl
  | cons ch arg ih =>
    rw [quoteLoop]
    split_ifs with hslash hquote
    · rw [ih, replicate_succ', hslash]
      simp only [append_assoc, singleton_append]
    · have hhalf : (backslashes * 2 + 1) / 2 = backslashes := by omega
      have hodd : ¬(0 + (backslashes * 2 + 1)) % 2 = 0 := by omega
      rw [append_assoc, splitLoop_backslashes, cons_append, splitLoop,
        if_neg (by decide), if_pos rfl, if_neg hodd, Nat.zero_add, hhalf, ih, hquote]
      simp
    · rw [append_assoc, splitLoop_backslashes, cons_append,
        splitLoop_char hslash hquote (fun _ => rfl), Nat.zero_add, ih]
      simp

/-- A plain argument is read as it stands. -/
theorem splitLoop_plain {arg : Text} (hne : arg ≠ [])
    (h : ∀ ch ∈ arg, (Text.isWhitespace ch || ch = '"' || ch = '\\') = false) (rest : Text) :
    splitLoop false 0 current (arg ++ rest) =
      splitLoop false 0 (some (current.getD [] ++ arg)) rest := by
  induction arg generalizing current with
  | nil => exact absurd rfl hne
  | cons ch arg ih =>
    obtain ⟨hch, harg⟩ := forall_mem_cons.mp h
    simp only [Bool.or_eq_false_iff, decide_eq_false_iff_not] at hch
    obtain ⟨⟨hspace, hquote⟩, hslash⟩ := hch
    have hblank : isBlank ch = true → false = true := by
      intro hblank
      simp only [isBlank, Bool.or_eq_true, decide_eq_true_eq] at hblank
      obtain rfl | rfl := hblank <;> revert hspace <;> decide
    rw [cons_append, splitLoop_char hslash hquote hblank]
    cases arg with
    | nil => simp
    | cons next arg =>
      rw [ih (cons_ne_nil next arg) harg]
      simp

end

/-- An argument is read back whatever follows it. -/
theorem splitLoop_argument (arg rest : Text) :
    splitLoop false 0 none (windowsQuoteCommandLineArgument arg ++ rest) =
      splitLoop false 0 (some arg) rest := by
  rw [windowsQuoteCommandLineArgument]
  split_ifs with hplain
  · obtain ⟨hne, hany⟩ := hplain
    rw [Bool.not_eq_true, any_eq_false] at hany
    exact splitLoop_plain hne (fun ch hch => Bool.eq_false_iff.mpr (hany ch hch)) rest
  · rw [cons_append, splitLoop, if_neg (by decide), if_pos rfl]
    exact splitLoop_quoteLoop arg [] 0 rest

/-- Splitting the line of any arguments gives them back. -/
theorem split_windowsCommandLineArguments (args : List Text) :
    splitCommandLine (windowsCommandLineArguments args) = args := by
  rw [splitCommandLine, windowsCommandLineArguments, Text.join]
  induction args with
  | nil => rfl
  | cons arg args ih =>
    cases args with
    | nil =>
      have hread := splitLoop_argument arg []
      simpa [splitLoop] using hread
    | cons next args =>
      have hblank : ∀ line, splitLoop false 0 (some arg) (' ' :: line) =
          arg :: splitLoop false 0 none line := fun line => by simp [splitLoop, isBlank]
      rw [map_cons, map_cons, intercalate_cons_cons, append_assoc,
        splitLoop_argument]
      exact (hblank _).trans (congrArg (arg :: ·) ih)

end CodeSeeX.CommandLine
