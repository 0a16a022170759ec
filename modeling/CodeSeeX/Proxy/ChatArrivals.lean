import CodeSeeX.Proxy.ChatFraming

/-!
# A chat stream in chunks

The frames, the data lines and the payloads of a text that arrives in chunks, each said for
the characters of the text together with what has arrived in their place.
-/
namespace CodeSeeX.Native
open Framing List Option Text Prod

variable {n : ℕ} {u : Text} (t : Text) {c : Char} {part : List Arrival} {frame : List Arrival}
  (arrivals : List Arrival)

/-! ## Frames of what arrives -/

theorem delimiterAt_succ {b : UInt8} {bytes : Bytes} {i n : ℕ} :
    DelimiterAt (b :: bytes) (i + 1) n ↔ DelimiterAt bytes i n := by
  rw [DelimiterAt, DelimiterAt, drop_succ_cons]

theorem findSseFrameDelimiter_step {b : UInt8} {bytes : Bytes}
    (h : ∀ n, ¬ DelimiterAt (b :: bytes) 0 n) :
    findSseFrameDelimiter (b :: bytes) =
      (findSseFrameDelimiter bytes).map fun (i, n) => (i + 1, n) := by
  cases hfind : findSseFrameDelimiter bytes with
  | none =>
    rw [findSseFrameDelimiter_eq_none] at hfind
    rw [map_none, findSseFrameDelimiter_eq_none]
    intro i n hd
    cases i with
    | zero => exact h n hd
    | succ i => exact hfind i n (delimiterAt_succ.mp hd)
  | some found =>
    obtain ⟨i, n⟩ := found
    obtain ⟨hat, hfirst⟩ := findSseFrameDelimiter_eq_some.mp hfind
    rw [map_some, findSseFrameDelimiter_eq_some]
    refine ⟨delimiterAt_succ.mpr hat, ?_⟩
    intro j hj m hd
    cases j with
    | zero => exact h m hd
    | succ j => exact hfirst j (by omega) m (delimiterAt_succ.mp hd)

section
variable {α : Type*} {f : α → UInt8}

theorem comap_cut_front {xs : List α} (h : DelimiterAt (xs.map f) 0 n) :
    (sseCutter.comap f).cut xs = some (⟨[], xs.take n⟩, xs.drop n) := by
  have hfind : findSseFrameDelimiter (xs.map f) = some (0, n) :=
    findSseFrameDelimiter_eq_some.mpr ⟨h, fun j hj => absurd hj (Nat.not_lt_zero j)⟩
  have hlength := h.length.2
  rw [length_map] at hlength
  have hn : min n xs.length = n := by omega
  show ((cutSseFrame (xs.map f)).map _) = _
  rw [cutSseFrame, hfind]
  simp [Cutter.pullPiece, Piece.whole, hn]

theorem comap_cut_step {x : α} {xs : List α} (h : ∀ n, ¬ DelimiterAt ((x :: xs).map f) 0 n) :
    (sseCutter.comap f).cut (x :: xs) =
      ((sseCutter.comap f).cut xs).map fun (p, rest) => (⟨x :: p.frame, p.delimiter⟩, rest) := by
  show ((cutSseFrame ((x :: xs).map f)).map _) = ((cutSseFrame (xs.map f)).map _).map _
  rw [cutSseFrame, cutSseFrame, map_cons, findSseFrameDelimiter_step h]
  cases hfind : findSseFrameDelimiter (xs.map f) with
  | none => rfl
  | some found =>
    obtain ⟨i, n⟩ := found
    have hlength := (findSseFrameDelimiter_spec hfind).1.length.2
    rw [length_map] at hlength
    have hi : min i xs.length = i := by omega
    have hn : min n (xs.length - i) = n := by omega
    have hshift : i + 1 + n = i + n + 1 := by omega
    simp [Cutter.pullPiece, Piece.whole, hi, hn, hshift]

end

/-- The delimiters of a text, which have two characters or four. -/
def delimiterText (n : ℕ) : Text := if n = 2 then lit "\n\n" else lit "\r\n\r\n"

theorem delimiterAt_front_iff {t : Text} :
    DelimiterAt (t.map lineMark) 0 n ↔ (n = 2 ∨ n = 4) ∧ delimiterText n <+: t := by
  have hlf : lfDelimiter <+: t.map lineMark ↔ lit "\n\n" <+: t :=
    Infix.map_prefix_iff lf_inj t
  have hcrlf : crlfDelimiter <+: t.map lineMark ↔ lit "\r\n\r\n" <+: t :=
    Infix.map_prefix_iff crlf_inj t
  rw [DelimiterAt, drop_zero, hlf, hcrlf, delimiterText]
  constructor
  · intro h
    rcases h with ⟨rfl, h⟩ | ⟨rfl, h⟩
    · exact ⟨.inl rfl, h⟩
    · exact ⟨.inr rfl, h⟩
  · intro h
    obtain ⟨rfl | rfl, h⟩ := h
    · exact .inl ⟨rfl, h⟩
    · exact .inr ⟨rfl, h⟩

variable {arrivals : List Arrival}

/-- What is ASCII arrives as it is. -/
theorem arrived_prefix_iff (hu : ∀ c ∈ u, c.toNat < 128) (h : ∀ a ∈ arrivals, a.Sound) :
    u <+: arrivals.flatMap Prod.snd ↔ u <+: arrivals.map Prod.fst := by
  induction u generalizing arrivals with
  | nil => simp
  | cons c u ih =>
    obtain ⟨hc, hu⟩ := forall_mem_cons.mp hu
    cases arrivals with
    | nil => simp
    | cons a arrivals =>
      obtain ⟨ha, hlater⟩ := forall_mem_cons.mp h
      rcases ha.shape with ⟨d, rfl⟩ | ⟨d, k, hbig, rfl⟩
      · simp [cons_prefix_cons, ih hu hlater]
      · have hne : c ≠ d := by
          intro heq
          subst heq
          omega
        have hreplaced : c ≠ '\uFFFD' := by
          intro heq
          subst heq
          exact absurd hc (by decide)
        simp [cons_prefix_cons, hne, hreplaced]

theorem arrived_drop (hu : ∀ c ∈ u, c.toNat < 128) (h : ∀ a ∈ arrivals, a.Sound)
    (hfront : u <+: arrivals.map Prod.fst) :
    (arrivals.flatMap Prod.snd).drop u.length = (arrivals.drop u.length).flatMap Prod.snd := by
  induction u generalizing arrivals with
  | nil => rfl
  | cons c u ih =>
    obtain ⟨hc, hu⟩ := forall_mem_cons.mp hu
    cases arrivals with
    | nil => simp
    | cons a arrivals =>
      obtain ⟨ha, hlater⟩ := forall_mem_cons.mp h
      obtain ⟨heq, hbehind⟩ := cons_prefix_cons.mp hfront
      rcases ha.shape with ⟨d, rfl⟩ | ⟨d, k, hbig, rfl⟩
      · simpa using ih hu hlater hbehind
      · subst heq
        exact absurd hc (by simpa using hbig)

theorem delimiterText_ascii (n : ℕ) : ∀ c ∈ delimiterText n, c.toNat < 128 := by
  intro c hc
  have hcases : c = '\n' ∨ c = '\r' := by
    rw [delimiterText] at hc
    split at hc
    · exact .inl (by simpa [lit] using hc)
    · have hlist : c = '\r' ∨ c = '\n' ∨ c = '\r' ∨ c = '\n' := by simpa [lit] using hc
      tauto
  rcases hcases with rfl | rfl <;> decide

theorem delimiterText_length (h : n = 2 ∨ n = 4) : (delimiterText n).length = n := by
  rcases h with rfl | rfl <;> rfl

def arrivalCutter : Cutter Arrival := sseCutter.comap (lineMark ∘ Prod.fst)

/-- A delimiter arrives as it is, and nothing else arrives as one. -/
theorem arrived_front_iff (h : ∀ a ∈ arrivals, a.Sound) (n : ℕ) :
    DelimiterAt ((arrivals.flatMap Prod.snd).map lineMark) 0 n ↔
      DelimiterAt (arrivals.map (lineMark ∘ Prod.fst)) 0 n := by
  rw [← List.map_map, delimiterAt_front_iff, delimiterAt_front_iff,
    arrived_prefix_iff (delimiterText_ascii n) h]

/-- A replaced character is part of its frame. -/
theorem textCutter_cut_replaced :
    textCutter.cut ('\uFFFD' :: t) =
      (textCutter.cut t).map fun (p, rest) => (⟨'\uFFFD' :: p.frame, p.delimiter⟩, rest) := by
  apply comap_cut_step
  intro n hd
  obtain ⟨hn, hfront⟩ := delimiterAt_front_iff.mp hd
  obtain ⟨c, u, hu⟩ : ∃ c u, delimiterText n = c :: u := by
    rcases hn with rfl | rfl <;> exact ⟨_, _, rfl⟩
  have hascii := delimiterText_ascii n
  rw [hu] at hfront hascii
  have hc := hascii c mem_cons_self
  rw [(cons_prefix_cons.mp hfront).1] at hc
  exact absurd hc (by decide)

/-- The first frame of a text and what is left behind it. -/
def firstFrame (t : Text) : Option (Text × Text) :=
  (textCutter.cut t).map fun (p, rest) => (p.frame, rest)

theorem firstFrame_replaced (k : ℕ) :
    firstFrame (List.replicate k '\uFFFD' ++ t) =
      (firstFrame t).map fun (frame, rest) => (List.replicate k '\uFFFD' ++ frame, rest) := by
  induction k with
  | zero => simp
  | succ k ih =>
    have hstep : firstFrame ('\uFFFD' :: (replicate k '\uFFFD' ++ t)) =
        (firstFrame (replicate k '\uFFFD' ++ t)).map
          fun (frame, rest) => ('\uFFFD' :: frame, rest) := by
      rw [firstFrame, textCutter_cut_replaced, firstFrame, Option.map_map, Option.map_map]
      rfl
    rw [replicate_succ, cons_append, hstep, ih, Option.map_map]
    rfl

theorem cut_arrivals (h : ∀ a ∈ arrivals, a.Sound) :
    firstFrame (arrivals.flatMap Prod.snd) = (arrivalCutter.cut arrivals).map
      fun (p, rest) => (p.frame.flatMap Prod.snd, rest.flatMap Prod.snd) := by
  induction arrivals with
  | nil => rfl
  | cons a arrivals ih =>
    obtain ⟨ha, hlater⟩ := forall_mem_cons.mp h
    by_cases hfront : ∃ n, DelimiterAt ((a :: arrivals).map (lineMark ∘ fst)) 0 n
    · obtain ⟨n, hn⟩ := hfront
      have htext := (arrived_front_iff h n).mpr hn
      have hsplit := hn
      rw [← List.map_map, delimiterAt_front_iff] at hsplit
      have hdrop := arrived_drop (delimiterText_ascii n) h hsplit.2
      rw [delimiterText_length hsplit.1] at hdrop
      rw [arrivalCutter, comap_cut_front hn, firstFrame, textCutter, comap_cut_front htext,
        map_some, map_some, hdrop]
      rfl
    · have hnone : ∀ n, ¬ DelimiterAt ((a :: arrivals).map (lineMark ∘ fst)) 0 n := by
        intro n hn
        exact hfront ⟨n, hn⟩
      have ih := ih hlater
      rw [arrivalCutter, comap_cut_step hnone, ← arrivalCutter, Option.map_map, flatMap_cons]
      rcases ha.shape with ⟨c, rfl⟩ | ⟨c, k, _, rfl⟩
      · have hplain : ∀ n, ¬ DelimiterAt ((c :: arrivals.flatMap snd).map lineMark) 0 n := by
          intro n hn
          exact hnone n ((arrived_front_iff h n).mp hn)
        have hstep : firstFrame (c :: arrivals.flatMap snd) =
            (firstFrame (arrivals.flatMap snd)).map
              fun (frame, rest) => (c :: frame, rest) := by
          rw [firstFrame, textCutter, comap_cut_step hplain, firstFrame, Option.map_map,
            Option.map_map]
          rfl
        show firstFrame (c :: arrivals.flatMap snd) = _
        rw [hstep, ih, Option.map_map]
        rfl
      · have hreplaced := firstFrame_replaced (arrivals.flatMap snd) (k + 2)
        rw [ih, Option.map_map] at hreplaced
        exact hreplaced

/-- The frames of a text that arrives are those of the text, as they arrive. -/
theorem frames_arrivals (h : ∀ a ∈ arrivals, a.Sound) :
    (textCutter.drain (arrivals.flatMap Prod.snd)).1.map Piece.frame =
      (arrivalCutter.drain arrivals).1.map fun p => p.frame.flatMap Prod.snd := by
  induction arrivals using arrivalCutter.drain_induction with
  | hnone arrivals hcut =>
    have hfirst := cut_arrivals h
    rw [hcut, map_none, firstFrame, map_eq_none_iff] at hfirst
    rw [textCutter.drain_of_none hfirst, arrivalCutter.drain_of_none hcut]
    rfl
  | hsome arrivals p rest hcut ih =>
    have hfirst := cut_arrivals h
    rw [hcut, map_some, firstFrame, map_eq_some_iff] at hfirst
    obtain ⟨⟨q, behind⟩, htext, heq⟩ := hfirst
    obtain ⟨hframe, hrest⟩ := Prod.mk.inj heq
    have hsound : ∀ a ∈ rest, a.Sound := by
      intro a ha
      apply h
      rw [arrivalCutter.cut_eq hcut]
      exact mem_append_right _ ha
    rw [textCutter.drain_of_some htext, arrivalCutter.drain_of_some hcut, map_cons,
      map_cons, hframe, hrest, ih hsound]

/-! ## Data lines

The lines of a frame whose elements stand for characters, and what is behind `data:` in them.
-/

section
variable {α : Type*} (f : α → Char)

def splitLines : List α → List (List α)
  | [] => []
  | x :: xs =>
      if f x = '\n' then [x] :: splitLines xs
      else match splitLines xs with
        | [] => [[x]]
        | line :: later => (x :: line) :: later

/-- `line` without the element `c` at its end. -/
def dropEnd (c : Char) (line : List α) : Option (List α) :=
  if line.getLast?.map f = some c then some line.dropLast else none

def lineBody (line : List α) : List α :=
  match dropEnd f '\n' line with
  | some line => (dropEnd f '\r' line).getD line
  | none => line

def dataPart (line : List α) : Option (List α) :=
  if lit "data:" <+: (lineBody f line).map f then some ((lineBody f line).drop 5) else none

def dataParts (frame : List α) : List (List α) := (splitLines f frame).filterMap (dataPart f)

variable {β : Type*} (g : α → β) (k : β → Char)

theorem splitLines_map (xs : List α) :
    splitLines k (xs.map g) = (splitLines (k ∘ g) xs).map (List.map g) := by
  induction xs with
  | nil => rfl
  | cons x xs ih =>
    simp only [map_cons, splitLines, ih, Function.comp_apply]
    by_cases hend : k (g x) = '\n'
    · simp only [if_pos hend, map_cons, map_nil]
    · simp only [if_neg hend]
      cases splitLines (k ∘ g) xs <;> rfl

theorem dropEnd_map (c : Char) (line : List α) :
    dropEnd k c (line.map g) = (dropEnd (k ∘ g) c line).map (List.map g) := by
  simp only [dropEnd, getLast?_map, Option.map_map]
  split_ifs
  · rw [map_some, map_dropLast]
  · rfl

theorem lineBody_map (line : List α) : lineBody k (line.map g) = (lineBody (k ∘ g) line).map g := by
  rw [lineBody, dropEnd_map, lineBody]
  cases hlf : dropEnd (k ∘ g) '\n' line with
  | none => rfl
  | some line =>
    simp only [map_some, dropEnd_map]
    cases dropEnd (k ∘ g) '\r' line <;> rfl

theorem dataPart_map (line : List α) :
    dataPart k (line.map g) = (dataPart (k ∘ g) line).map (List.map g) := by
  rw [dataPart, lineBody_map, dataPart, List.map_map, ← map_drop]
  split_ifs <;> rfl

theorem dataParts_map (frame : List α) :
    dataParts k (frame.map g) = (dataParts (k ∘ g) frame).map (List.map g) := by
  rw [dataParts, splitLines_map, filterMap_map, dataParts, map_filterMap]
  apply filterMap_congr
  intro line _
  exact dataPart_map g k line

end

theorem splitLines_text : splitLines id t = splitInclusive t := by
  induction t with
  | nil => rfl
  | cons c t ih =>
    cases hlines : splitInclusive t <;> simp [splitLines, splitInclusive, ih, hlines]

theorem dropEnd_text (c : Char) (line : Text) : dropEnd id c line = stripLast c line := by
  rw [dropEnd, map_id_apply, stripLast]

/-- What is behind `data:` in the lines of a frame. -/
theorem dataParts_text (frame : Text) :
    (lines frame).filterMap (stripStart "data:") = dataParts id frame := by
  rw [lines, filterMap_map, dataParts, splitLines_text]
  apply filterMap_congr
  intro line _
  have hbody : lineBody id line =
      ((stripLast '\n' line).map fun line => (stripLast '\r' line).getD line).getD line := by
    rw [lineBody, dropEnd_text]
    cases stripLast '\n' line with
    | none => rfl
    | some line => exact congrArg (fun body => Option.getD body line) (dropEnd_text '\r' line)
  rw [Function.comp_apply, dataPart, List.map_id, hbody]
  cases stripLast '\n' line <;> rfl

section
variable {α : Type*} {f : α → Char}

theorem mem_splitLines {xs line : List α} (h : line ∈ splitLines f xs) : ∀ x ∈ line, x ∈ xs := by
  induction xs generalizing line with
  | nil => simp [splitLines] at h
  | cons x xs ih =>
    have hflatten : ∀ y ∈ line, y = x ∨ ∃ l ∈ splitLines f xs, y ∈ l := by
      intro y hy
      rw [splitLines] at h
      split at h
      · rcases mem_cons.mp h with rfl | h
        · exact .inl (mem_singleton.mp hy)
        · exact .inr ⟨line, h, hy⟩
      · split at h
        · rw [mem_singleton.mp h] at hy
          exact .inl (mem_singleton.mp hy)
        · rename_i first later hlines
          rcases mem_cons.mp h with rfl | h
          · rcases mem_cons.mp hy with rfl | hy
            · exact .inl rfl
            · exact .inr ⟨first, by simp [hlines], hy⟩
          · exact .inr ⟨line, by simp [hlines, h], hy⟩
    intro y hy
    rcases hflatten y hy with rfl | ⟨l, hl, hyl⟩
    · exact mem_cons_self
    · exact mem_cons_of_mem _ (ih hl y hyl)

theorem mem_dropEnd {line body : List α} (h : dropEnd f c line = some body) :
    ∀ x ∈ body, x ∈ line := by
  rw [dropEnd] at h
  split at h
  · cases h
    intro x hx
    exact mem_of_mem_dropLast hx
  · cases h

theorem mem_lineBody {line : List α} : ∀ x ∈ lineBody f line, x ∈ line := by
  intro x hx
  rw [lineBody] at hx
  cases hlf : dropEnd f '\n' line with
  | none => simpa [hlf] using hx
  | some body =>
    simp only [hlf] at hx
    apply mem_dropEnd hlf
    cases hcr : dropEnd f '\r' body with
    | none => simpa [hcr] using hx
    | some inner =>
      rw [hcr] at hx
      exact mem_dropEnd hcr x hx

theorem mem_dataParts {frame part : List α} (h : part ∈ dataParts f frame) :
    ∀ x ∈ part, x ∈ frame := by
  obtain ⟨line, hline, hpart⟩ := mem_filterMap.mp h
  rw [dataPart] at hpart
  split at hpart
  · cases hpart
    intro x hx
    exact mem_splitLines hline x (mem_lineBody x (mem_of_mem_drop hx))
  · cases hpart

end

theorem splitInclusive_plain (hu : ∀ c ∈ u, c ≠ '\n') (hne : u ≠ []) (t : Text) :
    splitInclusive (u ++ t) = match splitInclusive t with
      | [] => [u]
      | line :: later => (u ++ line) :: later := by
  induction u with
  | nil => exact absurd rfl hne
  | cons c u ih =>
    obtain ⟨hc, hu⟩ := forall_mem_cons.mp hu
    rw [cons_append, splitInclusive, if_neg hc]
    by_cases hempty : u = []
    · subst hempty
      rfl
    · rw [ih hu hempty]
      cases splitInclusive t <;> rfl

theorem replaced_ne (hc : c.toNat < 128) {d : Char} (hd : d = '\uFFFD' ∨ 128 ≤ d.toNat) :
    d ≠ c := by
  intro heq
  subst heq
  rcases hd with rfl | hd
  · exact absurd hc (by decide)
  · omega

theorem splitInclusive_arrivals (h : ∀ a ∈ arrivals, a.Sound) :
    splitInclusive (arrivals.flatMap Prod.snd) =
      (splitLines Prod.fst arrivals).map (flatMap Prod.snd) := by
  induction arrivals with
  | nil => rfl
  | cons a arrivals ih =>
    obtain ⟨ha, hlater⟩ := forall_mem_cons.mp h
    rw [flatMap_cons]
    rcases ha.shape with ⟨c, rfl⟩ | ⟨c, k, hbig, rfl⟩
    · simp only [singleton_append, splitInclusive, splitLines, ih hlater]
      by_cases hend : c = '\n'
      · simp [hend]
      · simp only [if_neg hend]
        cases splitLines fst arrivals <;> simp
    · have hplain : ∀ d ∈ '\uFFFD' :: '\uFFFD' :: replicate k '\uFFFD', d ≠ '\n' := by
        intro d hd
        refine replaced_ne (by decide) (.inl ?_)
        rw [← replicate_succ, ← replicate_succ] at hd
        exact eq_of_mem_replicate hd
      have hend : c ≠ '\n' := replaced_ne (by decide) (.inr hbig)
      rw [splitInclusive_plain hplain (cons_ne_nil _ _), ih hlater, splitLines, if_neg hend]
      cases splitLines fst arrivals <;> simp

theorem stripLast_arrivals (hc : c.toNat < 128) (h : ∀ a ∈ arrivals, a.Sound) :
    stripLast c (arrivals.flatMap Prod.snd) =
      (dropEnd Prod.fst c arrivals).map (flatMap Prod.snd) := by
  rcases eq_nil_or_concat' arrivals with rfl | ⟨front, a, rfl⟩
  · simp [stripLast, dropEnd]
  · have ha := h a (mem_append_right _ mem_cons_self)
    rw [flatMap_append, flatMap_singleton, stripLast, dropEnd, getLast?_append]
    rcases ha.shape with ⟨d, rfl⟩ | ⟨d, k, hbig, rfl⟩
    · by_cases hd : d = c <;> simp [hd]
    · have hfirst : d ≠ c := replaced_ne hc (.inr hbig)
      have hlast : ('\uFFFD' :: '\uFFFD' :: replicate k '\uFFFD').getLast? = some '\uFFFD' := by
        rw [← replicate_succ, ← replicate_succ, getLast?_replicate]
        simp
      have hreplaced : '\uFFFD' ≠ c := replaced_ne hc (.inl rfl)
      simp only [hlast, some_or, some_inj, if_neg hreplaced]
      simp [hfirst]

theorem lineBody_arrivals (h : ∀ a ∈ arrivals, a.Sound) :
    lineBody id (arrivals.flatMap Prod.snd) = (lineBody Prod.fst arrivals).flatMap Prod.snd := by
  rw [lineBody, dropEnd_text, stripLast_arrivals (by decide) h, lineBody]
  cases hlf : dropEnd fst '\n' arrivals with
  | none => rfl
  | some body =>
    have hbody : ∀ a ∈ body, Arrival.Sound a := by
      intro a ha
      exact h a (mem_dropEnd hlf a ha)
    simp only [map_some, dropEnd_text, stripLast_arrivals (c := '\r') (by decide) hbody]
    cases dropEnd fst '\r' body <;> rfl

theorem dataPart_arrivals (h : ∀ a ∈ arrivals, a.Sound) : dataPart id (arrivals.flatMap Prod.snd) =
      (dataPart Prod.fst arrivals).map (List.flatMap Prod.snd) := by
  have hascii : ∀ c ∈ lit "data:", c.toNat < 128 := by
    have hall : (lit "data:").all (fun c => c.toNat < 128) = true := rfl
    simpa using all_eq_true.mp hall
  have hsound : ∀ a ∈ lineBody fst arrivals, Arrival.Sound a := by
    intro a ha
    exact h a (mem_lineBody a ha)
  have hstarts := arrived_prefix_iff hascii hsound
  rw [dataPart, List.map_id, lineBody_arrivals h, dataPart]
  by_cases hdata : lit "data:" <+: (lineBody fst arrivals).map fst
  · rw [if_pos hdata, if_pos (hstarts.mpr hdata), map_some]
    exact congrArg some (arrived_drop hascii hsound hdata)
  · rw [if_neg hdata, if_neg (fun hd => hdata (hstarts.mp hd))]
    rfl

/-- The data of a frame that arrives is the data of the frame, as it arrives. -/
theorem dataParts_arrivals (h : ∀ a ∈ arrivals, a.Sound) :
    dataParts id (arrivals.flatMap Prod.snd) =
      (dataParts Prod.fst arrivals).map (flatMap Prod.snd) := by
  rw [dataParts, splitLines_text, splitInclusive_arrivals h, filterMap_map, dataParts,
    map_filterMap]
  apply filterMap_congr
  intro line hline
  apply dataPart_arrivals
  intro a ha
  exact h a (mem_splitLines hline a ha)

/-! ## Payloads of what arrives -/

theorem sseData_text (frame : Text) : sseData frame =
    if dataParts id frame = [] then none
    else some (join ['\n'] ((dataParts id frame).map trimStart)) := by
  rw [sseData, dataParts_text]
  cases dataParts id frame <;> rfl

theorem snd_of_unbroken {a : Arrival} (h : a.broken = false) : a.2 = [a.1] := by
  simpa [Arrival.broken] using h

theorem flatMap_of_unbroken (h : ∀ a ∈ part, Arrival.broken a = false) :
    part.flatMap Prod.snd = part.map Prod.fst := by
  induction part with
  | nil => rfl
  | cons a part ih =>
    obtain ⟨ha, hlater⟩ := forall_mem_cons.mp h
    rw [flatMap_cons, ih hlater, snd_of_unbroken ha]
    rfl

theorem length_arrivals (h : ∀ a ∈ part, Arrival.Sound a) :
    (part.map Prod.fst).length + part.countP Arrival.broken ≤ (part.flatMap Prod.snd).length := by
  induction part with
  | nil => exact Nat.le_refl _
  | cons a part ih =>
    obtain ⟨ha, hlater⟩ := forall_mem_cons.mp h
    have ih := ih hlater
    rw [map_cons, flatMap_cons, length_cons, length_append]
    rcases ha.shape with ⟨c, rfl⟩ | ⟨c, k, _, rfl⟩
    · rw [countP_cons_of_neg (by simp [Arrival.broken]), length_singleton]
      omega
    · have hle : part.countP Arrival.broken + 1 ≥
          ((c, '\uFFFD' :: '\uFFFD' :: replicate k '\uFFFD') :: part).countP Arrival.broken := by
        rw [countP_cons]
        split <;> omega
      simp only [length_cons, length_replicate]
      omega

/-- Broken characters make the payload longer. -/
theorem trimStart_arrivals (h : ∀ a ∈ part, Arrival.Sound a) :
    (trimStart (part.map Prod.fst)).length + part.countP Arrival.broken ≤
      (trimStart (part.flatMap Prod.snd)).length := by
  induction part with
  | nil => exact Nat.le_refl _
  | cons a part ih =>
    have hlength := length_arrivals h
    obtain ⟨ha, hlater⟩ := forall_mem_cons.mp h
    rcases ha.shape with ⟨c, rfl⟩ | ⟨c, k, _, rfl⟩
    · by_cases hspace : isWhitespace c = true
      · have hcount : ((c, [c]) :: part).countP Arrival.broken = part.countP Arrival.broken :=
          countP_cons_of_neg (by simp [Arrival.broken])
        rw [hcount]
        simpa [trimStart, hspace] using ih hlater
      · simpa [trimStart, hspace] using hlength
    · have hfull : trimStart (flatMap snd
          ((c, '\uFFFD' :: '\uFFFD' :: replicate k '\uFFFD') :: part)) =
          flatMap snd ((c, '\uFFFD' :: '\uFFFD' :: replicate k '\uFFFD') :: part) := by
        rw [flatMap_cons, cons_append, trimStart, dropWhile_cons_of_neg (by decide)]
      have hsub : (trimStart (map fst
          ((c, '\uFFFD' :: '\uFFFD' :: replicate k '\uFFFD') :: part))).length ≤
          (map fst
            ((c, '\uFFFD' :: '\uFFFD' :: replicate k '\uFFFD') :: part)).length :=
        (dropWhile_sublist _).length_le
      rw [hfull]
      omega

theorem join_length (parts : List Text) :
    (Text.join ['\n'] parts).length + 1 = (parts.map List.length).sum + parts.length ∨ parts = [] := by
  induction parts with
  | nil => exact .inr rfl
  | cons part parts ih =>
    refine .inl ?_
    cases parts with
    | nil => simp [Text.join]
    | cons next parts =>
      have hstep : Text.join ['\n'] (part :: next :: parts) =
          part ++ '\n' :: Text.join ['\n'] (next :: parts) := by
        simp [Text.join, intercalate]
      have ih := ih.resolve_right (cons_ne_nil _ _)
      rw [hstep, length_append, length_cons, map_cons, sum_cons,
        length_cons]
      omega

theorem trimmed_parts_arrivals {parts : List (List Arrival)}
    (h : ∀ part ∈ parts, ∀ a ∈ part, Arrival.Sound a) :
    ((parts.map (trimStart ∘ map Prod.fst)).map length).sum +
        (parts.map (countP Arrival.broken)).sum ≤
      ((parts.map (trimStart ∘ flatMap Prod.snd)).map length).sum := by
  induction parts with
  | nil => exact Nat.le_refl _
  | cons part parts ih =>
    obtain ⟨hpart, hlater⟩ := forall_mem_cons.mp h
    have hfirst := trimStart_arrivals hpart
    have ih := ih hlater
    simp only [map_cons, sum_cons, Function.comp_apply]
    omega

/-- A frame has the payload that it arrives with if no data of it is broken, and only then. -/
theorem sseData_arrivals (h : ∀ a ∈ frame, a.Sound) :
    sseData (frame.flatMap Prod.snd) = sseData (frame.map Prod.fst) ↔
      ∀ part ∈ dataParts Prod.fst frame, ∀ a ∈ part, Arrival.broken a = false := by
  have hparts : dataParts id (frame.map fst) =
      (dataParts fst frame).map (List.map fst) := dataParts_map fst id frame
  have hsound : ∀ part ∈ dataParts fst frame, ∀ a ∈ part, Arrival.Sound a := by
    intro part hpart a ha
    exact h a (mem_dataParts hpart a ha)
  rw [sseData_text, sseData_text, dataParts_arrivals h, hparts]
  simp only [map_eq_nil_iff, List.map_map]
  by_cases hnil : dataParts fst frame = []
  · simp [hnil]
  · rw [if_neg hnil, if_neg hnil, some_inj]
    constructor
    · intro heq part hpart a ha
      have hbroken := join_length
        ((dataParts fst frame).map (trimStart ∘ flatMap snd))
      have hwhole := join_length
        ((dataParts fst frame).map (trimStart ∘ List.map fst))
      have hsum := trimmed_parts_arrivals hsound
      simp only [map_eq_nil_iff, hnil, or_false, length_map] at hbroken hwhole
      rw [heq] at hbroken
      have hzero : ((dataParts fst frame).map (countP Arrival.broken)).sum = 0 := by
        omega
      have hcount := sum_eq_zero_iff.mp hzero _ (mem_map_of_mem hpart)
      exact Bool.eq_false_iff.mpr (countP_eq_zero.mp hcount a ha)
    · intro hunbroken
      refine congrArg _ (map_congr_left ?_)
      intro part hpart
      rw [Function.comp_apply, Function.comp_apply, flatMap_of_unbroken (hunbroken part hpart)]

theorem sseData_isSome_arrivals (h : ∀ a ∈ frame, a.Sound) :
    (sseData (frame.flatMap Prod.snd)).isSome = (sseData (frame.map Prod.fst)).isSome := by
  have hparts : dataParts id (frame.map fst) =
      (dataParts fst frame).map (List.map fst) := dataParts_map fst id frame
  rw [sseData_text, sseData_text, dataParts_arrivals h, hparts]
  cases dataParts fst frame <;> rfl

/-! ## Chunks against the whole body -/

/-- The frames that are read, up to the one that ends the output. -/
def framesRead (chars : List (Char × Bool)) : List (List (Char × Bool)) :=
  upTo (fun frame => (sseData (frame.map Prod.fst)).any isDone)
    (((sseCutter.comap (lineMark ∘ Prod.fst)).drain chars).1.map Piece.frame)

/-- No character of the data that is read is marked. -/
def DataUncut (chars : List (Char × Bool)) : Prop :=
  ∀ frame ∈ framesRead chars, ∀ part ∈ dataParts Prod.fst frame, ∀ c ∈ part, c.2 = false

instance (chars : List (Char × Bool)) : Decidable (DataUncut chars) := by
  unfold DataUncut
  infer_instance

def Arrival.mark (a : Arrival) : Char × Bool := (a.1, a.broken)

theorem framesRead_arrivals :
    framesRead (arrivals.map Arrival.mark) =
      (upTo (fun frame => (sseData (frame.map Prod.fst)).any isDone)
        ((arrivalCutter.drain arrivals).1.map Piece.frame)).map (List.map Arrival.mark) := by
  have hdrain := sseCutter.comap_drain_map Arrival.mark (lineMark ∘ fst) arrivals
  have hcutter : sseCutter.comap ((lineMark ∘ fst) ∘ Arrival.mark) = arrivalCutter := rfl
  have hframes : ((arrivalCutter.drain arrivals).1.map (Piece.map Arrival.mark)).map Piece.frame =
      ((arrivalCutter.drain arrivals).1.map Piece.frame).map (List.map Arrival.mark) := by
    rw [List.map_map, List.map_map]
    rfl
  rw [framesRead, hdrain, hcutter, hframes, upTo_map]
  refine congrArg (fun last => (upTo last _).map _) ?_
  funext frame
  rw [Function.comp_apply, List.map_map]
  rfl

theorem dataUncut_arrivals : DataUncut (arrivals.map Arrival.mark) ↔
      ∀ frame ∈ upTo (fun frame => (sseData (frame.map Prod.fst)).any isDone)
        ((arrivalCutter.drain arrivals).1.map Piece.frame),
        ∀ part ∈ dataParts Prod.fst frame, ∀ a ∈ part, Arrival.broken a = false := by
  have hparts : ∀ frame : List Arrival, dataParts fst (frame.map Arrival.mark) =
      (dataParts fst frame).map (List.map Arrival.mark) := by
    intro frame
    exact dataParts_map Arrival.mark fst frame
  rw [DataUncut, framesRead_arrivals]
  simp only [List.forall_mem_map, hparts]
  rfl

theorem textData_arrivals (h : ∀ a ∈ arrivals, a.Sound) :
    textData (arrivals.flatMap Prod.snd) = ((arrivalCutter.drain arrivals).1.map Piece.frame).filterMap
      fun frame => sseData (frame.flatMap Prod.snd) := by
  have hfilter : ∀ pieces : List (Piece Char), pieces.filterMap (fun p => sseData p.frame) =
      (pieces.map Piece.frame).filterMap sseData := by
    intro pieces
    rw [filterMap_map]
    rfl
  rw [textData, hfilter, frames_arrivals h, filterMap_map, filterMap_map]
  rfl

theorem textData_map :
    textData (arrivals.map Prod.fst) = ((arrivalCutter.drain arrivals).1.map Piece.frame).filterMap
      fun frame => sseData (frame.map Prod.fst) := by
  have hdrain := sseCutter.comap_drain_map fst lineMark arrivals
  rw [textData, textCutter, hdrain, filterMap_map, filterMap_map]
  rfl

/-- The payloads that are read from chunks are those of the whole body exactly if no chunk ends
inside a character of the data that is read. -/
theorem payloads_chunked {chunks : List Bytes} {t : Text} (h : chunks.flatten = Text.bytes t) :
    payloads chunks = payloads [chunks.flatten] ↔ DataUncut (marked (chunkEnds chunks) t) := by
  obtain ⟨arrivals, harrive⟩ := chunks_arrive h
  have hmarks : arrivals.map Arrival.mark = marked (chunkEnds chunks) t := harrive.marks
  have htext : arrivals.map fst = t := by
    rw [← marked_fst (chunkEnds chunks) t, ← hmarks, List.map_map]
    rfl
  have hsound : ∀ frame ∈ (arrivalCutter.drain arrivals).1.map Piece.frame,
      ∀ a ∈ frame, Arrival.Sound a := by
    intro frame hframe a ha
    obtain ⟨p, hp, rfl⟩ := mem_map.mp hframe
    apply harrive.sound
    rw [← arrivalCutter.drain_flatten arrivals]
    exact mem_append_left _ (mem_flatMap.mpr ⟨p, hp, mem_append_left _ ha⟩)
  have hsome : ∀ frame ∈ (arrivalCutter.drain arrivals).1.map Piece.frame,
      (sseData (frame.flatMap snd)).isSome = (sseData (frame.map fst)).isSome := by
    intro frame hframe
    exact sseData_isSome_arrivals (hsound frame hframe)
  have hone : [chunks.flatten].flatMap fromUtf8Lossy = arrivals.map fst := by
    rw [flatMap_singleton, h, lossy_bytes, htext]
  rw [payloads_eq, payloads_eq, hone, ← harrive.text, textData_arrivals harrive.sound,
    textData_map, upTo_filterMap_eq_iff hsome, ← hmarks, dataUncut_arrivals]
  constructor
  · intro heq frame hframe
    exact (sseData_arrivals (hsound frame (mem_of_mem_upTo hframe))).mp (heq frame hframe)
  · intro hunbroken frame hframe
    exact (sseData_arrivals (hsound frame (mem_of_mem_upTo hframe))).mpr (hunbroken frame hframe)

/-- What is in front of the content of a delta, and what is behind it. -/
def deltaFront : Text := lit "data: \x7b\"choices\":[\x7b\"delta\":\x7b\"content\":\""
def deltaBack : Text := lit "\"\x7d\x7d]\x7d"

/-- A delta whose content is one character of two bytes, cut between the two. -/
def accentBody : Text := deltaFront ++ 'é' :: (deltaBack ++ lit "\n\n")
def accentChunks : List Bytes :=
  [bytes deltaFront ++ [0xC3], 0xA9 :: bytes (deltaBack ++ lit "\n\n")]

theorem accentChunks_flatten : accentChunks.flatten = bytes accentBody := by
  rfl

theorem accentChunks_lossy : accentChunks.flatMap fromUtf8Lossy =
    deltaFront ++ '\uFFFD' :: '\uFFFD' :: (deltaBack ++ lit "\n\n") := by
  have hnil : fromUtf8Lossy [] = [] := by rw [fromUtf8Lossy]
  have hlead : fromUtf8Lossy [0xC3] = ['\uFFFD'] := by
    have hnone : decodeChar [0xC3] = none := by rfl
    rw [fromUtf8Lossy, hnone]
    exact congrArg (cons _) hnil
  have htail : Tail 0xA9 := by unfold Tail; decide
  rw [accentChunks, flatMap_cons, flatMap_singleton, lossy_bytes_append, hlead,
    lossy_tail htail, lossy_bytes, append_assoc]
  rfl

theorem textData_one {t frame : Text}
    (h : textCutter.cut t = some (⟨frame, lit "\n\n"⟩, [])) :
    textData t = (sseData frame).toList := by
  have hnil : textCutter.cut [] = none := by rfl
  rw [textData, textCutter.drain_of_some h, textCutter.drain_of_none hnil, filterMap_cons]
  cases sseData frame <;> rfl

theorem accentChunks_payloads : accentChunks.flatten = bytes accentBody ∧
    payloads accentChunks ≠ payloads [accentChunks.flatten] := by
  have hwhole : textData accentBody = (sseData (deltaFront ++ 'é' :: deltaBack)).toList :=
    textData_one (by rfl)
  have hcut : textData (deltaFront ++ '\uFFFD' :: '\uFFFD' :: (deltaBack ++ lit "\n\n")) =
      (sseData (deltaFront ++ '\uFFFD' :: '\uFFFD' :: deltaBack)).toList :=
    textData_one (by rfl)
  refine ⟨accentChunks_flatten, ?_⟩
  rw [payloads_eq, payloads_eq, accentChunks_lossy, flatMap_singleton, accentChunks_flatten,
    lossy_bytes, hwhole, hcut]
  decide

theorem payloads_chunked_accent :
    payloads accentChunks = payloads [accentChunks.flatten] ↔
      DataUncut (marked (chunkEnds accentChunks) accentBody) :=
  payloads_chunked accentChunks_flatten

end CodeSeeX.Native
