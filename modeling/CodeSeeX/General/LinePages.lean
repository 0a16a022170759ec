import Mathlib.Tactic

/-!
# Lines glued into a capped page

Lines are glued onto a text with a separator that is set only once the text holds
something. A page takes a bounded number of lines and at most `capacity` elements; what
it leaves begins with what is left of the line it cut.
-/
namespace CodeSeeX.LinePages
open List

variable {α : Type} {sep : α} {text line : List α} {lines : List (List α)}

/-- The separator is set only after something. -/
def glue (sep : α) (text line : List α) : List α :=
  if text.isEmpty then line else text ++ sep :: line

def glueAll (sep : α) (text : List α) (lines : List (List α)) : List α :=
  lines.foldl (glue sep) text

theorem glue_of_ne_nil (h : text ≠ []) : glue sep text line = text ++ sep :: line := by
  rw [glue, if_neg (by rwa [List.isEmpty_iff])]

theorem glueAll_of_ne_nil (h : text ≠ []) :
    glueAll sep text lines = [sep].intercalate (text :: lines) := by
  induction lines generalizing text with
  | nil => exact (intercalate_singleton ..).symm
  | cons line lines ih =>
    have hne : text ++ sep :: line ≠ [] := by simp
    show glueAll sep (glue sep text line) lines = _
    rw [glue_of_ne_nil h, ih hne, intercalate_cons_cons]
    cases lines with
    | nil => simp [intercalate_singleton]
    | cons next lines => simp [intercalate_cons_cons]

theorem length_glueAll_le (text : List α) (lines : List (List α)) :
    (glueAll sep text lines).length ≤ text.length + lines.flatten.length + lines.length := by
  induction lines generalizing text with
  | nil => exact Nat.le_refl _
  | cons line lines ih =>
    have hstep : (glue sep text line).length ≤ text.length + line.length + 1 := by
      rw [glue]
      split_ifs
      · omega
      · rw [length_append, length_cons]
        omega
    have hrest := ih (glue sep text line)
    show (glueAll sep (glue sep text line) lines).length ≤ _
    rw [flatten_cons, length_append, length_cons]
    omega

theorem length_intercalate (line : List α) (lines : List (List α)) :
    ([sep].intercalate (line :: lines)).length =
      (line :: lines).flatten.length + lines.length := by
  induction lines generalizing line with
  | nil => simp [intercalate_singleton]
  | cons next lines ih =>
    rw [intercalate_cons_cons, length_append, length_append, ih]
    simp only [flatten_cons, length_append, length_cons, length_nil]
    omega

/-- The lines are read back from the glued text, but for empty lines at its beginning. -/
theorem splitOn_glueAll_iff [DecidableEq α] (hfree : ∀ x ∈ line :: lines, sep ∉ x) :
    (glueAll sep [] (line :: lines)).splitOn sep = line :: lines ↔ line ≠ [] ∨ lines = [] := by
  have hread : ([sep].intercalate (line :: lines)).splitOn sep = line :: lines :=
    splitOn_intercalate sep hfree (cons_ne_nil line lines)
  have hstep : glueAll sep [] (line :: lines) = glueAll sep line lines := rfl
  constructor
  · intro h
    by_contra hnot
    obtain ⟨rfl, hlines⟩ : line = [] ∧ lines ≠ [] := by
      rw [not_or, not_not] at hnot
      exact hnot
    obtain ⟨next, rest, rfl⟩ := exists_cons_of_ne_nil hlines
    -- The text is too short to hold a separator before the second line.
    have hback : glueAll sep [] ([] :: next :: rest) = [sep].intercalate ([] :: next :: rest) := by
      rw [← h, intercalate_splitOn, h]
    have hshort := @length_glueAll_le _ sep next rest
    have hlong := @length_intercalate _ sep [] (next :: rest)
    rw [← hback] at hlong
    have hsame : glueAll sep [] ([] :: next :: rest) = glueAll sep next rest := rfl
    rw [hsame] at hlong
    simp only [flatten_cons, length_append, length_cons, length_nil] at hlong
    omega
  · intro h
    rw [hstep]
    by_cases hline : line = []
    · obtain hne | rfl := h
      · exact absurd hline hne
      · rw [hline]
        exact splitOn_nil sep
    · rw [glueAll_of_ne_nil hline, hread]

theorem filter_glueAll [DecidableEq α] (hfree : ∀ x ∈ lines, sep ∉ x) (text : List α) :
    (glueAll sep text lines).filter (· ≠ sep) = text.filter (· ≠ sep) ++ lines.flatten := by
  induction lines generalizing text with
  | nil => exact (append_nil _).symm
  | cons line lines ih =>
    have hline : line.filter (· ≠ sep) = line := by
      rw [filter_eq_self]
      intro a ha
      have hne : a ≠ sep := fun h => hfree line mem_cons_self (h ▸ ha)
      simpa using hne
    have hglue : (glue sep text line).filter (· ≠ sep) = text.filter (· ≠ sep) ++ line := by
      rw [glue]
      split_ifs with hempty
      · rw [isEmpty_iff.mp hempty, hline]
        rfl
      · rw [filter_append, filter_cons_of_neg (by simp), hline]
    show (glueAll sep (glue sep text line) lines).filter (· ≠ sep) = _
    rw [ih (fun x hx => hfree x (mem_cons_of_mem line hx)), hglue, flatten_cons,
      append_assoc]

/-! ## One page -/

/-- The first line begins later. -/
def dropFirst (column : ℕ) : List (List α) → List (List α)
  | [] => []
  | line :: lines => line.drop column :: lines

/-- `whole` lines, and then `cut` elements of the next one. -/
def delivered (lines : List (List α)) (whole cut : ℕ) : List (List α) :=
  lines.take whole ++ if cut = 0 then [] else ((lines.drop whole).head?.map (·.take cut)).toList

def left (lines : List (List α)) (whole cut : ℕ) : List (List α) := dropFirst cut (lines.drop whole)

/-- The text of a page, the number of lines it takes whole and what it takes of the next one. -/
def fill (sep : α) (capacity : ℕ) : ℕ → List α → List (List α) → List α × ℕ × ℕ
  | _, text, [] => (text, 0, 0)
  | 0, text, _ :: _ => (text, 0, 0)
  | limit + 1, text, line :: lines =>
      let width := if text.isEmpty then 0 else 1
      let room := capacity - text.length - width
      if capacity - text.length ≤ width then (text, 0, 0)
      else if line.length ≤ room then
        let page := fill sep capacity limit (glue sep text line) lines
        (page.1, page.2.1 + 1, page.2.2)
      else (glue sep text (line.take room), 0, room)

/-- What a page is: the glued lines it delivers, at most `limit` of them, the last possibly cut. -/
structure IsPage (sep : α) (limit : ℕ) (text : List α) (lines : List (List α))
    (page : List α × ℕ × ℕ) : Prop where
  text_eq : page.1 = glueAll sep text (delivered lines page.2.1 page.2.2)
  whole_le : page.2.1 ≤ lines.length
  within : page.2.1 ≤ limit
  cut_inside : page.2.2 ≠ 0 → ∃ line rest, lines.drop page.2.1 = line :: rest ∧ page.2.2 < line.length

theorem IsPage.stop {limit : ℕ} : IsPage sep limit text lines (text, 0, 0) where
  text_eq := by simp [delivered, glueAll]
  whole_le := Nat.zero_le _
  within := Nat.zero_le _
  cut_inside h := absurd rfl h

theorem fill_isPage (capacity limit : ℕ) (text : List α) (lines : List (List α)) :
    IsPage sep limit text lines (fill sep capacity limit text lines) := by
  induction lines generalizing limit text with
  | nil =>
    rw [fill]
    exact .stop
  | cons line lines ih =>
    cases limit with
    | zero =>
      exact .stop
    | succ limit =>
      rw [fill]
      generalize (if text.isEmpty then 0 else 1) = width
      split_ifs with hfull hfits
      · exact .stop
      · have hrest := ih limit (glue sep text line)
        exact
          { text_eq := by
              show (fill sep capacity limit (glue sep text line) lines).1 = _
              rw [hrest.text_eq]
              simp [delivered, glueAll]
            whole_le := Nat.succ_le_succ hrest.whole_le
            within := Nat.succ_le_succ hrest.within
            cut_inside := hrest.cut_inside }
      · have hroom : capacity - text.length - width ≠ 0 := by omega
        exact
          { text_eq := by simp [delivered, glueAll, hroom]
            whole_le := Nat.zero_le _
            within := Nat.zero_le _
            cut_inside := fun _ => ⟨line, lines, rfl, Nat.lt_of_not_le hfits⟩ }

theorem delivered_flatten_append (lines : List (List α)) (whole cut : ℕ) :
    (delivered lines whole cut).flatten ++ (left lines whole cut).flatten = lines.flatten := by
  conv_rhs => rw [← take_append_drop whole lines, flatten_append]
  rw [delivered, left, flatten_append, append_assoc]
  congr 1
  cases lines.drop whole with
  | nil => simp [dropFirst]
  | cons line rest =>
    by_cases hcut : cut = 0
    · simp [dropFirst, hcut]
    · simp [dropFirst, hcut, ← append_assoc]

/-- An empty page that is asked for something takes some of it. -/
theorem fill_progress {capacity limit : ℕ} (hcapacity : 0 < capacity) (hlimit : 0 < limit)
    (hlines : lines ≠ []) :
    (fill sep capacity limit [] lines).2.1 ≠ 0 ∨ (fill sep capacity limit [] lines).2.2 ≠ 0 := by
  obtain ⟨line, rest, rfl⟩ := exists_cons_of_ne_nil hlines
  obtain ⟨limit, rfl⟩ := Nat.exists_eq_succ_of_ne_zero (Nat.ne_of_gt hlimit)
  rw [fill]
  simp only [isEmpty_nil, if_true, length_nil, Nat.sub_zero]
  rw [if_neg (by omega)]
  split_ifs
  · exact .inl (Nat.succ_ne_zero _)
  · exact .inr (Nat.ne_of_gt hcapacity)

/-- How much there is to deliver. -/
def weight (lines : List (List α)) : ℕ := lines.length + lines.flatten.length

theorem weight_left_lt {capacity limit : ℕ} (hcapacity : 0 < capacity) (hlimit : 0 < limit)
    (hlines : lines ≠ []) :
    weight (left lines (fill sep capacity limit [] lines).2.1 (fill sep capacity limit [] lines).2.2) <
      weight lines := by
  have hpage : IsPage sep limit [] lines (fill sep capacity limit [] lines) := fill_isPage ..
  have hprogress := @fill_progress _ sep _ _ _ hcapacity hlimit hlines
  generalize fill sep capacity limit [] lines = page at hpage hprogress
  obtain ⟨text, whole, cut⟩ := page
  have hflat := congrArg length (delivered_flatten_append lines whole cut)
  have hlength : (left lines whole cut).length = lines.length - whole := by
    rw [left, ← length_drop]
    cases lines.drop whole with
    | nil => rfl
    | cons line rest => rfl
  have hwhole : whole ≤ lines.length := hpage.whole_le
  show weight (left lines whole cut) < weight lines
  rw [length_append] at hflat
  rw [weight, weight, hlength]
  by_cases hzero : whole = 0
  · have hcut : cut ≠ 0 := by simpa [hzero] using hprogress
    obtain ⟨line, rest, hdrop, hlt⟩ := hpage.cut_inside hcut
    have hlt : cut < line.length := hlt
    have hdrop : lines.drop whole = line :: rest := hdrop
    have hsome : (delivered lines whole cut).flatten.length = (lines.take whole).flatten.length + cut := by
      rw [delivered, if_neg hcut, hdrop]
      simp only [head?_cons, Option.map_some, Option.toList_some, flatten_append,
        flatten_cons, flatten_nil, append_nil, length_append, length_take]
      omega
    omega
  · have hpos : 0 < lines.length := length_pos_iff.mpr hlines
    omega

theorem dropFirst_drop (column whole cut : ℕ) (lines : List (List α)) :
    left (dropFirst column lines) whole cut =
      dropFirst ((if whole = 0 then column else 0) + cut) (lines.drop whole) := by
  cases lines with
  | nil => simp only [left, dropFirst, drop_nil]
  | cons line lines =>
    cases whole with
    | zero => simp [left, dropFirst]
    | succ whole => simp [left, dropFirst]

theorem notMem_delivered (hfree : ∀ x ∈ lines, sep ∉ x) (whole cut : ℕ) :
    ∀ x ∈ delivered lines whole cut, sep ∉ x := by
  intro x hx
  rw [delivered, mem_append] at hx
  obtain hx | hx := hx
  · exact hfree x (mem_of_mem_take hx)
  · by_cases hcut : cut = 0
    · rw [if_pos hcut] at hx
      exact absurd hx not_mem_nil
    · rw [if_neg hcut] at hx
      cases hdrop : lines.drop whole with
      | nil =>
        rw [hdrop] at hx
        exact absurd hx not_mem_nil
      | cons line rest =>
        rw [hdrop] at hx
        have hxs : x = line.take cut := by simpa using hx
        have hmem : line ∈ lines := mem_of_mem_drop (hdrop ▸ mem_cons_self)
        rw [hxs]
        exact fun h => hfree line hmem (mem_of_mem_take h)

theorem getElem?_dropFirst (column : ℕ) (lines : List (List α)) (i : ℕ) :
    (dropFirst column lines)[i]? =
      lines[i]?.map fun line => if i = 0 then line.drop column else line := by
  cases lines with
  | nil => rfl
  | cons line lines =>
    cases i with
    | zero => rfl
    | succ i => simp [dropFirst]

theorem getElem?_delivered {whole cut : ℕ} (h : whole ≤ lines.length) (i : ℕ) :
    (delivered lines whole cut)[i]? =
      if i < whole then lines[i]?
      else if i = whole ∧ cut ≠ 0 then lines[i]?.map (·.take cut) else none := by
  have hlength : (lines.take whole).length = whole := length_take_of_le h
  rw [delivered]
  by_cases hi : i < whole
  · rw [if_pos hi, getElem?_append_left (by omega), getElem?_take_of_lt hi]
  · rw [if_neg hi, getElem?_append_right (by omega), hlength]
    by_cases hcut : cut = 0
    · rw [if_pos hcut, if_neg (fun h => h.2 hcut)]
      rfl
    · rw [if_neg hcut, head?_drop]
      by_cases heq : i = whole
      · rw [if_pos ⟨heq, hcut⟩, heq, Nat.sub_self]
        cases lines[whole]? with
        | none => rfl
        | some line => rfl
      · rw [if_neg (fun h => heq h.1)]
        obtain ⟨k, hk⟩ : ∃ k, i - whole = k + 1 := ⟨i - whole - 1, by omega⟩
        rw [hk]
        cases lines[whole]? with
        | none => rfl
        | some line => rfl

theorem delivered_ne_nil {capacity limit : ℕ} (hcapacity : 0 < capacity) (hlimit : 0 < limit)
    (hlines : lines ≠ []) :
    delivered lines (fill sep capacity limit [] lines).2.1 (fill sep capacity limit [] lines).2.2 ≠
      [] := by
  have hpage : IsPage sep limit [] lines (fill sep capacity limit [] lines) := fill_isPage ..
  have hprogress := @fill_progress _ sep _ _ _ hcapacity hlimit hlines
  generalize fill sep capacity limit [] lines = page at hpage hprogress
  intro hnil
  rw [delivered, append_eq_nil_iff] at hnil
  obtain ⟨htake, hcut⟩ := hnil
  have hwhole : page.2.1 = 0 := by
    simpa [hlines] using htake
  obtain hne | hne := hprogress
  · exact hne hwhole
  · obtain ⟨line, rest, hdrop, _⟩ := hpage.cut_inside hne
    rw [if_neg hne, hdrop] at hcut
    cases hcut

/-- The text of a page is its lines exactly when no empty line is glued before another one. -/
theorem splitOn_fill_iff [DecidableEq α] {capacity limit : ℕ} (hcapacity : 0 < capacity)
    (hfree : ∀ x ∈ line :: lines, sep ∉ x) :
    (fill sep capacity (limit + 1) [] (line :: lines)).1.splitOn sep =
        delivered (line :: lines) (fill sep capacity (limit + 1) [] (line :: lines)).2.1
          (fill sep capacity (limit + 1) [] (line :: lines)).2.2 ↔
      line ≠ [] ∨ limit = 0 ∨ lines = [] := by
  set page := fill sep capacity (limit + 1) [] (line :: lines)
  have hpage : IsPage sep (limit + 1) [] (line :: lines) page := fill_isPage ..
  have hfirst := notMem_delivered hfree page.2.1 page.2.2
  rw [hpage.text_eq]
  by_cases hline : line = []
  · subst hline
    have hstep : page = ((fill sep capacity limit [] lines).1,
        (fill sep capacity limit [] lines).2.1 + 1, (fill sep capacity limit [] lines).2.2) := by
      show fill sep capacity (limit + 1) [] ([] :: lines) = _
      rw [fill]
      rw [if_neg (by simp; omega), if_pos (by simp)]
      rfl
    have hcons : delivered ([] :: lines) page.2.1 page.2.2 =
        [] :: delivered lines (fill sep capacity limit [] lines).2.1
          (fill sep capacity limit [] lines).2.2 := by
      rw [hstep]
      simp [delivered]
    rw [hcons] at hfirst ⊢
    rw [splitOn_glueAll_iff hfirst]
    constructor
    · intro h
      obtain hne | hnil := h
      · exact absurd rfl hne
      · by_contra hnot
        obtain ⟨hlimit, hlines⟩ : limit ≠ 0 ∧ lines ≠ [] := by simpa using hnot
        exact delivered_ne_nil hcapacity (Nat.pos_of_ne_zero hlimit) hlines hnil
    · intro h
      refine .inr ?_
      obtain hne | rfl | rfl := h
      · exact absurd rfl hne
      · cases lines with
        | nil => rfl
        | cons next lines => rfl
      · rw [fill]
        rfl
  · obtain ⟨head, tail, hdelivered, hhead⟩ : ∃ head tail,
        delivered (line :: lines) page.2.1 page.2.2 = head :: tail ∧ head ≠ [] := by
      have hprogress : page.2.1 ≠ 0 ∨ page.2.2 ≠ 0 :=
        fill_progress hcapacity (Nat.succ_pos limit) (cons_ne_nil line lines)
      cases hwhole : page.2.1 with
      | zero =>
        have hcut : page.2.2 ≠ 0 := by simpa [hwhole] using hprogress
        refine ⟨line.take page.2.2, [], by simp [delivered, hcut], ?_⟩
        simp [hcut, hline]
      | succ whole => exact ⟨line, _, rfl, hline⟩
    rw [hdelivered] at hfirst ⊢
    rw [splitOn_glueAll_iff hfirst]
    exact iff_of_true (.inl hhead) (.inl hline)

end CodeSeeX.LinePages
