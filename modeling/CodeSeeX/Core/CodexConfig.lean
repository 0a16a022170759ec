import CodeSeeX.General.BTreeMap
import CodeSeeX.Text

/-!
# The upstream override in Codex's configuration

The address of the upstream is kept in a `[codeseex]` table of Codex's own
`config.toml`. An edit goes through the format-preserving editor, except for a brand-new
table: its text is spliced in at an offset that a line scanner picks.
-/
namespace CodeSeeX.CodexConfig
open List Option Text

def TABLE : Text := "codeseex"
def UPSTREAM_KEY : Text := "upstream_base_url"

/-! ## Documents -/

/-- An item of a parsed document. The fields of a table are in key order. -/
inductive Item where
  | string (value : Text)
  | scalar (repr : Text)
  | array (items : List Item)
  | inlineTable (fields : List (Text × Item))
  | table (fields : List (Text × Item))
  | arrayOfTables (tables : List (List (Text × Item)))

variable {value : Item} {rawLines : List Text} {text : Text} {output : Text}

abbrev Document := List (Text × Item)

namespace Item

def asStr : Item → Option Text
  | string value => some value
  | _ => none

/-- The fields of a table or of an inline table. -/
def fields : Item → Option (List (Text × Item))
  | inlineTable fields => some fields
  | table fields => some fields
  | _ => none

/-- `item.get(key)` -/
def get (item : Item) (key : Text) : Option Item := item.fields.bind (lookup key)

/-- `item[key] = value`; other items than tables have no such place. -/
def set (item : Item) (key : Text) (value : Item) : Option Item :=
  match item with
  | inlineTable fields => some (inlineTable (BTreeMap.insertEntry key value fields))
  | table fields => some (table (BTreeMap.insertEntry key value fields))
  | _ => none

end Item

/-- `table.remove(key)` -/
def removeKey (key : Text) (fields : List (Text × Item)) : List (Text × Item) :=
  fields.filter (·.1 ≠ key)

/-- The TOML crates: the parser, the printer of a document that was parsed from a text and
edited, and the literal of a string. -/
structure Toml where
  parse : Text → Option Document
  print : Text → Document → Text
  literal : Text → Text

/-! ## Addresses -/

structure Url where
  scheme : Text
  host : Option Text
  portOrKnownDefault : Option ℕ
  username : Text
  password : Option Text
  path : Text
  query : Option Text
  fragment : Option Text

/-- The URL crate: `Url::parse` and `url.to_string()`. -/
structure UrlCrate where
  parse : Text → Option Url
  toText : Url → Text

def trimEndSlashes (t : Text) : Text := t.rdropWhile (· = '/')

def isOfficialDeepseekUrl (url : Url) : Bool :=
  if url.scheme ≠ "https"
      || url.host.map (fun host => host.eqIgnoreAsciiCase "api.deepseek.com") ≠ some true
      || url.portOrKnownDefault ≠ some 443
      || url.username ≠ [] || url.password.isSome || url.query.isSome || url.fragment.isSome then
    false
  else
    let path := (trimEndSlashes url.path).toAsciiLowercase
    path = [] || path = "/" || path = "/v1"

def normalizeBaseUrl (urls : UrlCrate) (value : Text) : Text :=
  let raw := if value.trim = [] then ("https://api.deepseek.com/" : Text) else value.trim
  match urls.parse raw with
  | some url =>
      let url :=
        if isOfficialDeepseekUrl url then { url with path := "/", query := none, fragment := none }
        else url
      trimEndSlashes (urls.toText url)
  | none => trimEndSlashes raw

/-- The value to be written; it is empty where the key is to be removed, which is so for a blank
value and for the official endpoint. -/
def desiredUrl (urls : UrlCrate) (value : Text) : Text :=
  let trimmed := value.trim
  let normalized := if trimmed = [] then [] else normalizeBaseUrl urls trimmed
  if normalized = normalizeBaseUrl urls [] then [] else normalized

/-! ## Reading -/

/-- What is at the path of the configuration. -/
inductive ConfigFile where
  | missing
  | text (text : Text)
  /-- The bytes cannot be read, or they are not UTF-8. -/
  | unreadable (bytes : List UInt8)

/-- `fs::read_to_string(path).ok()` -/
def readToString : ConfigFile → Option Text
  | .text text => some text
  | _ => none

def mark : Char := '\uFEFF'

/-- `text.strip_prefix('\u{feff}').unwrap_or(&text)` -/
def stripMark : Text → Text
  | [] => []
  | c :: text => if c = mark then text else c :: text

/-- `[codeseex] upstream_base_url` of a document, when it is set. -/
def upstreamOf (document : Document) : Option Text :=
  ((((document.lookup TABLE).bind (·.get UPSTREAM_KEY)).bind Item.asStr).map trim).filter
    (· ≠ [])

def readUpstreamBaseUrlFrom (toml : Toml) (file : ConfigFile) : Option Text := do
  let text ← readToString file
  let document ← toml.parse (stripMark text)
  upstreamOf document

/-! ## Where a brand-new table belongs -/

structure codeseexInsertOffset.Scan where
  offset : ℕ
  firstTable : Option ℕ
  providerEnd : Option ℕ
  insideProvider : Bool

def isHeaderLine (line : Text) : Bool := line.trimStart.startsWith "["

def codeseexInsertOffset.scanLine (scan : Scan) (line : Text) : Scan :=
  let scan :=
    if isHeaderLine line then
      { scan with
        firstTable := if scan.firstTable.isNone then some scan.offset else scan.firstTable
        providerEnd := if scan.insideProvider then some scan.offset else scan.providerEnd
        insideProvider := line.trimStart.startsWith "[model_providers." }
    else scan
  { scan with offset := scan.offset + line.length }

/-- The offset of a brand-new table, in characters. -/
def codeseexInsertOffset (text : Text) : ℕ :=
  let scan := text.splitInclusive.foldl codeseexInsertOffset.scanLine
    { offset := 0, firstTable := none, providerEnd := none, insideProvider := false }
  let providerEnd := if scan.insideProvider then some text.length else scan.providerEnd
  (providerEnd.or scan.firstTable).getD text.length

/-! ## Editing -/

/-- `if !output.ends_with('\n') { output.push('\n') }` -/
def endLine (output : Text) : Text := if output.endsWith "\n" then output else output ++ ['\n']

def codeseexTableBlock (toml : Toml) (value : Text) : Text :=
  ("[" : Text) ++ TABLE ++ "]\n" ++ UPSTREAM_KEY ++ " = " ++ toml.literal value ++ "\n"

/-- The text of a document with the new table between two parts of it. -/
def spliceTable (toml : Toml) (value before after : Text) : Text :=
  let output := if before ≠ [] ∧ ¬ before.endsWith "\n" then before ++ ['\n'] else before
  endLine (output ++ ['\n'] ++ codeseexTableBlock toml value) ++ after

/-- The document without the key, and without the table once it is empty. Only a table that is
not inline is edited. -/
def clearUpstream (document : Document) : Document :=
  match document.lookup TABLE with
  | some (.table fields) =>
      let fields := removeKey UPSTREAM_KEY fields
      if fields = [] then removeKey TABLE document
      else BTreeMap.insertEntry TABLE (.table fields) document
  | _ => document

inductive UpsertError where
  | parse
  /-- The index operator of the editor panics. -/
  | index
  | write

/-- `write_atomic(path, &output)?; Ok(true)`, the write succeeding or not. -/
def writeAtomic (writes : Bool) (file : ConfigFile) (output : Text) :
    Except UpsertError Bool × ConfigFile :=
  if writes then (.ok true, .text output) else (.error .write, file)

def upsertUpstreamBaseUrl (toml : Toml) (urls : UrlCrate) (writes : Bool) (file : ConfigFile)
    (value : Text) : Except UpsertError Bool × ConfigFile :=
  let text := stripMark ((readToString file).getD [])
  match toml.parse text with
  | none => (.error .parse, file)
  | some document =>
      let desired := desiredUrl urls value
      let unchanged :=
        match upstreamOf document, decide (desired = []) with
        | some current, false => decide (current = desired)
        | none, true => true
        | _, _ => false
      if unchanged then (.ok false, file)
      else if desired = [] then
        writeAtomic writes file (endLine (toml.print text (clearUpstream document)))
      else
        match document.lookup TABLE with
        | some item =>
            match item.set UPSTREAM_KEY (.string desired) with
            | some item =>
                writeAtomic writes file
                  (endLine (toml.print text (BTreeMap.insertEntry TABLE item document)))
            | none => (.error .index, file)
        | none =>
            let offset := codeseexInsertOffset text
            let output := spliceTable toml desired (text.take offset) (text.drop offset)
            match toml.parse output with
            | none => (.error .parse, file)
            | some _ => writeAtomic writes file output

/-! ## Fields -/

theorem lookup_insertEntry (key other : Text) (value : Item) (fields : List (Text × Item)) :
    (BTreeMap.insertEntry key value fields).lookup other =
      if other = key then some value else fields.lookup other := by
  induction fields with
  | nil =>
    by_cases h : other = key
    · simp [BTreeMap.insertEntry, h]
    · simp [BTreeMap.insertEntry, lookup_cons, h, beq_false_of_ne h]
  | cons field fields ih =>
    obtain ⟨k, v⟩ := field
    rw [BTreeMap.insertEntry]
    by_cases hother : other = key
    · subst hother
      rw [if_pos rfl] at ih ⊢
      split_ifs with hlt heq
      · simp
      · simp
      · rw [lookup_cons, beq_false_of_ne heq, ih]
    · split_ifs with hlt heq
      · simp [lookup_cons, beq_false_of_ne hother]
      · subst heq
        simp [lookup_cons, beq_false_of_ne hother]
      · rw [lookup_cons, ih, if_neg hother, lookup_cons]

theorem lookup_removeKey (key other : Text) (fields : List (Text × Item)) :
    (removeKey key fields).lookup other = if other = key then none else fields.lookup other := by
  induction fields with
  | nil => simp [removeKey]
  | cons field fields ih =>
    obtain ⟨k, v⟩ := field
    by_cases hk : k = key
    · have hstep : removeKey key ((k, v) :: fields) = removeKey key fields := by
        simp [removeKey, hk]
      rw [hstep, ih]
      by_cases hother : other = key
      · simp [hother]
      · have hne : other ≠ k := fun h => hother (h.trans hk)
        simp [hother, lookup_cons, beq_false_of_ne hne]
    · have hstep : removeKey key ((k, v) :: fields) = (k, v) :: removeKey key fields := by
        simp [removeKey, hk]
      rw [hstep, lookup_cons, ih, lookup_cons]
      by_cases hother : other = key
      · have hne : other ≠ k := fun h => hk (h.symm.trans hother)
        simp [hother, beq_false_of_ne (hother ▸ hne)]
      · simp [hother]

/-! ## What an edit may change -/

/-- Two documents agree on every key except `codeseex.upstream_base_url`. -/
structure Agree (old new : Document) : Prop where
  others : ∀ key, key ≠ TABLE → new.lookup key = old.lookup key
  fields : ∀ key, key ≠ UPSTREAM_KEY →
    (new.lookup TABLE).bind (·.get key) = (old.lookup TABLE).bind (·.get key)
  kept : ∀ item, old.lookup TABLE = some item → item.fields = none → new.lookup TABLE = some item

theorem Agree.refl (document : Document) : Agree document document :=
  ⟨fun _ _ => rfl, fun _ _ => rfl, fun _ h _ => h⟩

variable {item updated : Item}

theorem Item.get_set {key : Text} (h : item.set key value = some updated) (other : Text) :
    updated.get other = if other = key then some value else item.get other := by
  cases item <;> simp only [Item.set, some.injEq, reduceCtorEq] at h
  all_goals
    subst h
    exact lookup_insertEntry key other value _

theorem Item.fields_of_set {key : Text} (h : item.set key value = some updated) :
    item.fields ≠ none := by
  cases item <;> simp [Item.set, Item.fields] at h ⊢

variable {document : Document}

theorem agree_set (hitem : document.lookup TABLE = some item)
    (hset : item.set UPSTREAM_KEY value = some updated) :
    Agree document (BTreeMap.insertEntry TABLE updated document) where
  others := by
    intro key hkey
    rw [lookup_insertEntry, if_neg hkey]
  fields := by
    intro key hkey
    rw [lookup_insertEntry, if_pos rfl, hitem, bind_some, bind_some,
      Item.get_set hset, if_neg hkey]
  kept := by
    intro other hother hfields
    rw [hitem, some.injEq] at hother
    exact absurd (hother ▸ hfields) (Item.fields_of_set hset)

theorem upstreamOf_set {desired : Text}
    (hset : item.set UPSTREAM_KEY (.string desired) = some updated) :
    upstreamOf (BTreeMap.insertEntry TABLE updated document) =
      (some desired.trim).filter (· ≠ []) := by
  simp [upstreamOf, lookup_insertEntry, Item.get_set hset, Item.asStr]

theorem upstreamOf_eq_none_of_get
    (h : (document.lookup TABLE).bind (·.get UPSTREAM_KEY) = none) : upstreamOf document = none := by
  simp [upstreamOf, h]

theorem agree_clear (document : Document) : Agree document (clearUpstream document) := by
  rw [clearUpstream]
  split
  case h_2 => exact Agree.refl document
  case h_1 fields htable =>
    have hkept : ∀ item, document.lookup TABLE = some item → item.fields = none → False := by
      intro item hitem hnone
      rw [htable, some.injEq] at hitem
      simp [← hitem, Item.fields] at hnone
    have hget : ∀ key, key ≠ UPSTREAM_KEY →
        (removeKey UPSTREAM_KEY fields).lookup key = fields.lookup key := by
      intro key hkey
      rw [lookup_removeKey, if_neg hkey]
    dsimp only
    split_ifs with hempty
    · refine ⟨fun key hkey => ?_, fun key hkey => ?_, fun item hitem hnone =>
        (hkept item hitem hnone).elim⟩
      · rw [lookup_removeKey, if_neg hkey]
      · have hnone : fields.lookup key = none := by
          rw [← hget key hkey, hempty]
          rfl
        simp [lookup_removeKey, htable, Item.get, Item.fields, hnone]
    · refine ⟨fun key hkey => ?_, fun key hkey => ?_, fun item hitem hnone =>
        (hkept item hitem hnone).elim⟩
      · rw [lookup_insertEntry, if_neg hkey]
      · simp [lookup_insertEntry, htable, Item.get, Item.fields, hget key hkey]

theorem upstreamOf_clear_table {fields : List (Text × Item)}
    (htable : document.lookup TABLE = some (.table fields)) :
    upstreamOf (clearUpstream document) = none := by
  apply upstreamOf_eq_none_of_get
  simp only [clearUpstream, htable]
  split_ifs with hempty
  · simp [lookup_removeKey]
  · simp [lookup_insertEntry, Item.get, Item.fields, lookup_removeKey]

theorem clear_of_not_table (h : ∀ fields, document.lookup TABLE ≠ some (.table fields)) :
    clearUpstream document = document := by
  rw [clearUpstream]
  split
  case h_1 fields htable => exact absurd htable (h fields)
  case h_2 => rfl

/-! ## What the scanner picks -/

namespace codeseexInsertOffset

/-- An offset in front of a header line among these lines. -/
def HeaderStart (rawLines : List Text) (offset : ℕ) : Prop :=
  ∃ before line after, rawLines = before ++ line :: after ∧ offset = before.flatten.length ∧
    isHeaderLine line = true

theorem HeaderStart.append {offset : ℕ} (h : HeaderStart rawLines offset) (more : List Text) :
    HeaderStart (rawLines ++ more) offset := by
  obtain ⟨before, line, after, rfl, hoffset, hline⟩ := h
  exact ⟨before, line, after ++ more, by simp, hoffset, hline⟩

/-- The state after some lines: every position that it holds is in front of a header line. -/
structure Scanned (rawLines : List Text) (scan : Scan) : Prop where
  offset : scan.offset = rawLines.flatten.length
  firstTable : ∀ offset, scan.firstTable = some offset → HeaderStart rawLines offset
  providerEnd : ∀ offset, scan.providerEnd = some offset → HeaderStart rawLines offset

theorem scanned_step {scan : Scan} (h : Scanned rawLines scan) (line : Text) :
    Scanned (rawLines ++ [line]) (scanLine scan line) := by
  have hoffset : scan.offset + line.length = (rawLines ++ [line]).flatten.length := by
    simp [h.offset]
  by_cases hline : isHeaderLine line = true
  · have hhere : HeaderStart (rawLines ++ [line]) scan.offset :=
      ⟨rawLines, line, [], rfl, h.offset, hline⟩
    refine ⟨by simpa [scanLine, hline] using hoffset, fun offset hfirst => ?_,
      fun offset hend => ?_⟩
    · cases hold : scan.firstTable with
      | none =>
        have heq : scan.offset = offset := by simpa [scanLine, hline, hold] using hfirst
        exact heq ▸ hhere
      | some first =>
        have heq : first = offset := by simpa [scanLine, hline, hold] using hfirst
        exact heq ▸ (h.firstTable first hold).append [line]
    · cases hinside : scan.insideProvider with
      | true =>
        have heq : scan.offset = offset := by simpa [scanLine, hline, hinside] using hend
        exact heq ▸ hhere
      | false =>
        have hold : scan.providerEnd = some offset := by
          simpa [scanLine, hline, hinside] using hend
        exact (h.providerEnd offset hold).append [line]
  · have hkeep : scanLine scan line = { scan with offset := scan.offset + line.length } := by
      simp [scanLine, hline]
    rw [hkeep]
    exact ⟨hoffset, fun offset hfirst => (h.firstTable offset hfirst).append [line],
      fun offset hend => (h.providerEnd offset hend).append [line]⟩

theorem scanned_run (more : List Text) {scan : Scan} (h : Scanned rawLines scan) :
    Scanned (rawLines ++ more) (more.foldl scanLine scan) := by
  induction more generalizing rawLines scan with
  | nil => simpa using h
  | cons line more ih => simpa using ih (scanned_step h line)

end codeseexInsertOffset

open codeseexInsertOffset in
/-- The new table goes to the end of the text or in front of a header line. -/
theorem insertOffset_cases (text : Text) :
    codeseexInsertOffset text = text.length ∨
      HeaderStart text.splitInclusive (codeseexInsertOffset text) := by
  let start : Scan := ⟨0, none, none, false⟩
  have hstart : Scanned [] start := ⟨rfl, by simp [start], by simp [start]⟩
  have hrun := scanned_run text.splitInclusive hstart
  rw [nil_append] at hrun
  rw [codeseexInsertOffset]
  generalize hscan : text.splitInclusive.foldl scanLine ⟨0, none, none, false⟩ = scan
  rw [show start = ⟨0, none, none, false⟩ from rfl, hscan] at hrun
  split_ifs with hinside
  · exact .inl rfl
  · cases hend : scan.providerEnd with
    | some offset => exact .inr (hrun.providerEnd offset hend)
    | none =>
      cases hfirst : scan.firstTable with
      | some offset => exact .inr (hrun.firstTable offset hfirst)
      | none => exact .inl rfl

/-- Lines in front of another line end with a line feed. -/
theorem rawLines_before {before after : List Text} {line : Text}
    (h : Text.RawLines (before ++ line :: after)) :
    before.flatten = [] ∨ ∃ text, before.flatten = text ++ ['\n'] := by
  induction before with
  | nil => exact .inl rfl
  | cons first before ih =>
    right
    generalize hall : first :: before ++ line :: after = rawLines at h
    cases h with
    | nil => simp at hall
    | last hne hline => simp at hall
    | @cons content rest hline h =>
      simp only [cons_append, cons.injEq] at hall
      obtain ⟨hfirst, hrest⟩ := hall
      rcases ih (hrest ▸ h) with hnil | ⟨text, htext⟩
      · exact ⟨content, by rw [flatten_cons, hfirst, hnil, append_nil]⟩
      · exact ⟨first ++ text, by rw [flatten_cons, htext, append_assoc]⟩

theorem isHeaderLine_append {line : Text} (h : isHeaderLine line = true) (rest : Text) :
    isHeaderLine (line ++ rest) = true := by
  obtain ⟨tail, htail⟩ : ("[" : Text) <+: line.trimStart := by
    simpa [isHeaderLine, startsWith] using h
  have hne : ¬ (line.dropWhile isWhitespace).isEmpty = true := by
    rw [show line.dropWhile isWhitespace = line.trimStart from rfl, ← htail]
    simp [lit]
  have htrim : (line ++ rest).trimStart = line.trimStart ++ rest := by
    rw [trimStart, dropWhile_append, if_neg hne, trimStart]
  rw [isHeaderLine, startsWith, decide_eq_true_eq, htrim, ← htail]
  exact ⟨tail ++ rest, by simp⟩

/-- A place between two parts of a text where a table may be spliced in: behind a line feed and
in front of a header line, or at an end. -/
structure TablePlace (before after : Text) : Prop where
  before : before = [] ∨ (∃ text, before = text ++ ['\n']) ∨ after = []
  after : after = [] ∨ isHeaderLine after = true

theorem insertOffset_place (text : Text) :
    TablePlace (text.take (codeseexInsertOffset text)) (text.drop (codeseexInsertOffset text)) := by
  rcases insertOffset_cases text with hend | ⟨before, line, after, hlines, hoffset, hline⟩
  · rw [hend]
    exact ⟨.inr (.inr (drop_length)), .inl (drop_length)⟩
  · have htext : text = before.flatten ++ (line ++ after.flatten) := by
      have hflat := splitInclusive_flatten text
      rw [hlines] at hflat
      simpa using hflat.symm
    have htake : text.take (codeseexInsertOffset text) = before.flatten := by
      rw [hoffset]
      nth_rewrite 1 [htext]
      simp
    have hdrop : text.drop (codeseexInsertOffset text) = line ++ after.flatten := by
      rw [hoffset]
      nth_rewrite 1 [htext]
      simp
    rw [htake, hdrop]
    refine ⟨?_, .inr (isHeaderLine_append hline _)⟩
    rcases rawLines_before (hlines ▸ rawLines_splitInclusive text) with hnil | hfeed
    · exact .inl hnil
    · exact .inr (.inl hfeed)

/-! ## The editor -/

/-- What the edits rely on of the TOML crates: a printed document parses back to it, and a table
under a new name may stand between the lines of a document in front of a header. -/
structure TomlSound (toml : Toml) : Prop where
  empty : toml.parse [] = some []
  mark : ∀ text document, toml.parse (mark :: text) = some document →
    toml.parse text = some document
  prints_set : ∀ text document item updated value, toml.parse text = some document →
    document.lookup TABLE = some item → item.set UPSTREAM_KEY (.string value) = some updated →
    toml.parse (endLine (toml.print text (BTreeMap.insertEntry TABLE updated document))) =
      some (BTreeMap.insertEntry TABLE updated document)
  prints_clear : ∀ text document, toml.parse text = some document →
    toml.parse (endLine (toml.print text (clearUpstream document))) = some (clearUpstream document)
  splices : ∀ before after value part document, toml.parse before = some part →
    toml.parse (before ++ after) = some document → document.lookup TABLE = none →
    TablePlace before after →
    ∃ spliced, toml.parse (spliceTable toml value before after) = some spliced ∧
      spliced.lookup TABLE = some (.table [(UPSTREAM_KEY, .string value)]) ∧
      ∀ key, key ≠ TABLE → spliced.lookup key = document.lookup key

/-- The document in the file; a missing file holds no key. -/
def documentOf (toml : Toml) : ConfigFile → Option Document
  | .missing => some []
  | .text text => toml.parse (stripMark text)
  | .unreadable _ => none

/-- What reading back has to give. -/
def expectedUpstream (urls : UrlCrate) (value : Text) : Option Text :=
  if desiredUrl urls value = [] then none else some (desiredUrl urls value)

/-- A rewritten file parses, agrees with the old one on every other key and gives the new value
back. In every other case the file is left as it was. -/
def PreservesRest (toml : Toml) (urls : UrlCrate) (file : ConfigFile) (value : Text)
    (outcome : Except UpsertError Bool × ConfigFile) : Prop :=
  match outcome.1 with
  | .ok true => ∃ old new, documentOf toml file = some old ∧ documentOf toml outcome.2 = some new ∧
      Agree old new ∧
      readUpstreamBaseUrlFrom toml outcome.2 = expectedUpstream urls value
  | _ => outcome.2 = file

/-- The text that is edited. -/
def editedText (file : ConfigFile) : Text := stripMark ((readToString file).getD [])

/-- The text with a brand-new table. -/
def splicedText (toml : Toml) (text desired : Text) : Text :=
  spliceTable toml desired (text.take (codeseexInsertOffset text))
    (text.drop (codeseexInsertOffset text))

/-- The document has a place for the key: a table, or none where the new table is accepted. -/
def HasPlace (toml : Toml) (text desired : Text) (document : Document) : Prop :=
  match document.lookup TABLE with
  | some item => item.fields ≠ none
  | none => ∃ spliced, toml.parse (splicedText toml text desired) = some spliced

/-- The new table is put inside a value, where it is accepted: the text in front of it is no
document by itself. -/
structure CutsValue (toml : Toml) (text desired : Text) (document : Document) : Prop where
  brandNew : document.lookup TABLE = none
  accepted : ∃ spliced, toml.parse (splicedText toml text desired) = some spliced
  unfinished : toml.parse (text.take (codeseexInsertOffset text)) = none

/-- The edit removes no value of an inline table, and it writes a value without blank ends
over a file that it could read. -/
structure SafeEdit (toml : Toml) (urls : UrlCrate) (file : ConfigFile) (value : Text)
    (document : Document) : Prop where
  removes : desiredUrl urls value = [] → upstreamOf document ≠ none →
    ∃ fields, document.lookup TABLE = some (.table fields)
  writes : desiredUrl urls value ≠ [] → upstreamOf document ≠ some (desiredUrl urls value) →
    HasPlace toml (editedText file) (desiredUrl urls value) document →
    (∀ bytes, file ≠ .unreadable bytes) ∧ (desiredUrl urls value).trim = desiredUrl urls value

section Edit

variable {toml : Toml} {urls : UrlCrate} {file : ConfigFile} {value : Text} {document : Document}

section
variable (h : TomlSound toml)
include h

theorem parse_stripMark (hparse : toml.parse text = some document) :
    toml.parse (stripMark text) = some document := by
  cases text with
  | nil => exact hparse
  | cons c text =>
    rw [stripMark]
    split_ifs with hmark
    · exact h.mark text document (hmark ▸ hparse)
    · exact hparse

theorem read_text (hparse : toml.parse text = some document) :
    readUpstreamBaseUrlFrom toml (.text text) = upstreamOf document := by
  simp [readUpstreamBaseUrlFrom, readToString, parse_stripMark h hparse]

/-- What was parsed of a readable file, or of a missing one, is its document. -/
theorem documentOf_eq (hparse : toml.parse (editedText file) = some document)
    (hread : ∀ bytes, file ≠ .unreadable bytes) : documentOf toml file = some document := by
  cases file with
  | missing =>
    have hempty : toml.parse [] = some document := hparse
    rw [h.empty] at hempty
    exact hempty
  | text text => exact hparse
  | unreadable bytes => exact absurd rfl (hread bytes)

/-- A file with any key was read. -/
theorem readable_of_lookup
    (hparse : toml.parse (editedText file) = some document) {key : Text} {item : Item}
    (hitem : document.lookup key = some item) : ∀ bytes, file ≠ .unreadable bytes := by
  intro bytes hfile
  subst hfile
  have hempty : toml.parse [] = some document := hparse
  rw [h.empty, some.injEq] at hempty
  subst hempty
  simp at hitem

/-- What a write of a parsable text does for the property. -/
theorem preservesRest_written {new : Document} (hnew : toml.parse output = some new) :
    PreservesRest toml urls file value (.ok true, .text output) ↔
      ∃ old, documentOf toml file = some old ∧ Agree old new ∧
        upstreamOf new = expectedUpstream urls value := by
  have hdocument : documentOf toml (.text output) = some new := parse_stripMark h hnew
  simp only [PreservesRest, hdocument, read_text h hnew, some.injEq]
  constructor
  · rintro ⟨old, other, hold, rfl, hagree, hread⟩
    exact ⟨old, hold, hagree, hread⟩
  · rintro ⟨old, hold, hagree, hread⟩
    exact ⟨old, new, hold, rfl, hagree, hread⟩

end

theorem upstreamOf_trimmed {current : Text} (h : upstreamOf document = some current) :
    current.trim = current := by
  obtain ⟨hmap, -⟩ := filter_eq_some_iff.mp h
  obtain ⟨raw, -, hraw⟩ := map_eq_some_iff.mp hmap
  rw [← hraw, trim_trim]

/-- The trimmed value is the value itself, if the value is not blank. -/
theorem filter_trim_iff {desired : Text} (hne : desired ≠ []) :
    (some desired.trim).filter (· ≠ []) = some desired ↔ desired.trim = desired := by
  rw [filter_eq_some_iff, some.injEq]
  constructor
  · exact fun h => h.1
  · intro h
    refine ⟨h, ?_⟩
    simpa [h] using hne

section
variable (hparse : toml.parse (editedText file) = some document) (writes : Bool)
include hparse

theorem upsert_unchanged (hsame : upstreamOf document = expectedUpstream urls value) :
    upsertUpstreamBaseUrl toml urls writes file value = (.ok false, file) := by
  rw [editedText] at hparse
  by_cases hdesired : desiredUrl urls value = []
  · have hnone : upstreamOf document = none := by rw [hsame, expectedUpstream, if_pos hdesired]
    simp [upsertUpstreamBaseUrl, hparse, hnone, hdesired]
  · have hsome : upstreamOf document = some (desiredUrl urls value) := by
      rw [hsame, expectedUpstream, if_neg hdesired]
    simp [upsertUpstreamBaseUrl, hparse, hsome, hdesired]

theorem upsert_clear
    (hdesired : desiredUrl urls value = []) (hcurrent : upstreamOf document ≠ none) :
    upsertUpstreamBaseUrl toml urls writes file value = writeAtomic writes file
      (endLine (toml.print (editedText file) (clearUpstream document))) := by
  obtain ⟨current, hcurrent⟩ := ne_none_iff_exists'.mp hcurrent
  rw [editedText] at hparse
  simp [upsertUpstreamBaseUrl, hparse, hcurrent, hdesired, editedText]

/-- A new value goes into the table of the document, or into a brand-new one. -/
theorem upsert_write (hdesired : desiredUrl urls value ≠ [])
    (hcurrent : upstreamOf document ≠ some (desiredUrl urls value)) :
    upsertUpstreamBaseUrl toml urls writes file value =
      match document.lookup TABLE with
      | some item =>
          match item.set UPSTREAM_KEY (.string (desiredUrl urls value)) with
          | some item => writeAtomic writes file
              (endLine (toml.print (editedText file) (BTreeMap.insertEntry TABLE item document)))
          | none => (.error .index, file)
      | none =>
          match toml.parse (splicedText toml (editedText file) (desiredUrl urls value)) with
          | none => (.error .parse, file)
          | some _ => writeAtomic writes file
              (splicedText toml (editedText file) (desiredUrl urls value)) := by
  rw [editedText] at hparse
  cases hold : upstreamOf document with
  | none => simp [upsertUpstreamBaseUrl, hparse, hold, hdesired, editedText, splicedText]
  | some current =>
    have hne : current ≠ desiredUrl urls value := fun heq => hcurrent (heq ▸ hold)
    simp [upsertUpstreamBaseUrl, hparse, hold, hdesired, hne, editedText, splicedText]

end

/-- The property of a write that may fail. -/
theorem preservesRest_writeAtomic (writes : Bool) :
    PreservesRest toml urls file value (writeAtomic writes file output) ↔
      (writes = true → PreservesRest toml urls file value (.ok true, .text output)) := by
  cases writes with
  | false => simp [writeAtomic, PreservesRest]
  | true => simp [writeAtomic]

/-- Removing the key succeeds exactly in a table that is not inline. -/
theorem clear_iff (h : TomlSound toml) (hparse : toml.parse (editedText file) = some document)
    (hdesired : desiredUrl urls value = []) (hcurrent : upstreamOf document ≠ none) :
    PreservesRest toml urls file value
        (.ok true, .text (endLine (toml.print (editedText file) (clearUpstream document)))) ↔
      ∃ fields, document.lookup TABLE = some (.table fields) := by
  rw [preservesRest_written h (h.prints_clear _ _ hparse)]
  rw [expectedUpstream, if_pos hdesired]
  constructor
  · rintro ⟨old, hold, hagree, hread⟩
    by_contra hnot
    push Not at hnot
    rw [clear_of_not_table hnot] at hread
    exact hcurrent hread
  · rintro ⟨fields, hfields⟩
    exact ⟨document, documentOf_eq h hparse (readable_of_lookup h hparse hfields),
      agree_clear document, upstreamOf_clear_table hfields⟩

/-- Setting the key in an existing table succeeds exactly for a value without blank ends. -/
theorem set_iff (h : TomlSound toml) (hparse : toml.parse (editedText file) = some document)
    (hdesired : desiredUrl urls value ≠ []) {item updated : Item}
    (hitem : document.lookup TABLE = some item)
    (hset : item.set UPSTREAM_KEY (.string (desiredUrl urls value)) = some updated) :
    PreservesRest toml urls file value (.ok true, .text (endLine (toml.print (editedText file)
        (BTreeMap.insertEntry TABLE updated document)))) ↔
      (desiredUrl urls value).trim = desiredUrl urls value := by
  rw [preservesRest_written h (h.prints_set _ _ _ _ _ hparse hitem hset), upstreamOf_set hset,
    expectedUpstream, if_neg hdesired, filter_trim_iff hdesired]
  constructor
  · rintro ⟨old, hold, hagree, hread⟩
    exact hread
  · intro hread
    exact ⟨document, documentOf_eq h hparse (readable_of_lookup h hparse hitem),
      agree_set hitem hset, hread⟩

/-- What the property says of an accepted brand-new table. -/
theorem splice_safe (h : TomlSound toml) {new : Document} (hnew : toml.parse output = some new)
    (hdesired : desiredUrl urls value ≠ [])
    (hpreserves : PreservesRest toml urls file value (.ok true, .text output)) :
    (∀ bytes, file ≠ .unreadable bytes) ∧ (desiredUrl urls value).trim = desiredUrl urls value := by
  obtain ⟨old, hold, hagree, hread⟩ := (preservesRest_written h hnew).mp hpreserves
  constructor
  · rintro bytes rfl
    cases hold
  · have hsome : expectedUpstream urls value = some (desiredUrl urls value) := if_neg hdesired
    exact upstreamOf_trimmed (hread.trans hsome)

/-- A brand-new table between the lines of a document keeps the rest. -/
theorem splice_preserves (h : TomlSound toml) (hparse : toml.parse (editedText file) = some document)
    (hdesired : desiredUrl urls value ≠ []) (hnone : document.lookup TABLE = none) {part : Document}
    (hpart : toml.parse ((editedText file).take (codeseexInsertOffset (editedText file))) =
      some part) (hread : ∀ bytes, file ≠ .unreadable bytes)
    (htrim : (desiredUrl urls value).trim = desiredUrl urls value) :
    PreservesRest toml urls file value
      (.ok true, .text (splicedText toml (editedText file) (desiredUrl urls value))) := by
  obtain ⟨spliced, hspliced, htable, hothers⟩ := h.splices _ _ (desiredUrl urls value) part document
    hpart (by rwa [take_append_drop]) hnone (insertOffset_place (editedText file))
  refine (preservesRest_written h hspliced).mpr
    ⟨document, documentOf_eq h hparse hread, ⟨hothers, fun key hkey => ?_, ?_⟩, ?_⟩
  · have hmissing : (key == UPSTREAM_KEY) = false := beq_false_of_ne hkey
    simp [htable, hnone, Item.get, Item.fields, lookup_cons, hmissing]
  · simp [hnone]
  · rw [expectedUpstream, if_neg hdesired]
    simp [upstreamOf, htable, Item.get, Item.fields, Item.asStr, htrim, hdesired]

/-- A document that already says what is desired is left alone, and it is edited safely. -/
theorem safeEdit_of_same (hsame : upstreamOf document =
    expectedUpstream urls value) : SafeEdit toml urls file value document where
  removes := by
    intro hdesired hcurrent
    rw [expectedUpstream, if_pos hdesired] at hsame
    exact absurd hsame hcurrent
  writes := by
    intro hdesired hcurrent
    rw [expectedUpstream, if_neg hdesired] at hsame
    exact absurd hsame hcurrent

/-- The property of an edit of a document: it holds for a safe one, unless a new table is put
inside a value, and it holds for no other. -/
theorem upsert_document (h : TomlSound toml) (hparse : toml.parse (editedText file) = some document)
    (writes : Bool) :
    let outcome := upsertUpstreamBaseUrl toml urls writes file value
    ((writes = true → SafeEdit toml urls file value document ∧
      ¬ CutsValue toml (editedText file) (desiredUrl urls value) document) →
        PreservesRest toml urls file value outcome) ∧
    (PreservesRest toml urls file value outcome → writes = true →
      SafeEdit toml urls file value document) := by
  intro outcome
  by_cases hsame : upstreamOf document = expectedUpstream urls value
  · rw [show outcome = (.ok false, file) from upsert_unchanged hparse writes hsame]
    exact ⟨fun _ => rfl, fun _ _ => safeEdit_of_same hsame⟩
  by_cases hdesired : desiredUrl urls value = []
  · have hcurrent : upstreamOf document ≠ none := by
      rwa [expectedUpstream, if_pos hdesired] at hsame
    rw [show outcome = _ from upsert_clear hparse writes hdesired hcurrent,
      preservesRest_writeAtomic, clear_iff h hparse hdesired hcurrent]
    constructor
    · exact fun hsafe hwrites => (hsafe hwrites).1.removes hdesired hcurrent
    · exact fun htable hwrites => ⟨fun _ _ => htable hwrites, fun hne => absurd hdesired hne⟩
  · have hcurrent : upstreamOf document ≠ some (desiredUrl urls value) := by
      rwa [expectedUpstream, if_neg hdesired] at hsame
    -- The value that is written decides, where the document has a place for it.
    have hsafe : (HasPlace toml (editedText file) (desiredUrl urls value) document →
        (∀ bytes, file ≠ .unreadable bytes) ∧
          (desiredUrl urls value).trim = desiredUrl urls value) →
        SafeEdit toml urls file value document :=
      fun hwrites => ⟨fun hnil => absurd hnil hdesired, fun _ _ => hwrites⟩
    rw [show outcome = _ from upsert_write hparse writes hdesired hcurrent]
    cases hitem : document.lookup TABLE with
    | some item =>
      cases hset : item.set UPSTREAM_KEY (.string (desiredUrl urls value)) with
      | none =>
        have hfields : item.fields = none := by
          cases item <;> simp [Item.set, Item.fields] at hset ⊢
        simp only [hset]
        exact ⟨fun _ => rfl, fun _ _ => hsafe fun hplace => by simp [HasPlace, hitem, hfields] at hplace⟩
      | some updated =>
        have hplace : HasPlace toml (editedText file) (desiredUrl urls value) document := by
          simpa [HasPlace, hitem] using Item.fields_of_set hset
        simp only [hset]
        rw [preservesRest_writeAtomic, set_iff h hparse hdesired hitem hset]
        constructor
        · exact fun hedit hwrites => ((hedit hwrites).1.writes hdesired hcurrent hplace).2
        · exact fun htrim hwrites => hsafe fun _ =>
            ⟨readable_of_lookup h hparse hitem, htrim hwrites⟩
    | none =>
      cases hspliced : toml.parse (splicedText toml (editedText file) (desiredUrl urls value)) with
      | none =>
        refine ⟨fun _ => rfl, fun _ _ => hsafe fun hplace => ?_⟩
        simp [HasPlace, hitem, hspliced] at hplace
      | some spliced =>
        have hplace : HasPlace toml (editedText file) (desiredUrl urls value) document := by
          simp [HasPlace, hitem, hspliced]
        rw [preservesRest_writeAtomic]
        constructor
        · intro hedit hwrites
          obtain ⟨hread, htrim⟩ := (hedit hwrites).1.writes hdesired hcurrent hplace
          cases hpart : toml.parse
              ((editedText file).take (codeseexInsertOffset (editedText file))) with
          | none => exact absurd ⟨hitem, ⟨spliced, hspliced⟩, hpart⟩ (hedit hwrites).2
          | some part => exact splice_preserves h hparse hdesired hitem hpart hread htrim
        · exact fun hpreserves hwrites => hsafe fun _ =>
            splice_safe h hspliced hdesired (hpreserves hwrites)

end Edit

/-- An edit of the configuration keeps every other key, and gives the new value back, when it is
safe and no new table is put inside a value; and it does so for safe edits only. A file that is
not rewritten is left as it was. -/
theorem upsert_preserves_rest (toml : Toml) (h : TomlSound toml) (urls : UrlCrate) (writes : Bool)
    (file : ConfigFile) (value : Text) :
    let outcome := upsertUpstreamBaseUrl toml urls writes file value
    ((∀ document, toml.parse (editedText file) = some document → writes = true →
      SafeEdit toml urls file value document ∧
        ¬ CutsValue toml (editedText file) (desiredUrl urls value) document) →
        PreservesRest toml urls file value outcome) ∧
    (PreservesRest toml urls file value outcome →
      ∀ document, toml.parse (editedText file) = some document → writes = true →
        SafeEdit toml urls file value document) := by
  intro outcome
  cases hparse : toml.parse (editedText file) with
  | none =>
    have hfailed : outcome = (.error .parse, file) := by
      rw [editedText] at hparse
      simp [outcome, upsertUpstreamBaseUrl, hparse]
    rw [hfailed]
    exact ⟨fun _ => rfl, fun _ document hsome => by simp at hsome⟩
  | some document =>
    obtain ⟨hsufficient, hnecessary⟩ :=
      @upsert_document toml urls file value document h hparse writes
    refine ⟨fun hsafe => hsufficient (hsafe document rfl), fun hpreserves other hother => ?_⟩
    rw [some.injEq] at hother
    exact hother ▸ hnecessary hpreserves

/-! ## Files that hold at most the override -/

namespace Plain

def blank (c : Char) : Bool := c = ' ' || c = '\t' || c = '\n'

def header : Text := "[codeseex]\nupstream_base_url = \""

def overrideOnly (value : Text) : Document := [(TABLE, .table [(UPSTREAM_KEY, .string value)])]

def overrideText (value : Text) : Text := header ++ (value ++ "\"\n")

def parse (text : Text) : Option Document :=
  let rest : Text := text.dropWhile blank
  if rest = [] then some []
  else if startsWith rest header && endsWith (rest.drop header.length) "\"\n" then
    some (overrideOnly ((rest.drop header.length).take ((rest.drop header.length).length - 2)))
  else none

def literal (value : Text) : Text := '"' :: value ++ ['"']

def print (_ : Text) (document : Document) : Text :=
  match document with
  | [(_, .table [(_, .string value)])] => overrideText value
  | _ => []

/-- A reader and printer of files that are blank or hold the override alone. -/
def toml : Toml := { parse, print, literal }

def relay : Text := "https://relay.example.com/v1"

def urls : UrlCrate where
  parse raw :=
    if raw = relay then
      some { scheme := "https", host := some "relay.example.com", portOrKnownDefault := some 443
             username := [], password := none, path := "/v1", query := none, fragment := none }
    else if raw = "https://api.deepseek.com/" then
      some { scheme := "https", host := some "api.deepseek.com", portOrKnownDefault := some 443
             username := [], password := none, path := "/", query := none, fragment := none }
    else none
  toText url := url.scheme ++ "://" ++ url.host.getD [] ++ url.path

theorem dropWhile_blanks {blanks : Text} (hblanks : ∀ c ∈ blanks, blank c = true) (rest : Text) :
    (blanks ++ rest).dropWhile blank = rest.dropWhile blank := by
  rw [dropWhile_append, dropWhile_eq_nil_iff.mpr hblanks]
  rfl

theorem parse_override {blanks : Text} (hblanks : ∀ c ∈ blanks, blank c = true) (value : Text) :
    parse (blanks ++ overrideText value) = some (overrideOnly value) := by
  have hrest : (blanks ++ overrideText value).dropWhile blank = header ++ (value ++ "\"\n") := by
    rw [dropWhile_blanks hblanks]
    rfl
  have hstarts : startsWith (header ++ (value ++ "\"\n")) header = true := by
    simp [startsWith]
  have hends : endsWith (value ++ ("\"\n" : Text)) "\"\n" = true := by
    simp [endsWith]
  have hlength : (value ++ ("\"\n" : Text)).length - 2 = value.length := by
    simp [lit]
  have hne : header ++ (value ++ ("\"\n" : Text)) ≠ [] := by simp [header]
  simp only [parse, hrest, if_neg hne, hstarts, drop_left, hends, Bool.and_self, if_true,
    hlength, take_left]

/-- What was parsed is blank or the override alone. -/
theorem parse_cases {document : Document} (h : parse text = some document) :
    (document = [] ∧ ∀ c ∈ text, blank c = true) ∨ ∃ value, document = overrideOnly value := by
  rw [parse] at h
  split_ifs at h with hnil hrest
  · exact .inl ⟨(some.inj h).symm, dropWhile_eq_nil_iff.mp hnil⟩
  · exact .inr ⟨_, (some.inj h).symm⟩

theorem endLine_override (blanks value : Text) :
    endLine (blanks ++ overrideText value) = blanks ++ overrideText value := by
  have hends : endsWith (blanks ++ overrideText value) "\n" = true := by
    rw [endsWith, decide_eq_true_eq]
    exact ⟨blanks ++ (header ++ (value ++ ['"'])), by simp [overrideText, lit]⟩
  rw [endLine, if_pos hends]

theorem isHeaderLine_of_blank (h : ∀ c ∈ text, blank c = true) :
    isHeaderLine text = false := by
  have htrim : text.trimStart = [] := by
    refine dropWhile_eq_nil_iff.mpr fun c hc => ?_
    have hblank := h c hc
    simp only [blank, Bool.or_eq_true, decide_eq_true_eq] at hblank
    rcases hblank with (rfl | rfl) | rfl <;> decide
  simp [isHeaderLine, htrim, startsWith, lit]

theorem toml_sound : TomlSound toml where
  empty := rfl
  mark := by
    intro text document h
    have hnot : parse (mark :: text) = none := by
      have hdrop : (mark :: text).dropWhile blank = mark :: text := by
        simp [blank, mark]
      have hstarts : startsWith (mark :: text) header = false := by
        simp [startsWith, header, lit, mark]
      simp [parse, hdrop, hstarts]
    rw [show toml.parse = parse from rfl, hnot] at h
    cases h
  prints_set := by
    intro text document item updated value hparse hitem hset
    rcases parse_cases hparse with ⟨rfl, -⟩ | ⟨old, rfl⟩
    · simp at hitem
    · have htable : Item.table [(UPSTREAM_KEY, .string old)] = item := by
        simpa [overrideOnly, lookup_cons] using hitem
      subst htable
      have hupdated : Item.table [(UPSTREAM_KEY, .string value)] = updated := by
        simpa [Item.set, BTreeMap.insertEntry] using hset
      subst hupdated
      have hdocument : BTreeMap.insertEntry TABLE (.table [(UPSTREAM_KEY, .string value)])
          (overrideOnly old) = overrideOnly value := by
        simp [overrideOnly, BTreeMap.insertEntry]
      show parse (endLine ([] ++ overrideText value)) = some (overrideOnly value)
      rw [endLine_override]
      exact parse_override (fun c hc => absurd hc not_mem_nil) value
  prints_clear := by
    intro text document hparse
    have hclear : clearUpstream document = [] := by
      rcases parse_cases hparse with ⟨rfl, -⟩ | ⟨old, rfl⟩
      · rfl
      · simp [clearUpstream, overrideOnly, removeKey]
    rw [hclear]
    rfl
  splices := by
    intro before after value part document hbefore hdocument hnone hplace
    rcases parse_cases hdocument with ⟨rfl, hblank⟩ | ⟨old, rfl⟩
    · have hafter : after = [] := hplace.after.resolve_right (by
        rw [isHeaderLine_of_blank fun c hc => hblank c (mem_append_right before hc)]
        exact Bool.false_ne_true)
      subst hafter
      obtain ⟨blanks, hblanks, houtput⟩ : ∃ blanks : Text, (∀ c ∈ blanks, blank c = true) ∧
          (if before ≠ [] ∧ ¬ endsWith before "\n" = true then before ++ ['\n'] else before) ++
            ['\n'] = blanks := by
        refine ⟨_, ?_, rfl⟩
        intro c hc
        split_ifs at hc <;> simp only [mem_append, mem_singleton] at hc <;> grind [blank]
      refine ⟨overrideOnly value, ?_, by simp [overrideOnly], fun key hkey => ?_⟩
      · have hblock : codeseexTableBlock toml value = overrideText value := by
          simp [codeseexTableBlock, toml, literal, overrideText, header, TABLE, UPSTREAM_KEY,
            lit]
        rw [spliceTable, houtput, hblock, append_nil, endLine_override]
        exact parse_override hblanks value
      · have hmissing : (key == TABLE) = false := beq_false_of_ne hkey
        simp [overrideOnly, lookup_cons, hmissing]
    · simp [overrideOnly] at hnone

theorem relay_ne_nil : desiredUrl urls relay ≠ [] := by decide +kernel

end Plain

/-- A new value in a table that is there already. -/
theorem upsert_preserves_rest_plain :
    let file := ConfigFile.text (Plain.overrideText "https://old.example.com")
    PreservesRest Plain.toml Plain.urls file Plain.relay
      (upsertUpstreamBaseUrl Plain.toml Plain.urls true file Plain.relay) := by
  intro file
  refine (upsert_preserves_rest Plain.toml Plain.toml_sound Plain.urls true file Plain.relay).1 ?_
  intro document hparse _
  have hold : Plain.toml.parse (editedText file) =
      some (Plain.overrideOnly "https://old.example.com") :=
    Plain.parse_override (fun c hc => absurd hc not_mem_nil) "https://old.example.com"
  rw [hold, some.injEq] at hparse
  subst hparse
  refine ⟨⟨fun hnil => absurd hnil Plain.relay_ne_nil, fun _ _ _ => ⟨by simp [file], ?_⟩⟩,
    fun hcut => ?_⟩
  · decide +kernel
  · simpa [Plain.overrideOnly] using hcut.brandNew

/-- A file that cannot be read is taken for an empty one and replaced. -/
theorem upsert_replaces_unreadable : TomlSound Plain.toml ∧
    ¬ PreservesRest Plain.toml Plain.urls (.unreadable [0xFF]) Plain.relay
      (upsertUpstreamBaseUrl Plain.toml Plain.urls true (.unreadable [0xFF]) Plain.relay) := by
  refine ⟨Plain.toml_sound, fun hpreserves => ?_⟩
  have hparse : Plain.toml.parse (editedText (.unreadable [0xFF])) = some [] := rfl
  obtain ⟨spliced, hspliced, -⟩ := Plain.toml_sound.splices [] [] (desiredUrl Plain.urls Plain.relay)
    [] [] rfl rfl rfl ⟨.inl rfl, .inl rfl⟩
  have hwritten := @upsert_write Plain.toml Plain.urls (.unreadable [0xFF]) Plain.relay [] hparse true
    Plain.relay_ne_nil (by simp [upstreamOf])
  have haccepted : Plain.toml.parse (splicedText Plain.toml (editedText (.unreadable [0xFF]))
      (desiredUrl Plain.urls Plain.relay)) = some spliced := hspliced
  simp only [lookup_nil, haccepted, writeAtomic, if_true] at hwritten
  obtain ⟨old, new, hold, -⟩ := hpreserves
  cases hold

end CodeSeeX.CodexConfig
