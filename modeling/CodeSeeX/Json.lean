import CodeSeeX.Text

/-!
# JSON values

The `serde_json::Value` tree with the accessors and the compact printer that the
repository uses. An object is its list of fields; `Map` keeps them in key order.
-/
namespace CodeSeeX
open List

/-- A finite binary64 number `mantissa * 2 ^ exponent`. The shortest decimal text that the
printer chooses for it is carried along, as the printing crate is not in the repository. -/
structure Double where
  mantissa : Int
  exponent : Int
  shortest : Text
  shortest_chars : ∀ c ∈ shortest, c.isDigit ∨ c ∈ ['+', '-', '.', 'e']

namespace Double

/-- `value as u64` for a non-negative finite value: truncation, saturating at the top. -/
def toU64? (d : Double) : Option ℕ :=
  if d.mantissa < 0 then none
  else if 0 ≤ d.exponent then
    some (min (d.mantissa.toNat * 2 ^ d.exponent.toNat) (2 ^ 64 - 1))
  else some (min (d.mantissa.toNat / 2 ^ (-d.exponent).toNat) (2 ^ 64 - 1))

end Double

inductive Number where
  | posInt (n : UInt64)
  | negInt (n : Int64)
  | float (d : Double)

inductive Value where
  | null
  | bool (b : Bool)
  | number (n : Number)
  | string (s : Text)
  | array (items : List Value)
  | object (fields : List (Text × Value))

instance : Inhabited Value := ⟨.null⟩

namespace Value

def get (v : Value) (key : Text) : Option Value :=
  match v with
  | object fields => fields.lookup key
  | _ => none

def asStr : Value → Option Text
  | string s => some s
  | _ => none

def asBool : Value → Option Bool
  | bool b => some b
  | _ => none

def asArray : Value → Option (List Value)
  | array items => some items
  | _ => none

def asObject : Value → Option (List (Text × Value))
  | object fields => some fields
  | _ => none

def asU64 : Value → Option ℕ
  | number (.posInt n) => some n.toNat
  | _ => none

/-- `value.get(key).and_then(Value::as_str)` -/
def getStr (v : Value) (key : Text) : Option Text := (v.get key).bind asStr

/-- The array index of a reference token: digits without a leading zero. -/
def parseIndex (token : Text) : Option ℕ :=
  if token = [] ∨ token.any (fun c => !c.isDigit) ∨ (token.head? = some '0' ∧ token.length ≠ 1)
  then none
  else some (token.foldl (fun n c => n * 10 + (c.toNat - '0'.toNat)) 0)

/-- `value.pointer("/a/b")`, the reference tokens given as a list. -/
def pointer (v : Value) : List Text → Option Value
  | [] => some v
  | token :: tokens =>
      match v with
      | object fields => (fields.lookup token).bind fun w => pointer w tokens
      | array items => (parseIndex token).bind fun i => (items[i]?).bind fun w => pointer w tokens
      | _ => none

/-- `Map::insert` on fields kept in key order. -/
def insertField (key : Text) (value : Value) : List (Text × Value) → List (Text × Value)
  | [] => [(key, value)]
  | (k, v) :: fields =>
      if k = key then (key, value) :: fields
      else if key < k then (key, value) :: (k, v) :: fields
      else (k, v) :: insertField key value fields

@[simp] theorem lookup_insertField_self (key : Text) (value : Value)
    (fields : List (Text × Value)) : (insertField key value fields).lookup key = some value := by
  induction fields with
  | nil => simp [insertField]
  | cons first fields ih =>
    obtain ⟨k, v⟩ := first
    simp only [insertField]
    split_ifs with heq hlt
    · simp
    · simp
    · rw [lookup_cons, beq_eq_false_iff_ne.mpr (Ne.symm heq)]
      exact ih

theorem lookup_insertField_ne {key other : Text} (h : other ≠ key) (value : Value)
    (fields : List (Text × Value)) :
    (insertField key value fields).lookup other = fields.lookup other := by
  have hkey : (other == key) = false := beq_eq_false_iff_ne.mpr h
  induction fields with
  | nil => simp [insertField, h]
  | cons first fields ih =>
    obtain ⟨k, v⟩ := first
    simp only [insertField]
    split_ifs with heq hlt
    · subst heq
      simp [lookup_cons, hkey]
    · rw [lookup_cons, hkey]
    · rw [lookup_cons, lookup_cons, ih]

theorem insertField_insertField (key : Text) (value earlier : Value)
    (fields : List (Text × Value)) :
    insertField key value (insertField key earlier fields) = insertField key value fields := by
  induction fields with
  | nil => simp [insertField]
  | cons first fields ih =>
    obtain ⟨k, v⟩ := first
    by_cases heq : k = key
    · simp [insertField, heq]
    · by_cases hlt : key < k
      · simp [insertField, heq, hlt]
      · simp [insertField, heq, hlt, ih]

/-- On fields in key order, inserting what is there changes nothing. -/
theorem insertField_of_lookup {key : Text} {value : Value} {fields : List (Text × Value)}
    (hsorted : (fields.map Prod.fst).Pairwise (· < ·)) (h : fields.lookup key = some value) :
    insertField key value fields = fields := by
  induction fields with
  | nil => simp at h
  | cons first fields ih =>
    obtain ⟨k, v⟩ := first
    rw [map_cons, pairwise_cons] at hsorted
    by_cases heq : k = key
    · subst heq
      obtain rfl : v = value := by simpa using h
      simp [insertField]
    · have hkey : (key == k) = false := beq_eq_false_iff_ne.mpr (Ne.symm heq)
      rw [lookup_cons, hkey] at h
      have hmem : key ∈ fields.map Prod.fst := by
        obtain ⟨before, after, hsplit, _⟩ := lookup_eq_some_iff.mp h
        simp [hsplit]
      have hlt : ¬ key < k := fun hlt => lt_asymm hlt (hsorted.1 key hmem)
      simp [insertField, heq, hlt, ih hsorted.2 h]

/-- `value[key] = field`: an object gets the field and null becomes an object; any other value
panics. -/
def setIndex (v : Value) (key : Text) (field : Value) : Option Value :=
  match v with
  | object fields => some (object (insertField key field fields))
  | null => some (object [(key, field)])
  | _ => none

/-- `value[key] = field` on an object. -/
def set (v : Value) (key : Text) (field : Value) : Value := (v.setIndex key field).getD v

theorem get_set_self (fields : List (Text × Value)) (key : Text) (field : Value) :
    ((object fields).set key field).get key = some field :=
  lookup_insertField_self key field fields

theorem get_set_ne {v : Value} {key other : Text} (h : other ≠ key) (field : Value) :
    (v.set key field).get other = v.get other := by
  cases v with
  | object fields => exact lookup_insertField_ne h field fields
  | null =>
    have hkey : (other == key) = false := beq_eq_false_iff_ne.mpr h
    simp [set, setIndex, get, lookup_cons, hkey]
  | bool b => rfl
  | number n => rfl
  | string s => rfl
  | array items => rfl

/-- The escape that a character gets inside a JSON string. -/
def escapeChar (c : Char) : Text :=
  if c = '"' then "\\\""
  else if c = '\\' then "\\\\"
  else if c.toNat = 8 then "\\b"
  else if c.toNat = 9 then "\\t"
  else if c.toNat = 10 then "\\n"
  else if c.toNat = 12 then "\\f"
  else if c.toNat = 13 then "\\r"
  else if c.toNat < 32 then ("\\u" : Text) ++ (Nat.toDigits 16 c.toNat).leftpad 4 '0'
  else [c]

def quote (s : Text) : Text := ['"'] ++ s.flatMap escapeChar ++ ['"']

def numberText : Number → Text
  | .posInt n => Text.ofNat n.toNat
  | .negInt n => (toString n.toInt).toList
  | .float d => d.shortest

mutual
/-- `value.to_string()`, the compact form. -/
def print : Value → Text
  | null => "null"
  | bool true => "true"
  | bool false => "false"
  | number n => numberText n
  | string s => quote s
  | array items => ['['] ++ Text.join [','] (printItems items) ++ [']']
  | object fields => ['{'] ++ Text.join [','] (printFields fields) ++ ['}']

def printItems : List Value → List Text
  | [] => []
  | v :: vs => print v :: printItems vs

def printFields : List (Text × Value) → List Text
  | [] => []
  | (k, v) :: fields => (quote k ++ [':'] ++ print v) :: printFields fields
end

end Value
end CodeSeeX
