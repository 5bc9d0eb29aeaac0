import FlinkExplorer.Lib.Text

namespace FlinkExplorer

open Lib

/-!
# `serde_json::Value` as this crate uses it

* `Json` — a value.  An integer is kept as it is; a floating point number is kept as the text
  it prints as, since nothing in the crate computes with it;
* `FloatText` — `Number::from_f32` and `Number::from_f64` followed by printing.  They belong to
  the standard library and to serde_json: the model takes them as a parameter, `none` standing
  for a number that has no JSON form;
* `objInsert` — an object is a `BTreeMap`: sorted by key, one value for each key;
* `jsonText` — compact printing (`Value::to_string`).
-/

/-- A JSON number: an integer, or a float by its printed form. -/
inductive Number
  | int (v : Int)
  | float (text : Text)
  deriving DecidableEq

/-- A JSON value. -/
inductive Json
  | null
  | bool (b : Bool)
  | number (n : Number)
  | string (s : Text)
  | array (items : List Json)
  | object (members : List (Text × Json))

/-- The printed form of a float, by its bits; `none` when it has no JSON form. -/
structure FloatText where
  fromF32 : UInt32 → Option Text
  fromF64 : UInt64 → Option Text

/-- `json!` of an integer. -/
def Json.int (v : Int) : Json := .number (.int v)

/-- `json!` of a float: `Value::Null` when it has no JSON form. -/
def Json.float (text : Option Text) : Json := text.elim .null fun t => .number (.float t)

/-- Lexicographic order by scalar value, which is the byte order of UTF-8. -/
def textLt : Text → Text → Bool
  | _, [] => false
  | [], _ :: _ => true
  | a :: as, b :: bs => a.toNat < b.toNat || (a == b && textLt as bs)

/-- `Map::insert`: replaces the value of a key that is already there. -/
def objInsert (key : Text) (value : Json) : List (Text × Json) → List (Text × Json)
  | [] => [(key, value)]
  | (k, v) :: rest =>
    if key = k then (k, value) :: rest
    else if textLt key k then (key, value) :: (k, v) :: rest
    else (k, v) :: objInsert key value rest

/-- The value of a key in an object. -/
def objGet (key : Text) : List (Text × Json) → Option Json
  | [] => none
  | (k, v) :: ms => if k = key then some v else objGet key ms

theorem objGet_objInsert (key k : Text) (v : Json) (ms : List (Text × Json)) :
    objGet key (objInsert k v ms) = if k = key then some v else objGet key ms := by
  induction ms with
  | nil => rfl
  | cons m ms ih =>
    obtain ⟨l, w⟩ := m
    unfold objInsert
    by_cases hkl : k = l
    · subst hkl
      rw [if_pos rfl]
      by_cases hk : k = key
      · rw [objGet, if_pos hk, if_pos hk]
      · rw [objGet, objGet, if_neg hk, if_neg hk, if_neg hk]
    · rw [if_neg hkl]
      by_cases hlt : textLt k l = true
      · rw [if_pos hlt]
        rfl
      · rw [if_neg hlt, objGet, objGet, ih]
        by_cases hl : l = key
        · rw [if_pos hl, if_pos hl, if_neg fun hk => hkl (hk.trans hl.symm)]
        · rw [if_neg hl, if_neg hl]

/-! ### Compact printing -/

/-- How a character prints inside a JSON string. -/
def escapeChar (c : Char) : Text :=
  if c = '"' then ['\\', '"']
  else if c = '\\' then ['\\', '\\']
  else if c.toNat = 0x08 then ['\\', 'b']
  else if c.toNat = 0x0C then ['\\', 'f']
  else if c.toNat = 0x0A then ['\\', 'n']
  else if c.toNat = 0x0D then ['\\', 'r']
  else if c.toNat = 0x09 then ['\\', 't']
  else if c.toNat < 0x20 then ['\\', 'u', '0', '0'] ++ hexByte (UInt8.ofNat c.toNat)
  else [c]

/-- A JSON string, quoted and escaped. -/
def quoted (s : Text) : Text := '"' :: s.flatMap escapeChar ++ ['"']

/-- `Number::to_string`. -/
def numberText : Number → Text
  | .int v => intText v
  | .float t => t

/-- `bool::to_string`. -/
def boolText (b : Bool) : Text := if b then "true".toList else "false".toList

/-- A character of a printed number. -/
def isNumberChar (c : Char) : Bool :=
  c.isDigit || c == '.' || c == '-' || c == '+' || c == 'e' || c == 'E'

theorem isNumberChar_of_mem_intText {v : Int} {c : Char} (h : c ∈ intText v) :
    isNumberChar c = true := by
  rcases digit_or_minus_of_mem_intText h with hd | rfl
  · simp [isNumberChar, hd]
  · decide

mutual

/-- `Value::to_string`: compact JSON. -/
def jsonText : Json → Text
  | .null => "null".toList
  | .bool b => boolText b
  | .number n => numberText n
  | .string s => quoted s
  | .array items => '[' :: itemsText items ++ [']']
  | .object members => '{' :: membersText members ++ ['}']

/-- The elements of an array, separated by commas. -/
def itemsText : List Json → Text
  | [] => []
  | [v] => jsonText v
  | v :: w :: vs => jsonText v ++ ',' :: itemsText (w :: vs)

/-- The members of an object, separated by commas. -/
def membersText : List (Text × Json) → Text
  | [] => []
  | [(k, v)] => quoted k ++ ':' :: jsonText v
  | (k, v) :: m :: ms => quoted k ++ ':' :: jsonText v ++ ',' :: membersText (m :: ms)

end

end FlinkExplorer
