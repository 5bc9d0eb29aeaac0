import FlinkExplorer.Parser.Json

namespace FlinkExplorer

open Lib

/-!
# Reading JSON back

`parseJson` reads a JSON text; the members of an object are inserted in order, so a later one
replaces an earlier one of the same key.

* `Json.Canonical` — what a `Value` always is: the members of its objects are in order, and its
  floats print as JSON numbers that are no integers;
* `parseString_escaped`, `parseNumber_numberText` — a string and a number are read back;
* `parseMembers_membersText` — members in any order are inserted one by one;
* `parseJson_jsonText` — a canonical value is read back from what it prints as.
-/

/-! ### The reader -/

/-- A blank of JSON. -/
def isJsonSpace (c : Char) : Bool := c == ' ' || c == '\n' || c == '\t' || c == '\r'

def skipSpace (t : Text) : Text := t.dropWhile isJsonSpace

/-- Decimal digits without a leading zero. -/
def isPlainDigits (t : Text) : Bool := t.all Char.isDigit && natText (digitsValue t) == t

/-- Decimal digits, at least one. -/
def isDigits (t : Text) : Bool := !t.isEmpty && t.all Char.isDigit

/-- A text without its minus. -/
def unsigned (t : Text) : Text := (stripPrefix ['-'] t).getD t

/-- The exponent of a number, with its sign. -/
def isExponent (t : Text) : Bool :=
  isDigits t || (stripPrefix ['-'] t).any isDigits || (stripPrefix ['+'] t).any isDigits

/-- A JSON number with a fraction, an exponent or both. -/
def isFloatText (t : Text) : Bool :=
  let whole := (unsigned t).takeWhile Char.isDigit
  let rest := (unsigned t).dropWhile Char.isDigit
  isPlainDigits whole && (match rest with
    | '.' :: rest =>
      let fraction := rest.takeWhile Char.isDigit
      isDigits fraction && (match rest.dropWhile Char.isDigit with
        | [] => true
        | e :: exponent => (e == 'e' || e == 'E') && isExponent exponent)
    | e :: exponent => (e == 'e' || e == 'E') && isExponent exponent
    | [] => false)

/-- The number a text is, if it is one. -/
def numberOf (t : Text) : Option Number :=
  if isPlainDigits (unsigned t) then
    let n := digitsValue (unsigned t)
    some (.int (if "-".toList.isPrefixOf t then -n else n))
  else if isFloatText t then some (.float t)
  else none

def parseNumber (t : Text) : Option (Json × Text) :=
  (numberOf (t.takeWhile isNumberChar)).map fun n => (.number n, t.dropWhile isNumberChar)

/-- The value of four hexadecimal digits. -/
def hexQuad (a b c d : Char) : Option Nat :=
  if isHexDigit a && isHexDigit b && isHexDigit c && isHexDigit d then
    some (((hexValue a * 16 + hexValue b) * 16 + hexValue c) * 16 + hexValue d)
  else none

/-- The character of an escape of one letter. -/
def simpleEscape (c : Char) : Option Char :=
  if c = '"' ∨ c = '\\' ∨ c = '/' then some c
  else if c = 'b' then some (Char.ofNat 0x08)
  else if c = 'f' then some (Char.ofNat 0x0C)
  else if c = 'n' then some (Char.ofNat 0x0A)
  else if c = 'r' then some (Char.ofNat 0x0D)
  else if c = 't' then some (Char.ofNat 0x09)
  else none

/-- A string after its opening quote. -/
def parseString : Text → Option (Text × Text)
  | [] => none
  | c :: t =>
    if c = '"' then some ([], t)
    else if c = '\\' then
      match t with
      | [] => none
      | e :: t =>
        if e = 'u' then
          match t with
          | a :: b :: c :: d :: t =>
            match hexQuad a b c d with
            | none => none
            | some u =>
              if 0xD800 ≤ u ∧ u < 0xDC00 then
                -- a pair of surrogates is one character
                match t with
                | '\\' :: 'u' :: a :: b :: c :: d :: t =>
                  match hexQuad a b c d with
                  | none => none
                  | some v =>
                    if 0xDC00 ≤ v ∧ v < 0xE000 then
                      (parseString t).map fun r =>
                        (Char.ofNat (0x10000 + (u - 0xD800) * 0x400 + (v - 0xDC00)) :: r.1, r.2)
                    else none
                | _ => none
              else if 0xDC00 ≤ u ∧ u < 0xE000 then none
              else (parseString t).map fun r => (Char.ofNat u :: r.1, r.2)
          | _ => none
        else
          match simpleEscape e with
          | none => none
          | some x => (parseString t).map fun r => (x :: r.1, r.2)
    else if c.toNat < 0x20 then none
    else (parseString t).map fun r => (c :: r.1, r.2)

section Containers

variable (value : Text → Option (Json × Text))

/-- The elements of an array that is not empty, to its bracket. -/
def parseItems : Nat → Text → Option (List Json × Text)
  | 0, _ => none
  | turns + 1, t => do
    let (v, t) ← value t
    match skipSpace t with
    | ']' :: t => some ([v], t)
    | ',' :: t => (parseItems turns t).map fun r => (v :: r.1, r.2)
    | _ => none

/-- A member of an object. -/
def parseMember (t : Text) : Option ((Text × Json) × Text) :=
  match skipSpace t with
  | '"' :: t => do
    let (k, t) ← parseString t
    match skipSpace t with
    | ':' :: t => (value t).map fun r => ((k, r.1), r.2)
    | _ => none
  | _ => none

/-- The members of an object that is not empty, to its brace, inserted into `obj`. -/
def parseMembers : Nat → List (Text × Json) → Text → Option (List (Text × Json) × Text)
  | 0, _, _ => none
  | turns + 1, obj, t => do
    let (m, t) ← parseMember value t
    match skipSpace t with
    | '}' :: t => some (objInsert m.1 m.2 obj, t)
    | ',' :: t => parseMembers turns (objInsert m.1 m.2 obj) t
    | _ => none

end Containers

/-- A value, and what follows it. -/
def parseValue : Nat → Text → Option (Json × Text)
  | 0, _ => none
  | depth + 1, t =>
    match skipSpace t with
    | [] => none
    | c :: t =>
      if c = 'n' then (stripPrefix "ull".toList t).map fun t => (.null, t)
      else if c = 't' then (stripPrefix "rue".toList t).map fun t => (.bool true, t)
      else if c = 'f' then (stripPrefix "alse".toList t).map fun t => (.bool false, t)
      else if c = '"' then (parseString t).map fun r => (.string r.1, r.2)
      else if c = '[' then
        match skipSpace t with
        | ']' :: t => some (.array [], t)
        | _ => (parseItems (parseValue depth) (t.length + 1) t).map fun r => (.array r.1, r.2)
      else if c = '{' then
        match skipSpace t with
        | '}' :: t => some (.object [], t)
        | _ => (parseMembers (parseValue depth) (t.length + 1) [] t).map fun r =>
            (.object r.1, r.2)
      else parseNumber (c :: t)

/-- The value of a JSON text, if it is one. -/
def parseJson (t : Text) : Option Json :=
  match parseValue (t.length + 1) t with
  | some (v, rest) => if skipSpace rest = [] then some v else none
  | none => none

/-! ### Canonical values -/

/-- A number that is read as it prints. -/
def Number.Canonical : Number → Prop
  | .int _ => True
  | .float t => (∀ c ∈ t, isNumberChar c = true) ∧ numberOf t = some (.float t)

/-- Members in the order of their keys, one for each key. -/
def SortedMembers (members : List (Text × Json)) : Prop :=
  members.Pairwise fun m m' => textLt m.1 m'.1 = true

mutual

/-- A value whose objects are in order and whose numbers are read as they print. -/
def Json.Canonical : Json → Prop
  | .null | .bool _ | .string _ => True
  | .number n => n.Canonical
  | .array items => ItemsCanonical items
  | .object members => SortedMembers members ∧ MembersCanonical members

def ItemsCanonical : List Json → Prop
  | [] => True
  | v :: vs => v.Canonical ∧ ItemsCanonical vs

def MembersCanonical : List (Text × Json) → Prop
  | [] => True
  | (_, v) :: ms => v.Canonical ∧ MembersCanonical ms

end

/-! ### The order of members -/

/-- The members of an object that is read: inserted one by one. -/
def membersInto (obj members : List (Text × Json)) : List (Text × Json) :=
  members.foldl (fun obj m => objInsert m.1 m.2 obj) obj

theorem textLt_asymm {s t : Text} (h : textLt s t = true) : textLt t s = false := by
  induction s generalizing t with
  | nil =>
    cases t with
    | nil => cases h
    | cons b t => rfl
  | cons a s ih =>
    cases t with
    | nil => cases h
    | cons b t =>
      simp only [textLt, Bool.or_eq_true, decide_eq_true_eq, Bool.and_eq_true, beq_iff_eq] at h
      rcases h with hlt | ⟨rfl, h⟩
      · have hne : ¬ b.toNat < a.toNat := by omega
        have hab : (b == a) = false := by
          rw [beq_eq_false_iff_ne]
          rintro rfl
          omega
        simp [textLt, hne, hab]
      · simp [textLt, ih h]

theorem textLt_irrefl (t : Text) : textLt t t = false := by
  by_contra h
  rw [Bool.not_eq_false] at h
  exact absurd h (by rw [textLt_asymm h]; decide)

/-- A member after all others goes last. -/
theorem objInsert_append {key : Text} {value : Json} {obj : List (Text × Json)}
    (h : ∀ m ∈ obj, textLt m.1 key = true) : objInsert key value obj = obj ++ [(key, value)] := by
  induction obj with
  | nil => rfl
  | cons m obj ih =>
    have hm := h m List.mem_cons_self
    have hne : key ≠ m.1 := by
      rintro rfl
      rw [textLt_irrefl] at hm
      cases hm
    rw [objInsert, if_neg hne, if_neg (by rw [textLt_asymm hm]; decide),
      ih fun m' hm' => h m' (List.mem_cons_of_mem m hm')]
    rfl

theorem membersInto_sorted {obj members : List (Text × Json)} (h : SortedMembers (obj ++ members)) :
    membersInto obj members = obj ++ members := by
  induction members generalizing obj with
  | nil => exact (List.append_nil obj).symm
  | cons m members ih =>
    have hlast : ∀ m' ∈ obj, textLt m'.1 m.1 = true := fun m' hm' =>
      (List.pairwise_append.mp h).2.2 m' hm' m List.mem_cons_self
    have hnext : SortedMembers (obj ++ [m] ++ members) := by
      rw [List.append_assoc]
      exact h
    have hstep := ih hnext
    rw [List.append_assoc] at hstep
    rw [membersInto, List.foldl_cons, objInsert_append hlast]
    exact hstep

/-! ### Strings and numbers -/

/-- What follows a value does not go on with a number. -/
def EndsNumber (rest : Text) : Prop := ∀ c ∈ rest.head?, isNumberChar c = false

theorem parseString_simple {e x : Char} (hu : e ≠ 'u') (he : simpleEscape e = some x) (rest : Text) :
    parseString ('\\' :: e :: rest) = (parseString rest).map fun r => (x :: r.1, r.2) := by
  rw [parseString.eq_def]
  simp only [show ('\\' : Char) ≠ '"' by decide, ↓reduceIte, if_neg hu, he]

theorem parseString_hex {a b c d : Char} {u : Nat} (h : hexQuad a b c d = some u) (hu : u < 0xD800)
    (rest : Text) : parseString ('\\' :: 'u' :: a :: b :: c :: d :: rest)
      = (parseString rest).map fun r => (Char.ofNat u :: r.1, r.2) := by
  rw [parseString.eq_def]
  simp only [show ('\\' : Char) ≠ '"' by decide, ↓reduceIte, h]
  rw [if_neg (by omega), if_neg (by omega)]

theorem parseString_escapeChar (c : Char) (rest : Text) :
    parseString (escapeChar c ++ rest) = (parseString rest).map fun r => (c :: r.1, r.2) := by
  have hofNat {n : Nat} (h : c.toNat = n) : Char.ofNat n = c := by rw [← h, Char.ofNat_toNat]
  unfold escapeChar
  by_cases hquote : c = '"'
  · rw [if_pos hquote, hquote]
    exact parseString_simple (by decide) (by decide) rest
  rw [if_neg hquote]
  by_cases hslash : c = '\\'
  · rw [if_pos hslash, hslash]
    exact parseString_simple (by decide) (by decide) rest
  rw [if_neg hslash]
  by_cases h8 : c.toNat = 0x08
  · rw [if_pos h8, ← hofNat h8]
    exact parseString_simple (by decide) (by decide) rest
  rw [if_neg h8]
  by_cases h12 : c.toNat = 0x0C
  · rw [if_pos h12, ← hofNat h12]
    exact parseString_simple (by decide) (by decide) rest
  rw [if_neg h12]
  by_cases h10 : c.toNat = 0x0A
  · rw [if_pos h10, ← hofNat h10]
    exact parseString_simple (by decide) (by decide) rest
  rw [if_neg h10]
  by_cases h13 : c.toNat = 0x0D
  · rw [if_pos h13, ← hofNat h13]
    exact parseString_simple (by decide) (by decide) rest
  rw [if_neg h13]
  by_cases h9 : c.toNat = 0x09
  · rw [if_pos h9, ← hofNat h9]
    exact parseString_simple (by decide) (by decide) rest
  rw [if_neg h9]
  by_cases hcontrol : c.toNat < 0x20
  · -- any other control character is written by its code
    rw [if_pos hcontrol]
    have hbyte := hexByte_value (UInt8.ofNat c.toNat)
    have hhigh := hexDigit_spec (show c.toNat / 16 < 16 by omega)
    have hlow := hexDigit_spec (show c.toNat % 16 < 16 by omega)
    rw [UInt8.toNat_ofNat', Nat.mod_eq_of_lt (by omega)] at hbyte
    have hquad : hexQuad '0' '0' (hexDigit (c.toNat / 16)) (hexDigit (c.toNat % 16))
        = some c.toNat := by
      unfold hexQuad
      rw [hhigh.1, hlow.1]
      simp only [show isHexDigit '0' = true from rfl, show hexValue '0' = 0 from rfl, Bool.and_self,
        ↓reduceIte]
      rw [hhigh.2, hlow.2]
      congr 1
      omega
    simp only [List.cons_append, List.nil_append, hexByte]
    rw [UInt8.toNat_ofNat', Nat.mod_eq_of_lt (by omega), parseString_hex hquad (by omega),
      Char.ofNat_toNat]
  · rw [if_neg hcontrol, List.singleton_append, parseString.eq_def]
    simp only [if_neg hquote, if_neg hslash, if_neg hcontrol]

/-- **A printed string is read back.** -/
theorem parseString_escaped (s rest : Text) :
    parseString (s.flatMap escapeChar ++ '"' :: rest) = some (s, rest) := by
  induction s with
  | nil =>
    rw [List.flatMap_nil, List.nil_append, parseString.eq_def]
    rfl
  | cons c s ih =>
    rw [List.flatMap_cons, List.append_assoc, parseString_escapeChar, ih]
    rfl

theorem takeWhile_number {t rest : Text} (ht : ∀ c ∈ t, isNumberChar c = true)
    (hrest : EndsNumber rest) : (t ++ rest).takeWhile isNumberChar = t
      ∧ (t ++ rest).dropWhile isNumberChar = rest := by
  rw [List.takeWhile_append_of_pos ht, List.dropWhile_append_of_pos ht]
  cases rest with
  | nil => simp
  | cons c rest => simp [hrest c rfl]

theorem unsigned_natText (n : Nat) : unsigned (natText n) = natText n := by
  have hminus : stripPrefix ['-'] (natText n) = none := by
    cases h : stripPrefix ['-'] (natText n) with
    | none => rfl
    | some t =>
      have hmem : '-' ∈ natText n := by
        rw [stripPrefix_eq_some.mp h]
        exact List.mem_cons_self
      exact absurd hmem (minus_not_mem_natText n)
  rw [unsigned, hminus, Option.getD_none]

theorem isPlainDigits_natText (n : Nat) : isPlainDigits (natText n) = true := by
  unfold isPlainDigits
  rw [digitsValue_natText, beq_self_eq_true, Bool.and_true, List.all_eq_true]
  exact fun c => isDigit_of_mem_natText

theorem numberOf_intText (v : Int) : numberOf (intText v) = some (.int v) := by
  unfold intText
  by_cases hneg : v < 0
  · have hunsigned : unsigned ('-' :: natText v.natAbs) = natText v.natAbs := by
      rw [unsigned, show '-' :: natText v.natAbs = ['-'] ++ natText v.natAbs from rfl,
        stripPrefix_append, Option.getD_some]
    rw [if_pos hneg, numberOf, hunsigned, if_pos (isPlainDigits_natText _), digitsValue_natText]
    have hminus : "-".toList.isPrefixOf ('-' :: natText v.natAbs) = true :=
      List.isPrefixOf_iff_prefix.mpr ⟨_, rfl⟩
    simp only [hminus, ↓reduceIte, Option.some.injEq, Number.int.injEq]
    omega
  · rw [if_neg hneg, numberOf, unsigned_natText, if_pos (isPlainDigits_natText _),
      digitsValue_natText]
    have hminus : "-".toList.isPrefixOf (natText v.natAbs) = false := by
      by_contra h
      rw [Bool.not_eq_false, List.isPrefixOf_iff_prefix] at h
      obtain ⟨t, ht⟩ := h
      exact minus_not_mem_natText v.natAbs (ht ▸ List.mem_cons_self)
    simp only [hminus, Bool.false_eq_true, ↓reduceIte, Option.some.injEq, Number.int.injEq]
    omega

theorem numberOf_numberText {n : Number} (hn : n.Canonical) : numberOf (numberText n) = some n := by
  cases n with
  | int v => exact numberOf_intText v
  | float t => exact hn.2

theorem isNumberChar_of_mem_numberText {n : Number} (hn : n.Canonical) {c : Char}
    (hc : c ∈ numberText n) : isNumberChar c = true := by
  cases n with
  | int v => exact isNumberChar_of_mem_intText hc
  | float t => exact hn.1 c hc

/-- **A printed number is read back.** -/
theorem parseNumber_numberText {n : Number} (hn : n.Canonical) {rest : Text}
    (hrest : EndsNumber rest) : parseNumber (numberText n ++ rest) = some (.number n, rest) := by
  obtain ⟨htake, hdrop⟩ :=
    takeWhile_number (fun _ => isNumberChar_of_mem_numberText hn) hrest
  rw [parseNumber, htake, hdrop, numberOf_numberText hn]
  rfl

theorem numberText_ne_nil {n : Number} (hn : n.Canonical) : numberText n ≠ [] := by
  intro h
  have hnone : numberOf [] = none := by decide
  have hsome := numberOf_numberText hn
  rw [h, hnone] at hsome
  cases hsome

/-! ### Values -/

theorem skipSpace_cons {c : Char} (t : Text) (hc : isJsonSpace c = false) :
    skipSpace (c :: t) = c :: t := by
  rw [skipSpace, List.dropWhile_cons_of_neg (by rw [hc]; decide)]

theorem isJsonSpace_of_isNumberChar {c : Char} (hc : isNumberChar c = true) :
    isJsonSpace c = false := by
  by_contra h
  rw [Bool.not_eq_false] at h
  simp only [isJsonSpace, Bool.or_eq_true, beq_iff_eq] at h
  rcases h with ((rfl | rfl) | rfl) | rfl <;> exact absurd hc (by decide)

/-- A value prints as a text that does not start with a blank or a bracket that ends one. -/
theorem jsonText_head {v : Json} (hv : v.Canonical) :
    ∃ c t, jsonText v = c :: t ∧ isJsonSpace c = false ∧ c ≠ ']' := by
  match v with
  | .null | .bool true | .bool false => exact ⟨_, _, rfl, by decide, by decide⟩
  | .string s => exact ⟨_, _, rfl, by decide, by decide⟩
  | .array items => exact ⟨'[', itemsText items ++ [']'], by rw [jsonText]; rfl, by decide, by decide⟩
  | .object members =>
    exact ⟨'{', membersText members ++ ['}'], by rw [jsonText]; rfl, by decide, by decide⟩
  | .number n =>
    obtain ⟨c, t, ht⟩ := List.exists_cons_of_ne_nil (numberText_ne_nil hv)
    have hc := isNumberChar_of_mem_numberText hv (ht ▸ List.mem_cons_self : c ∈ numberText n)
    refine ⟨c, t, by rw [jsonText, ht], isJsonSpace_of_isNumberChar hc, ?_⟩
    rintro rfl
    exact absurd hc (by decide)

theorem itemsText_head {v : Json} (hv : v.Canonical) (vs : List Json) :
    ∃ c t, itemsText (v :: vs) = c :: t ∧ isJsonSpace c = false ∧ c ≠ ']' := by
  obtain ⟨c, t, ht, hspace, hc⟩ := jsonText_head hv
  match vs with
  | [] => exact ⟨c, t, by rw [itemsText, ht], hspace, hc⟩
  | w :: vs =>
    exact ⟨c, t ++ ',' :: itemsText (w :: vs), by rw [itemsText, ht, List.cons_append], hspace, hc⟩

theorem membersText_head (m : Text × Json) (ms : List (Text × Json)) :
    ∃ t, membersText (m :: ms) = '"' :: t := by
  match ms with
  | [] => exact ⟨_, by rw [membersText, quoted]; rfl⟩
  | m' :: ms => exact ⟨_, by rw [membersText, quoted]; rfl⟩

theorem endsNumber_cons {c : Char} (hc : isNumberChar c = false) (rest : Text) :
    EndsNumber (c :: rest) := by
  intro d hd
  obtain rfl := Option.some.inj hd
  exact hc

theorem length_le_itemsText : ∀ (v : Json) (vs : List Json), (v :: vs : List Json).length
    ≤ (itemsText (v :: vs)).length + 1
  | v, [] => by simp
  | v, w :: vs => by
    have h := length_le_itemsText w vs
    rw [itemsText]
    simp only [List.length_append, List.length_cons] at h ⊢
    omega

theorem length_le_membersText : ∀ (m : Text × Json) (ms : List (Text × Json)),
    (m :: ms : List _).length ≤ (membersText (m :: ms)).length + 1
  | m, [] => by simp
  | (k, v), m :: ms => by
    have h := length_le_membersText m ms
    rw [membersText]
    simp only [List.length_append, List.length_cons] at h ⊢
    omega

theorem parseValue_number {n : Number} (hn : n.Canonical) (depth : Nat) {rest : Text}
    (hrest : EndsNumber rest) :
    parseValue (depth + 1) (numberText n ++ rest) = some (.number n, rest) := by
  have hparse := parseNumber_numberText hn hrest
  obtain ⟨c, t, ht⟩ := List.exists_cons_of_ne_nil (numberText_ne_nil hn)
  have hc := isNumberChar_of_mem_numberText hn (ht ▸ List.mem_cons_self : c ∈ numberText n)
  rw [ht, List.cons_append] at hparse ⊢
  have hne {d : Char} (hd : isNumberChar d = false) : c ≠ d := by
    rintro rfl
    rw [hd] at hc
    cases hc
  rw [parseValue, skipSpace_cons _ (isJsonSpace_of_isNumberChar hc)]
  simp only [if_neg (hne (show isNumberChar 'n' = false from rfl)),
    if_neg (hne (show isNumberChar 't' = false from rfl)),
    if_neg (hne (show isNumberChar 'f' = false from rfl)),
    if_neg (hne (show isNumberChar '"' = false from rfl)),
    if_neg (hne (show isNumberChar '[' = false from rfl)),
    if_neg (hne (show isNumberChar '{' = false from rfl))]
  exact hparse

/-- An array that is not empty. -/
theorem parseValue_items {depth : Nat} {c : Char} {t : Text} (hspace : isJsonSpace c = false)
    (hc : c ≠ ']') {items : List Json} {rest : Text}
    (h : parseItems (parseValue depth) ((c :: t).length + 1) (c :: t) = some (items, rest)) :
    parseValue (depth + 1) ('[' :: c :: t) = some (.array items, rest) := by
  rw [parseValue, skipSpace_cons _ (show isJsonSpace '[' = false from rfl)]
  simp only [show ('[' : Char) ≠ 'n' by decide, show ('[' : Char) ≠ 't' by decide,
    show ('[' : Char) ≠ 'f' by decide, show ('[' : Char) ≠ '"' by decide, ↓reduceIte,
    skipSpace_cons t hspace]
  split
  · next heq =>
    obtain ⟨rfl, -⟩ := List.cons.inj heq
    exact absurd rfl hc
  · rw [h]
    rfl

/-- An object that is not empty. -/
theorem parseValue_members {depth : Nat} {t : Text} {obj : List (Text × Json)} {rest : Text}
    (h : parseMembers (parseValue depth) (('"' :: t).length + 1) [] ('"' :: t) = some (obj, rest)) :
    parseValue (depth + 1) ('{' :: '"' :: t) = some (.object obj, rest) := by
  rw [parseValue, skipSpace_cons _ (show isJsonSpace '{' = false from rfl)]
  simp only [show ('{' : Char) ≠ 'n' by decide, show ('{' : Char) ≠ 't' by decide,
    show ('{' : Char) ≠ 'f' by decide, show ('{' : Char) ≠ '"' by decide,
    show ('{' : Char) ≠ '[' by decide, ↓reduceIte,
    skipSpace_cons t (show isJsonSpace '"' = false from rfl)]
  rw [h]
  rfl

/-- A member. -/
theorem parseMember_text (value : Text → Option (Json × Text)) (k : Text) (t : Text) :
    parseMember value (quoted k ++ ':' :: t) = (value t).map fun r => ((k, r.1), r.2) := by
  rw [quoted, List.append_assoc, List.cons_append, parseMember,
    skipSpace_cons _ (show isJsonSpace '"' = false from rfl), List.singleton_append]
  simp only [parseString_escaped, Option.bind_eq_bind, Option.bind_some,
    skipSpace_cons t (show isJsonSpace ':' = false from rfl)]

mutual

/-- **A value is read back from what it prints as**, whatever follows it. -/
theorem parseValue_jsonText (v : Json) (hv : v.Canonical) (depth : Nat)
    (hdepth : (jsonText v).length < depth) {rest : Text} (hrest : EndsNumber rest) :
    parseValue depth (jsonText v ++ rest) = some (v, rest) := by
  obtain ⟨depth, rfl⟩ : ∃ d, depth = d + 1 := ⟨depth - 1, by omega⟩
  -- A mutual induction with the items and the members; the depth pays for each level of nesting.
  match v with
  | .null | .bool true | .bool false => rfl
  | .number n => exact parseValue_number hv depth hrest
  | .string s =>
    rw [jsonText, quoted, List.append_assoc, List.cons_append, parseValue,
      skipSpace_cons _ (by decide)]
    simp only [show ('"' : Char) ≠ 'n' by decide, show ('"' : Char) ≠ 't' by decide,
      show ('"' : Char) ≠ 'f' by decide, ↓reduceIte]
    rw [List.singleton_append, parseString_escaped]
    rfl
  | .array [] => rfl
  | .array (v :: vs) =>
    rw [Json.Canonical] at hv
    obtain ⟨c, t, ht, hspace, hc⟩ := itemsText_head hv.1 vs
    have hlen := length_le_itemsText v vs
    have hdepth' : (itemsText (v :: vs)).length < depth := by
      rw [jsonText] at hdepth
      simp only [List.cons_append, List.length_cons, List.length_append] at hdepth
      omega
    have hitems := parseItems_itemsText (v :: vs) (List.cons_ne_nil _ _) hv depth
      ((itemsText (v :: vs) ++ ']' :: rest).length + 1) hdepth'
      (by simp only [List.length_append, List.length_cons] at hlen ⊢; omega) rest
    rw [jsonText, List.cons_append, List.cons_append, List.append_assoc, List.singleton_append]
    rw [ht, List.cons_append] at hitems ⊢
    exact parseValue_items hspace hc hitems
  | .object [] => rfl
  | .object (m :: ms) =>
    rw [Json.Canonical] at hv
    obtain ⟨t, ht⟩ := membersText_head m ms
    have hlen := length_le_membersText m ms
    have hdepth' : (membersText (m :: ms)).length < depth := by
      rw [jsonText] at hdepth
      simp only [List.cons_append, List.length_cons, List.length_append] at hdepth
      omega
    have hmembers := parseMembers_membersText (m :: ms) (List.cons_ne_nil _ _) hv.2 depth
      ((membersText (m :: ms) ++ '}' :: rest).length + 1) hdepth'
      (by simp only [List.length_append, List.length_cons] at hlen ⊢; omega) [] rest
    -- members are collected in the order of their keys, which is the order written
    rw [membersInto_sorted hv.1, List.nil_append] at hmembers
    rw [jsonText, List.cons_append, List.cons_append, List.append_assoc, List.singleton_append]
    rw [ht, List.cons_append] at hmembers ⊢
    exact parseValue_members hmembers

/-- The elements of an array. -/
theorem parseItems_itemsText (items : List Json) (hne : items ≠ []) (hitems : ItemsCanonical items)
    (depth turns : Nat) (hdepth : (itemsText items).length < depth) (hturns : items.length ≤ turns)
    (rest : Text) :
    parseItems (parseValue depth) turns (itemsText items ++ ']' :: rest) = some (items, rest) := by
  match items with
  | [] => exact absurd rfl hne
  | [v] =>
    obtain ⟨turns, rfl⟩ : ∃ d, turns = d + 1 := ⟨turns - 1, by simp at hturns; omega⟩
    rw [itemsText] at hdepth ⊢
    have hvalue := parseValue_jsonText v hitems.1 depth hdepth
      (endsNumber_cons (show isNumberChar ']' = false from rfl) rest)
    rw [parseItems, hvalue]
    rfl
  | v :: w :: vs =>
    obtain ⟨turns, rfl⟩ : ∃ d, turns = d + 1 := ⟨turns - 1, by simp at hturns; omega⟩
    rw [itemsText, List.length_append, List.length_cons] at hdepth
    have hvalue := parseValue_jsonText v hitems.1 depth (by omega)
      (endsNumber_cons (show isNumberChar ',' = false from rfl)
        (itemsText (w :: vs) ++ ']' :: rest))
    have hmore := parseItems_itemsText (w :: vs) (List.cons_ne_nil _ _) hitems.2 depth turns
      (by omega) (by rw [List.length_cons] at hturns; omega) rest
    rw [itemsText, List.append_assoc, List.cons_append, parseItems, hvalue]
    simp only [Option.bind_eq_bind, Option.bind_some,
      skipSpace_cons _ (show isJsonSpace ',' = false from rfl)]
    rw [hmore]
    rfl

/-- The members of an object, inserted into what there is. -/
theorem parseMembers_membersText (members : List (Text × Json)) (hne : members ≠ [])
    (hmembers : MembersCanonical members) (depth turns : Nat)
    (hdepth : (membersText members).length < depth) (hturns : members.length ≤ turns)
    (obj : List (Text × Json)) (rest : Text) :
    parseMembers (parseValue depth) turns obj (membersText members ++ '}' :: rest)
      = some (membersInto obj members, rest) := by
  match members with
  | [] => exact absurd rfl hne
  | [(k, v)] =>
    obtain ⟨turns, rfl⟩ : ∃ d, turns = d + 1 := ⟨turns - 1, by simp at hturns; omega⟩
    rw [membersText, List.length_append, List.length_cons] at hdepth
    have hvalue := parseValue_jsonText v hmembers.1 depth (by omega)
      (endsNumber_cons (show isNumberChar '}' = false from rfl) rest)
    rw [membersText, List.append_assoc, List.cons_append, parseMembers, parseMember_text, hvalue]
    simp only [Option.map_some, Option.bind_eq_bind, Option.bind_some,
      skipSpace_cons _ (show isJsonSpace '}' = false from rfl)]
    rfl
  | (k, v) :: m :: ms =>
    obtain ⟨turns, rfl⟩ : ∃ d, turns = d + 1 := ⟨turns - 1, by simp at hturns; omega⟩
    rw [membersText] at hdepth
    simp only [List.append_assoc, List.cons_append, List.length_append, List.length_cons] at hdepth
    have hvalue := parseValue_jsonText v hmembers.1 depth (by omega)
      (endsNumber_cons (show isNumberChar ',' = false from rfl)
        (membersText (m :: ms) ++ '}' :: rest))
    have hmore := parseMembers_membersText (m :: ms) (List.cons_ne_nil _ _) hmembers.2 depth turns
      (by omega) (by rw [List.length_cons] at hturns; omega) (objInsert k v obj) rest
    rw [membersText, List.append_assoc, List.append_assoc, List.cons_append, List.cons_append,
      parseMembers, parseMember_text, hvalue]
    simp only [Option.map_some, Option.bind_eq_bind, Option.bind_some,
      skipSpace_cons _ (show isJsonSpace ',' = false from rfl)]
    exact hmore

end

/-- A text that is a value, and nothing more. -/
theorem parseJson_of_parseValue {t : Text} {v : Json}
    (h : parseValue (t.length + 1) t = some (v, [])) : parseJson t = some v := by
  rw [parseJson, h]
  rfl

theorem parseJson_jsonText {v : Json} (hv : v.Canonical) : parseJson (jsonText v) = some v := by
  have h := parseValue_jsonText v hv ((jsonText v).length + 1) (Nat.lt_succ_self _)
    (fun c hc => absurd hc (by simp) : EndsNumber [])
  rw [List.append_nil] at h
  exact parseJson_of_parseValue h

end FlinkExplorer
