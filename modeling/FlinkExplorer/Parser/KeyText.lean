import FlinkExplorer.Parser.BigDecimal
import FlinkExplorer.Parser.Key

namespace FlinkExplorer

open Lib

/-!
# Texts that tell keys apart

What the text of a key gives back:

* `parseKeyString_keyString` — a string key, unit by unit, lone surrogates included;
* `quoted_inj`, `append_stop_inj` — a string and a number inside the JSON text of a tuple,
  together with where they end;
* `dateText_inj`, `charValue_inj`, `opaqueKey_inj` — dates, characters and hexadecimal forms.
-/

/-! ### String keys -/

section KeyString

theorem parseEscapedKey_unit (unit : UInt16) (rest : Text) :
    parseEscapedKey (escapeKeyItem (.error unit) ++ rest)
      = (parseEscapedKey rest).map (unit :: ·) := by
  have hu := unit.toNat_lt
  have h₁ := hexDigitUpper_spec (show unit.toNat / 4096 < 16 by omega)
  have h₂ := hexDigitUpper_spec (show unit.toNat / 256 % 16 < 16 by omega)
  have h₃ := hexDigitUpper_spec (show unit.toNat / 16 % 16 < 16 by omega)
  have h₄ := hexDigitUpper_spec (show unit.toNat % 16 < 16 by omega)
  have hunit : unitOfHex (hexDigitUpper (unit.toNat / 4096)) (hexDigitUpper (unit.toNat / 256 % 16))
      (hexDigitUpper (unit.toNat / 16 % 16)) (hexDigitUpper (unit.toNat % 16)) = unit := by
    unfold unitOfHex
    rw [h₁.2, h₂.2, h₃.2, h₄.2]
    apply UInt16.toNat_inj.mp
    rw [UInt16.toNat_ofNat']
    omega
  simp only [escapeKeyItem, hexUnit, List.cons_append, List.nil_append, parseEscapedKey, h₁.1, h₂.1,
    h₃.1, h₄.1, hunit, Bool.and_self, ↓reduceIte]

theorem parseEscapedKey_char (c : Char) (rest : Text) :
    parseEscapedKey (escapeKeyItem (.ok c) ++ rest)
      = (parseEscapedKey rest).map (utf16Units c ++ ·) := by
  by_cases hc : c = '\\'
  · subst hc
    rfl
  · have hself : escapeKeyItem (.ok c) = [c] := if_neg hc
    rw [hself, List.singleton_append, parseEscapedKey]
    all_goals simp [hc]

/-- An escaped key is read back item by item. -/
theorem parseEscapedKey_escape (items : List (Except UInt16 Char)) :
    parseEscapedKey (items.flatMap escapeKeyItem) = some (unitsOfDecoded items) := by
  induction items with
  | nil => rfl
  | cons item items ih =>
    have hunits : unitsOfDecoded (item :: items) = unitsOfItem item ++ unitsOfDecoded items := rfl
    rw [List.flatMap_cons, hunits]
    cases item with
    | ok c => rw [parseEscapedKey_char, ih]; rfl
    | error unit => rw [parseEscapedKey_unit, ih]; rfl

/-- A string without lone surrogates is the decoding of its plain text. -/
theorem map_ok_plainText {items : List (Except UInt16 Char)}
    (h : items.any isLoneSurrogate = false) :
    items = (plainText items).map .ok := by
  induction items with
  | nil => rfl
  | cons item items ih =>
    cases item with
    | ok c => exact congrArg (Except.ok c :: ·) (ih (by simpa [isLoneSurrogate] using h))
    | error unit => simp [isLoneSurrogate] at h

/-- The escaped form always shows a literal `\u`. -/
theorem escaped_contains {items : List (Except UInt16 Char)}
    (h : items.any isLoneSurrogate = true ∨
      containsText ['\\', 'u'] (plainText items) = true) :
    containsText ['\\', 'u'] (items.flatMap escapeKeyItem) = true := by
  rw [containsText_iff (by decide)]
  by_cases hlone : items.any isLoneSurrogate = true
  · -- A lone surrogate is written as `\uXXXX`.
    obtain ⟨item, hmem, hitem⟩ := List.any_eq_true.mp hlone
    obtain ⟨before, after, rfl⟩ := List.append_of_mem hmem
    cases item with
    | ok c => cases hitem
    | error unit =>
      refine ⟨before.flatMap escapeKeyItem, hexUnit unit ++ after.flatMap escapeKeyItem, ?_⟩
      simp [escapeKeyItem]
  · -- A literal backslash is doubled, and the `u` after it stays.
    rw [Bool.not_eq_true] at hlone
    have hplain := h.resolve_left (by simp [hlone])
    obtain ⟨a, b, hab⟩ := (containsText_iff (by decide)).mp hplain
    have hitems := map_ok_plainText hlone
    rw [hab] at hitems
    refine ⟨(a.map Except.ok).flatMap escapeKeyItem ++ ['\\'],
      (b.map Except.ok).flatMap escapeKeyItem, ?_⟩
    rw [hitems]
    simp [escapeKeyItem]

/-- **A string key is read back from its text.** -/
theorem parseKeyString_keyString (units : List UInt16) :
    parseKeyString (keyString units) = some units := by
  have hunits := unitsOfDecoded_decodeUtf16 units
  by_cases hplain : (!(decodeUtf16 units).any isLoneSurrogate &&
      !containsText ['\\', 'u'] (plainText (decodeUtf16 units))) = true
  · have hkey : keyString units = plainText (decodeUtf16 units) := if_pos hplain
    simp only [Bool.and_eq_true, Bool.not_eq_true'] at hplain
    have hencode : unitsOfDecoded ((plainText (decodeUtf16 units)).map .ok)
        = encodeUtf16 (plainText (decodeUtf16 units)) := by
      simp only [unitsOfDecoded, encodeUtf16, List.flatMap_map]
      rfl
    rw [hkey, parseKeyString, if_pos (by simp [hplain.2]), ← hencode,
      ← map_ok_plainText hplain.1, hunits]
  · have hkey : keyString units = (decodeUtf16 units).flatMap escapeKeyItem := if_neg hplain
    have hescaped : containsText ['\\', 'u'] ((decodeUtf16 units).flatMap escapeKeyItem) = true := by
      apply escaped_contains
      simp only [Bool.and_eq_true, Bool.not_eq_true', not_and, Bool.not_eq_false] at hplain
      by_cases hlone : (decodeUtf16 units).any isLoneSurrogate = true
      · exact .inl hlone
      · exact .inr (hplain (by simpa using hlone))
    rw [hkey, parseKeyString, if_neg (by simp [hescaped]), parseEscapedKey_escape, hunits]

theorem keyString_inj {us vs : List UInt16} (h : keyString us = keyString vs) : us = vs := by
  have := parseKeyString_keyString us
  rw [h, parseKeyString_keyString] at this
  exact (Option.some.inj this).symm

end KeyString

/-! ### Characters, dates, bytes -/

section Scalars

theorem hexUnit_inj {a b : UInt16} (h : hexUnit a = hexUnit b) : a = b := by
  have hparse (u : UInt16) := parseEscapedKey_unit u []
  have ha := hparse a
  simp only [escapeKeyItem, h] at ha
  have hb := hparse b
  simp only [escapeKeyItem] at hb
  rw [hb] at ha
  simpa [parseEscapedKey] using ha.symm

theorem charValue_inj {a b : UInt16} (h : charValue a = charValue b) : a = b := by
  unfold charValue at h
  split at h <;> split at h
  · -- Two lone surrogates.
    simp only [Json.string.injEq, List.cons.injEq, true_and] at h
    exact hexUnit_inj h
  · simp [hexUnit] at h
  · simp [hexUnit] at h
  · rename_i ha hb
    simp only [Json.string.injEq, List.cons.injEq, and_true] at h
    have hu := utf16Units_ofNat (u := a) (by simpa using ha)
    rw [h, utf16Units_ofNat (by simpa using hb)] at hu
    exact (List.cons.inj hu).1.symm

theorem dateText_inj {y₁ y₂ : Int32} {m₁ m₂ d₁ d₂ : UInt8}
    (h : dateText y₁ m₁ d₁ = dateText y₂ m₂ d₂) : y₁ = y₂ ∧ m₁ = m₂ ∧ d₁ = d₂ := by
  unfold dateText at h
  -- The year may be negative, so the parts are told apart from the right.
  obtain ⟨hym, hday⟩ := sep_append_inj (minus_not_mem_padNat 2 _) (minus_not_mem_padNat 2 _) h
  obtain ⟨hyear, hmonth⟩ := sep_append_inj (minus_not_mem_padNat 2 _) (minus_not_mem_padNat 2 _) hym
  exact ⟨Int32.toInt.inj (padInt_inj hyear), UInt8.toNat_inj.mp (padNat_inj hmonth),
    UInt8.toNat_inj.mp (padNat_inj hday)⟩

theorem opaqueKey_inj {a b : Bytes} (h : opaqueKey a = opaqueKey b) : a = b := by
  simp only [opaqueKey, List.cons.injEq, true_and] at h
  exact flatMap_hexByte_inj h

end Scalars

/-! ### JSON texts inside a larger text -/

section JsonText

/-- The first character of a quoted text and what follows it. -/
def unescapeHead : Text → Option (Char × Text)
  | '\\' :: '"' :: r => some ('"', r)
  | '\\' :: '\\' :: r => some ('\\', r)
  | '\\' :: 'b' :: r => some (Char.ofNat 0x08, r)
  | '\\' :: 'f' :: r => some (Char.ofNat 0x0C, r)
  | '\\' :: 'n' :: r => some (Char.ofNat 0x0A, r)
  | '\\' :: 'r' :: r => some (Char.ofNat 0x0D, r)
  | '\\' :: 't' :: r => some (Char.ofNat 0x09, r)
  | '\\' :: 'u' :: '0' :: '0' :: a :: b :: r => some (Char.ofNat (hexValue a * 16 + hexValue b), r)
  | c :: r => some (c, r)
  | [] => none

theorem unescapeHead_escapeChar (c : Char) (rest : Text) :
    unescapeHead (escapeChar c ++ rest) = some (c, rest) := by
  have hofNat {n : Nat} (h : c.toNat = n) : Char.ofNat n = c := by rw [← h, Char.ofNat_toNat]
  unfold escapeChar
  by_cases hquote : c = '"'
  · subst hquote
    rfl
  rw [if_neg hquote]
  by_cases hslash : c = '\\'
  · subst hslash
    rfl
  rw [if_neg hslash]
  by_cases h8 : c.toNat = 0x08
  · rw [if_pos h8]
    exact congrArg (fun d => some (d, rest)) (hofNat h8)
  rw [if_neg h8]
  by_cases h12 : c.toNat = 0x0C
  · rw [if_pos h12]
    exact congrArg (fun d => some (d, rest)) (hofNat h12)
  rw [if_neg h12]
  by_cases h10 : c.toNat = 0x0A
  · rw [if_pos h10]
    exact congrArg (fun d => some (d, rest)) (hofNat h10)
  rw [if_neg h10]
  by_cases h13 : c.toNat = 0x0D
  · rw [if_pos h13]
    exact congrArg (fun d => some (d, rest)) (hofNat h13)
  rw [if_neg h13]
  by_cases h9 : c.toNat = 0x09
  · rw [if_pos h9]
    exact congrArg (fun d => some (d, rest)) (hofNat h9)
  rw [if_neg h9]
  by_cases hcontrol : c.toNat < 0x20
  · -- Any other control character is written as `\u00XX`.
    rw [if_pos hcontrol]
    have hbyte := hexByte_value (UInt8.ofNat c.toNat)
    rw [UInt8.toNat_ofNat', Nat.mod_eq_of_lt (by omega)] at hbyte
    simp only [List.cons_append, List.nil_append, hexByte, unescapeHead]
    rw [UInt8.toNat_ofNat', Nat.mod_eq_of_lt (by omega), hbyte, Char.ofNat_toNat]
  · rw [if_neg hcontrol, List.singleton_append, unescapeHead]
    all_goals simp [hslash]

theorem escapeChar_head (c : Char) : ∃ d t, escapeChar c = d :: t ∧ d ≠ '"' := by
  unfold escapeChar
  by_cases hquote : c = '"'
  · rw [if_pos hquote]
    exact ⟨_, _, rfl, by decide⟩
  · rw [if_neg hquote]
    repeat' split
    all_goals first | exact ⟨_, _, rfl, by decide⟩ | exact ⟨_, _, rfl, hquote⟩

theorem escaped_inj {s t x y : Text}
    (h : s.flatMap escapeChar ++ '"' :: x = t.flatMap escapeChar ++ '"' :: y) : s = t ∧ x = y := by
  induction s generalizing t with
  | nil =>
    cases t with
    | nil => exact ⟨rfl, (List.cons.inj h).2⟩
    | cons d t =>
      obtain ⟨e, u, hu, hne⟩ := escapeChar_head d
      simp only [List.flatMap_nil, List.nil_append, List.flatMap_cons, hu, List.cons_append,
        List.cons.injEq] at h
      exact absurd h.1.symm hne
  | cons c s ih =>
    cases t with
    | nil =>
      obtain ⟨e, u, hu, hne⟩ := escapeChar_head c
      simp only [List.flatMap_nil, List.nil_append, List.flatMap_cons, hu, List.cons_append,
        List.cons.injEq] at h
      exact absurd h.1 hne
    | cons d t =>
      rw [List.flatMap_cons, List.flatMap_cons, List.append_assoc, List.append_assoc] at h
      have hhead := congrArg unescapeHead h
      rw [unescapeHead_escapeChar, unescapeHead_escapeChar] at hhead
      obtain ⟨hcd, hrest⟩ := Prod.mk.inj (Option.some.inj hhead)
      obtain ⟨hst, hxy⟩ := ih hrest
      exact ⟨by rw [hcd, hst], hxy⟩

/-- A quoted string tells its content and where it ends. -/
theorem quoted_inj {s t x y : Text} (h : quoted s ++ x = quoted t ++ y) : s = t ∧ x = y := by
  simp only [quoted, List.cons_append, List.append_assoc, List.nil_append, List.cons.injEq,
    true_and] at h
  exact escaped_inj h

/-- A character a JSON value can end before. -/
def isStop (c : Char) : Bool := c == ',' || c == ']'

/-- A text without stop characters ends where the first of them comes. -/
theorem append_stop_inj {stop : Char → Bool} {a b x y : Text} (ha : ∀ c ∈ a, stop c = false)
    (hb : ∀ c ∈ b, stop c = false) (hx : ∀ c ∈ x.head?, stop c = true)
    (hy : ∀ c ∈ y.head?, stop c = true) (h : a ++ x = b ++ y) : a = b ∧ x = y := by
  have htake {a x : Text} (ha : ∀ c ∈ a, stop c = false) (hx : ∀ c ∈ x.head?, stop c = true) :
      (a ++ x).takeWhile (fun c => !stop c) = a := by
    rw [List.takeWhile_append_of_pos fun c hc => by simp [ha c hc]]
    cases x with
    | nil => simp
    | cons c x => simp [hx c rfl]
  have hab : a = b := by rw [← htake ha hx, h, htake hb hy]
  subst hab
  exact ⟨rfl, List.append_cancel_left h⟩

end JsonText

end FlinkExplorer
