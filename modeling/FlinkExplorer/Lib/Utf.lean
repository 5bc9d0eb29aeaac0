import Mathlib.Data.List.Basic
import Mathlib.Order.Basic
import Mathlib.Tactic.Common

namespace FlinkExplorer.Lib

/-!
# Unicode text — UTF-16 units and UTF-8 bytes

Text is a list of `Char`, which excludes surrogates; a Java string is a list of UTF-16 units,
which does not.

* `decodeUtf16` reads units, keeping each unpaired surrogate as an error, and
  `unitsOfDecoded` undoes it (`unitsOfDecoded_decodeUtf16`), so nothing is lost;
* `encodeUtf16` writes text as units;
* `decodeUtf8` reads strict UTF-8 (no overlong form, no surrogate);
* `encodeUtf8` writes UTF-8, `decodeUtf8Lossy` reads whatever bytes it is given, and
  `decodeUtf8Lossy_encodeUtf8` reads back what was written.
-/

/-- Text, as Unicode scalar values. -/
abbrev Text := List Char

theorem toNat_charOfNat {n : Nat} (h : n.isValidChar) : (Char.ofNat n).toNat = n := by
  unfold Char.ofNat
  rw [dif_pos h]
  rfl

/-! ### UTF-16 -/

/-- The scalar value of a surrogate pair. -/
def surrogatePair (hi lo : UInt16) : Char :=
  Char.ofNat ((hi.toNat - 0xD800) * 0x400 + (lo.toNat - 0xDC00) + 0x10000)

/-- Whether a unit is the second half of a surrogate pair. -/
def isTrailSurrogate (u : UInt16) : Bool := 0xDC00 ≤ u.toNat && u.toNat ≤ 0xDFFF

/-- Whether a unit is one half of a surrogate pair. -/
def isSurrogate (u : UInt16) : Bool := 0xD800 ≤ u.toNat && u.toNat ≤ 0xDFFF

/-- Decode UTF-16 units; an unpaired surrogate is kept as an error. -/
def decodeUtf16 : List UInt16 → List (Except UInt16 Char)
  | [] => []
  | [u] => if isSurrogate u then [.error u] else [.ok (Char.ofNat u.toNat)]
  | u :: u₂ :: rest =>
    if !isSurrogate u then .ok (Char.ofNat u.toNat) :: decodeUtf16 (u₂ :: rest)
    else if isTrailSurrogate u then .error u :: decodeUtf16 (u₂ :: rest)
    else if isTrailSurrogate u₂ then .ok (surrogatePair u u₂) :: decodeUtf16 rest
    else .error u :: decodeUtf16 (u₂ :: rest)

/-- The UTF-16 units of one character. -/
def utf16Units (c : Char) : List UInt16 :=
  if c.toNat < 0x10000 then [UInt16.ofNat c.toNat]
  else [UInt16.ofNat (0xD800 + (c.toNat - 0x10000) / 0x400),
        UInt16.ofNat (0xDC00 + (c.toNat - 0x10000) % 0x400)]

/-- The UTF-16 units of a text. -/
def encodeUtf16 (t : Text) : List UInt16 := t.flatMap utf16Units

/-- The units of one decoded item: the character's, or the unpaired surrogate itself. -/
def unitsOfItem : Except UInt16 Char → List UInt16
  | .ok c => utf16Units c
  | .error u => [u]

/-- The units a decoded sequence came from. -/
def unitsOfDecoded (items : List (Except UInt16 Char)) : List UInt16 := items.flatMap unitsOfItem

theorem utf16Units_ofNat {u : UInt16} (h : isSurrogate u = false) :
    utf16Units (Char.ofNat u.toNat) = [u] := by
  have hlt : u.toNat < 65536 := u.toNat_lt
  have hv : u.toNat.isValidChar := by
    simp only [isSurrogate, Bool.and_eq_false_iff, decide_eq_false_iff_not] at h
    simp only [Nat.isValidChar]
    omega
  simp only [utf16Units, toNat_charOfNat hv, hlt, ↓reduceIte, UInt16.ofNat_toNat]

theorem utf16Units_surrogatePair {hi lo : UInt16} (hhi : isSurrogate hi = true)
    (hnt : isTrailSurrogate hi = false) (hlo : isTrailSurrogate lo = true) :
    utf16Units (surrogatePair hi lo) = [hi, lo] := by
  simp only [isSurrogate, isTrailSurrogate, Bool.and_eq_true, decide_eq_true_eq,
    Bool.and_eq_false_iff, decide_eq_false_iff_not] at hhi hnt hlo
  have hv : ((hi.toNat - 0xD800) * 0x400 + (lo.toNat - 0xDC00) + 0x10000).isValidChar := by
    simp only [Nat.isValidChar]
    omega
  have hbig : ¬ (hi.toNat - 0xD800) * 0x400 + (lo.toNat - 0xDC00) + 0x10000 < 0x10000 := by omega
  have h₁ : 0xD800 + ((hi.toNat - 0xD800) * 0x400 + (lo.toNat - 0xDC00) + 0x10000 - 0x10000) / 0x400
      = hi.toNat := by omega
  have h₂ : 0xDC00 + ((hi.toNat - 0xD800) * 0x400 + (lo.toNat - 0xDC00) + 0x10000 - 0x10000) % 0x400
      = lo.toNat := by omega
  simp only [utf16Units, surrogatePair, toNat_charOfNat hv, hbig, ↓reduceIte, h₁, h₂,
    UInt16.ofNat_toNat]

/-- **Nothing is lost.**  The decoded items give back the units they were read from. -/
theorem unitsOfDecoded_decodeUtf16 (us : List UInt16) :
    unitsOfDecoded (decodeUtf16 us) = us := by
  have hcons (i : Except UInt16 Char) (is : List (Except UInt16 Char)) :
      unitsOfDecoded (i :: is) = unitsOfItem i ++ unitsOfDecoded is := rfl
  fun_induction decodeUtf16 us with
  | case1 => rfl
  | case2 u h => rfl
  | case3 u h =>
    rw [hcons, unitsOfItem, utf16Units_ofNat (by simpa using h)]
    rfl
  | case4 u u₂ rest h ih =>
    rw [hcons, ih, unitsOfItem, utf16Units_ofNat (by simpa using h)]
    rfl
  | case5 u u₂ rest h ht ih =>
    rw [hcons, ih]
    rfl
  | case6 u u₂ rest h hnt ht ih =>
    rw [hcons, ih, unitsOfItem, utf16Units_surrogatePair (by simpa using h) (by simpa using hnt) ht]
    rfl
  | case7 u u₂ rest h hnt ht ih =>
    rw [hcons, ih]
    rfl

/-! ### UTF-8 -/

/-- Whether a byte continues a multi-byte UTF-8 sequence. -/
def isContinuation (b : UInt8) : Bool := 0x80 ≤ b.toNat && b.toNat ≤ 0xBF

/-- Decode strict UTF-8: `none` on an overlong form, a surrogate, a value past U+10FFFF or a
    sequence cut short. -/
def decodeUtf8 : List UInt8 → Option Text
  | [] => some []
  | b :: rest =>
    if b.toNat < 0x80 then (decodeUtf8 rest).map (Char.ofNat b.toNat :: ·)
    else if b.toNat < 0xC2 then none
    else
      match rest with
      | [] => none
      | b₁ :: rest₁ =>
        if !isContinuation b₁ then none
        else if b.toNat < 0xE0 then
          (decodeUtf8 rest₁).map (Char.ofNat ((b.toNat - 0xC0) * 64 + (b₁.toNat - 0x80)) :: ·)
        else
          match rest₁ with
          | [] => none
          | b₂ :: rest₂ =>
            let n₂ := ((b.toNat - 0xE0) * 64 + (b₁.toNat - 0x80)) * 64 + (b₂.toNat - 0x80)
            if !isContinuation b₂ then none
            else if b.toNat < 0xF0 then
              if n₂ < 0x800 || (0xD800 ≤ n₂ && n₂ ≤ 0xDFFF) then none
              else (decodeUtf8 rest₂).map (Char.ofNat n₂ :: ·)
            else
              match rest₂ with
              | [] => none
              | b₃ :: rest₃ =>
                let n₃ := (((b.toNat - 0xF0) * 64 + (b₁.toNat - 0x80)) * 64
                  + (b₂.toNat - 0x80)) * 64 + (b₃.toNat - 0x80)
                if !isContinuation b₃ || n₃ < 0x10000 || 0x10FFFF < n₃ then none
                else (decodeUtf8 rest₃).map (Char.ofNat n₃ :: ·)

/-- ASCII text, as its bytes. -/
def asciiBytes (t : Text) : List UInt8 := t.map fun c => UInt8.ofNat c.toNat

theorem decodeUtf8_cons_ascii {b : UInt8} (h : b.toNat < 0x80) (rest : List UInt8) :
    decodeUtf8 (b :: rest) = (decodeUtf8 rest).map (Char.ofNat b.toNat :: ·) := by
  rw [decodeUtf8.eq_def]
  exact if_pos h

theorem decodeUtf8_asciiBytes {t : Text} (h : ∀ c ∈ t, c.toNat < 0x80) :
    decodeUtf8 (asciiBytes t) = some t := by
  induction t with
  | nil => rfl
  | cons c t ih =>
    have hc : c.toNat < 0x80 := h c List.mem_cons_self
    have hb : (UInt8.ofNat c.toNat).toNat = c.toNat := by
      simp only [UInt8.toNat_ofNat']
      omega
    have ht := ih fun d hd => h d (List.mem_cons_of_mem c hd)
    have hcons : asciiBytes (c :: t) = UInt8.ofNat c.toNat :: asciiBytes t := rfl
    rw [hcons, decodeUtf8_cons_ascii (by rw [hb]; exact hc), ht, hb, Option.map_some,
      Char.ofNat_toNat]

/-! ### Writing UTF-8, and reading it whatever it is -/

/-- The UTF-8 bytes of one character. -/
def utf8Bytes (c : Char) : List UInt8 :=
  let n := c.toNat
  if n < 0x80 then [UInt8.ofNat n]
  else if n < 0x800 then [UInt8.ofNat (0xC0 + n / 64), UInt8.ofNat (0x80 + n % 64)]
  else if n < 0x10000 then
    [UInt8.ofNat (0xE0 + n / 4096), UInt8.ofNat (0x80 + n / 64 % 64), UInt8.ofNat (0x80 + n % 64)]
  else
    [UInt8.ofNat (0xF0 + n / 262144), UInt8.ofNat (0x80 + n / 4096 % 64),
      UInt8.ofNat (0x80 + n / 64 % 64), UInt8.ofNat (0x80 + n % 64)]

/-- The UTF-8 bytes of a text. -/
def encodeUtf8 (t : Text) : List UInt8 := t.flatMap utf8Bytes

/-- What stands for a sequence that is not UTF-8. -/
def replacement : Char := '\uFFFD'

/-- Whether a byte may be the second one of a sequence that starts with `b`. -/
def mayFollow (b b₁ : UInt8) : Bool :=
  if b.toNat = 0xE0 then 0xA0 ≤ b₁.toNat && b₁.toNat ≤ 0xBF
  else if b.toNat = 0xED then 0x80 ≤ b₁.toNat && b₁.toNat ≤ 0x9F
  else if b.toNat = 0xF0 then 0x90 ≤ b₁.toNat && b₁.toNat ≤ 0xBF
  else if b.toNat = 0xF4 then 0x80 ≤ b₁.toNat && b₁.toNat ≤ 0x8F
  else isContinuation b₁

/-- Decode UTF-8; the longest start of a sequence that cannot go on is replaced by U+FFFD. -/
def decodeUtf8Lossy : List UInt8 → Text
  | [] => []
  | b :: rest =>
    if b.toNat < 0x80 then Char.ofNat b.toNat :: decodeUtf8Lossy rest
    else if b.toNat < 0xC2 || 0xF4 < b.toNat then replacement :: decodeUtf8Lossy rest
    else
      match rest with
      | [] => [replacement]
      | b₁ :: rest₁ =>
        if !mayFollow b b₁ then replacement :: decodeUtf8Lossy (b₁ :: rest₁)
        else if b.toNat < 0xE0 then
          Char.ofNat ((b.toNat - 0xC0) * 64 + (b₁.toNat - 0x80)) :: decodeUtf8Lossy rest₁
        else
          match rest₁ with
          | [] => [replacement]
          | b₂ :: rest₂ =>
            let n₂ := ((b.toNat - 0xE0) * 64 + (b₁.toNat - 0x80)) * 64 + (b₂.toNat - 0x80)
            if !isContinuation b₂ then replacement :: decodeUtf8Lossy (b₂ :: rest₂)
            else if b.toNat < 0xF0 then Char.ofNat n₂ :: decodeUtf8Lossy rest₂
            else
              match rest₂ with
              | [] => [replacement]
              | b₃ :: rest₃ =>
                let n₃ := (((b.toNat - 0xF0) * 64 + (b₁.toNat - 0x80)) * 64
                  + (b₂.toNat - 0x80)) * 64 + (b₃.toNat - 0x80)
                if !isContinuation b₃ then replacement :: decodeUtf8Lossy (b₃ :: rest₃)
                else Char.ofNat n₃ :: decodeUtf8Lossy rest₃

@[simp] theorem encodeUtf8_nil : encodeUtf8 [] = [] := rfl

@[simp] theorem encodeUtf8_append (a b : Text) :
    encodeUtf8 (a ++ b) = encodeUtf8 a ++ encodeUtf8 b := List.flatMap_append

@[simp] theorem encodeUtf8_cons (c : Char) (t : Text) :
    encodeUtf8 (c :: t) = utf8Bytes c ++ encodeUtf8 t := rfl

theorem utf8Bytes_ascii {c : Char} (h : c.toNat < 0x80) : utf8Bytes c = [UInt8.ofNat c.toNat] := by
  simp only [utf8Bytes, h, ↓reduceIte]

theorem toNat_ofNat_byte {n : Nat} (h : n < 256) : (UInt8.ofNat n).toNat = n := by
  simp only [UInt8.toNat_ofNat']
  omega

theorem isContinuation_ofNat {n : Nat} (h : n < 64) :
    isContinuation (UInt8.ofNat (0x80 + n)) = true := by
  simp only [isContinuation, toNat_ofNat_byte (show 0x80 + n < 256 by omega), Bool.and_eq_true,
    decide_eq_true_eq]
  omega

theorem decodeUtf8Lossy_two {n : Nat} (hlo : 0x80 ≤ n) (hhi : n < 0x800) (rest : List UInt8) :
    decodeUtf8Lossy (UInt8.ofNat (0xC0 + n / 64) :: UInt8.ofNat (0x80 + n % 64) :: rest)
      = Char.ofNat n :: decodeUtf8Lossy rest := by
  have hb : (UInt8.ofNat (0xC0 + n / 64)).toNat = 0xC0 + n / 64 := toNat_ofNat_byte (by omega)
  have hb₁ : (UInt8.ofNat (0x80 + n % 64)).toNat = 0x80 + n % 64 := toNat_ofNat_byte (by omega)
  have hval : (0xC0 + n / 64 - 0xC0) * 64 + (0x80 + n % 64 - 0x80) = n := by omega
  have hfollow : mayFollow (UInt8.ofNat (0xC0 + n / 64)) (UInt8.ofNat (0x80 + n % 64)) = true := by
    unfold mayFollow
    rw [hb, if_neg (by omega), if_neg (by omega), if_neg (by omega), if_neg (by omega)]
    exact isContinuation_ofNat (by omega)
  rw [decodeUtf8Lossy.eq_def]
  dsimp only
  rw [hb, hb₁, hfollow, if_neg (by omega),
    if_neg (by simp only [Bool.or_eq_true, decide_eq_true_eq]; omega), if_neg (by decide),
    if_pos (by omega), hval]

theorem decodeUtf8Lossy_three {n : Nat} (hlo : 0x800 ≤ n) (hhi : n < 0x10000)
    (hscalar : n < 0xD800 ∨ 0xDFFF < n) (rest : List UInt8) :
    decodeUtf8Lossy (UInt8.ofNat (0xE0 + n / 4096) :: UInt8.ofNat (0x80 + n / 64 % 64)
        :: UInt8.ofNat (0x80 + n % 64) :: rest)
      = Char.ofNat n :: decodeUtf8Lossy rest := by
  have hb : (UInt8.ofNat (0xE0 + n / 4096)).toNat = 0xE0 + n / 4096 := toNat_ofNat_byte (by omega)
  have hb₁ : (UInt8.ofNat (0x80 + n / 64 % 64)).toNat = 0x80 + n / 64 % 64 :=
    toNat_ofNat_byte (by omega)
  have hb₂ : (UInt8.ofNat (0x80 + n % 64)).toNat = 0x80 + n % 64 := toNat_ofNat_byte (by omega)
  have hval : ((0xE0 + n / 4096 - 0xE0) * 64 + (0x80 + n / 64 % 64 - 0x80)) * 64
      + (0x80 + n % 64 - 0x80) = n := by omega
  have hfollow : mayFollow (UInt8.ofNat (0xE0 + n / 4096)) (UInt8.ofNat (0x80 + n / 64 % 64))
      = true := by
    simp only [mayFollow, isContinuation, hb, hb₁]
    split_ifs <;> simp only [Bool.and_eq_true, decide_eq_true_eq] <;> omega
  have hcont := isContinuation_ofNat (n := n % 64) (by omega)
  rw [decodeUtf8Lossy.eq_def]
  dsimp only
  rw [hb, hb₁, hb₂, hfollow, hcont, if_neg (by omega),
    if_neg (by simp only [Bool.or_eq_true, decide_eq_true_eq]; omega), if_neg (by decide),
    if_neg (by omega), if_neg (by decide), if_pos (by omega), hval]

theorem decodeUtf8Lossy_four {n : Nat} (hlo : 0x10000 ≤ n) (hhi : n < 0x110000)
    (rest : List UInt8) :
    decodeUtf8Lossy (UInt8.ofNat (0xF0 + n / 262144) :: UInt8.ofNat (0x80 + n / 4096 % 64)
        :: UInt8.ofNat (0x80 + n / 64 % 64) :: UInt8.ofNat (0x80 + n % 64) :: rest)
      = Char.ofNat n :: decodeUtf8Lossy rest := by
  have hb : (UInt8.ofNat (0xF0 + n / 262144)).toNat = 0xF0 + n / 262144 :=
    toNat_ofNat_byte (by omega)
  have hb₁ : (UInt8.ofNat (0x80 + n / 4096 % 64)).toNat = 0x80 + n / 4096 % 64 :=
    toNat_ofNat_byte (by omega)
  have hb₂ : (UInt8.ofNat (0x80 + n / 64 % 64)).toNat = 0x80 + n / 64 % 64 :=
    toNat_ofNat_byte (by omega)
  have hb₃ : (UInt8.ofNat (0x80 + n % 64)).toNat = 0x80 + n % 64 := toNat_ofNat_byte (by omega)
  have hval : (((0xF0 + n / 262144 - 0xF0) * 64 + (0x80 + n / 4096 % 64 - 0x80)) * 64
      + (0x80 + n / 64 % 64 - 0x80)) * 64 + (0x80 + n % 64 - 0x80) = n := by omega
  have hfollow : mayFollow (UInt8.ofNat (0xF0 + n / 262144)) (UInt8.ofNat (0x80 + n / 4096 % 64))
      = true := by
    simp only [mayFollow, isContinuation, hb, hb₁]
    split_ifs <;> simp only [Bool.and_eq_true, decide_eq_true_eq] <;> omega
  have hcont₂ := isContinuation_ofNat (n := n / 64 % 64) (by omega)
  have hcont₃ := isContinuation_ofNat (n := n % 64) (by omega)
  rw [decodeUtf8Lossy.eq_def]
  dsimp only
  rw [hb, hb₁, hb₂, hb₃, hfollow, hcont₂, hcont₃, if_neg (by omega),
    if_neg (by simp only [Bool.or_eq_true, decide_eq_true_eq]; omega), if_neg (by decide),
    if_neg (by omega), if_neg (by decide), if_neg (by omega), if_neg (by decide), hval]

/-- One character's bytes decode to that character, whatever follows. -/
theorem decodeUtf8Lossy_utf8Bytes (c : Char) (rest : List UInt8) :
    decodeUtf8Lossy (utf8Bytes c ++ rest) = c :: decodeUtf8Lossy rest := by
  have hc : c.toNat < 0xD800 ∨ (0xDFFF < c.toNat ∧ c.toNat < 0x110000) := c.valid
  have hchar := Char.ofNat_toNat c
  unfold utf8Bytes
  generalize c.toNat = n at hc hchar
  dsimp only
  by_cases h1 : n < 0x80
  · rw [if_pos h1, List.singleton_append, decodeUtf8Lossy.eq_def]
    dsimp only
    rw [toNat_ofNat_byte (by omega), if_pos h1, hchar]
  rw [if_neg h1]
  by_cases h2 : n < 0x800
  · rw [if_pos h2, List.cons_append, List.singleton_append, decodeUtf8Lossy_two (by omega) h2,
      hchar]
  rw [if_neg h2]
  by_cases h3 : n < 0x10000
  · rw [if_pos h3, List.cons_append, List.cons_append, List.singleton_append,
      decodeUtf8Lossy_three (by omega) h3 (by omega), hchar]
  · rw [if_neg h3, List.cons_append, List.cons_append, List.cons_append, List.singleton_append,
      decodeUtf8Lossy_four (by omega) (by omega), hchar]

/-- **Text survives UTF-8.** -/
theorem decodeUtf8Lossy_encodeUtf8 (t : Text) : decodeUtf8Lossy (encodeUtf8 t) = t := by
  induction t with
  | nil => rfl
  | cons c t ih => rw [encodeUtf8_cons, decodeUtf8Lossy_utf8Bytes, ih]

end FlinkExplorer.Lib
