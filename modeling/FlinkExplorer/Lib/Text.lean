import FlinkExplorer.Lib.Utf
import Mathlib.Data.List.Basic
import Mathlib.Tactic.Common
import Mathlib.Tactic.Ring

namespace FlinkExplorer.Lib

/-!
# Text — the string operations of the standard library

Rust's `str` operations on `Text`: prefixes and suffixes, blanks, decimal and hexadecimal
digits with padding.  The decimal lemmas say that a number is read back from its digits
(`natText_inj`, `intText_inj`), padded or not.
-/

/-! ### Prefixes, suffixes, search -/

/-- `str::strip_prefix`. -/
def stripPrefix (p t : Text) : Option Text :=
  if p.isPrefixOf t then some (t.drop p.length) else none

/-- `str::strip_suffix`. -/
def stripSuffix (p t : Text) : Option Text :=
  if p.isSuffixOf t then some (t.take (t.length - p.length)) else none

/-- `str::contains`. -/
def containsText (p : Text) : Text → Bool
  | [] => p.isEmpty
  | c :: t => p.isPrefixOf (c :: t) || containsText p t

/-- `str::replace`: every occurrence of `p`, left to right, becomes `q`; `p` is not empty. -/
def replaceText (p q : Text) : Text → Text
  | [] => []
  | c :: t =>
    if p.isPrefixOf (c :: t) then q ++ replaceText p q (t.drop (p.length - 1))
    else c :: replaceText p q t
termination_by t => t.length
decreasing_by all_goals simp only [List.length_drop, List.length_cons]; omega

/-- What follows the last `sep`: `rsplit(sep).next()`. -/
def afterLast (sep : Char) (t : Text) : Text := (t.reverse.takeWhile (· != sep)).reverse

/-- Parts joined by commas. -/
def joinCommas (parts : List Text) : Text := (parts.intersperse [',']).flatten

theorem stripPrefix_eq_some {p t s : Text} : stripPrefix p t = some s ↔ t = p ++ s := by
  unfold stripPrefix
  split
  · rename_i h
    obtain ⟨u, rfl⟩ := List.isPrefixOf_iff_prefix.mp h
    simp
  · rename_i h
    simp only [reduceCtorEq, false_iff]
    rintro rfl
    exact h (List.isPrefixOf_iff_prefix.mpr (List.prefix_append p s))

@[simp] theorem stripPrefix_append (p s : Text) : stripPrefix p (p ++ s) = some s :=
  stripPrefix_eq_some.mpr rfl

theorem stripSuffix_eq_some {p t s : Text} : stripSuffix p t = some s ↔ t = s ++ p := by
  unfold stripSuffix
  split
  · rename_i h
    obtain ⟨u, rfl⟩ := List.isSuffixOf_iff_suffix.mp h
    simp
  · rename_i h
    simp only [reduceCtorEq, false_iff]
    rintro rfl
    exact h (List.isSuffixOf_iff_suffix.mpr (List.suffix_append s p))

@[simp] theorem stripSuffix_append (s p : Text) : stripSuffix p (s ++ p) = some s :=
  stripSuffix_eq_some.mpr rfl

theorem containsText_iff {p t : Text} (hp : p ≠ []) :
    containsText p t = true ↔ ∃ a b, t = a ++ p ++ b := by
  induction t with
  | nil =>
    constructor
    · intro h
      exact absurd (List.isEmpty_iff.mp h) hp
    · rintro ⟨a, b, hab⟩
      have := congrArg List.length hab
      simp only [List.length_append, List.length_nil] at this
      exact absurd (List.length_eq_zero_iff.mp (by omega)) hp
  | cons c t ih =>
    rw [containsText, Bool.or_eq_true, List.isPrefixOf_iff_prefix, ih]
    constructor
    · rintro (⟨b, hb⟩ | ⟨a, b, rfl⟩)
      · exact ⟨[], b, hb.symm⟩
      · exact ⟨c :: a, b, rfl⟩
    · rintro ⟨a, b, hab⟩
      cases a with
      | nil => exact .inl ⟨b, hab.symm⟩
      | cons d a => exact .inr ⟨a, b, (List.cons.inj hab).2⟩

/-! ### Separators -/

/-- A separator that neither part holds tells where the first part ends. -/
theorem append_sep_inj {sep : Char} {a b x y : Text} (ha : sep ∉ a) (hb : sep ∉ b)
    (h : a ++ sep :: x = b ++ sep :: y) : a = b ∧ x = y := by
  induction a generalizing b with
  | nil =>
    cases b with
    | nil => exact ⟨rfl, (List.cons.inj h).2⟩
    | cons c b => exact absurd ((List.cons.inj h).1 ▸ List.mem_cons_self) hb
  | cons d a ih =>
    cases b with
    | nil => exact absurd ((List.cons.inj h).1 ▸ List.mem_cons_self) ha
    | cons c b =>
      obtain ⟨hdc, hrest⟩ := List.cons.inj h
      obtain ⟨hab, hxy⟩ := ih (fun hm => ha (List.mem_cons_of_mem d hm))
        (fun hm => hb (List.mem_cons_of_mem c hm)) hrest
      exact ⟨by rw [hdc, hab], hxy⟩

/-- The same from the right: the separator is in neither last part. -/
theorem sep_append_inj {sep : Char} {a b x y : Text} (hx : sep ∉ x) (hy : sep ∉ y)
    (h : a ++ sep :: x = b ++ sep :: y) : a = b ∧ x = y := by
  have hrev : x.reverse ++ sep :: a.reverse = y.reverse ++ sep :: b.reverse := by
    have := congrArg List.reverse h
    simpa using this
  obtain ⟨hxy, hab⟩ := append_sep_inj (by simpa using hx) (by simpa using hy) hrev
  exact ⟨List.reverse_inj.mp hab, List.reverse_inj.mp hxy⟩

/-! ### Blanks and control characters -/

/-- Unicode `White_Space`, what `str::trim` removes. -/
def isWhitespace (c : Char) : Bool :=
  let n := c.toNat
  (9 ≤ n && n ≤ 13) || n == 0x20 || n == 0x85 || n == 0xA0 || n == 0x1680
    || (0x2000 ≤ n && n ≤ 0x200A) || n == 0x2028 || n == 0x2029 || n == 0x202F || n == 0x205F
    || n == 0x3000

/-- Unicode general category `Cc`, what `char::is_control` tests. -/
def isControl (c : Char) : Bool := c.toNat ≤ 0x1F || (0x7F ≤ c.toNat && c.toNat ≤ 0x9F)

/-- `str::trim`. -/
def trim (t : Text) : Text := ((t.dropWhile isWhitespace).reverse.dropWhile isWhitespace).reverse

/-- A text whose first and last characters are not blanks is its own trimming. -/
theorem trim_eq_self {t : Text} (hhead : ∀ c ∈ t.head?, isWhitespace c = false)
    (hlast : ∀ c ∈ t.getLast?, isWhitespace c = false) : trim t = t := by
  have hself (u : Text) (h : ∀ c ∈ u.head?, isWhitespace c = false) :
      u.dropWhile isWhitespace = u := by
    cases u with
    | nil => rfl
    | cons c u => rw [List.dropWhile_cons_of_neg (by simp [h c (by simp)])]
  unfold trim
  rw [hself t hhead, hself t.reverse (by simpa using hlast), List.reverse_reverse]

/-! ### Digits -/

/-- Decimal digits. -/
def natText (n : Nat) : Text := Nat.toDigits 10 n

/-- Decimal digits, with a sign when negative. -/
def intText (v : Int) : Text := if v < 0 then '-' :: natText v.natAbs else natText v.natAbs

/-- `{:0w}` of an unsigned number. -/
def padNat (w n : Nat) : Text := List.leftpad w '0' (natText n)

/-- `{:0w}` of a signed number: the sign counts in the width. -/
def padInt (w : Nat) (v : Int) : Text :=
  if v < 0 then '-' :: padNat (w - 1) v.natAbs else padNat w v.natAbs

/-- A lower-case hexadecimal digit. -/
def hexDigit (n : Nat) : Char := Nat.digitChar n

/-- `{:02x}` of a byte. -/
def hexByte (b : UInt8) : Text := [hexDigit (b.toNat / 16), hexDigit (b.toNat % 16)]

/-- An upper-case hexadecimal digit. -/
def hexDigitUpper (n : Nat) : Char := (Nat.digitChar n).toUpper

/-- `{:04X}` of a UTF-16 unit. -/
def hexUnit (u : UInt16) : Text :=
  [hexDigitUpper (u.toNat / 4096), hexDigitUpper (u.toNat / 256 % 16),
    hexDigitUpper (u.toNat / 16 % 16), hexDigitUpper (u.toNat % 16)]

/-- `char::is_ascii_hexdigit`. -/
def isHexDigit (c : Char) : Bool :=
  let n := c.toNat
  (48 ≤ n && n ≤ 57) || (65 ≤ n && n ≤ 70) || (97 ≤ n && n ≤ 102)

/-- The value of a hexadecimal digit of either case. -/
def hexValue (c : Char) : Nat :=
  let n := c.toNat
  if n ≤ 57 then n - 48 else if n ≤ 70 then n - 55 else n - 87

/-- The number decimal digits spell. -/
def digitsValue (t : Text) : Nat := Nat.ofDigitChars 10 t 0

theorem hexDigit_spec {n : Nat} (h : n < 16) :
    isHexDigit (hexDigit n) = true ∧ hexValue (hexDigit n) = n :=
  (by decide : ∀ n < 16, isHexDigit (hexDigit n) = true ∧ hexValue (hexDigit n) = n) n h

theorem hexDigitUpper_spec {n : Nat} (h : n < 16) :
    isHexDigit (hexDigitUpper n) = true ∧ hexValue (hexDigitUpper n) = n :=
  (by decide : ∀ n < 16, isHexDigit (hexDigitUpper n) = true ∧ hexValue (hexDigitUpper n) = n) n h

/-- The byte two hexadecimal digits stand for. -/
theorem hexByte_value (b : UInt8) :
    hexValue (hexDigit (b.toNat / 16)) * 16 + hexValue (hexDigit (b.toNat % 16)) = b.toNat := by
  have hb := b.toNat_lt
  rw [(hexDigit_spec (show b.toNat / 16 < 16 by omega)).2,
    (hexDigit_spec (show b.toNat % 16 < 16 by omega)).2]
  omega

theorem hexByte_inj {a b : UInt8} (h : hexByte a = hexByte b) : a = b := by
  have ha := hexByte_value a
  simp only [hexByte, List.cons.injEq, and_true] at h
  rw [h.1, h.2, hexByte_value] at ha
  exact UInt8.toNat_inj.mp ha.symm

theorem flatMap_hexByte_inj {as bs : List UInt8}
    (h : as.flatMap hexByte = bs.flatMap hexByte) : as = bs := by
  induction as generalizing bs with
  | nil =>
    cases bs with
    | nil => rfl
    | cons b bs => simp [hexByte] at h
  | cons a as ih =>
    cases bs with
    | nil => simp [hexByte] at h
    | cons b bs =>
      rw [List.flatMap_cons, List.flatMap_cons] at h
      obtain ⟨hab, hrest⟩ := List.append_inj h rfl
      rw [hexByte_inj hab, ih hrest]

theorem digitsValue_natText (n : Nat) : digitsValue (natText n) = n :=
  Nat.ofDigitChars_ten_toDigits

theorem digitsValue_padNat (w n : Nat) : digitsValue (padNat w n) = n := by
  unfold padNat List.leftpad digitsValue
  rw [Nat.ofDigitChars_append, Nat.ofDigitChars_replicate_zero, Nat.mul_zero]
  exact digitsValue_natText n

theorem natText_inj {n m : Nat} (h : natText n = natText m) : n = m := by
  rw [← digitsValue_natText n, h, digitsValue_natText]

theorem padNat_inj {w n m : Nat} (h : padNat w n = padNat w m) : n = m := by
  rw [← digitsValue_padNat w n, h, digitsValue_padNat]

/-- The last digit of a number comes after those of the rest. -/
theorem natText_of_ten_le {n : Nat} (h : 10 ≤ n) :
    natText n = natText (n / 10) ++ [Nat.digitChar (n % 10)] :=
  Nat.toDigits_of_base_le (by decide) h

theorem natText_of_lt_ten {n : Nat} (h : n < 10) : natText n = [Nat.digitChar n] :=
  Nat.toDigits_of_lt_base h

theorem padNat_succ {w : Nat} (hw : 0 < w) (n : Nat) :
    padNat (w + 1) n = padNat w (n / 10) ++ [Nat.digitChar (n % 10)] := by
  unfold padNat List.leftpad
  rcases Nat.lt_or_ge n 10 with h | h
  · have hdiv : n / 10 = 0 := by omega
    have hmod : n % 10 = n := by omega
    have hzeros : List.replicate w '0' = List.replicate (w - 1) '0' ++ ['0'] := by
      rw [← List.replicate_succ', Nat.sub_add_cancel hw]
    rw [hdiv, hmod, natText_of_lt_ten h, natText_of_lt_ten (show 0 < 10 by decide)]
    simp only [List.length_singleton, Nat.add_sub_cancel]
    rw [hzeros]
    rfl
  · rw [natText_of_ten_le h, List.length_append, List.length_singleton, List.append_assoc,
      Nat.add_sub_add_right]

/-- The low digits of a number come after those of the rest, padded to their width. -/
theorem natText_append_padNat {w n r : Nat} (hw : 0 < w) (hn : 0 < n) (hr : r < 10 ^ w) :
    natText n ++ padNat w r = natText (n * 10 ^ w + r) := by
  induction w generalizing r with
  | zero => omega
  | succ w ih =>
    rcases Nat.eq_zero_or_pos w with rfl | hw'
    · have hpad : padNat 1 r = natText r := by
        rw [padNat, natText_of_lt_ten (by simpa using hr)]
        rfl
      rw [hpad, natText, natText, natText,
        Nat.toDigits_append_toDigits (by decide) hn (by simpa using hr), pow_one, Nat.mul_comm]
    · have hlow : r / 10 < 10 ^ w := by
        rw [pow_succ] at hr
        omega
      have hbig : 10 ≤ n * 10 ^ (w + 1) + r := by
        have : 1 ≤ n * 10 ^ w := Nat.mul_pos hn (Nat.pow_pos (by decide))
        rw [pow_succ, ← Nat.mul_assoc]
        omega
      have hdiv : (n * 10 ^ (w + 1) + r) / 10 = n * 10 ^ w + r / 10 := by
        rw [pow_succ, ← Nat.mul_assoc]
        omega
      have hmod : (n * 10 ^ (w + 1) + r) % 10 = r % 10 := by
        rw [pow_succ, ← Nat.mul_assoc]
        omega
      rw [padNat_succ hw', ← List.append_assoc, ih hw' hlow, natText_of_ten_le hbig, hdiv, hmod]

theorem natText_ne_nil (n : Nat) : natText n ≠ [] := Nat.toDigits_ne_nil

theorem isDigit_of_mem_natText {n : Nat} {c : Char} (h : c ∈ natText n) : c.isDigit = true :=
  Nat.isDigit_of_mem_toDigits (by decide) (by decide) h

theorem isDigit_of_mem_padNat {w n : Nat} {c : Char} (h : c ∈ padNat w n) : c.isDigit = true := by
  unfold padNat List.leftpad at h
  rcases List.mem_append.mp h with h | h
  · rw [(List.mem_replicate.mp h).2]
    rfl
  · exact isDigit_of_mem_natText h

theorem minus_not_mem_natText (n : Nat) : '-' ∉ natText n := fun h =>
  absurd (isDigit_of_mem_natText h) (by decide)

theorem minus_not_mem_padNat (w n : Nat) : '-' ∉ padNat w n := fun h =>
  absurd (isDigit_of_mem_padNat h) (by decide)

theorem padNat_ne_nil (w n : Nat) : padNat w n ≠ [] := by
  unfold padNat List.leftpad
  simp [natText_ne_nil]

theorem padInt_inj {w : Nat} {v u : Int} (h : padInt w v = padInt w u) : v = u := by
  unfold padInt at h
  split at h <;> split at h
  · have := padNat_inj (List.cons.inj h).2
    omega
  · exact absurd (h ▸ List.mem_cons_self) (minus_not_mem_padNat _ _)
  · exact absurd (h ▸ List.mem_cons_self) (minus_not_mem_padNat _ _)
  · have := padNat_inj h
    omega

theorem padInt_of_nonneg {w : Nat} {v : Int} (h : 0 ≤ v) : padInt w v = padNat w v.natAbs :=
  if_neg (by omega)

theorem digit_or_minus_of_mem_padInt {w : Nat} {v : Int} {c : Char} (h : c ∈ padInt w v) :
    c.isDigit = true ∨ c = '-' := by
  unfold padInt at h
  split at h
  · rcases List.mem_cons.mp h with rfl | h
    · exact .inr rfl
    · exact .inl (isDigit_of_mem_padNat h)
  · exact .inl (isDigit_of_mem_padNat h)

theorem intText_inj {v u : Int} (h : intText v = intText u) : v = u := by
  unfold intText at h
  split at h <;> split at h
  · have := natText_inj (List.cons.inj h).2
    omega
  · exact absurd (h ▸ List.mem_cons_self) (minus_not_mem_natText _)
  · exact absurd (h ▸ List.mem_cons_self) (minus_not_mem_natText _)
  · have := natText_inj h
    omega

theorem intText_ne_nil (v : Int) : intText v ≠ [] := by
  unfold intText
  split
  · exact List.cons_ne_nil _ _
  · exact natText_ne_nil _

theorem digit_or_minus_of_mem_intText {v : Int} {c : Char} (h : c ∈ intText v) :
    c.isDigit = true ∨ c = '-' := by
  unfold intText at h
  split at h
  · rcases List.mem_cons.mp h with rfl | h
    · exact .inr rfl
    · exact .inl (isDigit_of_mem_natText h)
  · exact .inl (isDigit_of_mem_natText h)

@[simp] theorem padNat_zero (n : Nat) : padNat 0 n = natText n := by
  simp [padNat, List.leftpad]

@[simp] theorem padInt_zero (v : Int) : padInt 0 v = intText v := by
  simp [padInt, intText]

theorem padInt_ne_nil (w : Nat) (v : Int) : padInt w v ≠ [] := by
  unfold padInt
  split
  · exact List.cons_ne_nil _ _
  · exact padNat_ne_nil w _

theorem isWhitespace_of_digit_or_minus {c : Char} (h : c.isDigit = true ∨ c = '-') :
    isWhitespace c = false := by
  rcases h with hdigit | rfl
  · have hrange : 48 ≤ c.toNat ∧ c.toNat ≤ 57 := Char.isDigit_iff_toNat.mp hdigit
    simp only [isWhitespace, Bool.or_eq_false_iff, Bool.and_eq_false_iff, decide_eq_false_iff_not,
      beq_eq_false_iff_ne]
    omega
  · rfl

theorem trim_natText (n : Nat) : trim (natText n) = natText n := by
  have hblank : ∀ c ∈ natText n, isWhitespace c = false := fun c hc =>
    isWhitespace_of_digit_or_minus (.inl (isDigit_of_mem_natText hc))
  exact trim_eq_self (fun c hc => hblank c (List.mem_of_mem_head? hc))
    (fun c hc => hblank c (List.mem_of_getLast? hc))

end FlinkExplorer.Lib
