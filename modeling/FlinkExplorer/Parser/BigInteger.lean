import FlinkExplorer.Parser.BigNumber
import FlinkExplorer.Parser.JavaKey
import Mathlib.Data.Nat.Digits.Defs

namespace FlinkExplorer

open Lib

/-!
# `parser/key_group.rs` — big integers, from text to bytes and back

A `BigInteger` key is parsed from its decimal text into 32-bit words, hashed by them, and written
as the bytes of `BigInteger.toByteArray()`.

* `wordsValue` — the number little-endian words spell; `pushDigits_spec` — the words of a
  decimal text spell it, with no word of zeros on top;
* `beInt_dropRedundant`, `dropRedundant_minimal` — no sign byte too many, and none too few;
* `bigIntegerHashCode` — `BigInteger.hashCode`;
* `bigIntegers_inverse` — text, words, bytes and hash belong to one integer.
-/

/-! ### Words -/

/-- The number little-endian words spell. -/
def wordsValue (ws : List UInt32) : Nat := Nat.ofDigits (2 ^ 32) (ws.map UInt32.toNat)

@[simp] theorem wordsValue_nil : wordsValue [] = 0 := rfl

theorem wordsValue_cons (w : UInt32) (ws : List UInt32) :
    wordsValue (w :: ws) = w.toNat + 2 ^ 32 * wordsValue ws := by
  rw [wordsValue, List.map_cons, Nat.ofDigits_cons]
  rfl

theorem wordsValue_append_singleton (ws : List UInt32) (w : UInt32) :
    wordsValue (ws ++ [w]) = wordsValue ws + (2 ^ 32) ^ ws.length * w.toNat := by
  rw [wordsValue, List.map_append, Nat.ofDigits_append, List.length_map]
  simp [wordsValue]

/-- No word of zeros on top. -/
def TopNonzero (ws : List UInt32) : Prop := ∀ w ∈ ws.getLast?, w ≠ 0

/-- Multiplying by ten and adding: what does not fit in the words is the carry. -/
theorem timesTenPlus_spec (carry : Nat) (ws : List UInt32) :
    (timesTenPlus carry ws).1.length = ws.length
      ∧ wordsValue (timesTenPlus carry ws).1
          + (2 ^ 32) ^ ws.length * (timesTenPlus carry ws).2 = 10 * wordsValue ws + carry := by
  induction ws generalizing carry with
  | nil => exact ⟨rfl, by simp [timesTenPlus]⟩
  | cons w ws ih =>
    obtain ⟨hlen, hval⟩ := ih ((w.toNat * 10 + carry) / 2 ^ 32)
    refine ⟨congrArg (· + 1) hlen, ?_⟩
    show wordsValue (UInt32.ofNat (w.toNat * 10 + carry) :: (timesTenPlus _ ws).1)
      + (2 ^ 32) ^ (ws.length + 1) * (timesTenPlus _ ws).2 = _
    have hsplit := Nat.div_add_mod (w.toNat * 10 + carry) (2 ^ 32)
    rw [wordsValue_cons, wordsValue_cons, UInt32.toNat_ofNat', pow_succ]
    calc (w.toNat * 10 + carry) % 2 ^ 32
          + 2 ^ 32 * wordsValue (timesTenPlus ((w.toNat * 10 + carry) / 2 ^ 32) ws).1
          + (2 ^ 32) ^ ws.length * 2 ^ 32
            * (timesTenPlus ((w.toNat * 10 + carry) / 2 ^ 32) ws).2
        = (w.toNat * 10 + carry) % 2 ^ 32
          + 2 ^ 32 * (wordsValue (timesTenPlus ((w.toNat * 10 + carry) / 2 ^ 32) ws).1
            + (2 ^ 32) ^ ws.length
              * (timesTenPlus ((w.toNat * 10 + carry) / 2 ^ 32) ws).2) := by ring
      _ = (w.toNat * 10 + carry) % 2 ^ 32
          + 2 ^ 32 * (10 * wordsValue ws + (w.toNat * 10 + carry) / 2 ^ 32) := by rw [hval]
      _ = 10 * (w.toNat + 2 ^ 32 * wordsValue ws) + carry := by omega

/-- Where nothing is carried out, the top word stays one that is not zero. -/
theorem topNonzero_timesTenPlus (carry : Nat) {ws : List UInt32} (hws : TopNonzero ws)
    (hcarry : (timesTenPlus carry ws).2 = 0) : TopNonzero (timesTenPlus carry ws).1 := by
  induction ws generalizing carry with
  | nil => intro w hw; cases hw
  | cons w ws ih =>
    intro u hu
    rcases hs : ws with _ | ⟨w', ws'⟩
    · subst hs
      have hu' : UInt32.ofNat (w.toNat * 10 + carry) = u := Option.some.inj hu
      have hout : (w.toNat * 10 + carry) / 2 ^ 32 = 0 := hcarry
      have hne : w ≠ 0 := hws w rfl
      have hpos : w.toNat ≠ 0 := fun h => hne (UInt32.toNat_inj.mp h)
      rintro rfl
      have hzero := congrArg UInt32.toNat hu'
      rw [UInt32.toNat_ofNat', show (0 : UInt32).toNat = 0 from rfl] at hzero
      omega
    · subst hs
      refine ih ((w.toNat * 10 + carry) / 2 ^ 32) ?_ hcarry u ?_
      · intro x hx
        exact hws x (by rw [List.getLast?_cons_cons]; exact hx)
      · exact hu

/-- A digit in, a digit out. -/
theorem timesTenPlus_carry {carry : Nat} (hcarry : carry < 10) (ws : List UInt32) :
    (timesTenPlus carry ws).2 < 10 := by
  induction ws generalizing carry with
  | nil => exact hcarry
  | cons w ws ih =>
    have hw := w.toNat_lt
    exact ih (by omega)

/-- One more digit. -/
theorem pushDigit_spec {ws : List UInt32} (hws : TopNonzero ws) {d : Char}
    (hd : d.toNat - '0'.toNat < 10) :
    TopNonzero (pushDigit ws d)
      ∧ wordsValue (pushDigit ws d) = 10 * wordsValue ws + (d.toNat - '0'.toNat) := by
  obtain ⟨hlen, hval⟩ := timesTenPlus_spec (d.toNat - '0'.toNat) ws
  have hout := timesTenPlus_carry hd ws
  unfold pushDigit
  by_cases hcarry : (timesTenPlus (d.toNat - '0'.toNat) ws).2 = 0
  · rw [if_neg (by simpa using hcarry)]
    rw [hcarry, Nat.mul_zero, Nat.add_zero] at hval
    exact ⟨topNonzero_timesTenPlus _ hws hcarry, hval⟩
  · rw [if_pos hcarry]
    have hword : (UInt32.ofNat (timesTenPlus (d.toNat - '0'.toNat) ws).2).toNat
        = (timesTenPlus (d.toNat - '0'.toNat) ws).2 := by
      rw [UInt32.toNat_ofNat']
      omega
    refine ⟨?_, ?_⟩
    · intro w hw
      rw [List.getLast?_concat, Option.mem_some_iff] at hw
      rintro rfl
      rw [hw] at hword
      exact hcarry hword.symm
    · rw [wordsValue_append_singleton, hlen, hword, hval]

/-- **The words of a decimal text** spell it, with no word of zeros on top. -/
theorem pushDigits_spec {ds : Text} (hds : ∀ d ∈ ds, d.isDigit = true) (ws : List UInt32)
    (hws : TopNonzero ws) :
    TopNonzero (ds.foldl pushDigit ws)
      ∧ wordsValue (ds.foldl pushDigit ws) = Nat.ofDigitChars 10 ds (wordsValue ws) := by
  induction ds generalizing ws with
  | nil => exact ⟨hws, rfl⟩
  | cons d ds ih =>
    have hd := Char.isDigit_iff_toNat.mp (hds d List.mem_cons_self)
    have hlt : d.toNat - '0'.toNat < 10 := by
      have h0 : '0'.toNat = 48 := rfl
      have h9 : '9'.toNat = 57 := rfl
      omega
    obtain ⟨htop, hval⟩ := pushDigit_spec hws hlt
    obtain ⟨htop', hval'⟩ := ih (fun c hc => hds c (List.mem_cons_of_mem d hc)) _ htop
    refine ⟨htop', ?_⟩
    rw [List.foldl_cons, hval', hval, Nat.ofDigitChars_cons]

/-- Words without zeros on top are the digits of their number to the base `2^32`. -/
theorem digits_wordsValue {ws : List UInt32} (hws : TopNonzero ws) :
    Nat.digits (2 ^ 32) (wordsValue ws) = ws.map UInt32.toNat := by
  refine Nat.digits_ofDigits (2 ^ 32) (by decide) _ ?_ ?_
  · intro n hn
    obtain ⟨w, -, rfl⟩ := List.mem_map.mp hn
    exact w.toNat_lt
  · intro hne hzero
    have hne' : ws ≠ [] := by
      rintro rfl
      exact hne rfl
    rw [List.getLast_map hne] at hzero
    refine hws (ws.getLast hne') (List.getLast?_eq_some_getLast hne') ?_
    exact UInt32.toNat_inj.mp hzero

/-- The bytes of the words, most significant first. -/
theorem beNat_words (ws : List UInt32) :
    beNat (ws.reverse.flatMap fun w => beBytes 4 w.toNat) = wordsValue ws := by
  induction ws with
  | nil => rfl
  | cons w ws ih =>
    have hw : w.toNat < 256 ^ 4 := w.toNat_lt
    rw [List.reverse_cons, List.flatMap_append, List.flatMap_singleton, beNat_append, ih,
      length_beBytes, beNat_beBytes_of_lt hw, wordsValue_cons]
    omega

/-! ### Sign bytes -/

/-- Half of the values of a byte string lie on either side of zero. -/
theorem beInt_bounds (bs : Bytes) :
    -(256 ^ bs.length : Nat) ≤ 2 * beInt bs ∧ 2 * beInt bs < (256 ^ bs.length : Nat) := by
  have hlt := beNat_lt bs
  have hcast : ((256 ^ bs.length : Nat) : Int) = 256 ^ bs.length := by push_cast; rfl
  unfold beInt
  rw [← hcast]
  generalize 256 ^ bs.length = top at hlt
  split
  · omega
  · omega

/-- The sign bit. -/
theorem signBit_eq_zero (c : UInt8) (rest : Bytes) :
    c &&& 0x80 = 0 ↔ 2 * beNat (c :: rest) < 256 ^ (c :: rest).length := by
  have h := head_sign_bit (c :: rest)
  rw [List.head?_cons, Option.any_some] at h
  by_cases hc : c &&& 0x80 = 0
  · rw [hc] at h
    simpa [hc] using h
  · have htrue : (c &&& 0x80 != 0) = true := by simpa using hc
    rw [htrue] at h
    have hle := of_decide_eq_true h.symm
    simp only [hc, false_iff]
    omega

/-- Whether a first byte only repeats the sign of what follows it. -/
def IsRedundant (b c : UInt8) : Prop :=
  (b = 0x00 ∧ c &&& 0x80 = 0) ∨ (b = 0xff ∧ c &&& 0x80 ≠ 0)

/-- Without a redundant first byte the integer stays the same. -/
theorem beInt_of_redundant {b c : UInt8} {rest : Bytes} (h : IsRedundant b c) :
    beInt (b :: c :: rest) = beInt (c :: rest) := by
  have hlt := beNat_lt (c :: rest)
  have hsign := signBit_eq_zero c rest
  have hpow : 256 ^ (b :: c :: rest).length = 256 * 256 ^ (c :: rest).length := by
    rw [List.length_cons, pow_succ, Nat.mul_comm]
  have hcast : ((256 ^ (c :: rest).length : Nat) : Int) = 256 ^ (c :: rest).length := by
    push_cast; rfl
  have hcast' : ((256 * 256 ^ (c :: rest).length : Nat) : Int)
      = 256 ^ (b :: c :: rest).length := by
    rw [← hpow]; push_cast; rfl
  unfold beInt
  rw [beNat_cons, hpow, ← hcast, ← hcast']
  generalize 256 ^ (c :: rest).length = top at *
  rcases h with ⟨rfl, hc⟩ | ⟨rfl, hc⟩
  · have hsmall := hsign.mp hc
    rw [show (0x00 : UInt8).toNat = 0 from rfl, if_pos (by omega), if_pos hsmall]
    omega
  · have hbig : ¬ 2 * beNat (c :: rest) < top := fun h => hc (hsign.mpr h)
    rw [show (0xff : UInt8).toNat = 255 from rfl, if_neg (by omega), if_neg hbig]
    push_cast
    omega

/-- With a first byte that is not redundant the integer does not fit in fewer bytes. -/
theorem beInt_of_not_redundant {b c : UInt8} (rest : Bytes) (h : ¬ IsRedundant b c) :
    2 * beInt (b :: c :: rest) < -(256 ^ (c :: rest).length : Nat)
      ∨ (256 ^ (c :: rest).length : Nat) ≤ 2 * beInt (b :: c :: rest) := by
  have hlt := beNat_lt (c :: rest)
  have hb := b.toNat_lt
  have hsign := signBit_eq_zero c rest
  have hpow : 256 ^ (b :: c :: rest).length = 256 * 256 ^ (c :: rest).length := by
    rw [List.length_cons, pow_succ, Nat.mul_comm]
  have hcast : ((256 * 256 ^ (c :: rest).length : Nat) : Int)
      = 256 ^ (b :: c :: rest).length := by
    rw [← hpow]; push_cast; rfl
  unfold beInt
  rw [beNat_cons, hpow, ← hcast]
  -- With the power a variable the rest is linear in it.
  generalize 256 ^ (c :: rest).length = top at *
  have hpos : 0 < top := by omega
  by_cases hneg : b.toNat < 128
  · right
    have hhi : b.toNat * top ≤ 127 * top := Nat.mul_le_mul_right _ (by omega)
    rw [if_pos (by omega)]
    by_cases hzero : b = 0x00
    · -- the sign bit of what follows is set
      have hbig : ¬ 2 * beNat (c :: rest) < top := fun hs => h (.inl ⟨hzero, hsign.mpr hs⟩)
      push_cast
      omega
    · have hb0 : b.toNat ≠ 0 := fun h0 => hzero (UInt8.toNat_inj.mp h0)
      have hlo : 1 * top ≤ b.toNat * top := Nat.mul_le_mul_right _ (by omega)
      push_cast
      omega
  · left
    have hlo : 128 * top ≤ b.toNat * top := Nat.mul_le_mul_right _ (by omega)
    rw [if_neg (by omega)]
    by_cases hones : b = 0xff
    · -- the sign bit of what follows is not set
      have hsmall : 2 * beNat (c :: rest) < top := by
        by_contra hs
        exact h (.inr ⟨hones, fun hc => hs (hsign.mp hc)⟩)
      rw [hones, show (0xff : UInt8).toNat = 255 from rfl]
      push_cast
      omega
    · have hb255 : b.toNat ≠ 255 := fun h255 => hones (UInt8.toNat_inj.mp h255)
      have hhi : b.toNat * top ≤ 254 * top := Nat.mul_le_mul_right _ (by omega)
      push_cast
      omega

/-- The bytes without redundant ones spell the same integer. -/
theorem beInt_dropRedundant (bs : Bytes) : beInt (dropRedundant bs) = beInt bs := by
  fun_induction dropRedundant bs with
  | case1 => rfl
  | case2 b => rfl
  | case3 b c rest h ih => rw [ih, beInt_of_redundant h]
  | case4 b c rest h => rfl

theorem dropRedundant_ne_nil {bs : Bytes} (hbs : bs ≠ []) : dropRedundant bs ≠ [] := by
  fun_induction dropRedundant bs with
  | case1 => exact hbs
  | case2 b => exact hbs
  | case3 b c rest h ih => exact ih (List.cons_ne_nil c rest)
  | case4 b c rest h => exact hbs

/-- **No shorter bytes spell the integer.** -/
theorem dropRedundant_minimal (bs : Bytes) {cs : Bytes} (hcs : cs ≠ [])
    (h : beInt cs = beInt bs) : (dropRedundant bs).length ≤ cs.length := by
  have hcs' : 0 < cs.length := List.length_pos_iff.mpr hcs
  fun_induction dropRedundant bs with
  | case1 => exact Nat.zero_le _
  | case2 b => exact hcs'
  | case3 b c rest hred ih => exact ih (h.trans (beInt_of_redundant hred))
  | case4 b c rest hred =>
    by_contra hlt
    have hle : cs.length ≤ (c :: rest).length := by
      rw [List.length_cons] at hlt
      omega
    have hpow : 256 ^ cs.length ≤ 256 ^ (c :: rest).length := Nat.pow_le_pow_right (by decide) hle
    have hbounds := beInt_bounds cs
    have hout := beInt_of_not_redundant rest hred
    rw [h] at hbounds
    omega

/-! ### Bytes of a parsed number -/

/-- The integer of a sign and a magnitude's words, least significant first. -/
def signedValue (negative : Bool) (ws : List UInt32) : Int :=
  if negative then -(wordsValue ws : Int) else wordsValue ws

/-- **`bigIntegerToByteArray`** spells the integer, whose magnitude is not zero when it is
    negative. -/
theorem beInt_bigIntegerToByteArray (negative : Bool) {ws : List UInt32}
    (hneg : negative = true → 0 < wordsValue ws) :
    beInt (bigIntegerToByteArray negative ws.reverse) = signedValue negative ws := by
  have hval := beNat_words ws
  have hlt := beNat_lt (ws.reverse.flatMap fun w => beBytes 4 w.toNat)
  generalize hbs : (ws.reverse.flatMap fun w => beBytes 4 w.toNat) = bs at hval hlt
  have hzero : beNat (0 :: bs) = wordsValue ws := by
    rw [beNat_cons, show (0 : UInt8).toNat = 0 from rfl, Nat.zero_mul, Nat.zero_add, hval]
  have hpow : 256 ^ (0 :: bs).length = 256 * 256 ^ bs.length := by
    rw [List.length_cons, pow_succ, Nat.mul_comm]
  have hcast (b : UInt8) : ((256 * 256 ^ bs.length : Nat) : Int) = 256 ^ (b :: bs).length := by
    rw [List.length_cons, pow_succ]; push_cast; ring
  rw [bigIntegerToByteArray, beInt_dropRedundant, hbs]
  unfold signedValue
  cases negative with
  | false =>
    rw [if_neg (by decide), if_neg (by decide), beInt, hzero, hpow, if_pos (by omega)]
  | true =>
    have hpos := hneg rfl
    have hcompl := beNat_map_complement (0 :: bs)
    have hlen : ((0 :: bs).map (~~~ ·)).length = (0 :: bs).length := List.length_map _
    rw [hzero, hpow] at hcompl
    have hinc : beNat (incrementBytes ((0 :: bs).map (~~~ ·))) = beNat ((0 :: bs).map (~~~ ·)) + 1 :=
      beNat_incrementBytes (by rw [hlen, hpow]; omega)
    rw [if_pos rfl, if_pos rfl, beInt, length_incrementBytes, hlen, hinc, hpow,
      if_neg (by omega), ← hcast 0]
    omega

theorem bigIntegerToByteArray_ne_nil (negative : Bool) (words : List UInt32) :
    bigIntegerToByteArray negative words ≠ [] := by
  unfold bigIntegerToByteArray
  apply dropRedundant_ne_nil
  split
  · apply List.ne_nil_of_length_pos
    rw [length_incrementBytes, List.length_map, List.length_cons]
    exact Nat.succ_pos _
  · exact List.cons_ne_nil _ _

/-- The bytes of `BigInteger.toByteArray()`: two's complement, in as few bytes as it takes and at
    least one. -/
structure IsMinimalBytes (bs : Bytes) (v : Int) : Prop where
  ne_nil : bs ≠ []
  spells : beInt bs = v
  shortest : ∀ cs : Bytes, cs ≠ [] → beInt cs = v → bs.length ≤ cs.length

theorem isMinimalBytes_bigInteger (negative : Bool) (ws : List UInt32)
    (hneg : negative = true → 0 < wordsValue ws) :
    IsMinimalBytes (bigIntegerToByteArray negative ws.reverse) (signedValue negative ws) := by
  have hspells := beInt_bigIntegerToByteArray negative hneg
  refine ⟨bigIntegerToByteArray_ne_nil _ _, hspells, ?_⟩
  intro cs hcs h
  apply dropRedundant_minimal _ hcs
  rw [h, ← hspells, bigIntegerToByteArray, beInt_dropRedundant]

/-! ### Text -/

/-- An integer's text is parsed to its sign and its magnitude's words. -/
theorem parseDecimal_intText (v : Int) : ∃ ws : List UInt32, TopNonzero ws
    ∧ wordsValue ws = v.natAbs ∧ parseDecimal (intText v) = some (decide (v < 0), ws.reverse) := by
  have hdigits : ∀ d ∈ natText v.natAbs, d.isDigit = true := fun _ => isDigit_of_mem_natText
  obtain ⟨htop, hval⟩ := pushDigits_spec hdigits [] (by intro w hw; cases hw)
  rw [wordsValue_nil, show Nat.ofDigitChars 10 (natText v.natAbs) 0 = v.natAbs from
    digitsValue_natText _] at hval
  refine ⟨_, htop, hval, ?_⟩
  generalize hws : (natText v.natAbs).foldl pushDigit [] = ws at hval
  have hbody : ∀ negative : Bool,
      (if natText v.natAbs ≠ [] ∧ (natText v.natAbs).all Char.isDigit then
          some (negative && !((natText v.natAbs).foldl pushDigit []).reverse.isEmpty,
            ((natText v.natAbs).foldl pushDigit []).reverse)
        else none) = some (negative && !ws.isEmpty, ws.reverse) := by
    intro negative
    rw [if_pos ⟨natText_ne_nil _, List.all_eq_true.mpr hdigits⟩, hws, List.isEmpty_reverse]
  by_cases hneg : v < 0
  · have hne : ws.isEmpty = false := by
      cases ws with
      | nil =>
        rw [wordsValue_nil] at hval
        omega
      | cons w ws => rfl
    rw [intText, if_pos hneg, parseDecimal]
    refine (hbody true).trans ?_
    rw [hne, decide_eq_true hneg]
    rfl
  · rw [intText, if_neg hneg, parseDecimal]
    · refine (hbody false).trans ?_
      rw [decide_eq_false hneg]
      rfl
    -- the text starts with a digit, not with a sign
    · intro ds h
      exact absurd (hdigits '-' (h ▸ List.mem_cons_self)) (by decide)
    · intro ds h
      exact absurd (hdigits '+' (h ▸ List.mem_cons_self)) (by decide)

/-! ### Hash -/

/-- `BigInteger.hashCode`: over the magnitude's 32-bit digits, the most significant first, 31 times
    the hash so far plus the digit, cut to an `int`; then times the sign. -/
def bigIntegerHashCode (v : Int) : Int32 :=
  (Nat.digits (2 ^ 32) v.natAbs).reverse.foldl
      (fun (h : Int32) (w : Nat) => Int32.ofInt (31 * h.toInt + (w : Int))) 0
    * Int32.ofInt v.sign

/-- One word in wrapping arithmetic. -/
theorem hash_step (h : Int32) (w : UInt32) :
    h * 31 + w.toInt32 = Int32.ofInt (31 * h.toInt + (w.toNat : Int)) := by
  have hw : w.toInt32 = Int32.ofInt (w.toNat : Int) := by
    rw [Int32.ofInt_eq_ofNat]
    exact (UInt32.toInt32_ofNat' (n := w.toNat)).symm.trans (by rw [UInt32.ofNat_toNat]) |>.symm
  rw [hw, Int32.ofInt_add, Int32.ofInt_mul, Int32.ofInt_toInt, Int32.mul_comm]
  rfl

theorem hash_words (ws : List UInt32) (h : Int32) :
    ws.foldl (fun h w => h * 31 + w.toInt32) h
      = (ws.map UInt32.toNat).foldl
          (fun (h : Int32) (w : Nat) => Int32.ofInt (31 * h.toInt + (w : Int))) h := by
  induction ws generalizing h with
  | nil => rfl
  | cons w ws ih => rw [List.foldl_cons, List.map_cons, List.foldl_cons, hash_step, ih]

/-- **The hash of the words** is that of the integer. -/
theorem javaBigIntegerHash_eq {v : Int} {ws : List UInt32} (htop : TopNonzero ws)
    (hval : wordsValue ws = v.natAbs) :
    javaBigIntegerHash (decide (v < 0)) ws.reverse = bigIntegerHashCode v := by
  have hdigits := digits_wordsValue htop
  rw [hval] at hdigits
  have hdrop : ws.reverse.dropWhile (· == 0) = ws.reverse := by
    cases hr : ws.reverse with
    | nil => rfl
    | cons w rest =>
      have hlast : w ∈ ws.getLast? := by
        rw [← List.head?_reverse, hr]
        rfl
      rw [List.dropWhile_cons_of_neg (by simpa using htop w hlast)]
  have hempty : v ≠ 0 → ws.reverse.isEmpty = false := by
    intro hne
    cases ws with
    | nil =>
      rw [wordsValue_nil] at hval
      omega
    | cons w ws => simp
  unfold javaBigIntegerHash bigIntegerHashCode
  rw [hdrop, hdigits, ← List.map_reverse, ← hash_words]
  show (if ws.reverse.isEmpty = true then 0 else if decide (v < 0) = true then -_ else _) = _
  rcases Int.lt_trichotomy v 0 with hneg | rfl | hpos
  · rw [hempty (by omega), Int.sign_eq_neg_one_of_neg hneg, decide_eq_true hneg]
    show -(ws.reverse.foldl _ 0) = ws.reverse.foldl _ 0 * -1
    rw [Int32.mul_neg, Int32.mul_one]
  · rw [Int.natAbs_zero, Nat.digits_zero] at hdigits
    rw [List.map_eq_nil_iff.mp hdigits.symm]
    rfl
  · rw [hempty (by omega), Int.sign_eq_one_of_pos hpos,
      decide_eq_false (Int.not_lt_of_ge (Int.le_of_lt hpos))]
    show ws.reverse.foldl _ 0 = ws.reverse.foldl _ 0 * 1
    rw [Int32.mul_one]

/-- **Big integers are one integer in every form.**  The decoder's decimal text of any bytes is
    that of their integer; an integer's text is parsed to words whose bytes are the shortest that
    spell it, are shown as the same text, and whose hash is Java's. -/
theorem bigIntegers_inverse :
    (∀ bs : Bytes, twosComplementToDecimal bs = intText (beInt bs))
      ∧ ∀ v : Int, ∃ negative words, parseDecimal (intText v) = some (negative, words)
          ∧ IsMinimalBytes (bigIntegerToByteArray negative words) v
          ∧ twosComplementToDecimal (bigIntegerToByteArray negative words) = intText v
          ∧ javaBigIntegerHash negative words = bigIntegerHashCode v := by
  refine ⟨twosComplementToDecimal_eq, ?_⟩
  intro v
  obtain ⟨ws, htop, hval, hparse⟩ := parseDecimal_intText v
  have hsigned : signedValue (decide (v < 0)) ws = v := by
    unfold signedValue
    rw [hval]
    by_cases hneg : v < 0
    · rw [decide_eq_true hneg, if_pos rfl]
      omega
    · rw [decide_eq_false hneg, if_neg (by decide)]
      omega
  have hmin := isMinimalBytes_bigInteger (decide (v < 0)) ws (by
    intro h
    have hneg := of_decide_eq_true h
    omega)
  rw [hsigned] at hmin
  refine ⟨_, _, hparse, hmin, ?_, javaBigIntegerHash_eq htop hval⟩
  rw [twosComplementToDecimal_eq, hmin.spells]

end FlinkExplorer
