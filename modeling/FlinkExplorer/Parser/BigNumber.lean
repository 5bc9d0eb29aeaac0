import FlinkExplorer.Parser.Value
import Mathlib.Tactic.NormNum

namespace FlinkExplorer

open Lib

/-!
# Big numbers in decimal

`twosComplementToDecimal` divides a magnitude by `10^9` until nothing is left and prints the
remainders, the most significant one first:

* `beNat_incrementBytes` and `beNat_map_complement` — negation of the magnitude;
* `divModBase_spec` — one pass of long division;
* `chunksLoop_spec` — the chunks are the base-`10^9` digits, the last one not zero;
* `twosComplementToDecimal_eq` — the text is the decimal form of the integer;
* `decimalText_parts` — a decimal is digits, a point among them and an exponent.
-/

/-! ### Negation -/

/-- The carry loop of `incrementBytes`, from the least significant byte. -/
theorem incrementBytes_loop (bs : Bytes) :
    ∃ ds carry, bs.foldr (fun b (acc : Bytes × Bool) =>
        if acc.2 then ((b + 1) :: acc.1, b = 0xff) else (b :: acc.1, false)) ([], true) = (ds, carry)
      ∧ ds.length = bs.length ∧
      beNat bs + 1 = beNat ds + if carry then 256 ^ bs.length else 0 := by
  induction bs with
  | nil => exact ⟨[], true, rfl, rfl, rfl⟩
  | cons b bs ih =>
    obtain ⟨ds, carry, heq, hlen, hval⟩ := ih
    rw [List.foldr_cons, heq]
    cases carry with
    | false =>
      simp only [Bool.false_eq_true, ↓reduceIte] at hval
      refine ⟨b :: ds, false, rfl, by rw [List.length_cons, List.length_cons, hlen], ?_⟩
      rw [beNat_cons, beNat_cons, hlen, if_neg (by decide)]
      omega
    | true =>
      simp only [↓reduceIte] at hval
      refine ⟨(b + 1) :: ds, b = 0xff, rfl, by rw [List.length_cons, List.length_cons, hlen], ?_⟩
      rw [beNat_cons, beNat_cons, hlen, List.length_cons, pow_succ]
      by_cases hb : b = 0xff
      · -- The carry goes on.
        subst hb
        rw [if_pos (by decide), show ((0xff : UInt8) + 1).toNat = 0 from rfl,
          show (0xff : UInt8).toNat = 255 from rfl]
        omega
      · have hlt : b.toNat ≠ 255 := fun h => hb (UInt8.toNat_inj.mp h)
        have h256 := b.toNat_lt
        have hadd : (b + 1).toNat = b.toNat + 1 := by
          rw [UInt8.toNat_add, show (1 : UInt8).toNat = 1 from rfl]
          omega
        rw [if_neg (by simpa using hb), hadd, Nat.add_mul, Nat.one_mul]
        omega

theorem length_incrementBytes (bs : Bytes) : (incrementBytes bs).length = bs.length := by
  obtain ⟨ds, carry, heq, hlen, -⟩ := incrementBytes_loop bs
  rw [incrementBytes, heq, hlen]

/-- Adding one, the last carry dropped. -/
theorem beNat_incrementBytes {bs : Bytes} (h : beNat bs + 1 < 256 ^ bs.length) :
    beNat (incrementBytes bs) = beNat bs + 1 := by
  obtain ⟨ds, carry, heq, -, hval⟩ := incrementBytes_loop bs
  rw [incrementBytes, heq]
  cases carry with
  | false => simpa using hval.symm
  | true =>
    simp only [↓reduceIte] at hval
    omega

theorem beNat_map_complement (bs : Bytes) :
    beNat (bs.map (~~~ ·)) + beNat bs + 1 = 256 ^ bs.length := by
  induction bs with
  | nil => rfl
  | cons b bs ih =>
    have hb : (~~~ b).toNat + b.toNat = 255 := by
      have := b.toNat_lt
      rw [UInt8.toNat_not]
      have : UInt8.size = 256 := rfl
      omega
    rw [List.map_cons, beNat_cons, beNat_cons, List.length_map, List.length_cons, pow_succ]
    have hsum : (~~~ b).toNat * 256 ^ bs.length + b.toNat * 256 ^ bs.length
        = 255 * 256 ^ bs.length := by rw [← Nat.add_mul, hb]
    omega

/-! ### Long division -/

/-- One pass of long division: the quotient keeps the length, and the remainder is below
    `10^9`. -/
theorem divModBase_spec (bs : Bytes) :
    (divModBase bs).1.length = bs.length ∧ (divModBase bs).2 < 1000000000 ∧
      beNat bs = beNat (divModBase bs).1 * 1000000000 + (divModBase bs).2 := by
  induction bs using List.reverseRecOn with
  | nil => simp [divModBase]
  | append_singleton bs b ih =>
    obtain ⟨hlen, hrem, hval⟩ := ih
    have hstep : divModBase (bs ++ [b])
        = ((divModBase bs).1 ++ [UInt8.ofNat (((divModBase bs).2 * 256 + b.toNat) / 1000000000)],
          ((divModBase bs).2 * 256 + b.toNat) % 1000000000) := by simp [divModBase]
    have hb := b.toNat_lt
    have hdigit : (UInt8.ofNat (((divModBase bs).2 * 256 + b.toNat) / 1000000000)).toNat
        = ((divModBase bs).2 * 256 + b.toNat) / 1000000000 := by
      rw [UInt8.toNat_ofNat']
      omega
    rw [hstep]
    refine ⟨by simp [hlen], by simp only; omega, ?_⟩
    rw [beNat_append, beNat_append, List.length_singleton, List.length_singleton, beNat_singleton,
      beNat_singleton, hdigit, hval]
    simp only
    omega

/-- The number base-`10^9` digits spell, least significant first. -/
def chunksValue : List Nat → Nat
  | [] => 0
  | c :: cs => c + 1000000000 * chunksValue cs

theorem beNat_dropWhile_zero (bs : Bytes) : beNat (bs.dropWhile (· == 0)) = beNat bs := by
  induction bs with
  | nil => rfl
  | cons b bs ih =>
    by_cases hb : b = 0
    · subst hb
      rw [List.dropWhile_cons_of_pos rfl, ih, beNat_cons]
      simp
    · rw [List.dropWhile_cons_of_neg (by simpa using hb)]

/-- A magnitude below `256 ^ k` has at most `k` bytes past its leading zeros. -/
theorem length_dropWhile_zero_le {bs : Bytes} {k : Nat} (h : beNat bs < 256 ^ k) :
    (bs.dropWhile (· == 0)).length ≤ k := by
  have hval := beNat_dropWhile_zero bs
  rcases hm : bs.dropWhile (· == 0) with _ | ⟨m, ms⟩
  · exact Nat.zero_le k
  · have hm0 : m ≠ 0 := by
      have := List.head?_dropWhile_not (· == (0 : UInt8)) bs
      rw [hm] at this
      simpa using this
    have hmpos : 1 ≤ m.toNat := by
      have : m.toNat ≠ (0 : UInt8).toNat := fun h => hm0 (UInt8.toNat_inj.mp h)
      have : (0 : UInt8).toNat = 0 := rfl
      omega
    rw [hm, beNat_cons] at hval
    have hlow : 256 ^ ms.length ≤ m.toNat * 256 ^ ms.length := Nat.le_mul_of_pos_left _ hmpos
    have hlt : 256 ^ ms.length < 256 ^ k := by omega
    have := (Nat.pow_lt_pow_iff_right (show 1 < 256 by decide)).mp hlt
    rw [List.length_cons]
    omega

/-- What the chunks of a magnitude are: base-`10^9` digits, the most significant not zero. -/
theorem chunksLoop_spec (passes : Nat) (mag : Bytes)
    (h : (mag.dropWhile (· == 0)).length ≤ passes) :
    chunksValue (chunksLoop passes mag) = beNat mag ∧
      (∀ c ∈ chunksLoop passes mag, c < 1000000000) ∧
      ∀ c ∈ (chunksLoop passes mag).getLast?, c ≠ 0 := by
  have hdrop := beNat_dropWhile_zero mag
  induction passes generalizing mag with
  | zero =>
    rw [List.length_eq_zero_iff.mp (Nat.le_zero.mp h)] at hdrop
    simp [chunksLoop, chunksValue, ← hdrop]
  | succ passes ih =>
    rw [chunksLoop]
    rcases hm : mag.dropWhile (· == 0) with _ | ⟨m, ms⟩
    · rw [hm] at hdrop
      simp [chunksValue, ← hdrop]
    · rw [hm] at hdrop h
      obtain ⟨-, hrem, hval⟩ := divModBase_spec (m :: ms)
      -- The quotient is one byte shorter than the magnitude.
      have hlt := beNat_lt (m :: ms)
      rw [List.length_cons, pow_succ] at hlt
      rw [List.length_cons] at h
      have hq : beNat (divModBase (m :: ms)).1 < 256 ^ ms.length := by omega
      have hqle := length_dropWhile_zero_le hq
      obtain ⟨hsum, hall, hlast⟩ := ih (divModBase (m :: ms)).1 (by omega)
        (beNat_dropWhile_zero _)
      simp only
      refine ⟨?_, ?_, ?_⟩
      · rw [chunksValue, hsum, ← hdrop, hval]
        ring
      · intro c hc
        rcases List.mem_cons.mp hc with rfl | hc
        · exact hrem
        · exact hall c hc
      · intro c hc
        rcases hnext : chunksLoop passes (divModBase (m :: ms)).1 with _ | ⟨d, ds⟩
        · -- The quotient is zero, so the remainder is the magnitude.
          rw [hnext] at hc hsum
          have hc' : (divModBase (m :: ms)).2 = c := by simpa using hc
          have hpos (h : beNat mag < 256 ^ 0) := length_dropWhile_zero_le h
          rw [hm, List.length_cons] at hpos
          have hzero : beNat (divModBase (m :: ms)).1 = 0 := hsum.symm
          intro h0
          rw [hzero, hc', h0] at hval
          have : beNat mag < 256 ^ 0 := by rw [← hdrop, hval]; decide
          have := hpos this
          omega
        · rw [hnext] at hc hlast
          exact hlast c (by simpa using hc)

/-! ### The decimal text -/

/-- The chunks in print: the most significant bare, the others padded. -/
theorem natText_chunksValue (cs : List Nat) (most : Nat) (hall : ∀ c ∈ cs, c < 1000000000)
    (hmost : 0 < most) :
    natText most ++ cs.reverse.flatMap (padNat 9) = natText (chunksValue (cs ++ [most])) := by
  induction cs with
  | nil => simp [chunksValue]
  | cons c cs ih =>
    have hpos (ds : List Nat) : 0 < chunksValue (ds ++ [most]) := by
      induction ds with
      | nil => simpa [chunksValue] using hmost
      | cons d ds ihd =>
        rw [List.cons_append, chunksValue]
        omega
    have hc : c < 10 ^ 9 := hall c List.mem_cons_self
    rw [List.reverse_cons, List.flatMap_append, ← List.append_assoc,
      ih fun d hd => hall d (List.mem_cons_of_mem c hd), List.flatMap_singleton,
      natText_append_padNat (by decide) (hpos cs) hc, List.cons_append, chunksValue]
    congr 1
    ring

/-- The chunks of a magnitude print as its decimal digits. -/
theorem chunksText_eq (mag : Bytes) :
    (match (chunksLoop mag.length mag).reverse with
      | [] => ['0']
      | most :: rest => natText most ++ rest.flatMap (padNat 9)) = natText (beNat mag) := by
  have hle := (List.dropWhile_sublist (· == (0 : UInt8)) (l := mag)).length_le
  obtain ⟨hsum, hall, hlast⟩ := chunksLoop_spec mag.length mag hle
  generalize chunksLoop mag.length mag = chunks at hsum hall hlast
  rcases List.eq_nil_or_concat chunks with rfl | ⟨cs, most, rfl⟩
  · rw [← hsum]
    rfl
  · have hmost : most ≠ 0 := hlast most (by simp)
    rw [List.concat_eq_append] at *
    rw [List.reverse_append, List.reverse_singleton, List.singleton_append, ← hsum]
    exact natText_chunksValue cs most (fun c hc => hall c (by simp [hc])) (by omega)

/-- The sign bit of a byte string is that of the integer it spells. -/
theorem head_sign_bit (bs : Bytes) :
    (bs.head?.any fun b => b &&& 0x80 != 0) = decide (256 ^ bs.length ≤ 2 * beNat bs) := by
  cases bs with
  | nil => rfl
  | cons b bs =>
    have hb := b.toNat_lt
    have hlow := beNat_lt bs
    have hbit : (b &&& 0x80 != 0) = decide (128 ≤ b.toNat) := by
      have hall : ∀ n < 256, (n &&& 128 = 0) ↔ ¬ 128 ≤ n := by decide +kernel
      have hiff : b &&& 0x80 = 0 ↔ ¬ 128 ≤ b.toNat := by
        rw [← UInt8.toNat_inj, UInt8.toNat_and]
        exact hall _ hb
      by_cases h : 128 ≤ b.toNat
      · simpa [h] using hiff
      · simpa [h] using hiff
    rw [List.head?_cons, Option.any_some, hbit, beNat_cons, List.length_cons, pow_succ]
    by_cases h : 128 ≤ b.toNat
    · have : 128 * 256 ^ bs.length ≤ b.toNat * 256 ^ bs.length := Nat.mul_le_mul_right _ h
      rw [decide_eq_true h, decide_eq_true (by omega)]
    · have : b.toNat * 256 ^ bs.length ≤ 127 * 256 ^ bs.length :=
        Nat.mul_le_mul_right _ (by omega)
      rw [decide_eq_false h, decide_eq_false (by omega)]

/-- **Two's complement in decimal.**  The text is the decimal form of the integer. -/
theorem twosComplementToDecimal_eq (bs : Bytes) :
    twosComplementToDecimal bs = intText (beInt bs) := by
  have htext (mag : Bytes) (sign : Text) :
      (match (chunksLoop mag.length mag).reverse with
        | [] => sign ++ ['0']
        | most :: rest => sign ++ natText most ++ rest.flatMap (padNat 9))
        = sign ++ natText (beNat mag) := by
    rw [← chunksText_eq]
    split <;> simp
  have hlt := beNat_lt bs
  have hcast : ((256 ^ bs.length : Nat) : Int) = 256 ^ bs.length := by push_cast; rfl
  unfold twosComplementToDecimal intText beInt
  rw [head_sign_bit]
  by_cases hneg : 256 ^ bs.length ≤ 2 * beNat bs
  · have hcompl := beNat_map_complement bs
    have hlt' : beNat (bs.map (~~~ ·)) + 1 < 256 ^ (bs.map (~~~ ·)).length := by
      rw [List.length_map]
      omega
    have hinc := beNat_incrementBytes hlt'
    have hnat : beNat (bs.map (~~~ ·)) + 1 = ((beNat bs : Int) - 256 ^ bs.length).natAbs := by omega
    have hbig : ¬ 2 * beNat bs < 256 ^ bs.length := by omega
    have hsign : (beNat bs : Int) - 256 ^ bs.length < 0 := by omega
    simp only [hneg, hbig, hsign, decide_true, ↓reduceIte]
    refine (htext _ ['-']).trans ?_
    rw [hinc, hnat]
    rfl
  · have hsmall : 2 * beNat bs < 256 ^ bs.length := by omega
    have hsign : ¬ (beNat bs : Int) < 0 := by omega
    simp only [hneg, hsmall, hsign, decide_false, Bool.false_eq_true, ↓reduceIte]
    refine (htext bs []).trans ?_
    rfl

/-! ### Decimals -/

section Decimals

/-- Everything in `t` is a decimal digit. -/
def AllDigits (t : Text) : Prop := ∀ c ∈ t, c.isDigit = true

theorem AllDigits.ne {t : Text} (h : AllDigits t) (sep : Char) (hsep : sep.isDigit = false) :
    ∀ c ∈ t, (c != sep) = true := by
  intro c hc
  rw [bne_iff_ne]
  rintro rfl
  rw [h c hc] at hsep
  cases hsep

theorem AllDigits.natText (n : Nat) : AllDigits (natText n) := fun _ => isDigit_of_mem_natText

theorem AllDigits.append {a b : Text} (ha : AllDigits a) (hb : AllDigits b) :
    AllDigits (a ++ b) := by
  intro c hc
  rcases List.mem_append.mp hc with hc | hc
  · exact ha c hc
  · exact hb c hc

/-- A text is taken apart before its first stop. -/
theorem takeWhile_stop {p : Char → Bool} {a : Text} (rest : Text) (ha : ∀ c ∈ a, p c = true)
    (hrest : ∀ c ∈ rest.head?, p c = false) :
    (a ++ rest).takeWhile p = a ∧ (a ++ rest).dropWhile p = rest := by
  rw [List.takeWhile_append_of_pos ha, List.dropWhile_append_of_pos ha]
  cases rest with
  | nil => simp
  | cons c rest =>
    have hc : p c = false := hrest c rfl
    simp [hc]

theorem stripPrefix_minus_natText (n : Nat) : stripPrefix ['-'] (natText n) = none := by
  rcases h : stripPrefix ['-'] (natText n) with _ | s
  · rfl
  · have := stripPrefix_eq_some.mp h
    exact absurd (by rw [this]; exact List.mem_cons_self) (minus_not_mem_natText n)

theorem digitsValue_zeros (k n : Nat) :
    digitsValue (['0'] ++ (List.replicate k '0' ++ natText n)) = n := by
  have hzeros : ['0'] ++ (List.replicate k '0' ++ natText n)
      = List.replicate (k + 1) '0' ++ natText n := by
    rw [List.replicate_succ]
    rfl
  rw [hzeros, digitsValue, Nat.ofDigitChars_append, Nat.ofDigitChars_replicate_zero, Nat.mul_zero]
  exact digitsValue_natText n

/-- The exponent of a decimal: nothing for zero, else an `E` and a signed number. -/
def exponentText (e : Int) : Text :=
  if e = 0 then []
  else if e > 0 then 'E' :: '+' :: intText e
  else 'E' :: intText e

theorem exponentText_head (e : Int) : ∀ c ∈ (exponentText e).head?, c = 'E' := by
  unfold exponentText
  split
  · simp
  · split <;> simp

/-- What a decimal without its sign is made of: digits, a point among them, an exponent. -/
theorem decimalText_parts (n : Nat) (scale : Int) :
    ∃ whole fraction point e, decimalText (natText n) scale = whole ++ point ++ exponentText e ∧
      AllDigits whole ∧ AllDigits fraction ∧
      (point = '.' :: fraction ∨ point = [] ∧ fraction = []) ∧ whole ≠ [] ∧
      digitsValue (whole ++ fraction) = n ∧ fraction.length - e = scale := by
  have hlen : 0 < (natText n).length := List.length_pos_iff.mpr (natText_ne_nil n)
  have hnil : AllDigits [] := fun c hc => absurd hc List.not_mem_nil
  have htake (k : Nat) : AllDigits ((natText n).take k) := fun c hc =>
    AllDigits.natText n c (List.mem_of_mem_take hc)
  have hdrop (k : Nat) : AllDigits ((natText n).drop k) := fun c hc =>
    AllDigits.natText n c (List.mem_of_mem_drop hc)
  have hjoin (k : Nat) : digitsValue ((natText n).take k ++ (natText n).drop k) = n := by
    rw [List.take_append_drop, digitsValue_natText]
  have hne {k : Nat} (hk : 0 < k) : (natText n).take k ≠ [] := by
    intro h
    have := congrArg List.length h
    rw [List.length_take, List.length_nil] at this
    omega
  -- Without an exponent.
  have hzero (t : Text) : t = t ++ exponentText 0 := (List.append_nil t).symm
  unfold decimalText
  simp only
  by_cases hplain : scale ≥ 0 ∧ -scale + ((natText n).length - 1 : Int) ≥ -6
  · rw [if_pos hplain]
    by_cases hscale : scale = 0
    · -- An integer.
      rw [if_pos hscale]
      exact ⟨natText n, [], [], 0, by rw [List.append_nil]; exact hzero _, AllDigits.natText n,
        hnil, .inr ⟨rfl, rfl⟩, natText_ne_nil n, by rw [List.append_nil, digitsValue_natText],
        by rw [hscale]; rfl⟩
    · rw [if_neg hscale]
      by_cases hlt : scale < (natText n).length
      · -- The point falls among the digits.
        rw [if_pos hlt]
        refine ⟨_, _, _, 0, hzero _, htake _, hdrop _, .inl rfl, hne (by omega), hjoin _, ?_⟩
        rw [List.length_drop]
        omega
      · -- Zeros between the point and the digits.
        rw [if_neg hlt]
        refine ⟨['0'], List.replicate (scale - (natText n).length).toNat '0' ++ natText n, _, 0,
          hzero _, by simp [AllDigits], ?_, .inl rfl, by simp, digitsValue_zeros _ n, ?_⟩
        · refine AllDigits.append (fun c hc => ?_) (AllDigits.natText n)
          rw [(List.mem_replicate.mp hc).2]
          rfl
        · rw [List.length_append, List.length_replicate]
          omega
  · -- Scientific notation: one digit before the point.
    rw [if_neg hplain]
    by_cases hone : ((natText n).length : Int) > 1
    · rw [if_pos hone]
      refine ⟨_, _, _, -scale + ((natText n).length - 1 : Int), rfl, htake 1, hdrop 1, .inl rfl,
        hne (by omega), hjoin 1, ?_⟩
      rw [List.length_drop]
      omega
    · rw [if_neg hone]
      have hall : (natText n).take 1 = natText n := List.take_of_length_le (by omega)
      refine ⟨_, [], [], -scale + ((natText n).length - 1 : Int), rfl, htake 1, hnil,
        .inr ⟨rfl, rfl⟩, hne (by omega), ?_, ?_⟩
      · rw [List.append_nil, hall, digitsValue_natText]
      · rw [List.length_nil]
        omega

end Decimals

end FlinkExplorer
