import Mathlib.Data.List.Induction
import Mathlib.Data.Nat.Size
import Mathlib.Tactic.Linarith
import Mathlib.Tactic.Ring

namespace FlinkExplorer.Lib

/-!
# Byte strings — big-endian words

A byte string is a list of `UInt8`.  Fixed-width words are written most significant byte
first:

* `beNat` reads a whole byte string as one big-endian number;
* `beBytes w n` writes the low `w` bytes of `n`;
* `beNat_beBytes` — a number that fits is read back, which is what makes every fixed-width field
  of a binary format readable;
* `beInt` reads a byte string in two's complement, `twosComplement` writes an integer in as
  few bytes as that takes, and `beInt_twosComplement` reads it back.
-/

/-- A byte string. -/
abbrev Bytes := List UInt8

/-- The big-endian number a byte string spells. -/
def beNat (bs : Bytes) : Nat := bs.foldl (fun n b => n * 256 + b.toNat) 0

/-- The low `w` bytes of `n`, most significant first. -/
def beBytes : Nat → Nat → Bytes
  | 0, _ => []
  | w + 1, n => beBytes w (n / 256) ++ [UInt8.ofNat n]

@[simp] theorem beNat_nil : beNat [] = 0 := rfl

@[simp] theorem beNat_singleton (b : UInt8) : beNat [b] = b.toNat := by simp [beNat]

/-- Reading `a ++ b` shifts what `a` spells past the bytes of `b`. -/
theorem beNat_append (a b : Bytes) : beNat (a ++ b) = beNat a * 256 ^ b.length + beNat b := by
  induction b using List.reverseRecOn generalizing a with
  | nil => simp
  | append_singleton b x ih =>
    have hsnoc (c : Bytes) : beNat (c ++ [x]) = beNat c * 256 + x.toNat := by simp [beNat]
    rw [← List.append_assoc, hsnoc, hsnoc, ih, List.length_append, List.length_singleton, pow_succ]
    ring

theorem beNat_cons (x : UInt8) (b : Bytes) :
    beNat (x :: b) = x.toNat * 256 ^ b.length + beNat b := by
  have h := beNat_append [x] b
  simpa using h

@[simp] theorem length_beBytes (w n : Nat) : (beBytes w n).length = w := by
  induction w generalizing n with
  | zero => rfl
  | succ w ih => simp [beBytes, ih]

theorem beNat_lt (bs : Bytes) : beNat bs < 256 ^ bs.length := by
  induction bs with
  | nil => simp
  | cons x bs ih =>
    have hx : x.toNat < 256 := x.toNat_lt
    rw [beNat_cons, List.length_cons, pow_succ]
    nlinarith [Nat.pow_pos (n := bs.length) (show 0 < 256 by decide)]

/-- **Write, then read.**  Reading `w` written bytes gives the number modulo `256 ^ w`. -/
theorem beNat_beBytes (w n : Nat) : beNat (beBytes w n) = n % 256 ^ w := by
  induction w generalizing n with
  | zero => simp [beBytes, Nat.mod_one]
  | succ w ih =>
    have hb : (UInt8.ofNat n).toNat = n % 256 := by simp
    rw [beBytes, beNat_append, ih, List.length_singleton, beNat_singleton, hb, pow_one,
      pow_succ, Nat.mul_comm (256 ^ w) 256, Nat.mod_mul]
    ring

theorem beNat_beBytes_of_lt {w n : Nat} (h : n < 256 ^ w) : beNat (beBytes w n) = n := by
  rw [beNat_beBytes, Nat.mod_eq_of_lt h]

/-! ### Two's complement -/

/-- The integer a byte string spells in two's complement. -/
def beInt (bs : Bytes) : Int :=
  if 2 * beNat bs < 256 ^ bs.length then beNat bs else beNat bs - 256 ^ bs.length

/-- The bytes two's complement takes for `v`: its bits and one for the sign. -/
def byteLength (v : Int) : Nat := Nat.size (if v < 0 then (-v - 1).toNat else v.toNat) / 8 + 1

/-- `v` in two's complement, in as few bytes as it takes. -/
def twosComplement (v : Int) : Bytes := beBytes (byteLength v) (v % 256 ^ byteLength v).toNat

@[simp] theorem length_twosComplement (v : Int) : (twosComplement v).length = byteLength v :=
  length_beBytes _ _

/-- Half of the values of `byteLength v` bytes lie on either side of zero, `v` among them. -/
theorem byteLength_bounds (v : Int) :
    -(256 : Int) ^ byteLength v ≤ 2 * v ∧ 2 * v < 256 ^ byteLength v := by
  have hsize := Nat.lt_size_self (if v < 0 then (-v - 1).toNat else v.toNat)
  have hbits : Nat.size (if v < 0 then (-v - 1).toNat else v.toNat) + 1 ≤ 8 * byteLength v := by
    unfold byteLength
    omega
  have hpow : 2 * 2 ^ Nat.size (if v < 0 then (-v - 1).toNat else v.toNat) ≤ 256 ^ byteLength v := by
    calc 2 * 2 ^ Nat.size (if v < 0 then (-v - 1).toNat else v.toNat)
        = 2 ^ (Nat.size (if v < 0 then (-v - 1).toNat else v.toNat) + 1) := by rw [pow_succ]; ring
      _ ≤ 2 ^ (8 * byteLength v) := Nat.pow_le_pow_right (by decide) hbits
      _ = 256 ^ byteLength v := by rw [pow_mul]; norm_num
  have hcast : ((256 ^ byteLength v : Nat) : Int) = 256 ^ byteLength v := by push_cast; rfl
  rw [← hcast]
  generalize 256 ^ byteLength v = top at hpow
  split at hsize <;> split at hpow <;> omega

/-- **Two's complement round trip.** -/
theorem beInt_twosComplement (v : Int) : beInt (twosComplement v) = v := by
  obtain ⟨hlo, hhi⟩ := byteLength_bounds v
  have hcast : ((256 ^ byteLength v : Nat) : Int) = 256 ^ byteLength v := by push_cast; rfl
  have htop : 0 < 256 ^ byteLength v := Nat.pow_pos (by decide)
  have hmod : (v % 256 ^ byteLength v).toNat < 256 ^ byteLength v := by
    rw [← hcast]
    generalize 256 ^ byteLength v = top at htop
    have := Int.emod_lt_of_pos v (show (0 : Int) < top by omega)
    have := Int.emod_nonneg v (show (top : Int) ≠ 0 by omega)
    omega
  unfold beInt
  rw [length_twosComplement, twosComplement, beNat_beBytes_of_lt hmod]
  rw [← hcast] at hlo hhi ⊢
  generalize 256 ^ byteLength v = top at *
  have hnonneg := Int.emod_nonneg v (show (top : Int) ≠ 0 by omega)
  rcases Int.lt_or_le v 0 with hneg | hpos
  · have hv : v % top = v + top := by
      rw [← Int.add_emod_right, Int.emod_eq_of_lt (by omega) (by omega)]
    rw [hv, if_neg (by omega)]
    omega
  · have hv : v % top = v := Int.emod_eq_of_lt hpos (by omega)
    rw [hv, if_pos (by omega)]
    omega

end FlinkExplorer.Lib
