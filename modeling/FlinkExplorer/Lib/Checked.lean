import FlinkExplorer.Lib.Bytes

namespace FlinkExplorer.Lib.Checked

/-!
# Steps that may abort

An index out of range, a difference below zero and a result too large for its word abort the
program.  Here such a step is an `Option`, `none` when it aborts, and a computation built from them returns `some` exactly when no
step of it aborts.
-/

variable {α : Type}

/-- `a - b` on `usize`. -/
def sub (a b : Nat) : Option Nat := if b ≤ a then some (a - b) else none

/-- `&data[start..stop]`. -/
def slice (data : List α) (start stop : Nat) : Option (List α) :=
  if start ≤ stop ∧ stop ≤ data.length then some ((data.drop start).take (stop - start)) else none

/-- A result that fits a signed word of `bits + 1` bits. -/
def signed (bits : Nat) (v : Int) : Option Int :=
  if -2 ^ bits ≤ v ∧ v < 2 ^ bits then some v else none

/-- `a / b` on a signed word of `bits + 1` bits. -/
def div (bits : Nat) (a b : Int) : Option Int := if b = 0 then none else signed bits (a.tdiv b)

/-- `a % b`: it aborts where `a / b` does. -/
def rem (bits : Nat) (a b : Int) : Option Int := (div bits a b).map fun _ => a.tmod b

theorem sub_eq_some {a b : Nat} (h : b ≤ a) : sub a b = some (a - b) := if_pos h

theorem signed_eq_some {bits : Nat} {v : Int} (hlo : -2 ^ bits ≤ v) (hhi : v < 2 ^ bits) :
    signed bits v = some v := if_pos ⟨hlo, hhi⟩

theorem signed_isSome {bits : Nat} {v w : Int} (h : signed bits v = some w) :
    w = v ∧ -2 ^ bits ≤ v ∧ v < 2 ^ bits := by
  unfold signed at h
  split_ifs at h with hfits
  exact ⟨(Option.some.inj h).symm, hfits⟩

/-- A quotient of a number that fits, other than the least one. -/
theorem div_eq_some {bits : Nat} {a b : Int} (hb : b ≠ 0) (hlo : -2 ^ bits < a) (hhi : a < 2 ^ bits) :
    div bits a b = some (a.tdiv b) := by
  have habs : (a.tdiv b).natAbs ≤ a.natAbs := by
    rw [Int.natAbs_tdiv]
    exact Nat.div_le_self _ _
  unfold div
  rw [if_neg hb]
  exact signed_eq_some (by omega) (by omega)

theorem rem_eq_some {bits : Nat} {a b : Int} (hb : b ≠ 0) (hlo : -2 ^ bits < a) (hhi : a < 2 ^ bits) :
    rem bits a b = some (a.tmod b) := by
  unfold rem
  rw [div_eq_some hb hlo hhi]
  rfl

theorem div_isSome {bits : Nat} {a b v : Int} (h : div bits a b = some v) : b ≠ 0 := by
  rintro rfl
  cases h

theorem slice_eq_some {data : List α} {start stop : Nat} (h : start ≤ stop)
    (hstop : stop ≤ data.length) :
    slice data start stop = some ((data.drop start).take (stop - start)) := if_pos ⟨h, hstop⟩

end FlinkExplorer.Lib.Checked
