import FlinkExplorer.Lib.Checked
import FlinkExplorer.Parser.JavaKey

namespace FlinkExplorer

open Lib

/-!
# `parser/key_group.rs` — key-groups, subtasks and hashes

`rangeForSubtask` rounds up, `subtaskForKeyGroup` rounds down, and each undoes the other:

* `start_le_iff` — a key-group is at or after the start of a subtask's range exactly when its own
  subtask is that one or a later one;
* `range_end` — a range ends right before the next one starts;
* `mem_range_iff` — so a key-group is in the range of its subtask alone;
* `murmurHash_nonneg` — a hash is never negative, so `keyGroupForHash` is a key-group;
* `keyGroups_partition` — **the ranges partition the key-groups**, and no step leaves `i32`.
-/

/-- `range_for_subtask`, each step of it checked. -/
def rangeForSubtaskChecked (maxParallelism parallelism subtask : Int) : Option (Int × Int) := do
  let product ← Checked.signed 31 (subtask * maxParallelism)
  let sum ← Checked.signed 31 (product + parallelism)
  let first ← Checked.signed 31 (sum - 1)
  let next ← Checked.signed 31 (subtask + 1)
  let product ← Checked.signed 31 (next * maxParallelism)
  let last ← Checked.signed 31 (product - 1)
  pure (first.tdiv parallelism, last.tdiv parallelism)

/-- `subtask_for_key_group`, its product checked. -/
def subtaskForKeyGroupChecked (maxParallelism parallelism keyGroup : Int) : Option Int := do
  let product ← Checked.signed 31 (keyGroup * parallelism)
  pure (product.tdiv maxParallelism)

section Ranges

variable {maxP p : Int}

/-- For the numbers that occur, truncation is rounding down. -/
theorem rangeForSubtask_eq (hp : 1 ≤ p) (hle : p ≤ maxP) {s : Int} (hs : 0 ≤ s) :
    rangeForSubtask maxP p s = ((s * maxP + p - 1) / p, ((s + 1) * maxP - 1) / p) := by
  have hstart : 0 ≤ s * maxP := Int.mul_nonneg hs (by omega)
  have hend : maxP ≤ (s + 1) * maxP := by
    rw [Int.add_mul, Int.one_mul]
    omega
  unfold rangeForSubtask
  rw [Int.tdiv_eq_ediv_of_nonneg (by omega), Int.tdiv_eq_ediv_of_nonneg (by omega)]

theorem subtaskForKeyGroup_eq (hp : 1 ≤ p) {kg : Int} (hkg : 0 ≤ kg) :
    subtaskForKeyGroup maxP p kg = kg * p / maxP :=
  Int.tdiv_eq_ediv_of_nonneg (Int.mul_nonneg hkg (by omega))

/-- **Where a range starts.** -/
theorem start_le_iff (hp : 1 ≤ p) (hle : p ≤ maxP) {s kg : Int} (hs : 0 ≤ s) (hkg : 0 ≤ kg) :
    (rangeForSubtask maxP p s).1 ≤ kg ↔ s ≤ subtaskForKeyGroup maxP p kg := by
  rw [rangeForSubtask_eq hp hle hs, subtaskForKeyGroup_eq hp hkg]
  calc (s * maxP + p - 1) / p ≤ kg
      ↔ (s * maxP + p - 1) / p < kg + 1 := Int.lt_add_one_iff.symm
    _ ↔ s * maxP + p - 1 < (kg + 1) * p := Int.ediv_lt_iff_lt_mul (by omega)
    _ ↔ s * maxP ≤ kg * p := by rw [Int.add_mul, Int.one_mul]; omega
    _ ↔ s ≤ kg * p / maxP := (Int.le_ediv_iff_mul_le (by omega)).symm

/-- **Where a range ends**: right before the next one starts. -/
theorem range_end (hp : 1 ≤ p) (hle : p ≤ maxP) {s : Int} (hs : 0 ≤ s) :
    (rangeForSubtask maxP p s).2 + 1 = (rangeForSubtask maxP p (s + 1)).1 := by
  rw [rangeForSubtask_eq hp hle hs, rangeForSubtask_eq hp hle (by omega : 0 ≤ s + 1)]
  have hsum : (s + 1) * maxP + p - 1 = (s + 1) * maxP - 1 + 1 * p := by omega
  dsimp only
  rw [hsum, Int.add_mul_ediv_right _ _ (by omega : p ≠ 0)]

/-- **A key-group is in the range of its subtask alone.** -/
theorem mem_range_iff (hp : 1 ≤ p) (hle : p ≤ maxP) {s kg : Int} (hs : 0 ≤ s) (hkg : 0 ≤ kg) :
    subtaskForKeyGroup maxP p kg = s
      ↔ (rangeForSubtask maxP p s).1 ≤ kg ∧ kg ≤ (rangeForSubtask maxP p s).2 := by
  have hstart := start_le_iff hp hle hs hkg
  have hnext := start_le_iff hp hle (by omega : 0 ≤ s + 1) hkg
  have hend := range_end hp hle hs
  constructor
  · intro h
    refine ⟨hstart.mpr (by omega), ?_⟩
    by_contra hlast
    have := hnext.mp (by omega)
    omega
  · rintro ⟨hfirst, hlast⟩
    have hle' := hstart.mp hfirst
    by_contra hne
    have := hnext.mpr (by omega)
    omega

/-- The owner of a key-group is a subtask. -/
theorem subtask_bounds (hp : 1 ≤ p) {kg : Int} (hkg : 0 ≤ kg) (hlt : kg < maxP) :
    0 ≤ subtaskForKeyGroup maxP p kg ∧ subtaskForKeyGroup maxP p kg < p := by
  rw [subtaskForKeyGroup_eq hp hkg]
  have hproduct : 0 ≤ kg * p := Int.mul_nonneg hkg (by omega)
  refine ⟨Int.ediv_nonneg hproduct (by omega), (Int.ediv_lt_iff_lt_mul (by omega)).mpr ?_⟩
  rw [Int.mul_comm p maxP]
  exact Int.mul_lt_mul_of_pos_right hlt (by omega)

/-- The first range starts at 0. -/
theorem range_first (hp : 1 ≤ p) (hle : p ≤ maxP) : (rangeForSubtask maxP p 0).1 = 0 := by
  rw [rangeForSubtask_eq hp hle le_rfl]
  dsimp only
  rw [Int.zero_mul, Int.zero_add, Int.ediv_eq_zero_of_lt (by omega) (by omega)]

/-- The last range ends at the last key-group. -/
theorem range_last (hp : 1 ≤ p) (hle : p ≤ maxP) : (rangeForSubtask maxP p (p - 1)).2 = maxP - 1 := by
  have hend := range_end hp hle (by omega : 0 ≤ p - 1)
  rw [rangeForSubtask_eq hp hle (by omega : 0 ≤ p - 1 + 1)] at hend
  have hsum : (p - 1 + 1) * maxP + p - 1 = p - 1 + maxP * p := by
    rw [Int.sub_add_cancel, Int.mul_comm]
    omega
  dsimp only at hend
  rw [hsum, Int.add_mul_ediv_right _ _ (by omega : p ≠ 0),
    Int.ediv_eq_zero_of_lt (by omega) (by omega)] at hend
  omega

/-- A range is not empty. -/
theorem range_nonempty (hp : 1 ≤ p) (hle : p ≤ maxP) {s : Int} (hs : 0 ≤ s) :
    (rangeForSubtask maxP p s).1 ≤ (rangeForSubtask maxP p s).2 := by
  have hend := range_end hp hle hs
  have hstart : (rangeForSubtask maxP p s).1 + 1 ≤ (rangeForSubtask maxP p (s + 1)).1 := by
    rw [rangeForSubtask_eq hp hle hs, rangeForSubtask_eq hp hle (by omega : 0 ≤ s + 1)]
    dsimp only
    rw [← Int.add_mul_ediv_right _ 1 (by omega : p ≠ 0)]
    refine Int.ediv_le_ediv (by omega) ?_
    rw [Int.add_mul, Int.one_mul]
    omega
  omega

/-- No step of `range_for_subtask` leaves `i32`. -/
theorem rangeForSubtaskChecked_eq (hle : p ≤ maxP) (hmax : maxP ≤ 32768) {s : Int}
    (hs : 0 ≤ s) (hlt : s < p) :
    rangeForSubtaskChecked maxP p s = some (rangeForSubtask maxP p s) := by
  have hstart : 0 ≤ s * maxP := Int.mul_nonneg hs (by omega)
  have hnext : (s + 1) * maxP = s * maxP + maxP := by rw [Int.add_mul, Int.one_mul]
  have hbound : (s + 1) * maxP ≤ 32768 * 32768 :=
    Int.mul_le_mul (by omega) hmax (by omega) (by decide)
  unfold rangeForSubtaskChecked rangeForSubtask
  simp only [Option.bind_eq_bind]
  rw [Checked.signed_eq_some (by omega) (by omega), Option.bind_some,
    Checked.signed_eq_some (by omega) (by omega), Option.bind_some,
    Checked.signed_eq_some (by omega) (by omega), Option.bind_some,
    Checked.signed_eq_some (by omega) (by omega), Option.bind_some,
    Checked.signed_eq_some (by omega) (by omega), Option.bind_some,
    Checked.signed_eq_some (by omega) (by omega), Option.bind_some]
  rfl

/-- Nor does the product of `subtask_for_key_group`. -/
theorem subtaskForKeyGroupChecked_eq (hp : 1 ≤ p) (hle : p ≤ maxP) (hmax : maxP ≤ 32768) {kg : Int}
    (hkg : 0 ≤ kg) (hlt : kg < maxP) :
    subtaskForKeyGroupChecked maxP p kg = some (subtaskForKeyGroup maxP p kg) := by
  have hproduct : 0 ≤ kg * p := Int.mul_nonneg hkg (by omega)
  have hbound : kg * p ≤ 32768 * 32768 :=
    Int.mul_le_mul (by omega) (by omega) (by omega) (by decide)
  unfold subtaskForKeyGroupChecked subtaskForKeyGroup
  rw [Checked.signed_eq_some (by omega) (by omega)]
  rfl

end Ranges

/-! ### Hashes -/

/-- The absolute value as the source takes it: that of `i32::MIN` is 0. -/
theorem absOrZero_nonneg (v : Int32) :
    0 ≤ (if v ≥ 0 then v else if v ≠ Int32.minValue then -v else 0).toInt := by
  have hzero : (0 : Int32).toInt = 0 := rfl
  split_ifs with hpos hmin
  · exact Int32.le_iff_toInt_le.mp hpos
  · have hneg := Int32.lt_iff_toInt_lt.mp (Int32.not_le.mp hpos)
    have hlo := Int32.le_toInt v
    have hne : v.toInt ≠ -2 ^ 31 := fun h => hmin (Int32.toInt_inj.mp h)
    rw [Int32.toInt_neg, Int.bmod_eq_of_le (by omega) (by omega)]
    omega
  · exact le_rfl

/-- **A murmur hash is never negative.** -/
theorem murmurHash_nonneg (code : Int32) : 0 ≤ (murmurHash code).toInt := absOrZero_nonneg _

/-- The key-group of a hash is one. -/
theorem keyGroupForHash_bounds {maxP : Int} (hmax : 1 ≤ maxP) (hash : Int32) :
    0 ≤ keyGroupForHash hash maxP ∧ keyGroupForHash hash maxP < maxP := by
  unfold keyGroupForHash
  rw [Int.tmod_eq_emod_of_nonneg (murmurHash_nonneg hash)]
  exact ⟨Int.emod_nonneg _ (by omega), Int.emod_lt_of_pos _ (by omega)⟩

/-- **The ranges of the subtasks partition the key-groups**: none is empty, each starts after the
    one before it, together they are `0..maxParallelism`, and a key-group is in the range of its
    subtask alone; no step leaves `i32`; and every hash falls on a key-group. -/
theorem keyGroups_partition {maxP p : Int} (hp : 1 ≤ p) (hle : p ≤ maxP) (hmax : maxP ≤ 32768) :
    (∀ s, 0 ≤ s → s < p →
      rangeForSubtaskChecked maxP p s = some (rangeForSubtask maxP p s)
        ∧ (rangeForSubtask maxP p s).1 ≤ (rangeForSubtask maxP p s).2)
    ∧ (rangeForSubtask maxP p 0).1 = 0
    ∧ (∀ s, 0 ≤ s → s + 1 < p →
      (rangeForSubtask maxP p (s + 1)).1 = (rangeForSubtask maxP p s).2 + 1)
    ∧ (rangeForSubtask maxP p (p - 1)).2 = maxP - 1
    ∧ (∀ s t kg, 0 ≤ s → s < p → 0 ≤ t → t < p →
      (rangeForSubtask maxP p s).1 ≤ kg → kg ≤ (rangeForSubtask maxP p s).2 →
      (rangeForSubtask maxP p t).1 ≤ kg → kg ≤ (rangeForSubtask maxP p t).2 → s = t)
    ∧ (∀ kg, 0 ≤ kg → kg < maxP →
      subtaskForKeyGroupChecked maxP p kg = some (subtaskForKeyGroup maxP p kg)
        ∧ 0 ≤ subtaskForKeyGroup maxP p kg ∧ subtaskForKeyGroup maxP p kg < p
        ∧ ∀ s, 0 ≤ s → s < p → (subtaskForKeyGroup maxP p kg = s
          ↔ (rangeForSubtask maxP p s).1 ≤ kg ∧ kg ≤ (rangeForSubtask maxP p s).2))
    ∧ ∀ hash, 0 ≤ keyGroupForHash hash maxP ∧ keyGroupForHash hash maxP < maxP := by
  refine ⟨fun s hs hlt => ⟨rangeForSubtaskChecked_eq hle hmax hs hlt, range_nonempty hp hle hs⟩,
    range_first hp hle, fun s hs _ => (range_end hp hle hs).symm, range_last hp hle, ?_, ?_,
    keyGroupForHash_bounds (by omega)⟩
  · intro s t kg hs _ ht _ hfirst hlast hfirst' hlast'
    -- a range starts at 0 or later
    have hkg : 0 ≤ kg := by
      have hstart : 0 ≤ (rangeForSubtask maxP p s).1 := by
        rw [rangeForSubtask_eq hp hle hs]
        have hproduct : 0 ≤ s * maxP := Int.mul_nonneg hs (by omega)
        exact Int.ediv_nonneg (by omega) (by omega)
      omega
    rw [← (mem_range_iff hp hle hs hkg).mpr ⟨hfirst, hlast⟩]
    exact (mem_range_iff hp hle ht hkg).mpr ⟨hfirst', hlast'⟩
  · intro kg hkg hlt
    obtain ⟨hlow, hhigh⟩ := subtask_bounds hp hkg hlt
    exact ⟨subtaskForKeyGroupChecked_eq hp hle hmax hkg hlt, hlow, hhigh, fun s hs _ =>
      mem_range_iff hp hle hs hkg⟩

/-- Ten key-groups for three subtasks: 0 to 3, 4 to 6 and 7 to 9. -/
theorem keyGroups_partition_sample :
    (rangeForSubtask 10 3 0).2 = 3 ∧ (rangeForSubtask 10 3 1).1 = (rangeForSubtask 10 3 0).2 + 1
      ∧ 0 ≤ keyGroupForHash Int32.minValue 10 := by
  obtain ⟨-, -, hnext, -, -, -, hhash⟩ :=
    keyGroups_partition (show (1 : Int) ≤ 3 by decide) (show (3 : Int) ≤ 10 by decide) (by decide)
  exact ⟨by decide, hnext 0 (by decide) (by decide), (hhash Int32.minValue).1⟩

end FlinkExplorer
