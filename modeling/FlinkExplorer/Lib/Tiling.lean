import Mathlib.Order.Lattice
import Mathlib.Tactic.Common

namespace FlinkExplorer.Lib

/-!
# Consecutive ranges

`Tiles lo ranges hi` says that half-open ranges, none of them empty, follow one another from `lo` to
`hi`.  Ranges that do so are disjoint (`Tiles.pairwise`) and leave no gap (`Tiles.mem_iff`).
-/

variable {α : Type} [LinearOrder α]

/-- Half-open ranges from `lo` to `hi`, each starting where the one before ends. -/
def Tiles : α → List (α × α) → α → Prop
  | lo, [], hi => lo = hi
  | lo, r :: rs, hi => r.1 = lo ∧ r.1 < r.2 ∧ Tiles r.2 rs hi

namespace Tiles

variable {lo hi : α} {rs : List (α × α)}

@[simp] theorem nil : Tiles lo [] hi ↔ lo = hi := Iff.rfl

@[simp] theorem cons {r : α × α} :
    Tiles lo (r :: rs) hi ↔ r.1 = lo ∧ r.1 < r.2 ∧ Tiles r.2 rs hi := Iff.rfl

theorem le (h : Tiles lo rs hi) : lo ≤ hi := by
  induction rs generalizing lo with
  | nil => exact le_of_eq h
  | cons r rs ih =>
    obtain ⟨rfl, hlt, htail⟩ := h
    exact hlt.le.trans (ih htail)

/-- Every range lies between the ends. -/
theorem bounds (h : Tiles lo rs hi) {r : α × α} (hr : r ∈ rs) : lo ≤ r.1 ∧ r.1 < r.2 ∧ r.2 ≤ hi := by
  induction rs generalizing lo with
  | nil => exact absurd hr List.not_mem_nil
  | cons s rs ih =>
    obtain ⟨rfl, hlt, htail⟩ := h
    rcases List.mem_cons.mp hr with rfl | hmem
    · exact ⟨le_rfl, hlt, htail.le⟩
    · obtain ⟨hlo, hr, hhi⟩ := ih htail hmem
      exact ⟨hlt.le.trans hlo, hr, hhi⟩

/-- **Consecutive ranges are disjoint**: each ends before the next ones start. -/
theorem pairwise (h : Tiles lo rs hi) : rs.Pairwise fun r s => r.2 ≤ s.1 := by
  induction rs generalizing lo with
  | nil => exact List.Pairwise.nil
  | cons r rs ih =>
    obtain ⟨-, -, htail⟩ := h
    exact List.pairwise_cons.mpr ⟨fun s hs => (htail.bounds hs).1, ih htail⟩

/-- **Consecutive ranges leave no gap.** -/
theorem mem_iff (h : Tiles lo rs hi) {x : α} :
    (∃ r ∈ rs, r.1 ≤ x ∧ x < r.2) ↔ lo ≤ x ∧ x < hi := by
  constructor
  · rintro ⟨r, hr, hle, hlt⟩
    obtain ⟨hlo, -, hhi⟩ := h.bounds hr
    exact ⟨hlo.trans hle, hlt.trans_le hhi⟩
  · rintro ⟨hlo, hhi⟩
    induction rs generalizing lo with
    | nil => exact absurd (h ▸ hlo) (not_le.mpr hhi)
    | cons r rs ih =>
      obtain ⟨rfl, -, htail⟩ := h
      rcases lt_or_ge x r.2 with hx | hx
      · exact ⟨r, List.mem_cons_self, hlo, hx⟩
      · obtain ⟨s, hs, hsx⟩ := ih htail hx
        exact ⟨s, List.mem_cons_of_mem r hs, hsx⟩

end Tiles

end FlinkExplorer.Lib
