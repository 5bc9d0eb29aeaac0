import Mathlib.Data.List.Find
import FlinkExplorer.Lib.Tiling
import FlinkExplorer.Reader.Open

namespace FlinkExplorer

open Lib

/-!
# `reader/mod.rs` — the blocks of a stream

A stream is its header, then the blocks of its non-empty key-groups.  `SubtaskStream.blockRange`
finds a block by looking for the next offset further on; `blocksOf` reads the same ranges off the
list of offsets from front to back, and these follow one another to the end of the stream.
-/

/-- Where the first non-empty key-group of a list starts, or the end of the stream. -/
def firstOffset (len : Nat) (offsets : List Int) : Nat :=
  (offsets.find? fun o => 0 < o).elim len Int.toNat

@[simp] theorem firstOffset_cons_pos {len : Nat} {o : Int} {os : List Int} (ho : 0 < o) :
    firstOffset len (o :: os) = o.toNat := by
  simp [firstOffset, ho]

@[simp] theorem firstOffset_cons_neg {len : Nat} {o : Int} {os : List Int} (ho : ¬ 0 < o) :
    firstOffset len (o :: os) = firstOffset len os := by
  simp [firstOffset, ho]

theorem firstOffset_eq (len : Nat) (os : List Int) :
    firstOffset len os = len ∨ ∃ p ∈ os, 0 < p ∧ firstOffset len os = p.toNat := by
  unfold firstOffset
  cases hfind : os.find? fun o => 0 < o with
  | none => exact Or.inl rfl
  | some p =>
    have hpos := List.find?_some hfind
    exact Or.inr ⟨p, List.mem_of_find?_eq_some hfind, of_decide_eq_true hpos, rfl⟩

/-- The ranges of the non-empty key-groups, front to back. -/
def blocksOf (len : Nat) : List Int → List (Nat × Nat)
  | [] => []
  | o :: os =>
    if 0 < o then (o.toNat, firstOffset len os) :: blocksOf len os else blocksOf len os

/-- The ranges `blockRange` gives, by key-group. -/
def SubtaskStream.blockRanges (s : SubtaskStream) : List (Nat × Nat) :=
  (List.range s.offsets.length).filterMap s.blockRange

/-- Offsets as a snapshot has them: 0 or less for an empty key-group, the others ascending and
    inside the stream. -/
structure AscendingOffsets (offsets : List Int) (len : Nat) : Prop where
  ascending : (offsets.filter fun o => 0 < o).Pairwise (· < ·)
  inside : ∀ o ∈ offsets, 0 < o → o.toNat < len

namespace AscendingOffsets

variable {len : Nat} {o : Int} {os : List Int}

/-- Some of the offsets, in their order. -/
theorem sublist {part : List Int} (h : AscendingOffsets os len) (hsub : part.Sublist os) :
    AscendingOffsets part len where
  ascending := h.ascending.sublist (hsub.filter _)
  inside p hp := h.inside p (hsub.subset hp)

theorem tail (h : AscendingOffsets (o :: os) len) : AscendingOffsets os len :=
  h.sublist (List.sublist_cons_self o os)

/-- The offsets after a positive one are empty key-groups or further on. -/
theorem lt_of_mem (h : AscendingOffsets (o :: os) len) (ho : 0 < o) {p : Int} (hp : p ∈ os)
    (hpos : 0 < p) : o < p := by
  have hasc := h.ascending
  rw [List.filter_cons, if_pos (decide_eq_true ho)] at hasc
  exact (List.pairwise_cons.mp hasc).1 p (List.mem_filter.mpr ⟨hp, decide_eq_true hpos⟩)

theorem firstOffset_le (h : AscendingOffsets os len) : firstOffset len os ≤ len := by
  rcases firstOffset_eq len os with heq | ⟨p, hp, hpos, heq⟩
  · exact heq.le
  · rw [heq]
    exact (h.inside p hp hpos).le

/-- A block is not empty. -/
theorem lt_firstOffset (h : AscendingOffsets (o :: os) len) (ho : 0 < o) :
    o.toNat < firstOffset len os := by
  rcases firstOffset_eq len os with heq | ⟨p, hp, hpos, heq⟩
  · rw [heq]
    exact h.inside o List.mem_cons_self ho
  · have hlt : o < p := h.lt_of_mem ho hp hpos
    omega

theorem firstOffset_le_of_mem (h : AscendingOffsets os len) {p : Int} (hp : p ∈ os)
    (hpos : 0 < p) : firstOffset len os ≤ p.toNat := by
  induction os with
  | nil => exact absurd hp List.not_mem_nil
  | cons o os ih =>
    by_cases ho : 0 < o
    · rw [firstOffset_cons_pos ho]
      rcases List.mem_cons.mp hp with rfl | hmem
      · exact le_rfl
      · have hlt : o < p := h.lt_of_mem ho hmem hpos
        omega
    · rw [firstOffset_cons_neg ho]
      rcases List.mem_cons.mp hp with rfl | hmem
      · exact absurd hpos ho
      · exact ih h.tail hmem

/-- The blocks follow one another to the end of the stream. -/
theorem tiles (h : AscendingOffsets os len) :
    Tiles (firstOffset len os) (blocksOf len os) len := by
  induction os with
  | nil => rfl
  | cons o os ih =>
    unfold blocksOf
    by_cases ho : 0 < o
    · rw [if_pos ho]
      exact ⟨(firstOffset_cons_pos ho).symm, h.lt_firstOffset ho, ih h.tail⟩
    · rw [if_neg ho, firstOffset_cons_neg ho]
      exact ih h.tail

/-- The header ends where the first block starts. -/
theorem headerLen_eq (h : AscendingOffsets os len) : headerLen os len = firstOffset len os := by
  have hmin : (os.filter fun o => 0 < o).min? = os.find? fun o => 0 < o := by
    rw [← List.head?_filter]
    cases hf : os.filter fun o => 0 < o with
    | nil => rfl
    | cons p ps =>
      have hasc := h.ascending
      rw [hf] at hasc
      rw [List.head?_cons, List.min?_eq_some_iff]
      refine ⟨List.mem_cons_self, fun q hq => ?_⟩
      rcases List.mem_cons.mp hq with rfl | hmem
      · exact le_rfl
      · exact ((List.pairwise_cons.mp hasc).1 q hmem).le
  rw [headerLen, hmin]
  exact min_eq_left h.firstOffset_le

end AscendingOffsets

namespace SubtaskStream

variable {s : SubtaskStream}

/-- `blockRange` at a place of the list: the next offset further on is the next positive one. -/
theorem blockRange_of_append {done os : List Int} {o : Int} (hs : s.offsets = done ++ o :: os)
    (hasc : AscendingOffsets (o :: os) s.src.len) (hheader : 0 < o → s.headerLen ≤ o.toNat) :
    s.blockRange done.length
      = if 0 < o then some (o.toNat, firstOffset s.src.len os) else none := by
  have hget : s.offsets[done.length]? = some o := by
    rw [hs, List.getElem?_append_right le_rfl, Nat.sub_self, List.getElem?_cons_zero]
  have hdrop : s.offsets.drop (done.length + 1) = os := by
    rw [hs, ← List.drop_drop, List.drop_left, List.drop_succ_cons, List.drop_zero]
  unfold blockRange
  rw [hget, hdrop]
  show (if o ≤ 0 ∨ o.toNat < s.headerLen ∨ o.toNat ≥ s.src.len then none else _) = _
  by_cases ho : 0 < o
  · have hlen : o.toNat < s.src.len := hasc.inside o List.mem_cons_self ho
    have hfind : (os.find? fun p => p > o) = os.find? fun p => 0 < p := by
      apply List.find?_congr
      intro p hp
      have hiff : p > o ↔ 0 < p := ⟨ho.trans, hasc.lt_of_mem ho hp⟩
      exact decide_eq_decide.mpr hiff
    have hmin : min (firstOffset s.src.len os) s.src.len = firstOffset s.src.len os :=
      min_eq_left hasc.tail.firstOffset_le
    have hheader := hheader ho
    rw [if_neg (by omega), if_pos ho, hfind]
    show (if min (firstOffset s.src.len os) s.src.len > o.toNat
      then some (o.toNat, min (firstOffset s.src.len os) s.src.len) else none) = _
    rw [hmin, if_pos (hasc.lt_firstOffset ho)]
  · rw [if_pos (Or.inl (not_lt.mp ho)), if_neg ho]

/-- The key-groups from one on have the blocks read off the rest of the list. -/
theorem filterMap_blockRange {done os : List Int} (hs : s.offsets = done ++ os)
    (hasc : AscendingOffsets os s.src.len) (hheader : ∀ o ∈ os, 0 < o → s.headerLen ≤ o.toNat) :
    (List.range' done.length os.length).filterMap s.blockRange = blocksOf s.src.len os := by
  induction os generalizing done with
  | nil => rfl
  | cons o os ih =>
    have hnext : s.offsets = (done ++ [o]) ++ os := by rw [hs, List.append_assoc]; rfl
    have hrest := ih hnext hasc.tail fun p hp => hheader p (List.mem_cons_of_mem o hp)
    rw [List.length_append, List.length_singleton] at hrest
    have hblock := blockRange_of_append hs hasc (hheader o List.mem_cons_self)
    rw [List.length_cons, List.range'_succ, List.filterMap_cons, hblock, hrest, blocksOf]
    by_cases ho : 0 < o
    · rw [if_pos ho, if_pos ho]
    · rw [if_neg ho, if_neg ho]

/-- **The blocks of a stream tile it.**  Let the offsets pass the check, the positive ones ascending
    and one of them there.  The ranges of the non-empty key-groups then follow one another from the
    end of the header to the end of the stream, and every byte between is in one of them; a positive
    offset has a range that starts at it and is not empty, another one has none. -/
theorem blockRanges_tile (s : SubtaskStream)
    (hcheck : checkOffsets s.what s.offsets s.startKeyGroup s.src.len = .ok ())
    (hasc : (s.offsets.filter fun o => 0 < o).Pairwise (· < ·)) (hpos : ∃ o ∈ s.offsets, 0 < o)
    (hheader : s.headerLen = FlinkExplorer.headerLen s.offsets s.src.len) :
    Tiles s.headerLen s.blockRanges s.src.len ∧ s.headerLen < s.src.len
      ∧ s.blockRanges.Pairwise (fun r r' => r.2 ≤ r'.1)
      ∧ (∀ x, (∃ r ∈ s.blockRanges, r.1 ≤ x ∧ x < r.2) ↔ s.headerLen ≤ x ∧ x < s.src.len)
      ∧ ∀ i o, s.offsets[i]? = some o →
        (0 < o → ∃ last, s.blockRange i = some (o.toNat, last) ∧ o.toNat < last)
          ∧ (o ≤ 0 → s.blockRange i = none) := by
  have h : AscendingOffsets s.offsets s.src.len :=
    ⟨hasc, fun o ho hpos => lt_of_checkOffsets hcheck ho hpos⟩
  have hlen : s.headerLen = firstOffset s.src.len s.offsets := hheader.trans h.headerLen_eq
  have hfirst : ∀ o ∈ s.offsets, 0 < o → s.headerLen ≤ o.toNat := by
    intro o ho hopos
    rw [hlen]
    exact h.firstOffset_le_of_mem ho hopos
  have hranges : s.blockRanges = blocksOf s.src.len s.offsets := by
    have hnone : s.offsets = [] ++ s.offsets := rfl
    rw [blockRanges, List.range_eq_range']
    exact filterMap_blockRange hnone h hfirst
  have htiles : Tiles s.headerLen s.blockRanges s.src.len := by
    rw [hlen, hranges]
    exact h.tiles
  refine ⟨htiles, ?_, htiles.pairwise, fun x => htiles.mem_iff, fun i o hi => ?_⟩
  · obtain ⟨o, ho, hopos⟩ := hpos
    exact (hfirst o ho hopos).trans_lt (h.inside o ho hopos)
  · obtain ⟨hlt, hget⟩ := List.getElem?_eq_some_iff.mp hi
    -- a block ends at the first positive offset after its own
    have hsplit : s.offsets = s.offsets.take i ++ o :: s.offsets.drop (i + 1) := by
      rw [← hget, List.getElem_cons_drop, List.take_append_drop]
    have hlater : AscendingOffsets (o :: s.offsets.drop (i + 1)) s.src.len := by
      apply h.sublist
      rw [← hget, List.getElem_cons_drop]
      exact List.drop_sublist i s.offsets
    have hblock := blockRange_of_append hsplit hlater (hfirst o (List.mem_of_getElem? hi))
    rw [List.length_take_of_le hlt.le] at hblock
    rw [hblock]
    constructor
    · intro ho
      rw [if_pos ho]
      exact ⟨_, rfl, hlater.lt_firstOffset ho⟩
    · intro ho
      rw [if_neg (not_lt.mpr ho)]

/-- Five key-groups, of which the first, the third and the last are empty. -/
def gapped : SubtaskStream where
  subtaskIndex := 0
  statePos := 0
  startKeyGroup := 0
  offsets := [0, 4, -1, 6, 0]
  src := .inline [7, 7, 7, 7, 1, 1, 2, 2, 2]
  what := []
  headerLen := 4
  header := .error []

theorem blockRanges_tile_gapped :
    gapped.blockRanges = [(4, 6), (6, 9)] ∧ Tiles 4 gapped.blockRanges 9 := by
  refine ⟨rfl, (blockRanges_tile gapped rfl ?_ ?_ rfl).1⟩
  · decide
  · exact ⟨4, by decide, by decide⟩

end SubtaskStream

end FlinkExplorer
