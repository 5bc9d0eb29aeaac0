import Mathlib.Data.List.Flatten
import Mathlib.Data.List.Forall2
import Mathlib.Data.List.Perm.Basic
import Mathlib.Data.List.Dedup
import Mathlib.Tactic.Common

namespace FlinkExplorer.Lib

/-!
# Lists in parts

A list that is put together from parts, and lists that go along with each other.

* `flatMap_filter_perm` — sorting a list into parts keeps it, up to order;
* `length_dedup_flatMap` — the distinct values of parts that have a value each are counted by part;
* `forall₂_mapIdx`, `forall₂_along` — what is made of a list goes along with it, and two lists that go
  along with a third go along with each other;
* `find?_down` — what a search downwards from a bound finds.
-/

section Parts

variable {α β γ : Type}

/-- Sorting a list into parts by a value keeps it, up to order. -/
theorem flatMap_filter_perm [DecidableEq β] (f : α → β) {ks : List β} (hks : ks.Nodup)
    (l : List α) (hl : ∀ a ∈ l, f a ∈ ks) : (ks.flatMap fun k => l.filter (f · = k)).Perm l := by
  induction ks generalizing l with
  | nil =>
    cases l with
    | nil => exact .refl _
    | cons a l => exact absurd (hl a List.mem_cons_self) List.not_mem_nil
  | cons k ks ih =>
    obtain ⟨hk, hks⟩ := List.nodup_cons.mp hks
    have hrest : ks.flatMap (fun k' => l.filter (f · = k'))
        = ks.flatMap fun k' => (l.filter fun a => !decide (f a = k)).filter (f · = k') := by
      refine List.flatMap_congr fun k' hk' => ?_
      rw [List.filter_filter]
      refine List.filter_congr fun a _ => ?_
      have hne : k' ≠ k := fun h => hk (h ▸ hk')
      by_cases ha : f a = k'
      · simp [ha, hne]
      · simp [ha]
    rw [List.flatMap_cons, hrest]
    refine ((ih hks _ fun a ha => ?_).append_left _).trans (List.filter_append_perm _ _)
    obtain ⟨ha, hne⟩ := List.mem_filter.mp ha
    exact (List.mem_cons.mp (hl a ha)).resolve_left (by simpa using hne)

/-- Of what parts with values of their own hold, the distinct values are as many as the parts that
    hold something. -/
theorem length_dedup_flatMap [DecidableEq γ] {f : α → List β} {g : β → γ} {k : α → γ}
    {l : List α} (hpart : ∀ a ∈ l, ∀ b ∈ f a, g b = k a)
    (hapart : l.Pairwise fun a b => f a ≠ [] → f b ≠ [] → k a ≠ k b) :
    ((l.flatMap f).map g).dedup.length = l.countP fun a => !(f a).isEmpty := by
  have hvalues : ((l.flatMap f).map g).dedup.Perm
      ((l.filter fun a => !(f a).isEmpty).map k) := by
    refine (List.perm_ext_iff_of_nodup (List.nodup_dedup _) ?_).mpr fun v => ?_
    · refine List.pairwise_map.mpr (List.pairwise_filter.mpr (hapart.imp ?_))
      intro a b hne ha hb
      exact hne (by simpa using ha) (by simpa using hb)
    · rw [List.mem_dedup, List.mem_map, List.mem_map]
      constructor
      · rintro ⟨b, hb, rfl⟩
        obtain ⟨a, ha, hba⟩ := List.mem_flatMap.mp hb
        refine ⟨a, List.mem_filter.mpr ⟨ha, ?_⟩, (hpart a ha b hba).symm⟩
        simpa using List.ne_nil_of_mem hba
      · rintro ⟨a, ha, rfl⟩
        obtain ⟨ha, hne⟩ := List.mem_filter.mp ha
        obtain ⟨b, hb⟩ := List.exists_mem_of_ne_nil (f a) (by simpa using hne)
        exact ⟨b, List.mem_flatMap.mpr ⟨a, ha, hb⟩, hpart a ha b hb⟩
  rw [hvalues.length_eq, List.length_map, List.countP_eq_length_filter]

/-- What is made of each element of a list, with a number. -/
theorem forall₂_mapIdx (f : Nat → α → β) (l : List α) :
    List.Forall₂ (fun a b => ∃ n, b = f n a) l (l.mapIdx f) := by
  induction l generalizing f with
  | nil => exact .nil
  | cons a l ih =>
    rw [List.mapIdx_cons]
    refine .cons ⟨0, rfl⟩ ((ih fun n => f (n + 1)).imp ?_)
    rintro a b ⟨n, rfl⟩
    exact ⟨n + 1, rfl⟩

/-- Two lists that each go along with a third go along with each other. -/
theorem forall₂_along {P : α → β → Prop} {Q : α → γ → Prop} {W : β → γ → Prop}
    (hW : ∀ a b c, P a b → Q a c → W b c) {l : List α} {bs : List β} {cs : List γ}
    (hP : List.Forall₂ P l bs) (hQ : List.Forall₂ Q l cs) : List.Forall₂ W bs cs := by
  induction hP generalizing cs with
  | nil =>
    cases hQ
    exact .nil
  | cons hab _ ih =>
    cases hQ with
    | cons hac hrest => exact .cons (hW _ _ _ hab hac) (ih hrest)

/-- The last number below a bound that has a property. -/
theorem find?_down {p : Nat → Bool} {a k u : Nat} :
    (List.range' a k).reverse.find? p = some u
      ↔ (a ≤ u ∧ u < a + k) ∧ p u = true ∧ ∀ u', u < u' → u' < a + k → p u' = false := by
  induction k with
  | zero =>
    constructor
    · nofun
    · rintro ⟨⟨hlo, hhi⟩, -⟩
      omega
  | succ k ih =>
    rw [List.range'_1_concat, List.reverse_append, List.reverse_singleton, List.singleton_append,
      List.find?_cons]
    cases hp : p (a + k) with
    | true =>
      dsimp only
      rw [Option.some.injEq]
      constructor
      · rintro rfl
        exact ⟨⟨by omega, by omega⟩, hp, fun u' hlo hhi => by omega⟩
      · rintro ⟨⟨-, hhi⟩, -, hlast⟩
        by_contra hne
        rw [hlast (a + k) (by omega) (by omega)] at hp
        cases hp
    | false =>
      dsimp only
      rw [ih]
      constructor
      · rintro ⟨⟨hlo, hhi⟩, hpu, hlast⟩
        refine ⟨⟨hlo, by omega⟩, hpu, fun u' hu' hbound => ?_⟩
        rcases Nat.lt_or_ge u' (a + k) with hlt | hge
        · exact hlast u' hu' hlt
        · obtain rfl : u' = a + k := by omega
          exact hp
      · rintro ⟨⟨hlo, hhi⟩, hpu, hlast⟩
        have hne : u ≠ a + k := by
          rintro rfl
          rw [hpu] at hp
          cases hp
        exact ⟨⟨hlo, by omega⟩, hpu, fun u' hu' hbound => hlast u' hu' (by omega)⟩

end Parts

end FlinkExplorer.Lib
