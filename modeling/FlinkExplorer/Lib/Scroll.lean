import Mathlib.Data.List.TakeWhile
import Mathlib.Logic.Relation

namespace FlinkExplorer.Lib

/-!
# A window over an ordered list

Facts for a window that moves along a list which is known up to some place only.

* `filter_front`, `filter_suffix`, `filter_together` — what a range takes of an ordered list lies
  together;
* `scrolled_covers` — a window that moves on by one until the list ends has shown the whole list;
* `exists_scrolled` — it comes to the end.
-/

/-! ### Ranges of an ordered list -/

section Ranges

variable {α : Type} {p q : α → Bool} {l : List α}

/-- A test that fails from some place on takes the list up to there. -/
theorem filter_eq_takeWhile (h : l.Pairwise fun a b => p b = true → p a = true) :
    l.filter p = l.takeWhile p := by
  induction l with
  | nil => rfl
  | cons a l ih =>
    obtain ⟨ha, hl⟩ := List.pairwise_cons.mp h
    by_cases hp : p a = true
    · rw [List.filter_cons_of_pos hp, List.takeWhile_cons_of_pos hp, ih hl]
    · rw [List.filter_cons_of_neg hp, List.takeWhile_cons_of_neg hp, List.filter_eq_nil_iff]
      intro b hb hpb
      exact hp (ha b hb hpb)

/-- A test that holds from some place on takes the list from there. -/
theorem filter_eq_dropWhile (h : l.Pairwise fun a b => p a = true → p b = true) :
    l.filter p = l.dropWhile fun a => !p a := by
  induction l with
  | nil => rfl
  | cons a l ih =>
    obtain ⟨ha, hl⟩ := List.pairwise_cons.mp h
    by_cases hp : p a = true
    · rw [List.dropWhile_cons_of_neg (by simp [hp]), List.filter_eq_self]
      intro b hb
      rcases List.mem_cons.mp hb with rfl | hb
      · exact hp
      · exact ha b hb hp
    · rw [List.filter_cons_of_neg hp, List.dropWhile_cons_of_pos (by simp [hp]), ih hl]

theorem filter_front (h : l.Pairwise fun a b => p b = true → p a = true) : l.filter p <+: l := by
  rw [filter_eq_takeWhile h]
  exact List.takeWhile_prefix p

theorem filter_suffix (h : l.Pairwise fun a b => p a = true → p b = true) : l.filter p <:+ l := by
  rw [filter_eq_dropWhile h]
  exact List.dropWhile_suffix _

/-- **What a range takes of an ordered list** lies together. -/
theorem filter_together (hp : l.Pairwise fun a b => p b = true → p a = true)
    (hq : l.Pairwise fun a b => q a = true → q b = true) :
    (l.filter fun a => p a && q a) <:+: l := by
  rw [← List.filter_filter]
  exact (filter_front (hp.sublist List.filter_sublist)).isInfix.trans (filter_suffix hq).isInfix

end Ranges

/-! ### A window that moves on -/

section Scrolled

open Relation

variable {σ α : Type} {step : σ → σ → Prop} {offset : σ → Nat} {visible : σ → List α} {size : Nat}
  {all : List α} {s₀ s : σ}

/-- **A window that moves on by one until the list ends** has shown all of it from its first place
    on. -/
theorem scrolled_covers (hsize : 0 < size)
    (hstep : ∀ s s', ReflTransGen step s₀ s → step s s' → offset s' = offset s + 1)
    (hvisible : ∀ s, ReflTransGen step s₀ s → ∀ i a, offset s ≤ i → i < offset s + size →
      all[i]? = some a → a ∈ visible s)
    (h : ReflTransGen step s₀ s) (hend : all.length ≤ offset s + size) {i : Nat} {a : α}
    (hi : offset s₀ ≤ i) (ha : all[i]? = some a) :
    ∃ s₁, ReflTransGen step s₀ s₁ ∧ ReflTransGen step s₁ s ∧ a ∈ visible s₁ := by
  obtain ⟨hlt, -⟩ := List.getElem?_eq_some_iff.mp ha
  replace hlt : i < offset s + size := by omega
  clear hend
  induction h with
  | refl => exact ⟨s₀, .refl, .refl, hvisible s₀ .refl i a hi hlt ha⟩
  | @tail s s' hs hss' ih =>
    have hnext := hstep s s' hs hss'
    by_cases hbefore : i < offset s + size
    · obtain ⟨s₁, hs₁, hto, hmem⟩ := ih hbefore
      exact ⟨s₁, hs₁, hto.tail hss', hmem⟩
    · -- It is the one that has just come into the window.
      exact ⟨s', hs.tail hss', .refl, hvisible s' (hs.tail hss') i a (by omega) hlt ha⟩

/-- **A window that moves on comes to an end.** -/
theorem exists_scrolled {moves : σ → Prop} {bound : Nat}
    (hmoves : ∀ s, ReflTransGen step s₀ s → moves s →
      offset s < bound ∧ ∃ s', step s s' ∧ offset s < offset s') :
    ∃ s, ReflTransGen step s₀ s ∧ ¬ moves s := by
  suffices h : ∀ n s, ReflTransGen step s₀ s → bound - offset s = n →
      ∃ s', ReflTransGen step s₀ s' ∧ ¬ moves s' from h _ s₀ .refl rfl
  intro n
  induction n using Nat.strong_induction_on with
  | _ n ih =>
    intro s hs hn
    by_cases hmove : moves s
    · obtain ⟨hlt, s', hstep, hmore⟩ := hmoves s hs hmove
      exact ih _ (by omega) s' (hs.tail hstep) rfl
    · exact ⟨s, hs, hmove⟩

end Scrolled

end FlinkExplorer.Lib
