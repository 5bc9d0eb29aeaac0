import Mathlib.Data.List.Basic
import Mathlib.Data.List.Forall2
import Mathlib.Tactic.Common

namespace FlinkExplorer.Lib

/-!
# The language of a wildcard pattern

A pattern over any alphabet, in which one letter (`any`) stands for a run of letters and another
(`one`) for a single letter; every other letter stands for itself.

* `Matches` — the texts of a pattern, by recursion on it;
* `matches_any_iff` — `any` takes some first letters of the text, how many does not matter;
* `matches_append` — a part without `any` takes as many letters as it has;
* `Aligned` — a text that a pattern without `any` matches, letter by letter;
* `matches_infix`, `matches_around` — plain letters between two runs, and around a single one.
-/

section Wildcard

variable {α : Type} (any one : α)

/-- A letter of a pattern that takes one letter of the text. -/
def Takes (c x : α) : Prop := c = one ∨ c = x

/-- The texts of a pattern. -/
def Matches : List α → List α → Prop
  | [], t => t = []
  | c :: p, t =>
    (c = any ∧ ∃ u v, t = u ++ v ∧ Matches p v)
      ∨ (c ≠ any ∧ ∃ x v, t = x :: v ∧ Takes one c x ∧ Matches p v)

/-- Letter by letter, a text of a pattern without runs. -/
def Aligned (p t : List α) : Prop := List.Forall₂ (Takes one) p t

variable {any one}

@[simp] theorem matches_nil {t : List α} : Matches any one [] t ↔ t = [] := Iff.rfl

/-- A run takes some first letters of the text. -/
theorem matches_any_iff {p t : List α} :
    Matches any one (any :: p) t ↔ ∃ k, k ≤ t.length ∧ Matches any one p (t.drop k) := by
  constructor
  · intro h
    rcases h with ⟨-, u, v, rfl, h⟩ | ⟨hne, -⟩
    · refine ⟨u.length, by simp, ?_⟩
      rw [List.drop_left]
      exact h
    · exact absurd rfl hne
  · rintro ⟨k, -, h⟩
    exact .inl ⟨rfl, t.take k, t.drop k, (List.take_append_drop k t).symm, h⟩

/-- A letter that is no run takes the first letter of the text. -/
theorem matches_cons_cons {c x : α} {p t : List α} (hc : c ≠ any) :
    Matches any one (c :: p) (x :: t) ↔ Takes one c x ∧ Matches any one p t := by
  constructor
  · intro h
    rcases h with ⟨rfl, -⟩ | ⟨-, x', v, heq, htakes, h⟩
    · exact absurd rfl hc
    · obtain ⟨rfl, rfl⟩ := List.cons.inj heq
      exact ⟨htakes, h⟩
  · rintro ⟨htakes, h⟩
    exact .inr ⟨hc, x, t, rfl, htakes, h⟩

/-- Only runs match the empty text. -/
theorem matches_empty [DecidableEq α] (one : α) {p : List α} :
    Matches any one p [] ↔ p.dropWhile (· == any) = [] := by
  induction p with
  | nil => simp
  | cons c p ih =>
    by_cases hc : c = any
    · subst hc
      rw [matches_any_iff, List.dropWhile_cons_of_pos (p := (· == c)) (beq_self_eq_true c), ← ih]
      simp
    · rw [List.dropWhile_cons_of_neg (by simpa using hc)]
      constructor
      · intro h
        rcases h with ⟨heq, -⟩ | ⟨-, x, v, heq, -⟩
        · exact absurd heq hc
        · cases heq
      · intro h
        cases h

/-- **A part without runs** takes as many letters as it has. -/
theorem matches_append {q p t : List α} (hq : any ∉ q) :
    Matches any one (q ++ p) t
      ↔ ∃ u v, t = u ++ v ∧ Aligned one q u ∧ Matches any one p v := by
  induction q generalizing t with
  | nil =>
    constructor
    · intro h
      exact ⟨[], t, rfl, .nil, h⟩
    · rintro ⟨u, v, rfl, haligned, h⟩
      cases haligned
      exact h
  | cons c q ih =>
    have hc : c ≠ any := fun h => hq (h ▸ List.mem_cons_self)
    have hq' : any ∉ q := fun h => hq (List.mem_cons_of_mem c h)
    constructor
    · intro h
      rcases h with ⟨heq, -⟩ | ⟨-, x, v, rfl, htakes, h⟩
      · exact absurd heq hc
      · obtain ⟨u, v, rfl, haligned, h⟩ := (ih hq').mp h
        exact ⟨x :: u, v, rfl, .cons htakes haligned, h⟩
    · rintro ⟨u, v, rfl, haligned, h⟩
      cases haligned with
      | cons htakes haligned =>
        exact (matches_cons_cons hc).mpr ⟨htakes, (ih hq').mpr ⟨_, v, rfl, haligned, h⟩⟩

/-- A pattern without runs matches letter by letter. -/
theorem matches_plain {p t : List α} (hp : any ∉ p) :
    Matches any one p t ↔ Aligned one p t := by
  rw [show p = p ++ [] from (List.append_nil p).symm, matches_append hp, List.append_nil]
  constructor
  · rintro ⟨u, v, rfl, haligned, rfl⟩
    rw [List.append_nil]
    exact haligned
  · intro haligned
    exact ⟨t, [], (List.append_nil t).symm, haligned, rfl⟩

/-- What is left of a text after a part without runs. -/
theorem matches_append_drop {q p t : List α} (hq : any ∉ q) (h : Matches any one (q ++ p) t) :
    q.length ≤ t.length ∧ Matches any one p (t.drop q.length) := by
  obtain ⟨u, v, rfl, haligned, h⟩ := (matches_append hq).mp h
  rw [List.Forall₂.length_eq haligned, List.drop_left, List.length_append]
  exact ⟨Nat.le_add_right _ _, h⟩

/-! ### Patterns of plain letters -/

/-- Plain letters stand for themselves. -/
theorem aligned_iff_eq {q u : List α} (hq : one ∉ q) : Aligned one q u ↔ q = u := by
  constructor
  · intro h
    induction h with
    | nil => rfl
    | cons htakes _ ih =>
      rw [ih fun h => hq (List.mem_cons_of_mem _ h)]
      rcases htakes with h | h
      · exact absurd (h ▸ List.mem_cons_self) hq
      · rw [h]
  · rintro rfl
    exact List.forall₂_same.mpr fun x _ => .inr rfl

/-- **Plain letters between two runs** match where the text contains them. -/
theorem matches_infix {q t : List α} (hany : any ∉ q) (hone : one ∉ q) :
    Matches any one (any :: (q ++ [any])) t ↔ q <:+: t := by
  rw [matches_any_iff]
  constructor
  · rintro ⟨k, hk, h⟩
    obtain ⟨u, v, hdrop, haligned, -⟩ := (matches_append hany).mp h
    obtain rfl := (aligned_iff_eq hone).mp haligned
    exact ⟨t.take k, v, by rw [List.append_assoc, ← hdrop, List.take_append_drop]⟩
  · rintro ⟨a, b, rfl⟩
    refine ⟨a.length, by simp, (matches_append hany).mpr ⟨q, b, ?_, ?_, ?_⟩⟩
    · rw [List.append_assoc, List.drop_left]
    · exact (aligned_iff_eq hone).mpr rfl
    · exact matches_any_iff.mpr ⟨b.length, Nat.le_refl _, by rw [List.drop_length]; rfl⟩

/-- **Plain letters around a single one**, against a text in three parts. -/
theorem matches_around {x y x' l y' : List α} (hany : any ∉ x ++ y) (hone : one ∉ x ++ y)
    (hne : one ≠ any) (hx : x.length = x'.length) (hy : y.length = y'.length) :
    Matches any one (x ++ one :: y) (x' ++ l ++ y') ↔ x = x' ∧ l.length = 1 ∧ y = y' := by
  rw [List.mem_append, not_or] at hany hone
  rw [matches_append hany.1]
  constructor
  · rintro ⟨u, v, htext, haligned, h⟩
    obtain rfl := (aligned_iff_eq hone.1).mp haligned
    rw [List.append_assoc] at htext
    obtain ⟨rfl, rfl⟩ := List.append_inj htext hx.symm
    have hplain : any ∉ one :: y := by
      rw [List.mem_cons, not_or]
      exact ⟨fun h => hne h.symm, hany.2⟩
    have hlen := List.Forall₂.length_eq ((matches_plain hplain).mp h)
    rw [List.length_append, List.length_cons] at hlen
    obtain ⟨c, rfl⟩ := List.length_eq_one_iff.mp (show l.length = 1 by omega)
    obtain ⟨-, hrest⟩ := (matches_cons_cons hne).mp h
    exact ⟨rfl, rfl, (aligned_iff_eq hone.2).mp ((matches_plain hany.2).mp hrest)⟩
  · rintro ⟨rfl, hl, rfl⟩
    obtain ⟨c, rfl⟩ := List.length_eq_one_iff.mp hl
    refine ⟨x, [c] ++ y, by simp, (aligned_iff_eq hone.1).mpr rfl, ?_⟩
    exact (matches_cons_cons hne).mpr ⟨.inl rfl, (matches_plain hany.2).mpr
      ((aligned_iff_eq hone.2).mpr rfl)⟩

end Wildcard

end FlinkExplorer.Lib
