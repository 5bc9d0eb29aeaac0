import Mathlib.Algebra.BigOperators.Group.List.Basic
import Mathlib.Algebra.GroupWithZero.Nat

namespace FlinkExplorer.Lib

/-!
# Loops that may fail

A loop over a list whose body may stop it is `List.foldlM` in `Except ε`.  What holds of a loop that
ended well:

* `exists_foldlM_ok` — a loop ends well where each turn does;
* `foldlM_forall` — what each turn needed held;
* `foldlM_sum` — what each turn adds to a measure was added;
* `foldlM_flatMap` — a loop of loops, seen through a view of its state, is one loop.
-/

section Loop

variable {ε α β γ δ : Type} {f : γ → α → Except ε γ} {xs : List α} {st st' : γ}

theorem eq_ok_of_toOption {x : Except ε α} {a : α} (h : x.toOption = some a) : x = .ok a := by
  cases x with
  | error e => cases h
  | ok b => exact congrArg Except.ok (Option.some.inj h)

/-- The first turn, and the rest. -/
theorem foldlM_cons_ok {x : α} (h : (x :: xs).foldlM f st = .ok st') :
    ∃ mid, f st x = .ok mid ∧ xs.foldlM f mid = .ok st' := by
  rw [List.foldlM_cons] at h
  cases hx : f st x with
  | error e =>
    rw [hx] at h
    cases h
  | ok mid =>
    rw [hx] at h
    exact ⟨mid, rfl, h⟩

/-- A loop whose turns all go through does. -/
theorem exists_foldlM_ok (hturn : ∀ x ∈ xs, ∀ st, ∃ st', f st x = .ok st') (st : γ) :
    ∃ st', xs.foldlM f st = .ok st' := by
  induction xs generalizing st with
  | nil => exact ⟨st, rfl⟩
  | cons x xs ih =>
    obtain ⟨mid, hmid⟩ := hturn x List.mem_cons_self st
    obtain ⟨st', hst'⟩ := ih (fun y hy => hturn y (List.mem_cons_of_mem x hy)) mid
    refine ⟨st', ?_⟩
    rw [List.foldlM_cons, hmid]
    exact hst'

theorem foldlM_forall {P : α → Prop} (hturn : ∀ st x st', f st x = .ok st' → P x)
    (h : xs.foldlM f st = .ok st') : ∀ x ∈ xs, P x := by
  induction xs generalizing st with
  | nil => exact fun _ hx => absurd hx List.not_mem_nil
  | cons x xs ih =>
    obtain ⟨mid, hx, hrest⟩ := foldlM_cons_ok h
    intro y hy
    rcases List.mem_cons.mp hy with rfl | hy
    · exact hturn st y mid hx
    · exact ih hrest y hy

theorem foldlM_sum {m : γ → Nat} {w : α → Nat}
    (hturn : ∀ st x st', f st x = .ok st' → m st' = m st + w x)
    (h : xs.foldlM f st = .ok st') : m st' = m st + (xs.map w).sum := by
  induction xs generalizing st with
  | nil =>
    obtain rfl : st = st' := Except.ok.inj h
    rfl
  | cons x xs ih =>
    obtain ⟨mid, hx, hrest⟩ := foldlM_cons_ok h
    rw [ih hrest, hturn st x mid hx, List.map_cons, List.sum_cons, Nat.add_assoc]

theorem foldlM_flatMap {g : δ → β → Except ε δ} {parts : α → List β} {v : γ → δ}
    (hturn : ∀ st x st', f st x = .ok st' → (parts x).foldlM g (v st) = .ok (v st'))
    (h : xs.foldlM f st = .ok st') :
    (xs.flatMap parts).foldlM g (v st) = .ok (v st') := by
  induction xs generalizing st with
  | nil =>
    obtain rfl : st = st' := Except.ok.inj h
    rfl
  | cons x xs ih =>
    obtain ⟨mid, hx, hrest⟩ := foldlM_cons_ok h
    rw [List.flatMap_cons, List.foldlM_append, hturn st x mid hx]
    exact ih hrest

end Loop

end FlinkExplorer.Lib
