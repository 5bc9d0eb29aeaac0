import Mathlib.Logic.Relation

namespace FlinkExplorer.Lib

/-!
# Machines that make requests

A machine goes from state to state by `next`, until it stops; some of its states are `ok`.

* `Reaches next a b` — it comes from `a` to `b`;
* `Passes next ok a b` — and every state it leaves on the way is ok;
* `ok_of_reaches` — a machine that stops in an ok state after ok ones comes to no other states.
-/

section Requests

variable {σ : Type} {next : σ → Option σ} {ok : σ → Prop} {a b c : σ}

/-- The machine comes from one state to another. -/
def Reaches (next : σ → Option σ) : σ → σ → Prop := Relation.ReflTransGen fun a b => next a = some b

/-- It does, and all the states it leaves are ok. -/
def Passes (next : σ → Option σ) (ok : σ → Prop) : σ → σ → Prop :=
  Relation.ReflTransGen fun a b => ok a ∧ next a = some b

theorem Passes.refl (a : σ) : Passes next ok a a := Relation.ReflTransGen.refl

theorem Passes.trans (h : Passes next ok a b) (h' : Passes next ok b c) : Passes next ok a c :=
  Relation.ReflTransGen.trans h h'

/-- One turn first. -/
theorem Passes.head (hok : ok a) (hnext : next a = some b) (h : Passes next ok b c) :
    Passes next ok a c := Relation.ReflTransGen.head ⟨hok, hnext⟩ h

theorem Passes.reaches (h : Passes next ok a b) : Reaches next a b := by
  induction h with
  | refl => exact Relation.ReflTransGen.refl
  | tail _ hstep ih => exact Relation.ReflTransGen.tail ih hstep.2

/-- A measure that no turn makes larger. -/
theorem Passes.measure_le {m : σ → Nat} (hm : ∀ a b, next a = some b → m b ≤ m a)
    (h : Passes next ok a b) : m b ≤ m a := by
  induction h with
  | refl => exact Nat.le_refl _
  | tail _ hstep ih => exact Nat.le_trans (hm _ _ hstep.2) ih

/-- Where the machine stops in an ok state, having left only ok ones, it comes to no other. -/
theorem ok_of_reaches (h : Passes next ok a b) (hok : ok b) (hstop : next b = none)
    (hreach : Reaches next a c) : ok c := by
  induction h using Relation.ReflTransGen.head_induction_on with
  | refl =>
    rcases Relation.ReflTransGen.cases_head hreach with rfl | ⟨d, hd, -⟩
    · exact hok
    · rw [hstop] at hd
      cases hd
  | head hstep _ ih =>
    rcases Relation.ReflTransGen.cases_head hreach with rfl | ⟨d, hd, hrest⟩
    · exact hstep.1
    · -- There is one turn to take.
      obtain rfl := Option.some.inj (hstep.2.symm.trans hd)
      exact ih hrest

end Requests

end FlinkExplorer.Lib
