import Mathlib.Data.List.Basic

namespace FlinkExplorer.Lib

/-!
# Readers over a token stream

A `Read α ε β` consumes tokens `α` from the front of a `Cursor` and ends with a value or an
error; either way it leaves a cursor behind.

* `Reads p used v` — `p` reads exactly the tokens `used`, whatever follows them, and returns
  `v`;
* `Stable p` — every successful run of `p` is such an exact read: success depends on the
  tokens consumed and on nothing after them;
* `Stable.error_of_cut` — a stable reader fails on every strict prefix of what it reads,
  so a value cut short is never taken for a shorter value;
* `Ensures p P` — what `p` reads satisfies `P`;
* `Reads.unique` — one stream starts with at most one readable value;
* `Alike p q` — `p` and `q` succeed on the same streams, alike; only their errors differ.

The closure lemmas (`pure`, `bind`, `mapError`) let both facts be proved along the `do`
blocks of a concrete reader.
-/

/-- What is left to read, and how many tokens were read so far. -/
structure Cursor (α : Type) where
  inner : List α
  pos : Nat

/-- A reader of `α` tokens that returns a `β` or fails with an `ε`. -/
def Read (α ε β : Type) : Type := Cursor α → Except ε β × Cursor α

namespace Read

variable {α ε ε' β γ : Type}

instance : Monad (Read α ε) where
  pure v := fun r => (.ok v, r)
  bind p f := fun r =>
    match p r with
    | (.ok v, r') => f v r'
    | (.error e, r') => (.error e, r')

/-- Fail without reading. -/
def throw (e : ε) : Read α ε β := fun r => (.error e, r)

/-- The same reader under another error. -/
def mapError (f : ε → ε') (p : Read α ε β) : Read α ε' β := fun r =>
  match p r with
  | (.ok v, r') => (.ok v, r')
  | (.error e, r') => (.error (f e), r')

/-- Run `p` and go on whether or not it succeeded. -/
def attempt (p : Read α ε β) : Read α ε' (Option β) := fun r =>
  match p r with
  | (.ok v, r') => (.ok (some v), r')
  | (.error _, r') => (.ok none, r')

theorem bind_ok {p : Read α ε β} {f : β → Read α ε γ} {r r' : Cursor α} {v : β}
    (h : p r = (.ok v, r')) : (p >>= f) r = f v r' := by
  show (match p r with | (.ok v, r') => f v r' | (.error e, r') => (.error e, r')) = _
  rw [h]

theorem bind_error {p : Read α ε β} {f : β → Read α ε γ} {r r' : Cursor α} {e : ε}
    (h : p r = (.error e, r')) : (p >>= f) r = (.error e, r') := by
  show (match p r with | (.ok v, r') => f v r' | (.error e, r') => (.error e, r')) = _
  rw [h]

/-- A successful `bind` splits into its two successful halves. -/
theorem bind_eq_ok {p : Read α ε β} {f : β → Read α ε γ} {r r' : Cursor α} {w : γ}
    (h : (p >>= f) r = (.ok w, r')) : ∃ v s, p r = (.ok v, s) ∧ f v s = (.ok w, r') := by
  rcases hp : p r with ⟨v | v, s⟩
  · rw [bind_error hp] at h
    cases h
  · rw [bind_ok hp] at h
    exact ⟨v, s, rfl, h⟩

theorem mapError_ok {g : ε → ε'} {p : Read α ε β} {r r' : Cursor α} {v : β} :
    p.mapError g r = (.ok v, r') ↔ p r = (.ok v, r') := by
  rcases hp : p r with ⟨w | w, s⟩ <;> simp [mapError, hp]

/-- Readers are composed as steps of a `do` block are. -/
instance : LawfulMonad (Read α ε) := LawfulMonad.mk' _
  (fun x => by
    funext r
    show (match x r with | (.ok v, r') => (.ok v, r') | (.error e, r') => (.error e, r')) = x r
    rcases x r with ⟨v | v, r'⟩ <;> rfl)
  (fun _ _ => rfl)
  (fun x f g => by
    funext r
    rcases hx : x r with ⟨e | v, s⟩
    · rw [bind_error hx, bind_error (bind_error hx)]
    · rw [bind_ok hx]
      show (match (x >>= f) r with | (.ok v, r') => g v r' | (.error e, r') => (.error e, r')) = _
      rw [bind_ok hx]
      rfl)

theorem mapError_error {g : ε → ε'} {p : Read α ε β} {r r' : Cursor α} {e : ε}
    (h : p r = (.error e, r')) : p.mapError g r = (.error (g e), r') := by
  rw [mapError, h]

theorem mapError_mapError {ε'' : Type} (g : ε → ε') (g' : ε' → ε'') (p : Read α ε β) :
    (p.mapError g).mapError g' = p.mapError fun e => g' (g e) := by
  funext r
  unfold mapError
  rcases p r with ⟨e | v, s⟩ <;> rfl

theorem mapError_bind (g : ε → ε') (p : Read α ε β) (f : β → Read α ε γ) :
    (p >>= f).mapError g = p.mapError g >>= fun b => (f b).mapError g := by
  funext r
  rcases hp : p r with ⟨e | v, s⟩
  · rw [bind_error (mapError_error hp), mapError, bind_error hp]
  · rw [bind_ok (mapError_ok.mpr hp), mapError, bind_ok hp]
    rfl

@[simp] theorem mapError_pure (g : ε → ε') (v : β) :
    (pure v : Read α ε β).mapError g = pure v := rfl

/-- Read `n` values in a row. -/
def many (p : Read α ε β) : Nat → Read α ε (List β)
  | 0 => pure []
  | n + 1 => do
    let v ← p
    let vs ← many p n
    pure (v :: vs)

/-! ### Exact reads -/

/-- `p` reads the tokens `used` as `v`, whatever follows them. -/
def Reads (p : Read α ε β) (used : List α) (v : β) : Prop :=
  ∀ rest pos, p ⟨used ++ rest, pos⟩ = (.ok v, ⟨rest, pos + used.length⟩)

theorem Reads.pure (v : β) : Reads (pure v : Read α ε β) [] v := fun _ _ => rfl

theorem Reads.bind {p : Read α ε β} {f : β → Read α ε γ} {a b : List α} {v : β} {w : γ}
    (hp : Reads p a v) (hf : Reads (f v) b w) : Reads (p >>= f) (a ++ b) w := by
  intro rest pos
  rw [List.append_assoc, bind_ok (hp _ _), hf, List.length_append, Nat.add_assoc]

/-- A `bind` whose second half reads nothing. -/
theorem Reads.bind_nil {p : Read α ε β} {f : β → Read α ε γ} {a : List α} {v : β} {w : γ}
    (hp : Reads p a v) (hf : Reads (f v) [] w) : Reads (p >>= f) a w := by
  simpa using hp.bind hf

theorem Reads.mapError {p : Read α ε β} {a : List α} {v : β} (g : ε → ε') (hp : Reads p a v) :
    Reads (p.mapError g) a v := fun rest pos => mapError_ok.mpr (hp rest pos)

/-- Values written back to back are read back in order. -/
theorem Reads.many {δ : Type} {p : Read α ε β} {enc : δ → List α} {val : δ → β} (xs : List δ)
    (h : ∀ x ∈ xs, Reads p (enc x) (val x)) :
    Reads (many p xs.length) (xs.flatMap enc) (xs.map val) := by
  induction xs with
  | nil => exact Reads.pure []
  | cons x xs ih =>
    have hx := h x List.mem_cons_self
    have hxs := ih fun y hy => h y (List.mem_cons_of_mem x hy)
    exact hx.bind (hxs.bind_nil (Reads.pure _))

/-! ### Stable readers -/

/-- Every successful run of `p` is an exact read of the tokens it consumed. -/
def Stable (p : Read α ε β) : Prop :=
  ∀ r v r', p r = (.ok v, r') → ∃ used, r.inner = used ++ r'.inner ∧ Reads p used v

theorem Stable.pure (v : β) : Stable (pure v : Read α ε β) := by
  intro r w r' h
  cases h
  exact ⟨[], rfl, Reads.pure v⟩

theorem Stable.throw (e : ε) : Stable (throw e : Read α ε β) := by
  intro r v r' h
  cases h

theorem Stable.bind {p : Read α ε β} {f : β → Read α ε γ} (hp : Stable p)
    (hf : ∀ v, Stable (f v)) : Stable (p >>= f) := by
  intro r w r' h
  obtain ⟨v, s, h₁, h₂⟩ := bind_eq_ok h
  obtain ⟨a, ha, hpa⟩ := hp _ _ _ h₁
  obtain ⟨b, hb, hfb⟩ := hf v _ _ _ h₂
  exact ⟨a ++ b, by rw [ha, hb, List.append_assoc], hpa.bind hfb⟩

theorem Stable.mapError {p : Read α ε β} (g : ε → ε') (hp : Stable p) :
    Stable (p.mapError g) := by
  intro r v r' h
  obtain ⟨used, hu, hr⟩ := hp _ _ _ (mapError_ok.mp h)
  exact ⟨used, hu, hr.mapError g⟩

theorem Stable.many {p : Read α ε β} (hp : Stable p) (n : Nat) : Stable (many p n) := by
  induction n with
  | zero => exact Stable.pure []
  | succ n ih => exact hp.bind fun _ => ih.bind fun _ => Stable.pure _

/-- **Cut short means error.**  A stable reader fails on every strict prefix of what it
    reads. -/
theorem Stable.error_of_cut {p : Read α ε β} (hp : Stable p) {used a t : List α} {v : β}
    (hv : Reads p used v) (hsplit : used = a ++ t) (ht : t ≠ []) (pos : Nat) :
    ∃ e r', p ⟨a, pos⟩ = (.error e, r') := by
  rcases h : p ⟨a, pos⟩ with ⟨e | w, r'⟩
  · exact ⟨e, r', rfl⟩
  · obtain ⟨b, hb, hw⟩ := hp _ _ _ h
    have hfull : p ⟨used, pos⟩ = (.ok v, ⟨[], pos + used.length⟩) := by
      simpa using hv [] pos
    have hlong : p ⟨used, pos⟩ = (.ok w, ⟨r'.inner ++ t, pos + b.length⟩) := by
      rw [hsplit, show a = b ++ r'.inner from hb, List.append_assoc]
      exact hw _ _
    have hrest : r'.inner ++ t = [] := by
      simpa using congrArg (fun x => x.2.inner) (hlong.symm.trans hfull)
    exact absurd (List.append_eq_nil_iff.mp hrest).2 ht

/-- One stream starts with at most one readable value. -/
theorem Reads.unique {p : Read α ε β} {a b r₁ r₂ : List α} {v w : β}
    (ha : Reads p a v) (hb : Reads p b w) (h : a ++ r₁ = b ++ r₂) : a = b ∧ v = w ∧ r₁ = r₂ := by
  have h₁ := ha r₁ 0
  have h₂ := hb r₂ 0
  rw [h, h₂] at h₁
  obtain ⟨hv, hr⟩ := Prod.mk.inj h₁
  have hrest : r₂ = r₁ := congrArg Cursor.inner hr
  subst hrest
  exact ⟨List.append_cancel_right h, (Except.ok.inj hv).symm, rfl⟩

/-! ### What is read -/

/-- Every value that `p` reads satisfies `P`. -/
def Ensures (p : Read α ε β) (P : β → Prop) : Prop := ∀ r v r', p r = (.ok v, r') → P v

theorem Ensures.trivial (p : Read α ε β) : Ensures p fun _ => True := fun _ _ _ _ => True.intro

theorem Ensures.pure {P : β → Prop} {v : β} (hv : P v) : Ensures (pure v : Read α ε β) P := by
  intro r w r' h
  cases h
  exact hv

theorem Ensures.throw (e : ε) (P : β → Prop) : Ensures (throw e : Read α ε β) P := by
  intro r v r' h
  cases h

theorem Ensures.bind {p : Read α ε β} {f : β → Read α ε γ} {P : β → Prop} {Q : γ → Prop}
    (hp : Ensures p P) (hf : ∀ v, P v → Ensures (f v) Q) : Ensures (p >>= f) Q := by
  intro r w r' h
  obtain ⟨v, s, hv, hw⟩ := bind_eq_ok h
  exact hf v (hp r v s hv) s w r' hw

/-- A step of which only the end matters. -/
theorem Ensures.step {p : Read α ε β} {f : β → Read α ε γ} {Q : γ → Prop}
    (hf : ∀ v, Ensures (f v) Q) : Ensures (p >>= f) Q :=
  (Ensures.trivial p).bind fun v _ => hf v

theorem Ensures.many {p : Read α ε β} {P : β → Prop} (hp : Ensures p P) (n : Nat) :
    Ensures (many p n) fun vs => vs.length = n ∧ ∀ v ∈ vs, P v := by
  induction n with
  | zero => exact .pure ⟨rfl, List.forall_mem_nil P⟩
  | succ n ih =>
    refine hp.bind fun v hv => ih.bind fun vs hvs => .pure ⟨?_, ?_⟩
    · rw [List.length_cons, hvs.1]
    · exact List.forall_mem_cons.mpr ⟨hv, hvs.2⟩

/-! ### Readers that differ in their errors only -/

/-- `p` and `q` succeed on the same streams and read the same there. -/
def Alike (p : Read α ε β) (q : Read α ε' β) : Prop :=
  ∀ r v r', p r = (.ok v, r') ↔ q r = (.ok v, r')

theorem Alike.mapError (g : ε → ε') (p : Read α ε β) : Alike (p.mapError g) p :=
  fun _ _ _ => mapError_ok

/-- Two readers that never succeed. -/
theorem Alike.failing {p : Read α ε β} {q : Read α ε' β} (hp : ∀ r v r', p r ≠ (.ok v, r'))
    (hq : ∀ r v r', q r ≠ (.ok v, r')) : Alike p q :=
  fun r v r' => iff_of_false (hp r v r') (hq r v r')

theorem Alike.pure (v : β) : Alike (pure v : Read α ε β) (pure v : Read α ε' β) := by
  intro r w r'
  constructor <;> · intro h; cases h; rfl

theorem Alike.bind {p : Read α ε β} {q : Read α ε' β} {f : β → Read α ε γ} {g : β → Read α ε' γ}
    (hp : Alike p q) (hf : ∀ v, Alike (f v) (g v)) : Alike (p >>= f) (q >>= g) := by
  intro r w r'
  constructor
  · intro h
    obtain ⟨v, s, hv, hw⟩ := bind_eq_ok h
    rw [bind_ok ((hp r v s).mp hv)]
    exact (hf v s w r').mp hw
  · intro h
    obtain ⟨v, s, hv, hw⟩ := bind_eq_ok h
    rw [bind_ok ((hp r v s).mpr hv)]
    exact (hf v s w r').mpr hw

theorem Stable.of_alike {p : Read α ε β} {q : Read α ε' β} (h : Alike p q) (hq : Stable q) :
    Stable p := by
  intro r v r' hp
  obtain ⟨used, hused, hreads⟩ := hq r v r' ((h r v r').mp hp)
  exact ⟨used, hused, fun rest pos => (h _ _ _).mpr (hreads rest pos)⟩

theorem Reads.of_alike {p : Read α ε β} {q : Read α ε' β} (h : Alike p q) {used : List α} {v : β}
    (hq : Reads q used v) : Reads p used v := fun rest pos => (h _ _ _).mpr (hq rest pos)

end Read

end FlinkExplorer.Lib
