import FlinkExplorer.Reader.Arithmetic
import FlinkExplorer.Reader.KeyPages
import Mathlib.Order.WellFounded

namespace FlinkExplorer

open Lib

/-!
# Calls that go well

What the integers of an operator must be for the arithmetic of every call to go well
(`KeyGroupsFit`), and what every call then does:

* `pageChecked_eq`, `getChecked_eq`, `cursorAtChecked_eq` — it is answered as if no number had an end;
* `page_before` — the cursor of a page lies after the page's own, whatever the ranges of the units are;
* `follows_ends` — so every chain of calls ends.
-/

/-! ### Calls that go well -/

theorem keyGroupForHashChecked_eq {maxParallelism : Int} (hmax : maxParallelism ≠ 0)
    (keyHash : Int32) :
    keyGroupForHashChecked keyHash maxParallelism = some (keyGroupForHash keyHash maxParallelism) := by
  have h0 := murmurHash_nonneg keyHash
  have hlt := Int32.toInt_lt (murmurHash keyHash)
  exact Checked.rem_eq_some hmax (by omega) hlt

theorem keyGroupForHash_nonneg (keyHash : Int32) (maxParallelism : Int) :
    0 ≤ keyGroupForHash keyHash maxParallelism :=
  Int.tmod_nonneg maxParallelism (murmurHash_nonneg keyHash)

theorem subtaskForKeyGroupDiv_eq {maxParallelism parallelism kg : Int} (hmax : maxParallelism ≠ 0)
    (hlo : -32768 ≤ parallelism) (hhi : parallelism ≤ 32768) (h0 : 0 ≤ kg) (hkg : kg < 65536) :
    subtaskForKeyGroupDiv maxParallelism parallelism kg
      = some (subtaskForKeyGroup maxParallelism parallelism kg) := by
  have hle : kg * parallelism ≤ kg * 32768 := Int.mul_le_mul_of_nonneg_left hhi h0
  have hge : kg * -32768 ≤ kg * parallelism := Int.mul_le_mul_of_nonneg_left hlo h0
  unfold subtaskForKeyGroupDiv
  rw [Checked.signed_eq_some (by omega) (by omega), Option.bind_eq_bind, Option.bind_some,
    Checked.div_eq_some hmax (by omega) (by omega)]
  rfl

/-- What the arithmetic of an operator's key-groups needs. -/
structure KeyGroupsFit (R : StateReader) (o : OpenOperator) : Prop where
  maxParallelism : o.maxParallelism ≠ 0
  parallelism : -32768 ≤ o.parallelism ∧ o.parallelism ≤ 32768
  walked : WalkedFrom o.ctx.units 0
  lookedUp : ∀ first, o.ctx.firstHeader = some first → ∀ keyText key canonical,
    R.parseLookup first keyText = .ok (key, canonical) →
    keyGroupForHash key.hashCode o.maxParallelism < 65536
  headless : o.ctx.firstHeader = none → ∀ u ∈ o.ctx.units.head?, 0 ≤ u.last

section Calls

variable {R : StateReader} {o : OpenOperator} {op : Text}

theorem checkCursorChecked_eq (hfits : ∀ u ∈ o.ctx.units, u.Fits) (c : Cursor) :
    o.checkCursorChecked c = some (o.checkCursor c) := by
  unfold OpenOperator.checkCursorChecked
  by_cases hbeyond : (c.keyGroup.toNat : Int) ≥ max o.maxParallelism 1
  · rw [if_pos hbeyond]
    rfl
  · rw [if_neg hbeyond, unitOfChecked_eq hfits]
    rfl

theorem pageChecked_eq (hop : R.operator op = .ok o) (hwalked : WalkedFrom o.ctx.units 0) {α : Type}
    (c : Cursor) (w : Walk α) (keep : Bool) (ordinal : UInt32) (found : α) (cache : BlockCache) :
    R.pageChecked op c w keep ordinal found cache = some (R.page op c w keep ordinal found cache) := by
  unfold StateReader.pageChecked StateReader.page
  rw [hop]
  dsimp only
  rw [checkCursorChecked_eq hwalked.1, Option.bind_eq_bind, Option.bind_some]
  cases o.checkCursor c with
  | error e => rfl
  | ok =>
    dsimp only
    have hreal : (seekUnits c.keyGroup.toNat ordinal o.ctx.units).Real :=
      (real_seekUnits _ _ _).mpr (hwalked.2 _ (Int.natCast_nonneg _))
    rw [seekUnitsChecked_eq hwalked.1, Option.bind_eq_bind, Option.bind_some,
      loopChecked_eq hwalked.1 hwalked.2 (Int.natCast_nonneg _) (seekUnits_sought _ _ _) hreal
        (by omega) (by omega)]
    rfl

/-- Without a readable header no unit can be read. -/
theorem error_of_firstHeader (h : o.ctx.firstHeader = none) {u : ReadUnit} (hu : u ∈ o.ctx.units) :
    u.error.isSome = true := by
  rcases o.ctx.mem_units.mp hu with ⟨s, hs, rfl⟩ | ⟨f, -, rfl⟩
  · have hnone := List.findSome?_eq_none_iff.mp h s hs
    unfold ReadUnit.error
    cases hheader : s.header with
    | error e => simp only [hheader, Option.isSome_some]
    | ok header =>
      rw [hheader] at hnone
      cases hnone
  · rfl

theorem getChecked_key (hop : R.operator op = .ok o) (hfit : KeyGroupsFit R o) {keyText : Text}
    {first : SubtaskHeader} (hfirst : o.ctx.firstHeader = some first) {key : JavaKey} {canonical : Text}
    (hparse : R.parseLookup first keyText = .ok (key, canonical))
    (cache : BlockCache) : R.getChecked op keyText cache = some (R.get op keyText cache) := by
  have h0 := keyGroupForHash_nonneg key.hashCode o.maxParallelism
  -- the key's group is below 2^16 for every key that parses, which is what the cast needs
  have hlt := hfit.lookedUp first hfirst keyText key canonical hparse
  have hkg := keyGroupU16_eq_some h0 hlt
  have hhash := keyGroupForHashChecked_eq hfit.maxParallelism key.hashCode
  unfold StateReader.getChecked
  rw [hop]
  dsimp only
  rw [hfirst]
  dsimp only
  rw [hparse]
  dsimp only
  rw [hhash, Option.bind_eq_bind, Option.bind_some, hkg, Option.bind_eq_bind, Option.bind_some]
  rw [unitOfChecked_eq hfit.walked.1, Option.bind_eq_bind, Option.bind_some]
  -- Where no unit holds the key-group, its subtask is named with a division of its own.
  cases hunit : o.ctx.unitOf (keyGroupForHash key.hashCode o.maxParallelism) with
  | none =>
    have hfind := hunit
    unfold OpContext.unitOf at hfind
    rw [hfind]
    have hsubtask := subtaskForKeyGroupDiv_eq hfit.maxParallelism hfit.parallelism.1
      hfit.parallelism.2 h0 hlt
    dsimp only
    rw [hsubtask, Option.bind_some]
    unfold StateReader.get
    rw [hop]
    dsimp only
    rw [hfirst]
    dsimp only
    rw [hparse]
    dsimp only
    rw [hunit]
    dsimp only
    exact congrFun Option.pure_def _
  | some u =>
    unfold OpContext.unitOf at hunit
    rw [hunit]
    dsimp only
    exact congrFun Option.pure_def _

theorem getChecked_headless (hop : R.operator op = .ok o) (hfit : KeyGroupsFit R o)
    (hfirst : o.ctx.firstHeader = none) (keyText : Text) (cache : BlockCache) :
    R.getChecked op keyText cache = some (R.get op keyText cache) := by
  unfold StateReader.getChecked
  rw [hop]
  dsimp only
  rw [hfirst]
  dsimp only
  cases hunits : o.ctx.units with
  | nil =>
    unfold StateReader.get
    rw [hop]
    dsimp only
    rw [hfirst, hunits]
    exact congrFun Option.pure_def _
  | cons u units =>
    have hu : u ∈ o.ctx.units := hunits ▸ List.mem_cons_self
    have hlast := hfit.headless hfirst u (by rw [hunits]; rfl)
    -- The first unit is where a walk starts.
    have hreal : (Position.unreadable u (max u.first 0)).Real := by
      have hseek := hfit.walked.2 0 le_rfl
      rw [hunits, seekUnits_cons, if_neg (by omega), if_pos (error_of_firstHeader hfirst hu)] at hseek
      exact hseek
    have hwhy := ReadUnit.unreadableChecked_eq (hfit.walked.1 u hu) le_rfl hreal.1 hlast hreal.2
    rw [List.head?_cons]
    dsimp only
    rw [hwhy, Option.bind_eq_bind, Option.bind_some]
    unfold StateReader.get
    rw [hop]
    dsimp only
    rw [hfirst, hunits]
    exact congrFun Option.pure_def _

/-- **A lookup goes well** where the operator's key-groups fit. -/
theorem getChecked_eq (hop : R.operator op = .ok o) (hfit : KeyGroupsFit R o) (keyText : Text)
    (cache : BlockCache) : R.getChecked op keyText cache = some (R.get op keyText cache) := by
  cases hfirst : o.ctx.firstHeader with
  | none => exact getChecked_headless hop hfit hfirst keyText cache
  | some first =>
    cases hparse : R.parseLookup first keyText with
    | ok found => exact getChecked_key hop hfit hfirst hparse cache
    | error reason =>
      unfold StateReader.getChecked StateReader.get
      rw [hop]
      dsimp only
      rw [hfirst]
      dsimp only
      rw [hparse]
      exact congrFun Option.pure_def _

theorem cursorAtChecked_eq (hop : R.operator op = .ok o) (hfit : KeyGroupsFit R o)
    (keyGroup : UInt16) : R.cursorAtChecked op keyGroup = some (R.cursorAt op keyGroup) := by
  have hlt : (keyGroup.toNat : Int) < 65536 := by
    have := keyGroup.toNat_lt
    omega
  have hsubtask := subtaskForKeyGroupDiv_eq hfit.maxParallelism hfit.parallelism.1
    hfit.parallelism.2 (Int.natCast_nonneg _) hlt
  unfold StateReader.cursorAtChecked StateReader.cursorAt
  rw [hop]
  dsimp only
  rw [unitOfChecked_eq hfit.walked.1, Option.bind_eq_bind, Option.bind_some]
  cases hunit : o.ctx.unitOf keyGroup.toNat with
  | some u =>
    have hfind := hunit
    unfold OpContext.unitOf at hfind
    rw [hfind]
    simp only [bind, Except.bind, hunit]
    rfl
  | none =>
    have hfind := hunit
    unfold OpContext.unitOf at hfind
    rw [hfind]
    simp only [bind, Except.bind, hunit]
    rw [hsubtask]
    rfl

/-! ### Chains of calls -/

variable (R op) in
/-- A call from a cursor gives the cursor of the next one. -/
inductive StateReader.Follows (c c' : Cursor) : Prop
  | keyPage {limit : Nat} {cache : BlockCache} (hcache : R.Reached cache)
    {page : Page (List KeyRecord)} (h : (R.keyPage op c limit cache).1 = .ok page)
    (hnext : page.next = some c')
  | scanWith {τ : Type} {opts : ScanOptions} {test : τ → Text → τ × Bool} {t : τ}
    {cache : BlockCache} (hcache : R.Reached cache) {page : Page (List KeyRecord × τ)}
    (h : (R.scanWith op c opts test t cache).1 = .ok page) (hnext : page.next = some c')
  | count {byteBudget : Nat} {cache : BlockCache} (hcache : R.Reached cache) {page : Page Counts}
    (h : (R.count op c byteBudget cache).1 = .ok page) (hnext : page.next = some c')

theorem seekUnits_ordinal {a : Int} {ordinal ord : UInt32} {units : List ReadUnit} {s : SubtaskStream}
    (h : seekUnits a ordinal units = .block s a ord) : ord = ordinal := by
  rw [seekUnits_eq] at h
  cases hps : positions a units with
  | nil =>
    rw [hps] at h
    cases h
  | cons p ps =>
    rw [hps] at h
    cases p with
    | ended => cases h
    | unreadable u from' => cases h
    | block s' kg o =>
      unfold startAt headPosition at h
      obtain ⟨rfl, rfl, rfl⟩ := Position.block.inj h
      exact if_pos rfl

/-- **The cursor a call gives** lies after the call's own: at a later key-group, or at a later key. -/
theorem page_before (hop : R.operator op = .ok o) (hsized : R.Sized o)
    (hwalked : WalkedFrom o.ctx.units 0) {α : Type} {c c' : Cursor} {w : Walk α} {keep : Bool}
    {ordinal : UInt32} {found : α} (hfull : ¬ w.full found = true) {cache : BlockCache}
    (hcache : R.Reached cache) {page : Page α}
    (h : (R.page op c w keep ordinal found cache).1 = .ok page) (hnext : page.next = some c') :
    c.keyGroup.toNat < c'.keyGroup.toNat
      ∨ (c.keyGroup = c'.keyGroup ∧ ordinal < c'.ordinal ∧ ∃ found, w.full found = true) := by
  obtain ⟨i, hi⟩ := StateReader.operator_eq_ok hop
  unfold StateReader.page at h
  rw [hop] at h
  dsimp only at h
  cases hcheck : o.checkCursor c with
  | error e =>
    rw [hcheck] at h
    cases h
  | ok =>
    rw [hcheck] at h
    dsimp only at h
    obtain rfl := Except.ok.inj h
    have hsought := seekUnits_sought c.keyGroup.toNat ordinal o.ctx.units
    have hreal : (seekUnits c.keyGroup.toNat ordinal o.ctx.units).Real :=
      (real_seekUnits _ _ _).mpr (hwalked.2 _ (Int.natCast_nonneg _))
    have hturns : Walk.endKeyGroup o.ctx.units - c.keyGroup.toNat
        < ((Walk.endKeyGroup o.ctx.units - c.keyGroup.toNat).toNat + 1 : Nat) := by omega
    have hloop : w.loopChecked (R.grouped o keep) o.ctx.units _ _ _ _ _ = some _ :=
      loopChecked_eq hwalked.1 hwalked.2 (Int.natCast_nonneg _) hsought hreal hturns (by omega) 0
        ⟨found, none, .zero, [], []⟩ cache
    rcases loopChecked_first hsought hfull rfl hloop hnext with hlater | ⟨hsame, hat, hinside⟩
    · exact .inl (Int.ofNat_lt.mp hlater)
    · obtain ⟨s, kg, ord, header, block, read, next, hpos, hfetch, hkeys, -, rfl⟩ :=
        hinside.exists_block
      rw [hpos] at hsought hat
      obtain rfl : kg = c.keyGroup.toNat := hat
      obtain rfl := seekUnits_ordinal hpos
      refine .inr ⟨UInt16.toNat_inj.mp (Int.ofNat_inj.mp hsame.symm), ?_, exists_full_of_keys hkeys⟩
      -- Some key of the block was taken, and there are not too many to be numbered.
      cases hsought with
      | block _ hu _ hfirst hlast =>
        have hs : s ∈ o.ctx.streams := by
          rcases o.ctx.mem_units.mp hu with ⟨s', hs', heq⟩ | ⟨f, -, heq⟩
          · cases heq
            exact hs'
          · cases heq
        obtain ⟨hread, -, -⟩ := grouped_agrees hi keep s hu c.keyGroup.toNat .zero cache hcache.sound
        rw [hfetch] at hread
        have hlength := hsized s hs _ ⟨hfirst, hlast⟩ header block hread.symm
        obtain ⟨taken, left, htaken, -, hend⟩ := w.keys_spec s header c.keyGroup.toNat ord.toNat
          (block.keys.drop ord.toNat) found
        rw [hkeys] at hend
        rcases hend with ⟨hnone, -⟩ | ⟨hord, hleft, hstart⟩
        · cases hnone
        · obtain rfl := Option.some.inj hord
          have htook := List.length_pos_of_ne_nil (hstart.resolve_left hfull)
          have hrest := List.length_pos_of_ne_nil hleft
          have hsplit := congrArg List.length htaken
          rw [List.length_drop, List.length_append] at hsplit
          rw [UInt32.lt_iff_toNat_lt, UInt32.toNat_ofNat', Nat.mod_eq_of_lt (by omega)]
          omega

theorem StateReader.Follows.before (hop : R.operator op = .ok o) (hsized : R.Sized o)
    (hwalked : WalkedFrom o.ctx.units 0) {c c' : Cursor} (h : R.Follows op c c') : c.Before c' := by
  cases h with
  | keyPage hcache h hnext =>
    have hfull {limit : Nat} : ¬ (R.keyWalk limit).full [] = true := by simp [StateReader.keyWalk]
    exact (page_before hop hsized hwalked hfull hcache h hnext).imp_right fun h => ⟨h.1, h.2.1⟩
  | @scanWith τ opts test t cache hcache page h hnext =>
    have hfull : ¬ (R.scanWalk opts test).full ([], t) = true := by simp [StateReader.scanWalk]
    exact (page_before hop hsized hwalked hfull hcache h hnext).imp_right fun h => ⟨h.1, h.2.1⟩
  | @count byteBudget cache hcache page h hnext =>
    have hnever (counts : Counts) : ¬ (StateReader.countWalk byteBudget).full counts = true := by
      simp [StateReader.countWalk]
    rcases page_before hop hsized hwalked (hnever _) hcache h hnext with hlater | ⟨-, -, f, hf⟩
    · exact .inl hlater
    · exact absurd hf (hnever f)

/-- Cursors left after one, at most. -/
def Cursor.left (c : Cursor) : Nat := (65536 - c.keyGroup.toNat) * 2 ^ 32 + (2 ^ 32 - c.ordinal.toNat)

theorem Cursor.Before.left_lt {c d : Cursor} (h : c.Before d) : d.left < c.left := by
  have hc := c.keyGroup.toNat_lt
  have hd := d.keyGroup.toNat_lt
  have hord := c.ordinal.toNat_lt
  unfold Cursor.left
  rcases h with hlt | ⟨heq, hlt⟩
  · omega
  · have hlt' := UInt32.lt_iff_toNat_lt.mp hlt
    have hord' := d.ordinal.toNat_lt
    rw [heq]
    omega

/-- **Every chain of calls ends.** -/
theorem follows_ends (hop : R.operator op = .ok o) (hsized : R.Sized o)
    (hwalked : WalkedFrom o.ctx.units 0) (cursors : Nat → Cursor) :
    ¬ ∀ i, R.Follows op (cursors i) (cursors (i + 1)) := by
  intro hchain
  obtain ⟨i, hi⟩ := WellFounded.not_rel_apply_succ (r := (· < ·)) fun i => (cursors i).left
  exact hi ((hchain i).before hop hsized hwalked).left_lt

end Calls

end FlinkExplorer
