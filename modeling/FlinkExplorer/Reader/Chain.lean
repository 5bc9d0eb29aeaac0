import FlinkExplorer.Reader.Pass

namespace FlinkExplorer

open Lib

/-!
# Chains of pages

A chain of calls follows `next` from one page to the following one.  For an operator whose ranges
of key-groups do not meet (`OpenOperator.Regular`):

* `page_passed` — one call from a cursor: it is answered, and passes a part of what the cursor
  stands for (`ahead`); what it leaves is less, and the cursor of it is accepted and lies after;
* `exists_chained` — so every chain ends, and its pages pass everything.
-/

/-! ### Regular operators -/

/-- The key-groups of an operator are `0..` this. -/
def OpenOperator.numKeyGroups (o : OpenOperator) : Int := max o.maxParallelism 1

/-- An operator whose subtasks share no key-group, have none beyond its own or beyond `u16`, and have
    one each when they cannot be read. -/
structure OpenOperator.Regular (o : OpenOperator) : Prop where
  disjoint : o.ctx.units.Pairwise fun u v => ∀ kg, ¬ (u.Has kg ∧ v.Has kg)
  reported : ∀ u ∈ o.ctx.units, u.error.isSome = true → u.first ≤ u.last
  within : ∀ u ∈ o.ctx.units, ∀ kg, u.Has kg → 0 ≤ kg ∧ kg < o.numKeyGroups ∧ kg < 65536

theorem units_sorted (ctx : OpContext) : ctx.units.Pairwise fun u v => u.first ≤ v.first := by
  have : Std.Total fun u v : ReadUnit => u.first ≤ v.first := ⟨fun u v => le_total u.first v.first⟩
  have : IsTrans ReadUnit fun u v => u.first ≤ v.first := ⟨fun _ _ _ => le_trans⟩
  exact List.pairwise_insertionSort _ _

variable {R : StateReader} {o : OpenOperator}

theorem OpenOperator.Regular.laidOut (h : o.Regular) : LaidOut o.ctx.units := by
  refine ⟨?_, h.reported⟩
  refine ((units_sorted o.ctx).and h.disjoint).imp fun ⟨hle, hdisjoint⟩ hu hv => ?_
  by_contra hmeet
  refine hdisjoint _ ⟨?_, le_rfl, hv⟩
  exact ⟨hle, by omega⟩

/-- The unit of a key-group is the one that has it. -/
theorem find_of_disjoint {units : List ReadUnit} {kg : Int}
    (hdisjoint : units.Pairwise fun u v => ∀ kg, ¬ (u.Has kg ∧ v.Has kg)) {u : ReadUnit}
    (hu : u ∈ units) (hkg : u.Has kg) :
    units.find? (fun v => v.first ≤ kg ∧ kg ≤ v.last) = some u := by
  induction units with
  | nil => cases hu
  | cons v units ih =>
    obtain ⟨hv, hdisjoint⟩ := List.pairwise_cons.mp hdisjoint
    rcases List.mem_cons.mp hu with rfl | hu
    · rw [List.find?_cons_of_pos]
      simpa [ReadUnit.Has] using hkg
    · rw [List.find?_cons_of_neg]
      · exact ih hdisjoint hu
      · intro hvkg
        exact hv u hu kg ⟨by simpa [ReadUnit.Has] using hvkg, hkg⟩

theorem OpenOperator.Regular.unitOf (h : o.Regular) {u : ReadUnit} (hu : u ∈ o.ctx.units)
    {kg : Int} (hkg : u.Has kg) : o.ctx.unitOf kg = some u := find_of_disjoint h.disjoint hu hkg

/-! ### Cursors -/

/-- The unit of a position. -/
def Position.unit : Position → Option ReadUnit
  | .block s _ _ => some (.stream s)
  | .unreadable u _ => some u
  | .ended => none

theorem positions_unit {from' : Int} {units : List ReadUnit} (hunits : LaidOut units) {p : Position}
    (hp : p ∈ positions from' units) : ∃ u ∈ units, p.unit = some u ∧ u.Has p.keyGroup := by
  obtain ⟨u, hu, hp⟩ := List.mem_flatMap.mp hp
  refine ⟨u, hu, ?_⟩
  rcases mem_positionsOf.mp hp with ⟨herror, hlast, rfl⟩ | ⟨-, s, kg, rfl, hle, hkl, -, rfl⟩
  · have := hunits.reported u hu herror
    exact ⟨rfl, le_max_left _ _, by simp only [Position.keyGroup]; omega⟩
  · exact ⟨rfl, by simp only [Position.keyGroup]; omega, hkl⟩

theorem OnLine.unit {units : List ReadUnit} (hunits : LaidOut units) {p : Position}
    {rest : List Position} (h : OnLine units (p :: rest)) :
    ∃ u ∈ units, p.unit = some u ∧ u.Has p.keyGroup := by
  cases h with
  | block h ordinal => exact positions_unit hunits (p := .block _ _ 0) (h ▸ List.mem_cons_self)
  | unreadable h => exact positions_unit hunits (h ▸ List.mem_cons_self)

theorem toNat_ofInt_keyGroup {kg : Int} (h0 : 0 ≤ kg) (h1 : kg < 65536) :
    ((UInt16.ofInt kg).toNat : Int) = kg := by
  unfold UInt16.ofInt
  rw [UInt16.toNat_ofNat', Nat.mod_eq_of_lt (by omega)]
  omega

/-- **The cursor of a position** names its key-group and its ordinal, and is accepted. -/
theorem cursorOf_spec (ho : o.Regular) {p : Position} {rest : List Position}
    (h : OnLine o.ctx.units (p :: rest)) :
    ∃ c, p.cursorOf = some c ∧ (c.keyGroup.toNat : Int) = p.keyGroup ∧ c.ordinal = p.ordinal
      ∧ o.checkCursor c = .ok () := by
  obtain ⟨u, hu, hunit, hkg⟩ := h.unit ho.laidOut
  obtain ⟨h0, h1, h2⟩ := ho.within u hu _ hkg
  have hround := toNat_ofInt_keyGroup h0 h2
  have hcheck : ∀ c : Cursor, (c.keyGroup.toNat : Int) = p.keyGroup → c.subtask = u.subtask →
      o.checkCursor c = .ok () := by
    intro c hc hsubtask
    unfold OpenOperator.checkCursor
    have hbelow : ¬ (c.keyGroup.toNat : Int) ≥ max o.maxParallelism 1 := by
      rw [hc]
      exact not_le.mpr h1
    rw [if_neg hbelow, hc, ho.unitOf hu hkg]
    simp [hsubtask]
  cases p with
  | ended => exact absurd rfl h.ne_ended
  | block s kg ordinal =>
    cases hunit
    exact ⟨_, rfl, hround, rfl, hcheck _ hround rfl⟩
  | unreadable v kg =>
    cases hunit
    exact ⟨_, rfl, hround, rfl, hcheck _ hround rfl⟩

/-! ### What is left -/

/-- Positions and keys left, at most. -/
def weight (ps : List Position) : Nat := (ps.map fun p => 2 ^ 32 - p.ordinal.toNat).sum

theorem weight_cons (p : Position) (ps : List Position) :
    weight (p :: ps) = 2 ^ 32 - p.ordinal.toNat + weight ps := rfl

theorem Left.weight_le {ps rest : List Position} (h : Left ps rest) : weight rest ≤ weight ps := by
  induction h with
  | here ps => exact le_rfl
  | nothing ps => exact Nat.zero_le _
  | inside s kg h ps =>
    rw [weight_cons, weight_cons]
    have := UInt32.le_iff_toNat_le.mp h
    simp only [Position.ordinal]
    omega
  | skip p h ih =>
    rw [weight_cons]
    omega

theorem Left.onLine {units : List ReadUnit} (hunits : LaidOut units) {ps rest : List Position}
    (h : Left ps rest) (hline : OnLine units ps) : OnLine units rest := by
  induction h with
  | here ps => exact hline
  | nothing ps => exact .nil
  | inside s kg hab ps =>
    cases hline with
    | block hps a => exact .block hps _
  | skip p h ih => exact ih (hline.tail hunits).2

/-- What is left lies after the key-group the positions start after. -/
theorem Left.keyGroup_ge {units : List ReadUnit} (hunits : LaidOut units) {from' : Int}
    {rest : List Position} (h : Left (positions from' units) rest) {p : Position}
    {more : List Position} (hrest : rest = p :: more) : from' ≤ p.keyGroup := by
  generalize hps : positions from' units = ps at h
  induction h generalizing from' with
  | here ps =>
    rw [hrest] at hps
    exact (positions_cons hunits hps).1
  | nothing ps => cases hrest
  | inside s kg hab ps =>
    cases hrest
    exact (positions_cons hunits hps).1
  | skip q h ih =>
    obtain ⟨hle, hlt, -, -, hafter, -⟩ := positions_cons hunits hps
    have := ih hrest hafter
    omega

/-! ### One call -/

/-- The order of cursors: by key-group, then by ordinal. -/
def Cursor.Before (c d : Cursor) : Prop :=
  c.keyGroup.toNat < d.keyGroup.toNat ∨ c.keyGroup = d.keyGroup ∧ c.ordinal < d.ordinal

/-- The positions a cursor stands for. -/
def OpenOperator.ahead (o : OpenOperator) (c : Cursor) : List Position :=
  startAt c.keyGroup.toNat c.ordinal (positions c.keyGroup.toNat o.ctx.units)

theorem ahead_onLine (ho : o.Regular) (c : Cursor) : OnLine o.ctx.units (o.ahead c) :=
  (onLine_positions ho.laidOut _).startAt _ _

/-- The first position a cursor stands for is at its key and ordinal, or in a later key-group. -/
theorem ahead_cons (ho : o.Regular) {c : Cursor} {p : Position} {rest : List Position}
    (h : o.ahead c = p :: rest) :
    (c.keyGroup.toNat : Int) < p.keyGroup
      ∨ p.keyGroup = c.keyGroup.toNat ∧ ∀ s kg a, p = .block s kg a → a = c.ordinal := by
  unfold OpenOperator.ahead at h
  cases hps : positions c.keyGroup.toNat o.ctx.units with
  | nil =>
    rw [hps] at h
    cases h
  | cons q qs =>
    have hle := (positions_cons ho.laidOut hps).1
    rw [hps] at h
    have hkg : p.keyGroup = q.keyGroup := by
      cases q <;> cases h <;> rfl
    rcases lt_or_eq_of_le hle with hlt | heq
    · exact .inl (hkg ▸ hlt)
    · refine .inr ⟨hkg.trans heq.symm, fun s kg a hp => ?_⟩
      subst hp
      cases q with
      | block s' kg' a' =>
        cases h
        exact if_pos heq.symm
      | unreadable u from' => cases h
      | ended => cases h

theorem ahead_mem {c : Cursor} {p : Position} (h : p ∈ o.ahead c) :
    ∃ q ∈ positions c.keyGroup.toNat o.ctx.units, p.unit = q.unit ∧ p.keyGroup = q.keyGroup := by
  unfold OpenOperator.ahead at h
  cases hps : positions c.keyGroup.toNat o.ctx.units with
  | nil =>
    rw [hps] at h
    cases h
  | cons q qs =>
    rw [hps] at h
    cases q with
    | block s kg a =>
      rcases List.mem_cons.mp h with rfl | h
      · exact ⟨_, List.mem_cons_self, rfl, rfl⟩
      · exact ⟨p, List.mem_cons_of_mem _ h, rfl, rfl⟩
    | unreadable u from' => exact ⟨p, h, rfl, rfl⟩
    | ended => exact ⟨p, h, rfl, rfl⟩

theorem ahead_sized (ho : o.Regular) (hsized : R.Sized o) (c : Cursor) :
    ∀ p ∈ o.ahead c, R.SizedAt o p := by
  intro p hp s kg a header block hblock hcontent
  obtain ⟨q, hq, hunit, hkg⟩ := ahead_mem hp
  obtain ⟨u, hu, hqunit, hhas⟩ := positions_unit ho.laidOut hq
  rw [hblock, hqunit] at hunit
  rw [hblock] at hkg
  rw [← hkg] at hhas
  cases hunit
  rcases o.ctx.mem_units.mp hu with ⟨s', hs', heq⟩ | ⟨f, hf, heq⟩
  · cases heq
    exact hsized s hs' kg hhas header block hcontent
  · cases heq

/-- A cursor stands for the positions it was written at. -/
theorem ahead_cursorOf {c : Cursor} {p : Position} {rest : List Position}
    (h : OnLine o.ctx.units (p :: rest)) (hkg : (c.keyGroup.toNat : Int) = p.keyGroup)
    (hordinal : c.ordinal = p.ordinal) : o.ahead c = p :: rest := by
  unfold OpenOperator.ahead
  rw [hkg, hordinal]
  exact h.seek

/-- What a page shows, statistics aside. -/
theorem Walk.Passed.congr {α : Type} {w : Walk α} {ps rest : List Position} {before page page' : Page α}
    {taken : List Event} (h : w.Passed R o ps before taken page rest)
    (hpage : page'.visited = page) : w.Passed R o ps before taken page' rest := by
  have hfound : page'.visited.found = page.found := congrArg Page.found hpage
  have hnext : page'.visited.next = page.next := congrArg Page.next hpage
  have hmalformed : page'.visited.malformed = page.malformed := congrArg Page.malformed hpage
  have hunreadable : page'.visited.unreadable = page.unreadable := congrArg Page.unreadable hpage
  exact {
    events := h.events
    found := hfound.trans h.found
    unreadable := hunreadable.trans h.unreadable
    next := hnext.trans h.next
    left := h.left
    kept := List.Subset.trans h.kept (hmalformed ▸ List.Subset.refl _)
    noted := fun s header kg ord raw hmem d hd => hmalformed ▸ h.noted s header kg ord raw hmem d hd
    visited := fun s kg ord hmem d hd => (h.visited s kg ord hmem d hd).imp_left (hmalformed ▸ ·) }

/-- **What a call leaves is less than what was in front of it**, and its first position lies
    after the cursor. -/
theorem left_after (ho : o.Regular) {c : Cursor} {pos : Position} {ps rest : List Position}
    (hahead : o.ahead c = pos :: ps)
    (hleft : Left ps rest ∨ ∃ s kg a b, pos = .block s kg a ∧ a < b ∧ rest = .block s kg b :: ps) :
    weight rest < weight (pos :: ps) ∧ ∀ p more, rest = p :: more →
      (c.keyGroup.toNat : Int) < p.keyGroup
        ∨ p.keyGroup = c.keyGroup.toNat ∧ c.ordinal < p.ordinal := by
  have hhead := ahead_cons ho hahead
  have hline := ahead_onLine ho c
  rw [hahead] at hline
  rcases hleft with hleft | ⟨s, kg, a, b, rfl, hab, rfl⟩
  · constructor
    · have hle := hleft.weight_le
      have hlt := pos.ordinal.toNat_lt
      rw [weight_cons]
      omega
    · intro p more hrest
      obtain ⟨hafter, -⟩ := hline.tail ho.laidOut
      have hge : pos.after ≤ p.keyGroup :=
        Left.keyGroup_ge ho.laidOut (hafter.symm ▸ hleft) hrest
      have hlt : pos.keyGroup < pos.after := by
        cases hline with
        | block h o => exact (positions_cons ho.laidOut h).2.1
        | unreadable h => exact (positions_cons ho.laidOut h).2.1
      left
      rcases hhead with hhead | ⟨hhead, -⟩ <;> omega
  · have hlt := UInt32.lt_iff_toNat_lt.mp hab
    have hb := b.toNat_lt
    constructor
    · rw [weight_cons, weight_cons]
      simp only [Position.ordinal]
      omega
    · intro p more hrest
      cases hrest
      rcases hhead with hhead | ⟨hkg, hordinal⟩
      · exact .inl hhead
      · refine .inr ⟨hkg, ?_⟩
        rw [← hordinal s kg a rfl]
        exact hab

section Calls

variable {α : Type} {op : Text}

/-- **One call from an accepted cursor.** -/
theorem page_passed (hop : R.operator op = .ok o) (ho : o.Regular) (hsized : R.Sized o)
    {cache : BlockCache} (hcache : R.Sound cache) {c : Cursor} (hcheck : o.checkCursor c = .ok ())
    (w : Walk α) (keep : Bool) (found : α) (hfull : ¬ w.full found = true) :
    ∃ page taken rest, (R.page op c w keep c.ordinal found cache).1 = .ok page
      ∧ w.Passed R o (o.ahead c) ⟨found, none, .zero, [], []⟩ taken page rest
      ∧ OnLine o.ctx.units rest
      ∧ ∀ p more, rest = p :: more → weight rest < weight (o.ahead c)
        ∧ ((c.keyGroup.toNat : Int) < p.keyGroup
          ∨ p.keyGroup = c.keyGroup.toNat ∧ c.ordinal < p.ordinal) := by
  obtain ⟨hpage, -⟩ := StateReader.run_grouped hop w keep c.keyGroup.toNat c.ordinal found hcache
  have hline := ahead_onLine ho c
  have hturns : (o.ahead c).length < (Walk.endKeyGroup o.ctx.units - c.keyGroup.toNat).toNat + 1 := by
    have hlength := length_positions_le ho.laidOut c.keyGroup.toNat
    have hstart : (o.ahead c).length = (positions c.keyGroup.toNat o.ctx.units).length := by
      unfold OpenOperator.ahead
      cases positions c.keyGroup.toNat o.ctx.units with
      | nil => rfl
      | cons p rest => cases p <;> rfl
    omega
  -- the loop over units is the pass over what is ahead of the cursor
  have hrun : (w.run (R.readBlock o) o.ctx c.keyGroup.toNat c.ordinal found ()).1
      = (w.pass (R.readBlock o) (o.ahead c) 0 ⟨found, none, .zero, [], []⟩).1 := by
    unfold Walk.run OpContext.seek
    rw [seekUnits_eq]
    exact w.loop_eq_pass ho.laidOut (R.readBlock o) hline _ hturns 0 _
  obtain ⟨taken, hpassed⟩ := Walk.pass_passed (w := w) (o.ahead c)
    (ahead_sized ho hsized c) 0
    ⟨found, none, .zero, [], []⟩ rfl
  refine ⟨_, taken, _, ?_, hpassed.congr (hpage.trans hrun),
    hpassed.left.onLine ho.laidOut hline, ?_⟩
  · unfold StateReader.page
    simp only [hop, hcheck]
  · intro p more hrest
    cases hahead : o.ahead c with
    | nil =>
      rw [hahead] at hrest
      cases hrest
    | cons pos ps =>
      rw [hahead] at hrest
      -- a position past the range would have ended the pass
      have hpast : ¬ w.past pos.keyGroup = true := by
        intro hpast
        unfold Walk.pass at hrest
        rw [if_pos hpast] at hrest
        cases hrest
      have hleft := Walk.pass_shrinks (w := w) (hahead ▸ ahead_sized ho hsized c)
        (rfl : (Page.mk found none .zero [] []).next = none) hpast hfull
      obtain ⟨hweight, hafter⟩ := left_after ho hahead hleft
      exact ⟨hweight, hafter p more hrest⟩

/-! ### Chains -/

/-- Calls that follow `next`: the `i`-th is asked for at a cursor, with what the one before it
    found. -/
inductive Chain (call : Nat → Cursor → α → Except ReaderError (Page α)) :
    Nat → Cursor → α → List (Cursor × Page α) → Prop
  | last {i : Nat} {c : Cursor} {found : α} {page : Page α} (hcall : call i c found = .ok page)
    (hnext : page.next = none) : Chain call i c found [(c, page)]
  | more {i : Nat} {c c' : Cursor} {found : α} {page : Page α} {calls : List (Cursor × Page α)}
    (hcall : call i c found = .ok page) (hnext : page.next = some c')
    (hrest : Chain call (i + 1) c' page.found calls) : Chain call i c found ((c, page) :: calls)

/-- There is one chain from a cursor. -/
theorem Chain.unique {call : Nat → Cursor → α → Except ReaderError (Page α)} {i : Nat} {c : Cursor}
    {found : α} {calls calls' : List (Cursor × Page α)} (h : Chain call i c found calls)
    (h' : Chain call i c found calls') : calls = calls' := by
  induction h generalizing calls' with
  | last hcall hnext =>
    cases h' with
    | last hcall' hnext' =>
      cases hcall.symm.trans hcall'
      rfl
    | more hcall' hnext' hrest' =>
      cases hcall.symm.trans hcall'
      cases hnext.symm.trans hnext'
  | more hcall hnext hrest ih =>
    cases h' with
    | last hcall' hnext' =>
      cases hcall.symm.trans hcall'
      cases hnext.symm.trans hnext'
    | more hcall' hnext' hrest' =>
      cases hcall.symm.trans hcall'
      cases hnext.symm.trans hnext'
      rw [ih hrest']

/-- Walks with one range that do one thing with a key. -/
def Walk.Alike (w w' : Walk α) : Prop := w.lastKeyGroup = w'.lastKeyGroup ∧ w.step = w'.step

theorem Walk.Passed.alike {w w' : Walk α} (h : w.Alike w') {ps rest : List Position}
    {before after : Page α} {taken : List Event} (hpassed : w.Passed R o ps before taken after rest) :
    w'.Passed R o ps before taken after rest := by
  obtain ⟨hlast, hstep⟩ := h
  have hpast : w.past = w'.past := by
    unfold Walk.past
    rw [hlast]
  have hrange : w.inRange = w'.inRange := by
    unfold Walk.inRange
    rw [hpast]
  have hgather : w.gather = w'.gather := by
    ext found e
    cases e with
    | key s header kg ord raw =>
      unfold Walk.gather
      rw [hstep]
    | report why => rfl
  exact {
    events := hrange ▸ hpassed.events
    found := hgather ▸ hpassed.found
    unreadable := hpassed.unreadable
    next := hpassed.next
    left := hpassed.left
    kept := hpassed.kept
    noted := hpassed.noted
    visited := hrange ▸ hpassed.visited }

variable (R o) in
/-- A chain with the events its calls pass; `enter` is what a call starts with. -/
inductive Chained (w : Walk α) (enter : α → α) :
    Cursor → α → List (Cursor × Page α) → List Event → Prop
  | last {c : Cursor} {found : α} {page : Page α} {taken : List Event}
    (hpassed : w.Passed R o (o.ahead c) ⟨enter found, none, .zero, [], []⟩ taken page []) :
    Chained w enter c found [(c, page)] taken
  | more {c c' : Cursor} {found : α} {page : Page α} {taken events : List Event}
    {calls : List (Cursor × Page α)}
    (hpassed : w.Passed R o (o.ahead c) ⟨enter found, none, .zero, [], []⟩ taken page (o.ahead c'))
    (hnext : page.next = some c') (hbefore : c.Before c') (hcheck : o.checkCursor c' = .ok ())
    (hrest : Chained w enter c' page.found calls events) :
    Chained w enter c found ((c, page) :: calls) (taken ++ events)

/-- **Every chain ends**, and each of its calls passes a part of what is in front of it. -/
theorem exists_chained (hop : R.operator op = .ok o) (ho : o.Regular) (hsized : R.Sized o)
    {w : Walk α} {enter : α → α} {call : Nat → Cursor → α → Except ReaderError (Page α)}
    (hcall : ∀ i c found, ∃ w' keep cache, Walk.Alike w' w ∧ R.Sound cache
      ∧ ¬ w'.full (enter found) = true
      ∧ call i c found = (R.page op c w' keep c.ordinal (enter found) cache).1)
    (i : Nat) (c : Cursor) (hcheck : o.checkCursor c = .ok ()) (found : α) :
    ∃ calls events, Chain call i c found calls ∧ Chained R o w enter c found calls events := by
  generalize hweight : weight (o.ahead c) = n
  induction n using Nat.strong_induction_on generalizing i c found with
  | _ n ih =>
    obtain ⟨w', keep, cache, halike, hcache, hfull, hpage⟩ := hcall i c found
    obtain ⟨page, taken, rest, hok, hpassed, hline, hafter⟩ :=
      page_passed hop ho hsized hcache hcheck w' keep (enter found) hfull
    rw [← hpage] at hok
    have hpassed := hpassed.alike halike
    cases rest with
    | nil => exact ⟨_, _, .last hok hpassed.next, .last hpassed⟩
    | cons p more =>
      obtain ⟨hless, hlater⟩ := hafter p more rfl
      obtain ⟨c', hc', hkg, hordinal, hcheck'⟩ := cursorOf_spec ho hline
      have hahead : o.ahead c' = p :: more := ahead_cursorOf hline hkg hordinal
      have hnext : page.next = some c' := hpassed.next.trans hc'
      have hbefore : c.Before c' := by
        rcases hlater with hlt | ⟨heq, hlt⟩
        · exact .inl (by omega)
        · refine .inr ⟨UInt16.toNat_inj.mp (by omega), ?_⟩
          rw [hordinal]
          exact hlt
      obtain ⟨calls, events, hchain, hchained⟩ :=
        ih (weight (o.ahead c')) (by rw [hahead]; omega) (i + 1) c' hcheck' page.found rfl
      exact ⟨_, _, .more hok hnext hchain, .more (hahead ▸ hpassed) hnext hbefore hcheck' hchained⟩

/-! ### What a chain gives -/

section Chained

variable {w : Walk α} {enter : α → α} {c : Cursor} {found : α} {calls : List (Cursor × Page α)}
  {events : List Event}

theorem Chained.events_eq (h : Chained R o w enter c found calls events) :
    events = R.eventsOf o (w.inRange (o.ahead c)) := by
  induction h with
  | last hpassed => simpa [StateReader.eventsOf, Walk.inRange] using hpassed.events.symm
  | more hpassed hnext hbefore hcheck hrest ih => rw [hpassed.events, ih]

theorem Chained.unreadable (h : Chained R o w enter c found calls events) :
    calls.flatMap (·.2.unreadable) = events.filterMap Event.reported := by
  induction h with
  | last hpassed => simpa using hpassed.unreadable
  | more hpassed hnext hbefore hcheck hrest ih =>
    rw [List.flatMap_cons, ih, hpassed.unreadable, List.nil_append, List.filterMap_append]

/-- Every `next` lies after the cursor its page was asked for, and is accepted. -/
theorem Chained.next (h : Chained R o w enter c found calls events) :
    ∀ call ∈ calls, ∀ c' ∈ call.2.next, call.1.Before c' ∧ o.checkCursor c' = .ok () := by
  induction h with
  | last hpassed =>
    intro call hcall c' hc'
    rw [List.mem_singleton.mp hcall, hpassed.next] at hc'
    cases hc'
  | more hpassed hnext hbefore hcheck hrest ih =>
    intro call hcall c' hc'
    rcases List.mem_cons.mp hcall with rfl | hcall
    · rw [hnext] at hc'
      cases hc'
      exact ⟨hbefore, hcheck⟩
    · exact ih call hcall c' hc'

/-- **The pages together**: `join` puts what a page found behind what was found before it. -/
theorem Chained.found_eq (h : Chained R o w enter c found calls events) (join : α → α → α)
    (hempty : ∀ a, join a (enter a) = a)
    (hgather : ∀ a b e, w.gather (join a b) e = join a (w.gather b e))
    (henter : ∀ a b, enter (join a b) = enter b) (before : α) (hbefore : enter before = enter found) :
    calls.foldl (fun a call => join a call.2.found) before = events.foldl w.gather before := by
  have hjoin (a b : α) (taken : List Event) :
      taken.foldl w.gather (join a b) = join a (taken.foldl w.gather b) := by
    induction taken generalizing b with
    | nil => rfl
    | cons e taken ih => rw [List.foldl_cons, List.foldl_cons, hgather, ih]
  have hstart (a : α) (taken : List Event) :
      taken.foldl w.gather a = join a (taken.foldl w.gather (enter a)) := by
    rw [← hjoin, hempty]
  induction h generalizing before with
  | last hpassed =>
    rw [List.foldl_cons, List.foldl_nil, hpassed.found, ← hbefore]
    exact (hstart before _).symm
  | more hpassed hnext hb hcheck hrest ih =>
    rw [List.foldl_cons, List.foldl_append, ih _ (henter _ _), hstart before, hpassed.found,
      ← hbefore]

/-- A page gathers from events of the chain, and notes the defects of their blocks. -/
theorem Chained.noted (h : Chained R o w enter c found calls events) :
    ∀ call ∈ calls, ∃ taken found', taken ⊆ events
      ∧ call.2.found = taken.foldl w.gather (enter found')
      ∧ ∀ s header kg ord raw, Event.key s header kg ord raw ∈ taken →
        ∀ d ∈ R.defectOf o s kg, d ∈ call.2.malformed := by
  induction h with
  | last hpassed =>
    intro call hcall
    rw [List.mem_singleton.mp hcall]
    exact ⟨_, _, List.Subset.refl _, hpassed.found, hpassed.noted⟩
  | more hpassed hnext hbefore hcheck hrest ih =>
    intro call hcall
    rcases List.mem_cons.mp hcall with rfl | hcall
    · exact ⟨_, _, List.subset_append_left _ _, hpassed.found, hpassed.noted⟩
    · obtain ⟨taken, found', hsub, hfound, hnoted⟩ := ih call hcall
      exact ⟨taken, found', List.subset_append_of_subset_right _ hsub, hfound, hnoted⟩

/-- The defect of every block of the chain is noted by a page. -/
theorem Chained.visited (h : Chained R o w enter c found calls events) {s : SubtaskStream} {kg : Int}
    {ord : UInt32} (hblock : Position.block s kg ord ∈ w.inRange (o.ahead c)) :
    ∀ d ∈ R.defectOf o s kg, ∃ call ∈ calls, d ∈ call.2.malformed := by
  intro d hd
  induction h generalizing ord with
  | last hpassed =>
    rcases hpassed.visited s kg ord hblock d hd with hd | ⟨ord', hrest⟩
    · exact ⟨_, List.mem_singleton_self _, hd⟩
    · cases hrest
  | more hpassed hnext hbefore hcheck hrest ih =>
    rcases hpassed.visited s kg ord hblock d hd with hd | ⟨ord', hrest⟩
    · exact ⟨_, List.mem_cons_self, hd⟩
    · obtain ⟨call, hcall, hd⟩ := ih hrest
      exact ⟨call, List.mem_cons_of_mem _ hcall, hd⟩

end Chained

end Calls

end FlinkExplorer
