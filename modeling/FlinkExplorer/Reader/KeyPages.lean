import FlinkExplorer.Reader.Chain

namespace FlinkExplorer

open Lib

/-!
# A chain of `key_page` calls

What the pages of a chain hold together, said without cursors: the keys of every readable block
(`keysWhere`) and a report for every unit and every block that cannot be read (`reports`).

* `keysWhere_eq` — these are the events of the positions of a walk;
* `keyPage_chain_complete` — a chain of `key_page` calls, whatever the limits and whatever is cached,
  ends and holds exactly them.
-/

section Spec

variable (R : StateReader) (o : OpenOperator)

/-- The keys of the block of a key-group, in on-disk order. -/
def StateReader.keysOf (s : SubtaskStream) (kg : Int) : List KeyRecord :=
  match R.contentOf o s kg with
  | .ok (some (header, block)) => block.keys.mapIdx fun ord raw => R.record s header kg ord raw
  | _ => []

/-- The report of the block of a key-group, if it cannot be read. -/
def StateReader.reportOf (s : SubtaskStream) (kg : Int) : Option Unreadable :=
  match R.contentOf o s kg with
  | .error e => some (unreadableBlock s kg e)
  | .ok _ => none

/-- The keys of every readable block in the key-groups `wanted`, by ascending first key-group of
    the subtasks. -/
def StateReader.keysWhere (wanted : Int → Bool) : List KeyRecord :=
  o.ctx.units.flatMap fun
    | .stream s =>
      ((keyGroups s.startKeyGroup (ReadUnit.stream s).last).filter wanted).flatMap (R.keysOf o s)
    | .failed _ => []

/-- A report of a unit if it cannot be read, and else of each of its blocks that cannot. -/
def StateReader.reportsOf (u : ReadUnit) : List Unreadable :=
  if u.error.isSome then [u.unreadable u.first]
  else
    match u with
    | .stream s => (keyGroups s.startKeyGroup (ReadUnit.stream s).last).filterMap (R.reportOf o s)
    | .failed _ => []

/-- The reports of all units. -/
def StateReader.reports : List Unreadable := o.ctx.units.flatMap (R.reportsOf o)

/-- The record of a key. -/
def StateReader.recordOf : Event → Option KeyRecord
  | .key s header kg ord raw => some (R.record s header kg ord raw)
  | .report _ => none

/-- The keys of a position. -/
def StateReader.keysAt (p : Position) : List KeyRecord := (R.eventsAt o p).filterMap R.recordOf

end Spec

variable {R : StateReader} {o : OpenOperator}

/-! ### The positions of a walk, in order -/

theorem filter_keyGroups_ge {a b : Int} (from' : Int) (hfrom : a ≤ from') :
    (keyGroups a b).filter (fun kg => decide (from' ≤ kg)) = keyGroups from' b := by
  induction hn : (from' - a).toNat generalizing a with
  | zero =>
    obtain rfl : a = from' := by omega
    rw [List.filter_eq_self]
    intro kg hkg
    exact decide_eq_true (mem_keyGroups.mp hkg).1
  | succ n ih =>
    by_cases hab : a ≤ b
    · have hskip : ¬ from' ≤ a := by omega
      rw [keyGroups_cons hab, List.filter_cons_of_neg (by simpa using hskip)]
      exact ih (by omega) (by omega)
    · rw [keyGroups_nil (by omega), keyGroups_nil (by omega)]
      rfl

theorem positions_sorted {units : List ReadUnit} (h : LaidOut units) (from' : Int) :
    (positions from' units).Pairwise fun p q => p.keyGroup < q.keyGroup := by
  induction hps : positions from' units generalizing from' with
  | nil => exact .nil
  | cons p rest ih =>
    obtain ⟨-, hlt, -, -, hafter, -⟩ := positions_cons h hps
    refine List.pairwise_cons.mpr ⟨fun q hq => ?_, ih p.after hafter⟩
    rw [← hafter] at hq
    obtain ⟨u, hu, hq⟩ := List.mem_flatMap.mp hq
    rcases mem_positionsOf.mp hq with ⟨-, -, rfl⟩ | ⟨-, s, kg, rfl, hle, -, -, rfl⟩
    · exact lt_of_lt_of_le hlt (le_max_right _ _)
    · exact lt_of_lt_of_le hlt ((le_max_right _ _).trans hle)

/-- In order, the positions in range are those up to the end of the range. -/
theorem inRange_eq_filter {α : Type} (w : Walk α) {ps : List Position}
    (h : ps.Pairwise fun p q => p.keyGroup < q.keyGroup) :
    w.inRange ps = ps.filter fun p => !w.past p.keyGroup := by
  induction ps with
  | nil => rfl
  | cons p ps ih =>
    obtain ⟨hp, hps⟩ := List.pairwise_cons.mp h
    by_cases hpast : w.past p.keyGroup = true
    · have hlater : ∀ q ∈ ps, w.past q.keyGroup = true := by
        intro q hq
        have hlt := hp q hq
        unfold Walk.past at hpast ⊢
        cases hl : w.lastKeyGroup with
        | none =>
          rw [hl] at hpast
          cases hpast
        | some l =>
          rw [hl] at hpast
          simp only [Option.any_some, decide_eq_true_eq] at hpast ⊢
          omega
      rw [Walk.inRange_cons_past hpast, List.filter_cons_of_neg (by simp [hpast]), eq_comm,
        List.filter_eq_nil_iff]
      intro q hq
      simp [hlater q hq]
    · rw [Walk.inRange_cons hpast, List.filter_cons_of_pos (by simp [hpast]), ih hps]

/-! ### Keys and reports of positions -/

theorem keysOf_eq_nil_of_error {s : SubtaskStream} (h : (ReadUnit.stream s).error.isSome = true)
    (kg : Int) : R.keysOf o s kg = [] := by
  unfold StateReader.keysOf StateReader.contentOf StateReader.readBlock
  cases s.blockRange (kg - s.startKeyGroup).toNat with
  | none => rfl
  | some r =>
    cases hheader : s.header with
    | error e => rfl
    | ok header =>
      unfold ReadUnit.error at h
      simp [hheader] at h

theorem contentOf_of_not_holds {s : SubtaskStream} {kg : Int} (h : ¬ s.holds kg = true) :
    R.contentOf o s kg = .ok none := by
  unfold SubtaskStream.holds at h
  unfold StateReader.contentOf StateReader.readBlock
  cases hrange : s.blockRange (kg - s.startKeyGroup).toNat with
  | none => rfl
  | some r => simp [hrange] at h

theorem filterMap_keyEvents (s : SubtaskStream) (header : SubtaskHeader) (kg : Int) (ord : Nat)
    (raws : List RawKey) : (keyEvents s header kg ord raws).filterMap R.recordOf
      = raws.mapIdx fun i raw => R.record s header kg (ord + i) raw := by
  induction raws generalizing ord with
  | nil => rfl
  | cons raw raws ih =>
    have hraw : R.recordOf (.key s header kg ord raw) = some (R.record s header kg ord raw) := rfl
    rw [keyEvents, List.filterMap_cons_some hraw, ih, List.mapIdx_cons]
    congr 1
    congr 1
    funext i raw
    rw [Nat.add_assoc, Nat.add_comm 1 i]

theorem keysAt_block (s : SubtaskStream) (kg : Int) :
    R.keysAt o (.block s kg 0) = R.keysOf o s kg := by
  unfold StateReader.keysAt StateReader.eventsAt StateReader.keysOf
  dsimp only
  rcases R.contentOf o s kg with e | _ | ⟨header, block⟩
  · rfl
  · rfl
  · dsimp only
    rw [filterMap_keyEvents]
    simp

theorem flatMap_filter_congr {α β : Type} {f : α → List β} {p q : α → Bool} {l : List α}
    (h : ∀ a, p a ≠ q a → f a = []) : (l.filter p).flatMap f = (l.filter q).flatMap f := by
  induction l with
  | nil => rfl
  | cons a l ih =>
    by_cases hpq : p a = q a
    · rw [List.filter_cons, List.filter_cons, hpq]
      by_cases hq : q a = true
      · rw [if_pos hq, if_pos hq, List.flatMap_cons, List.flatMap_cons, ih]
      · rw [if_neg hq, if_neg hq, ih]
    · have hskip (r : α → Bool) : ((a :: l).filter r).flatMap f = (l.filter r).flatMap f := by
        rw [List.filter_cons]
        by_cases hr : r a = true
        · rw [if_pos hr, List.flatMap_cons, h a hpq, List.nil_append]
        · rw [if_neg hr]
      rw [hskip, hskip, ih]

/-- The keys of the positions of a unit. -/
theorem flatMap_positionsOf (from' : Int) (wanted : Int → Bool) (u : ReadUnit) :
    ((positionsOf from' u).filter fun p => wanted p.keyGroup).flatMap (R.keysAt o)
      = match u with
        | .stream s =>
          ((keyGroups s.startKeyGroup (ReadUnit.stream s).last).filter fun kg =>
            decide (from' ≤ kg) && wanted kg).flatMap (R.keysOf o s)
        | .failed _ => [] := by
  cases u with
  | failed f =>
    unfold positionsOf
    by_cases hlast : (ReadUnit.failed f).last < from'
    · rw [if_pos hlast]
      rfl
    · rw [if_neg hlast, if_pos (error_failed f)]
      rw [List.flatMap_eq_nil_iff]
      intro p hp
      rw [List.mem_singleton.mp (List.mem_of_mem_filter hp)]
      rfl
  | stream s =>
    dsimp only
    by_cases herror : (ReadUnit.stream s).error.isSome = true
    · rw [List.flatMap_eq_nil_iff.mpr fun kg _ => keysOf_eq_nil_of_error herror kg,
        List.flatMap_eq_nil_iff]
      intro p hp
      rcases mem_positionsOf.mp (List.mem_of_mem_filter hp) with ⟨-, -, rfl⟩ | ⟨hno, -⟩
      · rfl
      · exact absurd herror hno
    · rw [positionsOf_stream from' herror, List.filter_map, List.flatMap_map]
      have hfirst : keyGroups (max (ReadUnit.stream s).first from') (ReadUnit.stream s).last
          = (keyGroups s.startKeyGroup (ReadUnit.stream s).last).filter
              fun kg => decide (from' ≤ kg) := by
        rcases le_total from' s.startKeyGroup with hle | hle
        · have hmax : max (ReadUnit.stream s).first from' = s.startKeyGroup := max_eq_left hle
          rw [hmax, eq_comm, List.filter_eq_self]
          intro kg hkg
          exact decide_eq_true (hle.trans (mem_keyGroups.mp hkg).1)
        · have hmax : max (ReadUnit.stream s).first from' = from' := max_eq_right hle
          rw [hmax, filter_keyGroups_ge from' hle]
      rw [hfirst, List.filter_filter, List.filter_filter,
        List.flatMap_congr fun kg _ => keysAt_block s kg]
      refine flatMap_filter_congr fun kg hkg => ?_
      -- A key-group that holds no block has no keys.
      have hholds : ¬ s.holds kg = true := by
        intro hholds
        simp [hholds, Position.keyGroup, Bool.and_comm] at hkg
      unfold StateReader.keysOf
      rw [contentOf_of_not_holds hholds]

/-- **The keys a walk meets** are those of the readable blocks in its range. -/
theorem keysWhere_eq {α : Type} (w : Walk α) (ho : o.Regular) (from' : Int) :
    (R.eventsOf o (w.inRange (positions from' o.ctx.units))).filterMap R.recordOf
      = R.keysWhere o fun kg => decide (from' ≤ kg) && !w.past kg := by
  rw [inRange_eq_filter w (positions_sorted ho.laidOut from')]
  unfold StateReader.eventsOf StateReader.keysWhere positions
  rw [List.filterMap_flatMap, List.filter_flatMap, List.flatMap_assoc]
  exact List.flatMap_congr fun u _ => flatMap_positionsOf from' (fun kg => !w.past kg) u

/-- The reports of the positions of a unit. -/
theorem reported_positionsOf {u : ReadUnit} (hfirst : u.first ≤ u.last → 0 ≤ u.first)
    (hreported : u.error.isSome = true → u.first ≤ u.last) :
    (positionsOf 0 u).flatMap (fun p => (R.eventsAt o p).filterMap Event.reported)
      = R.reportsOf o u := by
  unfold StateReader.reportsOf
  by_cases herror : u.error.isSome = true
  · have hle := hreported herror
    have hpos := hfirst hle
    rw [if_pos herror, positionsOf_error (by omega) herror, max_eq_left hpos]
    rfl
  · rw [if_neg herror]
    cases u with
    | failed f => exact absurd (error_failed f) herror
    | stream s =>
      dsimp only
      have hgroups : keyGroups (max (ReadUnit.stream s).first 0) (ReadUnit.stream s).last
          = keyGroups s.startKeyGroup (ReadUnit.stream s).last := by
        by_cases hempty : (ReadUnit.stream s).first ≤ (ReadUnit.stream s).last
        · rw [max_eq_left (hfirst hempty)]
          rfl
        · have hlast : (ReadUnit.stream s).last < s.startKeyGroup := not_le.mp hempty
          rw [keyGroups_nil hlast]
          exact keyGroups_nil (lt_of_lt_of_le hlast (le_max_left _ _))
      have hblock (kg : Int) : (R.eventsAt o (.block s kg 0)).filterMap Event.reported
          = (R.reportOf o s kg).toList := by
        unfold StateReader.eventsAt StateReader.reportOf
        dsimp only
        rcases R.contentOf o s kg with e | _ | ⟨header, block⟩
        · rfl
        · rfl
        · exact Walk.reported_keyEvents s header kg _ _
      rw [positionsOf_stream 0 herror, List.flatMap_map, hgroups,
        List.flatMap_congr fun kg _ => hblock kg, List.filterMap_eq_flatMap_toList]
      refine (flatMap_filter_congr (q := fun _ => true) fun kg hkg => ?_).trans ?_
      · have hholds : ¬ s.holds kg = true := hkg
        unfold StateReader.reportOf
        rw [contentOf_of_not_holds hholds]
        rfl
      · rw [List.filter_eq_self.mpr fun _ _ => rfl]

/-- **What a whole walk reports** is each unit and each block that cannot be read. -/
theorem reports_eq (ho : o.Regular) :
    (R.eventsOf o (positions 0 o.ctx.units)).filterMap Event.reported = R.reports o := by
  unfold StateReader.eventsOf StateReader.reports positions
  rw [List.filterMap_flatMap, List.flatMap_assoc]
  refine List.flatMap_congr fun u hu => reported_positionsOf (fun hle => ?_) (ho.reported u hu)
  exact (ho.within u hu u.first ⟨le_rfl, hle⟩).1

/-! ### The order of keys -/

theorem mem_keysOf {s : SubtaskStream} {kg : Int} {r : KeyRecord} (h : r ∈ R.keysOf o s kg) :
    ∃ header block ord raw, R.contentOf o s kg = .ok (some (header, block))
      ∧ block.keys[ord]? = some raw ∧ r = R.record s header kg ord raw := by
  unfold StateReader.keysOf at h
  rcases hcontent : R.contentOf o s kg with e | _ | ⟨header, block⟩
  · simp [hcontent] at h
  · simp [hcontent] at h
  · simp only [hcontent] at h
    obtain ⟨ord, hord, rfl⟩ := List.mem_mapIdx.mp h
    exact ⟨header, block, ord, _, rfl, List.getElem?_eq_getElem hord, rfl⟩

theorem position_record (s : SubtaskStream) (header : SubtaskHeader) (kg : Int) (ord : Nat)
    (raw : RawKey) : (R.record s header kg ord raw).position
      = ⟨s.subtaskIndex, UInt16.ofInt kg, UInt32.ofNat ord⟩ := rfl

theorem keysOf_sorted {s : SubtaskStream} {kg : Int} (hsized : ∀ header block,
    R.contentOf o s kg = .ok (some (header, block)) → block.keys.length ≤ 2 ^ 32) :
    (R.keysOf o s kg).Pairwise fun a b => a.position.Before b.position := by
  unfold StateReader.keysOf
  rcases hcontent : R.contentOf o s kg with e | _ | ⟨header, block⟩
  · exact .nil
  · exact .nil
  · have hsize := hsized header block hcontent
    refine List.pairwise_iff_getElem.mpr fun i j hi hj hij => ?_
    rw [List.length_mapIdx] at hi hj
    rw [List.getElem_mapIdx, List.getElem_mapIdx, position_record, position_record]
    refine .inr ⟨rfl, ?_⟩
    rw [UInt32.lt_iff_toNat_lt, UInt32.toNat_ofNat', UInt32.toNat_ofNat',
      Nat.mod_eq_of_lt (by omega), Nat.mod_eq_of_lt (by omega)]
    exact hij

theorem keyGroups_sorted (a b : Int) : (keyGroups a b).Pairwise (· < ·) := by
  unfold keyGroups
  refine List.pairwise_map.mpr (List.pairwise_lt_range.imp fun h => ?_)
  omega

/-- **In order**: the keys come by ascending key-group, then in on-disk order; no key comes twice. -/
theorem keysWhere_sorted (ho : o.Regular) (hsized : R.Sized o) (wanted : Int → Bool) :
    (R.keysWhere o wanted).Pairwise fun a b => a.position.Before b.position := by
  have hlaid := ho.laidOut
  have hkeyGroup {u : ReadUnit} (hu : u ∈ o.ctx.units) {kg : Int} (hkg : u.Has kg) {s : SubtaskStream}
      {r : KeyRecord} (hr : r ∈ R.keysOf o s kg) : (r.position.keyGroup.toNat : Int) = kg := by
    obtain ⟨header, block, ord, raw, -, -, rfl⟩ := mem_keysOf hr
    obtain ⟨h0, -, h1⟩ := ho.within u hu kg hkg
    exact toNat_ofInt_keyGroup h0 h1
  refine List.pairwise_flatMap.mpr ⟨fun u hu => ?_, ?_⟩
  · cases u with
    | failed f => exact .nil
    | stream s =>
      have hhas {kg : Int} (hkg : kg ∈ (keyGroups s.startKeyGroup (ReadUnit.stream s).last).filter
          wanted) : (ReadUnit.stream s).Has kg := mem_keyGroups.mp (List.mem_of_mem_filter hkg)
      refine List.pairwise_flatMap.mpr ⟨fun kg hkg => ?_, ?_⟩
      · obtain ⟨s', hs', heq⟩ | ⟨f, hf, heq⟩ := o.ctx.mem_units.mp hu
        · cases heq
          exact keysOf_sorted (hsized s hs' kg (hhas hkg))
        · cases heq
      · refine ((keyGroups_sorted _ _).filter _).imp_of_mem fun ha hb hlt r hr r' hr' => ?_
        have hkg := hkeyGroup hu (hhas ha) hr
        have hkg' := hkeyGroup hu (hhas hb) hr'
        exact .inl (by omega)
  · refine hlaid.ordered.imp_of_mem fun {u v} hu hv hlt r hr r' hr' => ?_
    cases u with
    | failed f => cases hr
    | stream s =>
      cases v with
      | failed f => cases hr'
      | stream s' =>
        obtain ⟨kg, hkg, hr⟩ := List.mem_flatMap.mp hr
        obtain ⟨kg', hkg', hr'⟩ := List.mem_flatMap.mp hr'
        have hhas : (ReadUnit.stream s).Has kg := mem_keyGroups.mp (List.mem_of_mem_filter hkg)
        have hhas' : (ReadUnit.stream s').Has kg' := mem_keyGroups.mp (List.mem_of_mem_filter hkg')
        have hkg := hkeyGroup hu hhas hr
        have hkg' := hkeyGroup hv hhas' hr'
        have := hlt (hhas.1.trans hhas.2) (hhas'.1.trans hhas'.2)
        have := hhas.2
        have := hhas'.1
        exact .inl (by omega)

/-! ### The chain -/

/-- A cache as some calls leave it, of any capacity. -/
def StateReader.Reached (R : StateReader) (c : BlockCache) : Prop :=
  ∃ capacity calls, c = R.cacheAfter (BlockCache.empty capacity) calls

theorem StateReader.Reached.sound {c : BlockCache} (h : R.Reached c) : R.Sound c := by
  obtain ⟨capacity, calls, rfl⟩ := h
  exact StateReader.sound_cacheAfter calls (sound_empty capacity)

theorem checkCursor_start (h : ∀ u, o.ctx.unitOf 0 = some u → u.subtask = 0) :
    o.checkCursor Cursor.start = .ok () := by
  have hbelow : ¬ ((Cursor.start.keyGroup.toNat : Int) ≥ max o.maxParallelism 1) := by
    have : ((Cursor.start.keyGroup.toNat : Nat) : Int) = 0 := rfl
    omega
  unfold OpenOperator.checkCursor
  rw [if_neg hbelow]
  have hgroup : ((Cursor.start.keyGroup.toNat : Nat) : Int) = 0 := rfl
  rw [hgroup]
  cases hunit : o.ctx.unitOf 0 with
  | none => rfl
  | some u =>
    dsimp only
    have hsubtask : ¬ u.subtask ≠ Cursor.start.subtask := not_not.mpr (h u hunit)
    rw [if_neg hsubtask]

theorem ahead_start (ho : o.Regular) : o.ahead Cursor.start = positions 0 o.ctx.units :=
  startAt_zero ho.laidOut 0

theorem gather_keys (limit : Nat) (events : List Event) (found : List KeyRecord) :
    events.foldl (R.keyWalk limit).gather found = found ++ events.filterMap R.recordOf := by
  induction events generalizing found with
  | nil => exact (List.append_nil _).symm
  | cons e events ih =>
    rw [List.foldl_cons, ih]
    cases e with
    | key s header kg ord raw =>
      have hrecord : R.recordOf (.key s header kg ord raw) = some (R.record s header kg ord raw) :=
        rfl
      rw [List.filterMap_cons_some hrecord]
      exact List.append_assoc _ [_] _
    | report why =>
      have hrecord : R.recordOf (.report why) = none := rfl
      rw [List.filterMap_cons_none hrecord]
      rfl

theorem foldl_append_found (calls : List (Cursor × Page (List KeyRecord))) (found : List KeyRecord) :
    calls.foldl (fun found call => found ++ call.2.found) found
      = found ++ calls.flatMap (·.2.found) := by
  induction calls generalizing found with
  | nil => exact (List.append_nil _).symm
  | cons call calls ih => rw [List.foldl_cons, ih, List.flatMap_cons, List.append_assoc]

/-- A block that holds keys is a position of the walk. -/
theorem block_mem_positions (ho : o.Regular) {s : SubtaskStream} (hs : s ∈ o.ctx.streams) {kg : Int}
    (hkg : (ReadUnit.stream s).Has kg) {d : Text} (hd : d ∈ R.defectOf o s kg) :
    Position.block s kg 0 ∈ positions 0 o.ctx.units := by
  have hu : ReadUnit.stream s ∈ o.ctx.units := o.ctx.mem_units.mpr (.inl ⟨s, hs, rfl⟩)
  have h0 := (ho.within _ hu kg hkg).1
  refine List.mem_flatMap.mpr ⟨_, hu, mem_positionsOf.mpr (.inr ⟨fun herror => ?_, s, kg, rfl,
    max_le hkg.1 h0, hkg.2, ?_, rfl⟩)⟩
  · unfold StateReader.defectOf StateReader.contentOf StateReader.readBlock at hd
    unfold ReadUnit.error at herror
    cases hheader : s.header with
    | error e =>
      cases hrange : s.blockRange (kg - s.startKeyGroup).toNat with
      | none => simp [hrange] at hd
      | some r => simp [hrange, hheader] at hd
    | ok header => simp [hheader] at herror
  · by_contra hholds
    unfold StateReader.defectOf at hd
    rw [contentOf_of_not_holds hholds] at hd
    cases hd

/-- The subtask whose key-group a key is in. -/
theorem key_mem_positions (ho : o.Regular) {s s' : SubtaskStream} {header : SubtaskHeader}
    {kg kg' : Int} {ord : Nat} {raw : RawKey} {units : List Position}
    (hunits : units = positions 0 o.ctx.units)
    (hmem : Event.key s' header kg' ord raw ∈ R.eventsOf o units) (hs : s ∈ o.ctx.streams)
    (hkg : (ReadUnit.stream s).Has kg) (heq : UInt16.ofInt kg' = UInt16.ofInt kg) :
    s' = s ∧ kg' = kg := by
  subst hunits
  obtain ⟨p, hp, hmem⟩ := List.mem_flatMap.mp hmem
  obtain ⟨u, hu, hunit, hhas⟩ := positions_unit ho.laidOut hp
  have hs' : ReadUnit.stream s ∈ o.ctx.units := o.ctx.mem_units.mpr (.inl ⟨s, hs, rfl⟩)
  cases p with
  | ended => cases hmem
  | unreadable u from' => simp [StateReader.eventsAt] at hmem
  | block s₀ kg₀ ordinal =>
    obtain ⟨rfl, rfl⟩ := mem_eventsAt_block hmem
    cases hunit
    simp only [Position.keyGroup] at hhas
    obtain ⟨h0, -, h1⟩ := ho.within _ hu _ hhas
    obtain ⟨h0', -, h1'⟩ := ho.within _ hs' _ hkg
    have hround := toNat_ofInt_keyGroup h0 h1
    rw [heq, toNat_ofInt_keyGroup h0' h1'] at hround
    subst hround
    have hone := (ho.unitOf hu hhas).symm.trans (ho.unitOf hs' hkg)
    cases hone
    exact ⟨rfl, rfl⟩

variable {op : Text} {caches : Nat → BlockCache}

/-- All the keys of an operator are those of the positions of a walk through it. -/
theorem keysWhere_events (ho : o.Regular) : R.keysWhere o (fun _ => true)
    = (R.eventsOf o (positions 0 o.ctx.units)).filterMap R.recordOf := by
  have hrange : (R.keyWalk 1).inRange (positions 0 o.ctx.units) = positions 0 o.ctx.units := by
    rw [inRange_eq_filter _ (positions_sorted ho.laidOut 0)]
    exact List.filter_eq_self.mpr fun p _ => rfl
  rw [← hrange, keysWhere_eq _ ho]
  unfold StateReader.keysWhere
  refine List.flatMap_congr fun u hu => ?_
  cases u with
  | failed f => rfl
  | stream s =>
    dsimp only
    congr 1
    refine List.filter_congr fun kg hkg => ?_
    have h0 := (ho.within _ hu kg (mem_keyGroups.mp hkg)).1
    simp [h0, Walk.past, StateReader.keyWalk]

/-- **A chain of `key_page` calls is complete.**  Whatever limits its calls have, and whatever was
    called between them, it ends; its pages hold every key of every readable block once, in order,
    and one report of each unit and of each block that cannot be read; a malformed block is reported
    by a page, and by every page with a key of it; and every `next` lies after the cursor before it
    and is accepted. -/
theorem keyPage_chain_complete (hop : R.operator op = .ok o) (ho : o.Regular) (hsized : R.Sized o)
    (hzero : ∀ u, o.ctx.unitOf 0 = some u → u.subtask = 0) (hcaches : ∀ i, R.Reached (caches i))
    (limits : Nat → Nat) :
    (∃ calls, Chain (fun i c _ => (R.keyPage op c (limits i) (caches i)).1) 0 Cursor.start [] calls)
    ∧ ∀ calls, Chain (fun i c _ => (R.keyPage op c (limits i) (caches i)).1) 0 Cursor.start [] calls →
      calls.flatMap (·.2.found) = R.keysWhere o (fun _ => true)
      ∧ (R.keysWhere o fun _ => true).Pairwise (fun a b => a.position.Before b.position)
      ∧ calls.flatMap (·.2.unreadable) = R.reports o
      ∧ (∀ s ∈ o.ctx.streams, ∀ kg, (ReadUnit.stream s).Has kg → ∀ d ∈ R.defectOf o s kg,
        (∃ call ∈ calls, d ∈ call.2.malformed)
        ∧ ∀ call ∈ calls, (∃ r ∈ call.2.found, r ∈ R.keysOf o s kg) → d ∈ call.2.malformed)
      ∧ ∀ call ∈ calls, ∀ c' ∈ call.2.next, call.1.Before c' ∧ o.checkCursor c' = .ok () := by
  have hcall : ∀ i c (_ : List KeyRecord), ∃ w keep cache, Walk.Alike w (R.keyWalk 1) ∧ R.Sound cache
      ∧ ¬ w.full [] = true
      ∧ (R.keyPage op c (limits i) (caches i)).1 = (R.page op c w keep c.ordinal [] cache).1 := by
    intro i c _
    refine ⟨R.keyWalk (limits i), true, caches i, ⟨rfl, rfl⟩, (hcaches i).sound, ?_, rfl⟩
    simp [StateReader.keyWalk]
  obtain ⟨calls, events, hchain, hchained⟩ :=
    exists_chained hop ho hsized hcall 0 Cursor.start (checkCursor_start hzero) []
  refine ⟨⟨calls, hchain⟩, fun calls' hchain' => ?_⟩
  -- A call answers in one way, so the chain that exists is the only one.
  obtain rfl := hchain.unique hchain'
  -- From the start cursor every position lies ahead.
  have hrange : (R.keyWalk 1).inRange (o.ahead Cursor.start) = positions 0 o.ctx.units := by
    rw [ahead_start ho]
    rw [inRange_eq_filter _ (positions_sorted ho.laidOut 0)]
    exact List.filter_eq_self.mpr fun p _ => rfl
  have hevents : events = R.eventsOf o (positions 0 o.ctx.units) := by
    rw [hchained.events_eq, hrange]
  refine ⟨?_, keysWhere_sorted ho hsized _, ?_, fun s hs kg hkg d hd => ⟨?_, ?_⟩, hchained.next⟩
  · -- The keys.
    have hfound := hchained.found_eq (· ++ ·) List.append_nil
      (fun a b e => by cases e <;> simp [Walk.gather, StateReader.keyWalk]) (fun _ _ => rfl) [] rfl
    rw [foldl_append_found, gather_keys, List.nil_append, List.nil_append] at hfound
    rw [hfound, hevents, keysWhere_events ho]
  · rw [hchained.unreadable, hevents, reports_eq ho]
  · have hblock : Position.block s kg 0 ∈ (R.keyWalk 1).inRange (o.ahead Cursor.start) := by
      rw [hrange]
      exact block_mem_positions ho hs hkg hd
    exact hchained.visited hblock d hd
  · rintro call hmem ⟨r, hr, hof⟩
    obtain ⟨taken, found', hsub, hfound, hnoted⟩ := hchained.noted call hmem
    rw [hfound, gather_keys, List.nil_append] at hr
    obtain ⟨e, he, hrecord⟩ := List.mem_filterMap.mp hr
    obtain ⟨header, block, ord, raw, -, -, rfl⟩ := mem_keysOf hof
    cases e with
    | report why => cases hrecord
    | key s' header' kg' ord' raw' =>
      have heq : UInt16.ofInt kg' = UInt16.ofInt kg :=
        congrArg KeyRecord.keyGroup (Option.some.inj hrecord)
      -- the u16 of its position names one key-group of one subtask only
      obtain ⟨rfl, rfl⟩ := key_mem_positions ho rfl (hevents ▸ hsub he) hs hkg heq
      exact hnoted _ _ _ _ _ he d hd

/-! ### Savepoints that can be read whole -/

section ReadWhole

variable (R : StateReader) (o : OpenOperator)

/-- Every key-group of every subtask of an operator can be read whole. -/
structure StateReader.ReadWhole : Prop where
  units : ∀ u ∈ o.ctx.units, u.error = none
  blocks : ∀ s ∈ o.ctx.streams, ∀ kg, (ReadUnit.stream s).Has kg →
    R.reportOf o s kg = none ∧ R.defectOf o s kg = none

variable {R o}

/-- Nothing is reported and no block ends early: all of it can be read. -/
theorem readWhole_of_reports (hreports : R.reports o = [])
    (hdefects : ∀ s ∈ o.ctx.streams, ∀ kg, (ReadUnit.stream s).Has kg → R.defectOf o s kg = none) :
    R.ReadWhole o := by
  have hnone : ∀ u ∈ o.ctx.units, R.reportsOf o u = [] := List.flatMap_eq_nil_iff.mp hreports
  have hunits : ∀ u ∈ o.ctx.units, u.error = none := by
    intro u hu
    by_contra herror
    have hreport := hnone u hu
    unfold StateReader.reportsOf at hreport
    rw [if_pos (Option.isSome_iff_ne_none.mpr herror)] at hreport
    cases hreport
  refine ⟨hunits, fun s hs kg hkg => ⟨?_, hdefects s hs kg hkg⟩⟩
  have hu : ReadUnit.stream s ∈ o.ctx.units := o.ctx.mem_units.mpr (.inl ⟨s, hs, rfl⟩)
  have hreport := hnone _ hu
  unfold StateReader.reportsOf at hreport
  rw [hunits _ hu] at hreport
  exact List.filterMap_eq_nil_iff.mp hreport kg (mem_keyGroups.mpr hkg)

end ReadWhole

/-! ### A small savepoint -/

/-- One state, `n`, with `Int` keys and values. -/
def sampleHeader : SubtaskHeader where
  compressed := false
  keyType := "Int".toList
  keyPojo := none
  keyTupleClasses := []
  states := [⟨"n".toList, "VALUE".toList, "Int".toList, none, none, [], []⟩]
  stateTypes := ["VALUE".toList]
  layouts := [⟨some 1, none⟩]
  numStates := 1

/-- Key-group 0, with the value 9 of the key 7. -/
def sampleStream : SubtaskStream where
  subtaskIndex := 0
  statePos := 0
  startKeyGroup := 0
  offsets := [1]
  src := .inline [0, 0, 0, 0, 0, 0, 6, 0x80, 0, 0, 0, 7, 0, 0, 0, 0, 4, 0, 0, 0, 9, 0xFF, 0xFF]
  what := "subtask 0 (inline)".toList
  headerLen := 1
  header := .ok sampleHeader

/-- A subtask from key-group 1 on whose file is gone. -/
def goneSubtask (numKeyGroups : Int) : FailedSubtask := ⟨1, 1, numKeyGroups, "s1".toList, "gone".toList⟩

/-- The operator of both. -/
def sampleOperator (numKeyGroups : Int) : OpenOperator :=
  ⟨[1], 2, 2, ⟨0, [sampleStream], [goneSubtask numKeyGroups], List.nodup_singleton _⟩⟩

/-- A reader of the operator; nothing is read from files. -/
def sampleReader (numKeyGroups : Int) : StateReader where
  operators := [sampleOperator numKeyGroups]
  host := ⟨⟨fun _ => none, fun _ => none⟩, fun _ => none, fun _ => none, fun _ => none, id⟩
  proto := none
  files _ _ _ := .error []
  inflate := .ok
  entryLimit := 10
  entryLimit_pos := tenEntries_pos
  keyedEntrySize := 1
  rawKeySize := 1
  opIndex_eq := by
    intro i o h
    rcases i with _ | i
    · cases h
      rfl
    · cases h

theorem units_sampleOperator (n : Int) :
    (sampleOperator n).ctx.units = [.stream sampleStream, .failed (goneSubtask n)] := rfl

theorem regular_sampleOperator : (sampleOperator 1).Regular where
  disjoint := by
    rw [units_sampleOperator, List.pairwise_pair]
    rintro kg ⟨⟨-, hlast⟩, ⟨hfirst, -⟩⟩
    exact absurd (hfirst.trans hlast) (by decide)
  reported := by
    rw [units_sampleOperator]
    decide
  within := by
    rw [units_sampleOperator]
    intro u hu kg ⟨hfirst, hlast⟩
    rcases List.mem_pair.mp hu with rfl | rfl
    · have h0 : (0 : Int) ≤ kg := hfirst
      have h1 : kg ≤ 0 := hlast
      exact ⟨h0, lt_of_le_of_lt h1 (by decide), by omega⟩
    · have h0 : (1 : Int) ≤ kg := hfirst
      have h1 : kg ≤ 1 := hlast
      exact ⟨by omega, lt_of_le_of_lt h1 (by decide), by omega⟩

theorem sized_sampleReader : (sampleReader 1).Sized (sampleOperator 1) := by
  intro s hs kg ⟨hfirst, hlast⟩ header block hcontent
  obtain rfl : s = sampleStream := List.mem_singleton.mp hs
  have h0 : (0 : Int) ≤ kg := hfirst
  have h1 : kg ≤ 0 := hlast
  obtain rfl : kg = 0 := le_antisymm h1 h0
  have hone : ((sampleReader 1).contentOf (sampleOperator 1) sampleStream 0).toOption.all
      (fun c => c.all fun b => decide (b.2.keys.length ≤ 2 ^ 32)) = true := by decide +kernel
  rw [hcontent] at hone
  simpa [Except.toOption] using hone

/-- The key of the one block, and the subtask that is gone. -/
theorem keyPage_chain_complete_sample :
    ∃ calls, Chain (fun _ c _ => ((sampleReader 1).keyPage "01".toList c 1 (.empty 0)).1) 0
        Cursor.start [] calls
      ∧ calls.flatMap (·.2.found) = (sampleReader 1).keysWhere (sampleOperator 1) (fun _ => true)
      ∧ calls.flatMap (·.2.unreadable) = [⟨1, 1, 1, "s1".toList, "gone".toList⟩] := by
  have hop : (sampleReader 1).operator "01".toList = .ok (sampleOperator 1) := rfl
  have hzero : ∀ u, (sampleOperator 1).ctx.unitOf 0 = some u → u.subtask = 0 := by
    intro u hu
    cases hu
    rfl
  have hcaches : ∀ i : Nat, (sampleReader 1).Reached ((fun _ => .empty 0) i) := fun _ => ⟨0, [], rfl⟩
  obtain ⟨⟨calls, hchain⟩, hall⟩ := keyPage_chain_complete hop regular_sampleOperator
    sized_sampleReader hzero hcaches fun _ => 1
  obtain ⟨hkeys, -, hreports, -⟩ := hall calls hchain
  exact ⟨calls, hchain, hkeys, hreports.trans (by decide +kernel)⟩

/-- A unit without key-groups is reported by no page. -/
theorem keyPage_chain_omits_unit :
    (sampleReader 0).operator "01".toList = .ok (sampleOperator 0)
    ∧ (sampleOperator 0).ctx.units.Pairwise (fun u v => ∀ kg, ¬ (u.Has kg ∧ v.Has kg))
    ∧ ReadUnit.failed (goneSubtask 0) ∈ (sampleOperator 0).ctx.units
    ∧ ∃ calls, Chain (fun _ c _ => ((sampleReader 0).keyPage "01".toList c 5 (.empty 0)).1) 0
        Cursor.start [] calls
      ∧ calls.flatMap (·.2.unreadable) = [] := by
  refine ⟨rfl, ?_, ?_, ?_⟩
  · rw [units_sampleOperator, List.pairwise_pair]
    rintro kg ⟨-, ⟨hfirst, hlast⟩⟩
    exact absurd (hfirst.trans hlast) (by decide)
  · rw [units_sampleOperator]
    simp
  · have hpage : ((sampleReader 0).keyPage "01".toList Cursor.start 5 (.empty 0)).1.toOption.any
        (fun page => page.next.isNone && page.unreadable.isEmpty) = true := by decide +kernel
    rcases hcall : ((sampleReader 0).keyPage "01".toList Cursor.start 5 (.empty 0)).1 with e | page
    · rw [hcall] at hpage
      cases hpage
    · rw [hcall] at hpage
      simp only [Except.toOption, Option.any_some, Bool.and_eq_true, Option.isNone_iff_eq_none,
        List.isEmpty_iff] at hpage
      exact ⟨_, .last hcall hpage.1, by simp [hpage.2]⟩

end FlinkExplorer
