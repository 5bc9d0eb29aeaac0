import FlinkExplorer.Export.StateRows
import FlinkExplorer.Lib.Parts
import FlinkExplorer.Reader.Entries

namespace FlinkExplorer

open Lib

/-!
# The same entries by rows and by pages

An export parses each block for one state; a page parses it whole and groups it by key.

* `groupEntries_perm` — grouping keeps the entries of a block, up to order;
* `storedFor_block`, `storedIn_perm`, `storedOf_perm` — so the entries of a state are the same in a
  key-group, in a stream and in an operator;
* `exportStateRows_agrees` — what a successful export leaves out: nothing.
-/

section Agree

variable {R : StateReader} {o : OpenOperator} {stateName : Text}

/-- The entries of a state among those of a key. -/
def Event.storedFor (stateName : Text) : Event → List Stored
  | .key s header _ _ raw =>
    (header.resolved stateName).elim [] fun found =>
      (raw.entries.filter (·.stateId == found.1)).map fun e =>
        ⟨s.subtaskIndex, found.2, { e with key := raw.key }⟩
  | .report _ => []

@[simp] theorem storedFor_key (s : SubtaskStream) (header : SubtaskHeader) (kg : Int) (ord : Nat)
    (raw : RawKey) :
    (Event.key s header kg ord raw).storedFor stateName
      = (header.resolved stateName).elim [] fun found =>
        (raw.entries.filter (·.stateId == found.1)).map fun e =>
          ⟨s.subtaskIndex, found.2, { e with key := raw.key }⟩ := rfl

/-- Grouping the entries of a block by key keeps them, up to order. -/
theorem groupEntries_perm (es : List KeyedEntry) (g : KeyedEntry → Stored) (p : KeyedEntry → Bool)
    (hp : ∀ e : KeyedEntry, p e.withoutKey = p e) :
    ((groupEntries es).flatMap fun raw =>
        (raw.entries.filter p).map fun e => g { e with key := raw.key }).Perm
      ((es.filter p).map g) := by
  obtain ⟨hnodup, hmem⟩ := keysOf_spec es
  have hparts : ((groupEntries es).flatMap fun raw =>
        (raw.entries.filter p).map fun e => g { e with key := raw.key })
      = ((((keysOf es).flatMap fun k => es.filter (·.key = k)).filter p).map g) := by
    rw [groupEntries_eq, recordsOf, List.flatMap_map, List.filter_flatMap, List.map_flatMap]
    refine List.flatMap_congr fun k _ => ?_
    unfold recordOf
    rw [List.filter_map, List.map_map]
    have hkey : ((es.filter fun e => e.key = k).filter (p ∘ KeyedEntry.withoutKey))
        = (es.filter fun e => e.key = k).filter p := List.filter_congr fun e _ => hp e
    rw [hkey]
    refine List.map_congr_left fun e he => ?_
    obtain rfl : e.key = k := by simpa using (List.mem_filter.mp (List.mem_of_mem_filter he)).2
    rfl
  rw [hparts]
  have hperm := flatMap_filter_perm KeyedEntry.key hnodup es fun e he =>
    (hmem e.key).mpr ⟨e, he, rfl⟩
  exact (hperm.filter p).map g

theorem storedFor_keyEvents (s : SubtaskStream) (header : SubtaskHeader) (kg : Int) (ord : Nat)
    (raws : List RawKey) :
    (keyEvents s header kg ord raws).flatMap (Event.storedFor stateName)
      = (header.resolved stateName).elim [] fun found =>
        raws.flatMap fun raw => (raw.entries.filter (·.stateId == found.1)).map fun e =>
          ⟨s.subtaskIndex, found.2, { e with key := raw.key }⟩ := by
  induction raws generalizing ord with
  | nil => cases header.resolved stateName <;> rfl
  | cons raw raws ih =>
    rw [keyEvents, List.flatMap_cons, ih, storedFor_key]
    cases header.resolved stateName with
    | none => rfl
    | some found => rfl

/-- What reading a key-group for the pages of keys gives. -/
theorem contentOf_at {s : SubtaskStream} {header : SubtaskHeader} (hheader : s.header = .ok header)
    (i : Nat) :
    (∃ e, R.contentOf o s (s.startKeyGroup + i) = .error e ∧ R.blockAt s header i = none)
    ∨ R.contentOf o s (s.startKeyGroup + i) = .ok none ∧ R.blockAt s header i = none
    ∨ ∃ block, R.contentOf o s (s.startKeyGroup + i) = .ok (some (header, block))
      ∧ block.keys = groupEntries (R.parsedAt o s header i).1
      ∧ (block.defect.isSome = (R.parsedAt o s header i).2.isSome) := by
  have hindex : (s.startKeyGroup + i - s.startKeyGroup).toNat = i := by omega
  unfold StateReader.contentOf StateReader.readBlock
  rw [hindex]
  -- Both readings take the range, the bytes and the inflated block in turn.
  cases hrange : s.blockRange i with
  | none =>
    refine .inr (.inl ⟨rfl, ?_⟩)
    unfold StateReader.blockAt
    rw [hrange]
    rfl
  | some range =>
    obtain ⟨start, last⟩ := range
    have hblock : R.blockAt s header i
        = (s.src.read R.files start last).toOption.bind fun bytes =>
          (R.keyGroupBlock bytes header.compressed).toOption := by
      unfold StateReader.blockAt
      rw [hrange]
      rfl
    rw [hheader]
    unfold StateReader.readGrouped
    dsimp only [bind, Except.bind]
    cases hread : s.src.read R.files start last with
    | error e =>
      rw [hread] at hblock
      exact .inl ⟨e, rfl, hblock⟩
    | ok bytes =>
      rw [hread] at hblock
      replace hblock : R.blockAt s header i
          = (R.keyGroupBlock bytes header.compressed).toOption := hblock
      dsimp only
      cases hinflate : R.keyGroupBlock bytes header.compressed with
      | error e =>
        rw [hinflate] at hblock
        exact .inl ⟨_, rfl, hblock⟩
      | ok data =>
        rw [hinflate] at hblock
        have hparsed : R.parsedAt o s header i
            = parseKeyGroupBlock (header.parseCtx (kgPrefixLen o.maxParallelism) none) R.host.floats
              data (UInt16.ofInt (s.startKeyGroup + i)) := by
          unfold StateReader.parsedAt
          rw [hblock]
          rfl
        refine .inr (.inr ⟨_, rfl, ?_, ?_⟩)
        · rw [hparsed]
          rfl
        · rw [hparsed, Option.isSome_map]
          rfl

/-- The entries of a state in a key-group, as the keys of its block hold them. -/
theorem storedFor_block {s : SubtaskStream} {header : SubtaskHeader}
    (hheader : s.header = .ok header) (i : Nat) :
    ((R.eventsAt o (.block s (s.startKeyGroup + i) 0)).flatMap (Event.storedFor stateName)).Perm
      ((header.resolved stateName).elim [] fun found =>
        ((R.parsedAt o s header i).1.filter (·.stateId == found.1)).map
          (⟨s.subtaskIndex, found.2, ·⟩)) := by
  have hnone (hblock : R.blockAt s header i = none) :
      ((header.resolved stateName).elim [] fun found =>
        ((R.parsedAt o s header i).1.filter (·.stateId == found.1)).map
          (⟨s.subtaskIndex, found.2, ·⟩ : KeyedEntry → Stored)) = [] := by
    have hparsed : R.parsedAt o s header i = ([], none) := by
      unfold StateReader.parsedAt
      rw [hblock]
      rfl
    rw [hparsed]
    cases header.resolved stateName <;> rfl
  unfold StateReader.eventsAt
  rcases contentOf_at (R := R) (o := o) hheader i with
    ⟨e, hcontent, hblock⟩ | ⟨hcontent, hblock⟩ | ⟨block, hcontent, hkeys, -⟩
  · rw [hnone hblock]
    simp only [hcontent]
    exact .refl _
  · rw [hnone hblock]
    simp only [hcontent]
    exact .refl _
  · simp only [hcontent]
    rw [storedFor_keyEvents, hkeys]
    cases header.resolved stateName with
    | none => exact .refl _
    | some found =>
      exact groupEntries_perm _ (⟨s.subtaskIndex, found.2, ·⟩) (·.stateId == found.1) fun _ => rfl

/-- A unit that cannot be read holds no entry that is known of. -/
theorem storedFor_error {u : ReadUnit} (herror : u.error.isSome = true) :
    (R.eventsOf o (positionsOf 0 u)).flatMap (Event.storedFor stateName) = [] := by
  by_cases hlast : u.last < 0
  · rw [positionsOf_past hlast]
    rfl
  · rw [positionsOf_error hlast herror]
    rfl

/-- The entries of a state in a stream, as the keys of its blocks hold them. -/
theorem storedIn_perm {s : SubtaskStream}
    (hfirst : (ReadUnit.stream s).first ≤ (ReadUnit.stream s).last → 0 ≤ s.startKeyGroup) :
    (R.storedIn o stateName s).Perm
      ((R.eventsOf o (positionsOf 0 (.stream s))).flatMap (Event.storedFor stateName)) := by
  cases hheader : s.header with
  | error e =>
    have herror : (ReadUnit.stream s).error.isSome = true := by
      simp [ReadUnit.error, hheader]
    rw [storedFor_error herror]
    unfold StateReader.storedIn
    rw [hheader]
  | ok header =>
    have hreadable : ¬ (ReadUnit.stream s).error.isSome = true := by
      simp [ReadUnit.error, hheader]
    have hgroups : keyGroups (max (ReadUnit.stream s).first 0) (ReadUnit.stream s).last
        = (List.range s.offsets.length).map fun i : Nat => s.startKeyGroup + (i : Int) := by
      show keyGroups (max s.startKeyGroup 0) (s.startKeyGroup + s.offsets.length - 1) = _
      cases hlen : s.offsets.length with
      | zero => exact keyGroups_nil (by omega)
      | succ n =>
        have hpos : 0 ≤ s.startKeyGroup := hfirst (by
          show s.startKeyGroup ≤ s.startKeyGroup + s.offsets.length - 1
          omega)
        rw [max_eq_left hpos]
        unfold keyGroups
        have hcount : (s.startKeyGroup + ((n + 1 : Nat) : Int) - 1 + 1 - s.startKeyGroup).toNat
            = n + 1 := by omega
        rw [hcount]
    have hevents : (R.eventsOf o (positionsOf 0 (.stream s))).flatMap (Event.storedFor stateName)
        = (List.range s.offsets.length).flatMap fun i : Nat =>
          (R.eventsAt o (.block s (s.startKeyGroup + i) 0)).flatMap
            (Event.storedFor stateName) := by
      rw [positionsOf_stream 0 hreadable, hgroups]
      unfold StateReader.eventsOf
      rw [List.flatMap_map, List.flatMap_assoc]
      have hskip := flatMap_filter_congr (p := s.holds) (q := fun _ => true)
        (f := fun kg => (R.eventsAt o (.block s kg 0)).flatMap (Event.storedFor stateName))
        (l := (List.range s.offsets.length).map fun i : Nat => s.startKeyGroup + (i : Int))
        (fun kg hne => by
          -- an empty key-group has no keys
          unfold StateReader.eventsAt
          dsimp only
          rw [contentOf_of_not_holds (by simpa using hne)]
          rfl)
      rw [List.filter_true, List.flatMap_map] at hskip
      exact hskip
    rw [hevents, storedIn_eq hheader]
    cases hresolved : header.resolved stateName with
    | none =>
      refine List.Perm.of_eq (List.flatMap_eq_nil_iff.mpr fun i _ => ?_).symm
      have hnil := @storedFor_block R o stateName s header hheader i
      rw [hresolved] at hnil
      exact hnil.eq_nil
    | some found =>
      refine List.Perm.flatMap_left _ fun i _ => ?_
      have hblock := @storedFor_block R o stateName s header hheader i
      rw [hresolved] at hblock
      exact hblock.symm

/-- **Export and pages agree**: the entries of a state that an export writes are, up to order, those
    that the keys of the operator hold. -/
theorem storedOf_perm (ho : o.Regular) :
    (R.storedOf o stateName).Perm
      ((R.eventsOf o (positions 0 o.ctx.units)).flatMap (Event.storedFor stateName)) := by
  have hunits : o.ctx.units.Perm
      (o.ctx.streams.map ReadUnit.stream ++ o.ctx.failed.map ReadUnit.failed) :=
    List.perm_insertionSort _ _
  have hfirst (s : SubtaskStream) (hs : s ∈ o.ctx.streams)
      (hle : (ReadUnit.stream s).first ≤ (ReadUnit.stream s).last) : 0 ≤ s.startKeyGroup :=
    (ho.within (.stream s) (o.ctx.mem_units.mpr (.inl ⟨s, hs, rfl⟩)) s.startKeyGroup
      ⟨le_rfl, hle⟩).1
  have hparts : (R.eventsOf o (positions 0 o.ctx.units)).flatMap (Event.storedFor stateName)
      = o.ctx.units.flatMap fun u =>
        (R.eventsOf o (positionsOf 0 u)).flatMap (Event.storedFor stateName) := by
    unfold positions StateReader.eventsOf
    rw [List.flatMap_assoc, List.flatMap_assoc]
    refine List.flatMap_congr fun u _ => ?_
    rw [List.flatMap_assoc]
  rw [hparts]
  refine List.Perm.trans ?_ (hunits.flatMap_right _).symm
  have hfailed : (o.ctx.failed.map ReadUnit.failed).flatMap (fun u =>
      (R.eventsOf o (positionsOf 0 u)).flatMap (Event.storedFor stateName)) = [] := by
    refine List.flatMap_eq_nil_iff.mpr fun u hu => ?_
    obtain ⟨f, -, rfl⟩ := List.mem_map.mp hu
    exact storedFor_error (error_failed f)
  rw [List.flatMap_append, hfailed, List.append_nil, List.flatMap_map]
  exact List.Perm.flatMap_left _ fun s hs => storedIn_perm (hfirst s hs)

/-- A state is exported whole: every header is read, every block that may hold the state is, and each
    entry of it once. -/
structure StateReader.ExportsWhole (R : StateReader) (o : OpenOperator) (stateName : Text)
    (stats : ExportStats) : Prop where
  rows : stats.rows = (R.storedOf o stateName).length
  headers : ∀ s ∈ o.ctx.streams, s.src.len ≠ 0 → ∃ header, s.header = .ok header
  agrees : (R.storedOf o stateName).Perm
    ((R.eventsOf o (positions 0 o.ctx.units)).flatMap (Event.storedFor stateName))
  read : ∀ s ∈ o.ctx.streams, ∀ header, s.header = .ok header →
    (header.resolved stateName).isSome = true → ∀ i < s.offsets.length,
      (∀ e, R.contentOf o s (s.startKeyGroup + i) ≠ .error e)
      ∧ (stats.malformedKeyGroups = 0 → R.defectOf o s (s.startKeyGroup + i) = none)

/-- **Export and pages agree.**  A successful export handed the rows of one operator to its sink,
    one for each entry that the keys of the operator hold for the state, whatever the sink is; no
    file that may hold more was left out, and without a note no block ended early. -/
theorem exportStateRows_agrees {σ : Type} {sink : RowSink σ} {operator : Option Text} {t t' : σ}
    {stats : ExportStats} (hregular : ∀ o ∈ R.operators, o.Regular)
    (h : exportStateRows R sink operator stateName t = .ok (stats, t')) :
    ∃ o ∈ R.operators, o.ctx.failed = [] ∧ R.ExportsWhole o stateName stats
      ∧ (∃ fed, sink.feed (R.rowsOf o stateName) t = .ok fed ∧ sink.finish fed = .ok t')
      ∧ ∀ o' ∈ R.operators, (operator.all fun want => want.isPrefixOf (hexId o'.id)) = true →
          o' = o ∨ o'.Lacks stateName := by
  obtain ⟨o, htarget, hfed, hrows, hmalformed, hread⟩ := exportStateRows_ok h
  obtain ⟨ho, hopened, -, hothers⟩ := exportTarget_eq_ok htarget
  have hheaders (s : SubtaskStream) (hs : s ∈ o.ctx.streams) (hne : s.src.len ≠ 0) :
      ∃ header, s.header = .ok header := by
    obtain ⟨header, hheader, -⟩ := hread s hs hne
    exact ⟨header, hheader⟩
  refine ⟨o, ho, hopened, ⟨hrows, hheaders, storedOf_perm (hregular o ho), ?_⟩, hfed, hothers⟩
  intro s hs header hheader hresolved i hi
  refine ⟨fun e he => ?_, fun hzero => ?_⟩
  · by_cases hempty : s.src.len = 0
    · have hnone : ¬ s.holds (s.startKeyGroup + i) = true := by
        simp [SubtaskStream.holds, blockRange_of_empty hempty]
      rw [contentOf_of_not_holds hnone] at he
      cases he
    · obtain ⟨header', hheader', hblocks⟩ := hread s hs hempty
      obtain rfl := Except.ok.inj (hheader.symm.trans hheader')
      rcases contentOf_at (R := R) (o := o) hheader i with
        ⟨e', -, hblock⟩ | ⟨hcontent, -⟩ | ⟨block, hcontent, -⟩
      · cases hrange : s.blockRange i with
        | none =>
          have hnone : ¬ s.holds (s.startKeyGroup + i) = true := by
            have hindex : (s.startKeyGroup + i - s.startKeyGroup).toNat = i := by omega
            unfold SubtaskStream.holds
            rw [hindex, hrange]
            exact Bool.false_ne_true
          rw [contentOf_of_not_holds hnone] at he
          cases he
        | some range =>
          have hsome := hblocks hresolved i hi (by rw [hrange]; rfl)
          rw [hblock] at hsome
          cases hsome
      · rw [hcontent] at he
        cases he
      · rw [hcontent] at he
        cases he
  · have hsum : (o.ctx.streams.map (R.defectsIn o stateName)).sum = 0 := hmalformed.symm.trans hzero
    have hdefects : R.defectsIn o stateName s = 0 :=
      List.sum_eq_zero_iff_forall_eq_nat.mp hsum _ (List.mem_map_of_mem hs)
    rw [defectsIn_eq hheader, if_pos hresolved] at hdefects
    have hnone : (R.parsedAt o s header i).2.isSome = false := by
      have hterm := List.sum_eq_zero_iff_forall_eq_nat.mp hdefects _
        (List.mem_map_of_mem (List.mem_range.mpr hi))
      by_contra hsome
      rw [if_pos (Bool.not_eq_false _ ▸ hsome)] at hterm
      cases hterm
    unfold StateReader.defectOf
    rcases contentOf_at (R := R) (o := o) hheader i with
      ⟨e', hcontent, -⟩ | ⟨hcontent, -⟩ | ⟨block, hcontent, -, hdefect⟩
    · rw [hcontent]
    · rw [hcontent]
    · rw [hcontent]
      exact Option.not_isSome_iff_eq_none.mp (Bool.eq_false_iff.mp (hdefect.trans hnone))

end Agree

/-- Rows in a list. -/
def listSink : RowSink (List StateRow) := ⟨fun row rows => .ok (rows ++ [row]), .ok⟩

/-- One key with two entries of one state. -/
theorem exportStateRows_agrees_two :
    ∃ stats rows, exportStateRows (cutReader 0) listSink none "n".toList [] = .ok (stats, rows)
      ∧ stats.rows = 2
      ∧ ∃ o ∈ (cutReader 0).operators, o.ctx.failed = []
        ∧ (cutReader 0).ExportsWhole o "n".toList stats := by
  have hruns : (exportStateRows (cutReader 0) listSink none "n".toList []).toOption.any
      (fun r => r.1.rows = 2) = true := by
    decide +kernel
  obtain ⟨⟨stats, rows⟩, hok, hrows⟩ := (Option.any_eq_true _ _).mp hruns
  have hexport := eq_ok_of_toOption hok
  have hregular : ∀ o ∈ (cutReader 0).operators, o.Regular := by
    intro o ho
    obtain rfl := List.mem_singleton.mp ho
    exact regular_cutOperator 0
  obtain ⟨o, ho, hopened, hwhole, -⟩ := exportStateRows_agrees hregular hexport
  exact ⟨stats, rows, hexport, of_decide_eq_true hrows, o, ho, hopened, hwhole⟩

end FlinkExplorer
