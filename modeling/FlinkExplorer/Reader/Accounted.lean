import FlinkExplorer.Reader.Open

namespace FlinkExplorer

open Lib

/-!
# No keyed handle is dropped in silence

A subtask that is left out when its operator is opened is taken for one without keys: pages go past
its key-groups and a lookup finds nothing there.

* `openSubtask_eq_none_iff` — a subtask that may hold keys is left out exactly when the delegate of
  its handle has no stream (`HasStream`);
* `keyGroups_openSubtask` — its unit has the range of its handle;
* `blockRange_isSome` — the block of a key-group with an offset is never taken for an empty one;
* `get_unreadable_iff` — what a lookup finds out about a key-group that cannot be read;
* `opened_accounts_iff` — when nothing is dropped, said of the handles in the metadata.
-/

/-! ### Subtasks -/

/-- A subtask that may hold keys: one key-group has an offset, or its handle is of another kind. -/
def SubtaskState.HoldsKeys (st : SubtaskState) : Prop :=
  match st.managedKeyedState with
  | .null => False
  | .keyGroups kg => ∃ o ∈ kg.offsets, 0 < o.toInt
  | _ => True

/-- A delegate with bytes somewhere. -/
def StreamStateHandle.HasStream : StreamStateHandle → Prop
  | .byteStream _ | .relative _ | .file _ | .segment _ => True
  | .null | .emptySegment | .keyGroups _ => False

/-- The delegate of a key-groups handle has a stream. -/
def StateHandle.HasStream : StateHandle → Prop
  | .keyGroups kg => (effectiveDelegate kg).HasStream
  | _ => True

section Subtasks

variable {env : Environment}

/-- A file that is opened is a stream. -/
theorem openStateFile_ne_none {path : Except Text Text} {expected : Int} {f : Text → Nat → Source} :
    (do
      let path ← path
      let len ← openStateFile env path expected
      pure (some (f path len)) : Except Text (Option Source)) ≠ .ok none := by
  intro h
  rcases path with e | path
  · cases h
  · rcases hopen : openStateFile env path expected with e | len
    · replace h : (openStateFile env path expected >>= fun len => pure (some (f path len)))
        = .ok none := h
      rw [hopen] at h
      cases h
    · replace h : (openStateFile env path expected >>= fun len => pure (some (f path len)))
        = .ok none := h
      rw [hopen] at h
      cases h

theorem sourceFor_eq_none_iff {delegate : StreamStateHandle} :
    sourceFor env delegate = .ok none ↔ ¬ delegate.HasStream := by
  cases delegate with
  | null => exact iff_of_true rfl not_false
  | emptySegment => exact iff_of_true rfl not_false
  | keyGroups kg => exact iff_of_true rfl not_false
  | byteStream h => exact iff_of_false (fun h => by cases h) (not_not.mpr trivial)
  | relative h => exact iff_of_false openStateFile_ne_none (not_not.mpr trivial)
  | file h => exact iff_of_false openStateFile_ne_none (not_not.mpr trivial)
  | segment h => exact iff_of_false openStateFile_ne_none (not_not.mpr trivial)

/-- A subtask of which nothing becomes. -/
theorem openSubtask_eq_none_iff {p : Nat} {st : SubtaskState} (hkeyed : st.managedKeyedState.Keyed)
    (hkeys : st.HoldsKeys) : openSubtask env p st = none ↔ ¬ st.managedKeyedState.HasStream := by
  unfold SubtaskState.HoldsKeys at hkeys
  unfold openSubtask
  cases hstate : st.managedKeyedState with
  | null =>
    rw [hstate] at hkeys
    exact hkeys.elim
  | operatorStream h =>
    rw [hstate] at hkeyed
    exact hkeyed.elim
  | keyGroups kg =>
    dsimp only
    rw [openKeyGroups_eq_none, sourceFor_eq_none_iff]
    rfl
  | incrementalRemoteKeyed h => exact iff_of_false (by simp [unsupportedKeyedHandle]) (not_not.mpr trivial)
  | changelog h => exact iff_of_false (by simp [unsupportedKeyedHandle]) (not_not.mpr trivial)
  | changelogByteIncrement h =>
    exact iff_of_false (by simp [unsupportedKeyedHandle]) (not_not.mpr trivial)
  | changelogFileIncrement h =>
    exact iff_of_false (by simp [unsupportedKeyedHandle]) (not_not.mpr trivial)

end Subtasks

/-! ### Ranges -/

/-- The range of the handle of a subtask: its first key-group, and how many there are. -/
def SubtaskState.keyGroups? (st : SubtaskState) : Option (Int × Int) :=
  match st.managedKeyedState with
  | .keyGroups kg => some (kg.startKeyGroup.toInt, kg.numKeyGroups.toInt)
  | other => (unsupportedKeyedHandle other).map fun (_, start, num) => (start, num)

/-- Key-group `g` is in the range of the handle of a subtask. -/
def SubtaskState.InRange (st : SubtaskState) (g : Int) : Prop :=
  ∃ start num, st.keyGroups? = some (start, num) ∧ start ≤ g ∧ g < start + num

/-- The ranges of the subtasks of an operator share no key-group, and end in `i32`. -/
structure Operator.RangesApart (op : Operator) : Prop where
  fits : ∀ st ∈ op.subtaskStates, ∀ start num, st.keyGroups? = some (start, num) →
    -2 ^ 31 < start + num ∧ start + num < 2 ^ 31
  apart : ∀ (p q : Nat) (st st' : SubtaskState) (g : Int), op.subtaskStates[p]? = some st →
    op.subtaskStates[q]? = some st' → st.InRange g → st'.InRange g → p = q

/-- Every handle that may hold keys names a stream. -/
def Operator.NamesStreams (op : Operator) : Prop :=
  ∀ st ∈ op.subtaskStates, st.HoldsKeys → st.managedKeyedState.HasStream

section Ranges

variable {env : Environment} {p : Nat} {st : SubtaskState} {u : ReadUnit}

/-- The range of a unit is that of its subtask's handle. -/
theorem keyGroups_openSubtask (hkeyed : st.managedKeyedState.Keyed)
    (h : openSubtask env p st = some u) : st.keyGroups? = some (u.first, u.last + 1 - u.first) := by
  unfold openSubtask at h
  unfold SubtaskState.keyGroups?
  cases hstate : st.managedKeyedState with
  | keyGroups kg =>
    rw [hstate] at h hkeyed
    have hlen : kg.numKeyGroups.toInt = kg.offsets.length := hkeyed
    rcases openKeyGroups_eq_some h with ⟨f, rfl, hstart, hnum⟩ | ⟨s, rfl, -, hstart, hoffsets, -⟩
    · show some (kg.startKeyGroup.toInt, kg.numKeyGroups.toInt)
        = some (f.startKeyGroup, f.startKeyGroup + f.numKeyGroups - 1 + 1 - f.startKeyGroup)
      rw [hstart, hnum]
      congr 2
      omega
    · have hslen : s.offsets.length = kg.offsets.length := by rw [hoffsets, List.length_map]
      show some (kg.startKeyGroup.toInt, kg.numKeyGroups.toInt)
        = some (s.startKeyGroup, s.startKeyGroup + s.offsets.length - 1 + 1 - s.startKeyGroup)
      rw [hstart, hslen, hlen]
      congr 2
      omega
  | null | operatorStream h' | incrementalRemoteKeyed h' | changelog h' | changelogByteIncrement h'
  | changelogFileIncrement h' =>
    rw [hstate] at h
    dsimp only at h ⊢
    obtain ⟨⟨kind, start, num⟩, hkind, rfl⟩ := Option.map_eq_some_iff.mp h
    rw [hkind]
    show some (start, num) = some (start, start + num - 1 + 1 - start)
    congr 2
    omega

theorem inRange_iff (hkeyed : st.managedKeyedState.Keyed) (h : openSubtask env p st = some u)
    {g : Int} : st.InRange g ↔ u.first ≤ g ∧ g ≤ u.last := by
  have hrange := keyGroups_openSubtask hkeyed h
  constructor
  · rintro ⟨start, num, hsame, hstart, hend⟩
    rw [hrange] at hsame
    obtain ⟨rfl, rfl⟩ := Prod.mk.inj (Option.some.inj hsame)
    omega
  · rintro ⟨hfirst, hlast⟩
    exact ⟨_, _, hrange, hfirst, by omega⟩

end Ranges

/-! ### Key-groups with an offset -/

/-- Key-group `g` has an offset in the `p`-th subtask of an operator. -/
def Operator.HasOffset (op : Operator) (p : Nat) (g : Int) : Prop :=
  ∃ st kg j o, op.subtaskStates[p]? = some st ∧ st.managedKeyedState = .keyGroups kg
    ∧ kg.offsets[j]? = some o ∧ 0 < o.toInt ∧ g = kg.startKeyGroup.toInt + (j : Nat)

theorem headerLen_le {offsets : List Int} {len : Nat} {o : Int} (ho : o ∈ offsets) (hpos : 0 < o) :
    headerLen offsets len ≤ o.toNat := by
  unfold headerLen
  have hmem : o ∈ offsets.filter fun o => 0 < o := List.mem_filter.mpr ⟨ho, decide_eq_true hpos⟩
  refine (Nat.min_le_left _ _).trans ?_
  rcases hmin : (offsets.filter fun o => 0 < o).min? with _ | m
  · rw [List.min?_eq_none_iff] at hmin
    rw [hmin] at hmem
    exact absurd hmem List.not_mem_nil
  · have hle := (List.min?_eq_some_iff.mp hmin).2 o hmem
    rw [hmin]
    show m.toNat ≤ o.toNat
    omega

/-- The block of a key-group with an offset is not empty. -/
theorem blockRange_isSome {s : SubtaskStream} (hheader : s.headerLen = headerLen s.offsets s.src.len)
    (hcheck : checkOffsets s.what s.offsets s.startKeyGroup s.src.len = .ok ()) {j : Nat} {o : Int}
    (ho : s.offsets[j]? = some o) (hpos : 0 < o) : (s.blockRange j).isSome = true := by
  have hmem : o ∈ s.offsets := List.mem_of_getElem? ho
  have hlen := lt_of_checkOffsets hcheck hmem hpos
  have hstart : ¬ (o ≤ 0 ∨ o.toNat < s.headerLen ∨ o.toNat ≥ s.src.len) := by
    have hle : headerLen s.offsets s.src.len ≤ o.toNat := headerLen_le hmem hpos
    omega
  have hlast : o.toNat < min (((s.offsets.drop (j + 1)).find? fun x => x > o).elim s.src.len Int.toNat)
      s.src.len := by
    refine Nat.lt_min.mpr ⟨?_, hlen⟩
    rcases hfind : (s.offsets.drop (j + 1)).find? fun x => x > o with _ | x
    · exact hlen
    · have hgt : x > o := by simpa using List.find?_some hfind
      show o.toNat < x.toNat
      omega
  unfold SubtaskStream.blockRange
  rw [ho]
  simp only [Option.bind_eq_bind, Option.bind_some, if_neg hstart, if_pos hlast, Option.isSome_some]

/-! ### Lookups -/

section Lookups

variable (R : StateReader) (o : OpenOperator)

/-- The block of a key-group of a unit can be read. -/
def ReadUnit.Readable (u : ReadUnit) (g : Int) : Prop :=
  ∃ s header block, u = .stream s ∧ s.header = .ok header
    ∧ (R.readBlock o s g .zero ()).1 = .ok (some (header, block))

/-- A unit says that it cannot read a key-group. -/
def ReadUnit.Refuses (u : ReadUnit) (g : Int) : Prop :=
  u.error.isSome = true ∨ ∃ s e, u = .stream s ∧ (R.readBlock o s g .zero ()).1 = .error e

/-- The end of the range of a unit is computed in `i32`. -/
def ReadUnit.Fits (u : ReadUnit) : Prop := -2 ^ 31 < u.last + 1 ∧ u.last + 1 < 2 ^ 31

/-- The units whose range is computed when a key-group is looked up: up to the one that holds it, or
    the first one when no header says what the keys are. -/
def OpenOperator.compared (g : Int) : List ReadUnit :=
  match o.ctx.firstHeader with
  | none => o.ctx.units.head?.toList
  | some _ =>
    (o.ctx.units.takeWhile fun u => ¬ (u.first ≤ g ∧ g ≤ u.last)) ++ (o.ctx.unitOf g).toList

/-- A text is looked up in a key-group; in any when no header says what the keys are. -/
inductive StateReader.LooksUp (keyText : Text) (g : Int) : Prop
  | anywhere (hfirst : o.ctx.firstHeader = none)
  | group {first : SubtaskHeader} {key : JavaKey} {canonical : Text}
    (hfirst : o.ctx.firstHeader = some first)
    (hkey : R.parseLookup first keyText = .ok (key, canonical)) (hmax : o.maxParallelism ≠ 0)
    (hgroup : keyGroupForHash key.hashCode o.maxParallelism = g)

variable {R o} {op : Text} (ho : R.operator op = .ok o) {c : BlockCache} (hc : R.Sound c)

include ho hc

theorem blockOf_error_iff {u : ReadUnit} (hu : u ∈ o.ctx.units) (g : Int) :
    (∃ why, (R.blockOf o u g c).1 = .error why) ↔ u.Refuses R o g := by
  unfold ReadUnit.Refuses StateReader.blockOf
  cases u with
  | failed f => exact iff_of_true ⟨_, rfl⟩ (.inl rfl)
  | stream s =>
    dsimp only
    by_cases herror : (ReadUnit.stream s).error.isSome = true
    · rw [if_pos herror]
      exact iff_of_true ⟨_, rfl⟩ (.inl herror)
    · rw [if_neg herror]
      obtain ⟨i, hi⟩ := StateReader.operator_eq_ok ho
      obtain ⟨hread, -, -⟩ := grouped_agrees hi true s hu g .zero c hc
      have hzero : ReadStats.zero.visited = ReadStats.zero := rfl
      rw [hzero] at hread
      have hstream : (∃ s' e, ReadUnit.stream s = .stream s'
          ∧ (R.readBlock o s' g .zero ()).1 = .error e)
          ↔ ∃ e, (R.readBlock o s g .zero ()).1 = .error e := by
        constructor
        · rintro ⟨s', e, heq, h⟩
          cases heq
          exact ⟨e, h⟩
        · rintro ⟨e, h⟩
          exact ⟨s, e, rfl, h⟩
      rw [hstream, or_iff_right herror, ← hread]
      rcases hg : R.grouped o true s g .zero c with ⟨e | _ | ⟨header, block⟩, stats, d⟩
      · exact iff_of_true ⟨_, rfl⟩ ⟨e, rfl⟩
      · simp
      · simp

/-- **A lookup says that it cannot read** exactly when the unit found for the key-group says so. -/
theorem get_unreadable_iff {keyText canonical : Text} {first : SubtaskHeader} {key : JavaKey}
    (hfirst : o.ctx.firstHeader = some first)
    (hkey : R.parseLookup first keyText = .ok (key, canonical)) {u : ReadUnit}
    (hunit : o.ctx.unitOf (keyGroupForHash key.hashCode o.maxParallelism) = some u) :
    (∃ why, (R.get op keyText c).1 = .error (.unreadable why))
      ↔ u.Refuses R o (keyGroupForHash key.hashCode o.maxParallelism) := by
  rw [← blockOf_error_iff ho hc (StateReader.mem_units_of_unitOf hunit)]
  unfold StateReader.get
  rw [ho]
  dsimp only
  rw [hfirst]
  dsimp only
  rw [hkey]
  dsimp only
  rw [hunit]
  dsimp only
  rcases hblock : R.blockOf o u (keyGroupForHash key.hashCode o.maxParallelism) c
    with ⟨why | _ | ⟨s, header, block⟩, stats, d⟩
  · exact iff_of_true ⟨_, rfl⟩ ⟨why, rfl⟩
  · simp
  · refine iff_of_false ?_ (by simp)
    dsimp only
    cases block.keys.findIdx? fun k => k.key == canonical with
    | some ord => simp
    | none => cases block.defect <;> simp

omit hc in
/-- Without a header nothing is known about the keys. -/
theorem get_no_header {keyText : Text} (hfirst : o.ctx.firstHeader = none) {u : ReadUnit}
    (hu : u ∈ o.ctx.units) : ∃ why, (R.get op keyText c).1 = .error (.unreadable why) := by
  unfold StateReader.get
  rw [ho]
  dsimp only
  rw [hfirst]
  dsimp only
  cases hunits : o.ctx.units with
  | nil =>
    rw [hunits] at hu
    cases hu
  | cons v units => exact ⟨_, rfl⟩

end Lookups

/-! ### What is accounted for -/

section Accounted

variable (env : Environment) (sp : Savepoint) (i : Nat) (op : Operator)

/-- The block of key-group `g` of the `p`-th subtask can be read. -/
def ReadableAt (p : Nat) (g : Int) : Prop :=
  ∃ s ∈ (OpContext.opened env i op).streams, s.statePos = p
    ∧ (ReadUnit.stream s).Readable (.ofSavepoint env sp) (.opened env i op) g

/-- `keyText` is looked up in key-group `g`, which has an offset in the `p`-th subtask and cannot be
    read there. -/
structure AsksUnreadable (p : Nat) (g : Int) (opText keyText : Text) : Prop where
  offset : op.HasOffset p g
  unreadable : ¬ ReadableAt env sp i op p g
  operator : (StateReader.ofSavepoint env sp).operator opText = .ok (.opened env i op)
  looksUp : (StateReader.ofSavepoint env sp).LooksUp (.opened env i op) keyText g

/-- Every subtask that may hold keys is a stream or a failure. -/
def ReportsSubtasks : Prop :=
  ∀ p st, op.subtaskStates[p]? = some st → st.HoldsKeys →
    (∃ s ∈ (OpContext.opened env i op).streams, s.statePos = p)
      ∨ ∃ f ∈ (OpContext.opened env i op).failed, openSubtask env p st = some (.failed f)

/-- Nothing is dropped in silence: every subtask that may hold keys is a stream or a failure, and a
    lookup in a key-group that cannot be read says so, whatever was called before. -/
structure Accounts : Prop where
  subtasks : ReportsSubtasks env i op
  lookups : ∀ p g opText keyText, AsksUnreadable env sp i op p g opText keyText →
    (∀ u ∈ (OpenOperator.opened env i op).compared g, u.Fits)
      ∧ ∀ capacity calls, ∃ why, ((StateReader.ofSavepoint env sp).get opText keyText
          ((StateReader.ofSavepoint env sp).cacheAfter (.empty capacity) calls)).1
        = .error (.unreadable why)

variable {env sp i op}

/-- What became of a subtask is among the units. -/
theorem accounted_iff {p : Nat} {st : SubtaskState} (hst : op.subtaskStates[p]? = some st) :
    ((∃ s ∈ (OpContext.opened env i op).streams, s.statePos = p)
      ∨ ∃ f ∈ (OpContext.opened env i op).failed, openSubtask env p st = some (.failed f))
      ↔ openSubtask env p st ≠ none := by
  constructor
  · rintro (⟨s, hs, hpos⟩ | ⟨f, -, hf⟩)
    · have hunit : ReadUnit.stream s ∈ (OpContext.opened env i op).units :=
        (OpContext.mem_units _).mpr (.inl ⟨s, hs, rfl⟩)
      obtain ⟨q, st', hst', hopen⟩ := mem_units_opened.mp hunit
      obtain rfl : q = p := (statePos_openSubtask hopen).symm.trans hpos
      rw [hst] at hst'
      cases hst'
      rw [hopen]
      exact Option.some_ne_none _
    · rw [hf]
      exact Option.some_ne_none _
  · intro hsome
    obtain ⟨u, hu⟩ := Option.ne_none_iff_exists'.mp hsome
    have hunit : u ∈ (OpContext.opened env i op).units := mem_units_opened.mpr ⟨p, st, hst, hu⟩
    rcases (OpContext.mem_units _).mp hunit with ⟨s, hs, rfl⟩ | ⟨f, hf, rfl⟩
    · exact .inl ⟨s, hs, statePos_openSubtask hu⟩
    · exact .inr ⟨f, hf, hu⟩

/-- **The subtasks are all reported exactly when their handles name streams.** -/
theorem reportsSubtasks_iff (hkeyed : ∀ st ∈ op.subtaskStates, st.managedKeyedState.Keyed) :
    ReportsSubtasks env i op ↔ op.NamesStreams := by
  constructor
  · intro h st hmem hkeys
    by_contra hnone
    obtain ⟨p, hp⟩ := List.mem_iff_getElem?.mp hmem
    exact (accounted_iff hp).mp (h p st hp hkeys)
      ((openSubtask_eq_none_iff (hkeyed st hmem) hkeys).mpr hnone)
  · intro h p st hst hkeys
    have hmem : st ∈ op.subtaskStates := List.mem_of_getElem? hst
    exact (accounted_iff hst).mpr fun hnone =>
      (openSubtask_eq_none_iff (hkeyed st hmem) hkeys).mp hnone (h st hmem hkeys)

/-- A subtask in which a key-group has an offset: it holds keys, and the key-group is in its range. -/
theorem exists_of_hasOffset (hkeyed : ∀ st ∈ op.subtaskStates, st.managedKeyedState.Keyed) {p : Nat}
    {g : Int} (h : op.HasOffset p g) :
    ∃ st ∈ op.subtaskStates, op.subtaskStates[p]? = some st ∧ st.HoldsKeys ∧ st.InRange g := by
  obtain ⟨st, kg, j, o, hst, hstate, ho, hpos, rfl⟩ := h
  have hmem : st ∈ op.subtaskStates := List.mem_of_getElem? hst
  have hlen : kg.numKeyGroups.toInt = kg.offsets.length := by
    have h := hkeyed st hmem
    rwa [hstate] at h
  have hj : j < kg.offsets.length := (List.getElem?_eq_some_iff.mp ho).1
  refine ⟨st, hmem, hst, ?_, kg.startKeyGroup.toInt, kg.numKeyGroups.toInt, ?_, by omega, by omega⟩
  · unfold SubtaskState.HoldsKeys
    rw [hstate]
    exact ⟨o, List.mem_of_getElem? ho, hpos⟩
  · unfold SubtaskState.keyGroups?
    rw [hstate]

/-- The ends of the units' ranges are computed where those of the handles are in `i32`. -/
theorem fits_of_rangesApart (hkeyed : ∀ st ∈ op.subtaskStates, st.managedKeyedState.Keyed)
    (hapart : op.RangesApart) {u : ReadUnit} (hu : u ∈ (OpContext.opened env i op).units) :
    u.Fits := by
  obtain ⟨p, st, hst, hopen⟩ := mem_units_opened.mp hu
  have hmem : st ∈ op.subtaskStates := List.mem_of_getElem? hst
  have h := hapart.fits st hmem _ _ (keyGroups_openSubtask (hkeyed st hmem) hopen)
  unfold ReadUnit.Fits
  omega

theorem mem_units_of_compared {o : OpenOperator} {g : Int} {u : ReadUnit}
    (h : u ∈ o.compared g) : u ∈ o.ctx.units := by
  unfold OpenOperator.compared at h
  split at h
  · exact List.mem_of_mem_head? (Option.mem_toList.mp h)
  · rcases List.mem_append.mp h with h | h
    · exact (List.takeWhile_subset _) h
    · exact StateReader.mem_units_of_unitOf (Option.mem_toList.mp h)

/-- **The unit of a subtask refuses a key-group with an offset that cannot be read**: it never takes
    it for an empty one. -/
theorem refuses_of_hasOffset {p : Nat} {g : Int} (h : op.HasOffset p g)
    (hunreadable : ¬ ReadableAt env sp i op p g) {st : SubtaskState}
    (hst : op.subtaskStates[p]? = some st) {u : ReadUnit} (hu : openSubtask env p st = some u) :
    u.Refuses (.ofSavepoint env sp) (.opened env i op) g := by
  obtain ⟨st', kg, j, o, hst', hstate, ho, hpos, rfl⟩ := h
  rw [hst] at hst'
  cases hst'
  have hopen := hu
  unfold openSubtask at hopen
  rw [hstate] at hopen
  -- The handle failed to open, or it is a stream whose block at that offset has bytes.
  rcases openKeyGroups_eq_some hopen with
    ⟨f, rfl, -, -⟩ | ⟨s, rfl, hplace, hstart, hoffsets, hheaderLen, hcheck⟩
  · exact .inl rfl
  · have hoffset : s.offsets[j]? = some o.toInt := by
      rw [hoffsets, List.getElem?_map, ho]
      rfl
    obtain ⟨⟨start, last⟩, hrange⟩ :=
      Option.isSome_iff_exists.mp (blockRange_isSome hheaderLen hcheck hoffset hpos)
    have hindex : (kg.startKeyGroup.toInt + (j : Int) - s.startKeyGroup).toNat = j := by omega
    -- a header that cannot be read refuses every key-group of the stream
    rcases hheader : s.header with e | header
    · left
      unfold ReadUnit.error
      dsimp only
      rw [hheader]
      rfl
    · right
      rcases hread : ((StateReader.ofSavepoint env sp).readBlock (.opened env i op) s
        (kg.startKeyGroup.toInt + (j : Int)) .zero ()).1 with e | _ | ⟨header', block⟩
      · exact ⟨s, e, rfl, hread⟩
      · -- An empty key-group has no offset.
        unfold StateReader.readBlock at hread
        rw [hindex, hrange, hheader] at hread
        dsimp only at hread
        split at hread <;> cases hread
      · have hmem : ReadUnit.stream s ∈ (OpContext.opened env i op).units :=
          mem_units_opened.mpr ⟨p, st, hst, hu⟩
        have hstream : s ∈ (OpContext.opened env i op).streams := by
          rcases (OpContext.mem_units _).mp hmem with ⟨s', hs', heq⟩ | ⟨f, -, heq⟩
          · cases heq
            exact hs'
          · cases heq
        have hsame : s.header = .ok header' := by
          unfold StateReader.readBlock at hread
          rw [hindex, hrange, hheader] at hread
          dsimp only at hread
          split at hread <;> cases hread
          exact hheader
        exact absurd ⟨s, hstream, hplace, s, header', block, rfl, hsame, hread⟩ hunreadable

/-- A lookup in a key-group that cannot be read says so, where the handles name streams and their
    ranges are apart: the unit found for the key-group is that of the subtask with the offset. -/
theorem lookup_unreadable (hkeyed : ∀ st ∈ op.subtaskStates, st.managedKeyedState.Keyed)
    (hapart : op.RangesApart) (hnames : op.NamesStreams) {p : Nat} {g : Int} {opText keyText : Text}
    (hasks : AsksUnreadable env sp i op p g opText keyText) {c : BlockCache}
    (hc : (StateReader.ofSavepoint env sp).Sound c) :
    ∃ why, ((StateReader.ofSavepoint env sp).get opText keyText c).1 = .error (.unreadable why) := by
  obtain ⟨st, hmem, hst, hkeys, hrange⟩ := exists_of_hasOffset hkeyed hasks.offset
  have hsome : openSubtask env p st ≠ none := fun hnone =>
    (openSubtask_eq_none_iff (hkeyed st hmem) hkeys).mp hnone (hnames st hmem hkeys)
  obtain ⟨u, hu⟩ := Option.ne_none_iff_exists'.mp hsome
  have hunits : u ∈ (OpContext.opened env i op).units := mem_units_opened.mpr ⟨p, st, hst, hu⟩
  cases hasks.looksUp with
  | anywhere hnone => exact get_no_header hasks.operator hnone hunits
  | group hheader hkey hmax hgroup =>
    have hfound : ((OpContext.opened env i op).unitOf g).isSome = true :=
      List.find?_isSome.mpr
        ⟨u, hunits, decide_eq_true ((inRange_iff (hkeyed st hmem) hu).mp hrange)⟩
    obtain ⟨v, hunit⟩ := Option.isSome_iff_exists.mp hfound
    -- The unit found is that of a subtask whose range holds the key-group too.
    obtain ⟨q, st', hst', hv⟩ := mem_units_opened.mp (StateReader.mem_units_of_unitOf hunit)
    have hholds : v.first ≤ g ∧ g ≤ v.last := by
      have h := List.find?_some hunit
      exact of_decide_eq_true h
    have hrange' : st'.InRange g :=
      (inRange_iff (hkeyed st' (List.mem_of_getElem? hst')) hv).mpr hholds
    obtain rfl := hapart.apart p q st st' g hst hst' hrange hrange'
    subst hgroup
    exact (get_unreadable_iff hasks.operator hc hheader hkey hunit).mpr
      (refuses_of_hasOffset hasks.offset hasks.unreadable hst' hv)

/-- **When nothing is dropped in silence**, for an operator parsed from a `_metadata` file: the
    subtasks are all reported exactly when every handle that may hold keys names a stream; and where
    the subtasks' ranges are apart, that is all it takes for the lookups too. -/
theorem opened_accounts_iff {source : Bytes} (hparse : parseMetadata source = .ok sp)
    (hop : sp.operators[i]? = some op) :
    (ReportsSubtasks env i op ↔ op.NamesStreams)
      ∧ (op.RangesApart → (Accounts env sp i op ↔ op.NamesStreams)) := by
  have hkeyed : ∀ st ∈ op.subtaskStates, st.managedKeyedState.Keyed :=
    parseMetadata_keyed hparse op (List.mem_of_getElem? hop)
  have hsubtasks : ReportsSubtasks env i op ↔ op.NamesStreams := reportsSubtasks_iff hkeyed
  refine ⟨hsubtasks, fun hapart => ⟨fun h => hsubtasks.mp h.subtasks, fun hnames => ?_⟩⟩
  constructor
  · exact hsubtasks.mpr hnames
  · intro p g opText keyText hasks
    refine ⟨fun u hu => fits_of_rangesApart hkeyed hapart (mem_units_of_compared hu), ?_⟩
    intro capacity calls
    exact lookup_unreadable hkeyed hapart hnames hasks
      (StateReader.sound_cacheAfter calls (sound_empty capacity))

end Accounted

/-! ### A subtask that is dropped -/

/-- A file of version 3 with one operator, whose only subtask holds key-group 0 at an offset of 100
    in a delegate that is null. -/
def droppedMetadata : Bytes :=
  [0x49, 0x60, 0x67, 0x2D, 0, 0, 0, 3, 0, 0, 0, 0, 0, 0, 0, 1, 0, 0, 0, 0, 0, 0, 0, 1,
    0, 0, 0, 0, 0, 0, 0, 1, 0, 0, 0, 0, 0, 0, 0, 2, 0, 0, 0, 1, 0, 0, 0, 128, 0, 0, 0, 0, 1,
    0, 0, 0, 0, 0, 0, 0, 0, 0, 0, 0, 0, 3, 0, 0, 0, 0, 0, 0, 0, 1, 0, 0, 0, 0, 0, 0, 0, 100, 0,
    0, 0, 0, 0, 0, 0, 0, 0, 0]

/-- The only subtask of the only operator holds one key-group, at an offset in a null delegate. -/
def Savepoint.dropped (sp : Savepoint) : Bool :=
  match sp.operators with
  | [⟨_, _, _, _, _, _, [⟨_, _, _, .keyGroups ⟨_, _, [offset], .null⟩, _, _, _⟩], _⟩] =>
    0 < offset.toInt
  | _ => false

theorem parseMetadata_droppedMetadata :
    ∃ sp, parseMetadata droppedMetadata = .ok sp ∧ sp.dropped = true := by
  have hparse : (parseMetadata droppedMetadata).toOption.any Savepoint.dropped = true := by
    decide +kernel
  rcases hsp : parseMetadata droppedMetadata with e | sp
  · rw [hsp] at hparse
    cases hparse
  · rw [hsp] at hparse
    exact ⟨sp, rfl, hparse⟩

theorem exists_of_dropped {sp : Savepoint} (h : sp.dropped = true) :
    ∃ op st, sp.operators[0]? = some op ∧ op.subtaskStates = [st] ∧ st.HoldsKeys
      ∧ ¬ st.managedKeyedState.HasStream := by
  unfold Savepoint.dropped at h
  split at h
  · rename_i hoperators
    rw [hoperators]
    exact ⟨_, _, rfl, rfl, ⟨_, List.mem_singleton.mpr rfl, of_decide_eq_true h⟩, not_false⟩
  · cases h

/-- An environment without files. -/
def emptyEnvironment : Environment where
  dir := []
  openRegular _ := .error []
  files _ _ _ := .error []
  inflate := .ok
  resolve _ := ⟨false, "Integer".toList, none, [], [], [], [], 0⟩
  host := ⟨⟨fun _ => none, fun _ => none⟩, fun _ => none, fun _ => none, fun _ => none, id⟩
  proto := none
  entryLimit := 10
  entryLimit_pos := tenEntries_pos
  keyedEntrySize := 1
  rawKeySize := 1

theorem opened_accounts_iff_dropped :
    ∃ sp op, parseMetadata droppedMetadata = .ok sp ∧ sp.operators[0]? = some op
      ∧ (ReportsSubtasks emptyEnvironment 0 op ↔ op.NamesStreams)
      ∧ (op.RangesApart → (Accounts emptyEnvironment sp 0 op ↔ op.NamesStreams)) := by
  obtain ⟨sp, hparse, hdropped⟩ := parseMetadata_droppedMetadata
  obtain ⟨op, st, hop, -⟩ := exists_of_dropped hdropped
  exact ⟨sp, op, hparse, hop, opened_accounts_iff hparse hop⟩

/-- The subtask is neither a stream nor a failure. -/
theorem opened_drops_subtask :
    ∃ sp op, parseMetadata droppedMetadata = .ok sp ∧ sp.operators[0]? = some op
      ∧ ¬ Accounts emptyEnvironment sp 0 op := by
  obtain ⟨sp, hparse, hdropped⟩ := parseMetadata_droppedMetadata
  obtain ⟨op, st, hop, hsubtasks, hkeys, hnone⟩ := exists_of_dropped hdropped
  have hst : op.subtaskStates[0]? = some st := by rw [hsubtasks]; rfl
  have hkeyed := parseMetadata_keyed hparse op (List.mem_of_getElem? hop) st
    (List.mem_of_getElem? hst)
  refine ⟨sp, op, hparse, hop, fun h => ?_⟩
  exact (accounted_iff hst).mp (h.subtasks 0 st hst hkeys)
    ((openSubtask_eq_none_iff hkeyed hkeys).mpr hnone)

end FlinkExplorer
