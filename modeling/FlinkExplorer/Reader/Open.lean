import FlinkExplorer.Parser.Metadata
import FlinkExplorer.Reader.Transparent

namespace FlinkExplorer

open Lib

/-!
# `reader/mod.rs`, `reader/source.rs`, `state_file.rs` — opening an operator

`OpContext.opened` opens the keyed stream of every subtask of an operator: `sourceFor` says where
its bytes are, `checkOffsets` whether they are all there.  A subtask becomes a stream or a failure
(`openSubtask`), or it is left out.

Paths are those of Unix.
-/

/-- What opening a savepoint takes from outside: the directory, the regular files and their lengths
    (`openRegular`), the bytes of files, Snappy's decoder, how a header resolves, the texts of the
    standard library, and the sizes of records. -/
structure Environment where
  dir : Text
  openRegular : Text → Except Text Nat
  files : Files
  inflate : Bytes → Except Text Bytes
  resolve : Bytes → SubtaskHeader
  host : HostText
  proto : Option ProtoContext
  entryLimit : Nat
  entryLimit_pos : 0 < entryLimit
  keyedEntrySize : Nat
  rawKeySize : Nat

/-! ### `state_file.rs` -/

/-- A text before and after the first occurrence of a pattern. -/
def splitOnceAt (p : Text) : Text → Option (Text × Text)
  | [] => if p.isEmpty then some ([], []) else none
  | c :: cs =>
    match stripPrefix p (c :: cs) with
    | some rest => some ([], rest)
    | none => (splitOnceAt p cs).map fun (before, rest) => (c :: before, rest)

/-- Whether a character may stand in the scheme of a remote file system. -/
def isSchemeChar (c : Char) : Bool :=
  c.isAlphanum || c == '+' || c == '-' || c == '.'

/-- The local path of an absolute state-file handle. -/
def localPath (flinkPath : Text) : Except Text Text :=
  match stripPrefix "file:".toList flinkPath with
  | some rest => .ok ('/' :: rest.dropWhile (· == '/'))
  | none =>
    match splitOnceAt "://".toList flinkPath with
    | some (scheme, _) =>
      if !scheme.isEmpty && scheme.all isSchemeChar then
        .error (flinkPath ++ ": remote file system (".toList ++ scheme
          ++ "), not readable locally; copy the savepoint to a local directory".toList)
      else .ok flinkPath
    | none => .ok flinkPath

/-- `Path::join`. -/
def joinPath (dir path : Text) : Text :=
  if path.head? = some '/' then path
  else if dir.isEmpty ∨ dir.getLast? = some '/' then dir ++ path
  else dir ++ '/' :: path

/-- The path of a relative handle, which must stay inside the savepoint directory. -/
def relativePath (env : Environment) (relative : Text) : Except Text Text :=
  let escapes := relative.head? = some '/' ∨ (relative.splitOn '/').contains "..".toList
  if escapes ∨ relative.isEmpty then
    .error ("relative state handle ".toList ++ env.host.debugText relative
      ++ ": refused: a relative handle must name a file inside the ".toList
      ++ "savepoint directory (no absolute path, no `..`)".toList)
  else .ok (joinPath env.dir relative)

/-- A file at least as long as its handle says; a negative length is unknown. -/
def checkLen (path : Text) (actual : Nat) (expected : Int) : Except Text Unit :=
  if 0 ≤ expected ∧ (actual : Int) < expected then
    .error (path ++ ": truncated: ".toList ++ natText actual ++ " of ".toList ++ intText expected
      ++ " bytes".toList)
  else .ok ()

/-- `state_file::open`: the length of a regular file. -/
def openStateFile (env : Environment) (path : Text) (expected : Int) : Except Text Nat := do
  let len ← env.openRegular path
  checkLen path len expected
  pure len

/-- `max_by_key`: the last of the greatest. -/
def lastMax : List (Int × Nat) → Option (Int × Nat)
  | [] => none
  | x :: xs =>
    match lastMax xs with
    | none => some x
    | some y => if y.1 < x.1 then some x else some y

/-- Every key-group must start inside the stream. -/
def checkOffsets (what : Text) (offsets : List Int) (startKeyGroup : Int) (len : Nat) :
    Except Text Unit :=
  match lastMax (offsets.zipIdx.filter fun x => 0 < x.1) with
  | some (offset, i) =>
    if offset.toNat ≥ len then
      .error (what ++ ": truncated: key-group ".toList ++ intText (startKeyGroup + i)
        ++ " starts at byte ".toList ++ intText offset ++ ", the stream has ".toList ++ natText len
        ++ " bytes".toList)
    else .ok ()
  | none => .ok ()

theorem le_lastMax {xs : List (Int × Nat)} {x : Int × Nat} (hx : x ∈ xs) :
    ∃ m, lastMax xs = some m ∧ x.1 ≤ m.1 := by
  induction xs with
  | nil => cases hx
  | cons y xs ih =>
    unfold lastMax
    rcases List.mem_cons.mp hx with rfl | hmem
    · cases lastMax xs with
      | none => exact ⟨x, rfl, le_rfl⟩
      | some m =>
        by_cases hlt : m.1 < x.1
        · exact ⟨x, if_pos hlt, le_rfl⟩
        · exact ⟨m, if_neg hlt, not_lt.mp hlt⟩
    · obtain ⟨m, hm, hle⟩ := ih hmem
      rw [hm]
      by_cases hlt : m.1 < y.1
      · exact ⟨y, if_pos hlt, hle.trans hlt.le⟩
      · exact ⟨m, if_neg hlt, hle⟩

/-- A stream that passes the check holds the start of every key-group. -/
theorem lt_of_checkOffsets {what : Text} {offsets : List Int} {startKeyGroup : Int} {len : Nat}
    (h : checkOffsets what offsets startKeyGroup len = .ok ()) {o : Int} (ho : o ∈ offsets)
    (hpos : 0 < o) : o.toNat < len := by
  obtain ⟨i, hi⟩ := List.mem_iff_getElem?.mp ho
  have hmem : (o, i) ∈ offsets.zipIdx.filter fun x => 0 < x.1 :=
    List.mem_filter.mpr ⟨List.mem_zipIdx_iff_getElem?.mpr hi, decide_eq_true hpos⟩
  obtain ⟨⟨m, j⟩, hm, hle⟩ := le_lastMax hmem
  unfold checkOffsets at h
  rw [hm] at h
  dsimp only at h hle
  by_cases hlen : m.toNat ≥ len
  · rw [if_pos hlen] at h
    cases h
  · omega

/-! ### `source.rs` -/

/-- Where a delegate's bytes are; `none` is no stream at all. -/
def sourceFor (env : Environment) : StreamStateHandle → Except Text (Option Source)
  | .byteStream h => .ok (some (.inline h.data))
  | .relative h => do
    let path ← relativePath env h.relativePath
    let len ← openStateFile env path h.stateSize.toInt
    pure (some (.file path 0 len))
  | .file h => do
    let path ← localPath h.filePath
    let len ← openStateFile env path h.stateSize.toInt
    pure (some (.file path 0 len))
  | .segment h => do
    let path ← localPath h.filePath
    let base := h.startPos.toInt.toNat
    let len := h.stateSize.toInt.toNat
    -- The segment must lie within its file.
    let _ ← openStateFile env path (Int64.ofNat (base + len)).toInt
    pure (some (.file path base len))
  | .keyGroups _ | .null | .emptySegment => .ok none

/-! ### `OpContext::open` -/

/-- Unwrap the delegate of a keyed handle, which may itself nest a key-groups handle. -/
def effectiveDelegate (kg : KeyGroupsStateHandle) : StreamStateHandle :=
  match kg.delegateHandle with
  | .keyGroups nested => nested.delegateHandle
  | other => other

/-- A keyed handle that is not read, by kind and key-group range. -/
def unsupportedKeyedHandle : StateHandle → Option (Text × Int × Int)
  | .incrementalRemoteKeyed h => some
    ("IncrementalRemoteKeyedStateHandle (incremental RocksDB)".toList, h.startKeyGroup.toInt,
      h.numKeyGroups.toInt)
  | .changelog h => some
    ("ChangelogStateBackendHandle (changelog)".toList, h.startKeyGroup.toInt, h.numKeyGroups.toInt)
  | .changelogByteIncrement h => some
    ("InMemoryChangelogStateHandle (changelog)".toList, h.startKeyGroup.toInt, h.numKeyGroups.toInt)
  | .changelogFileIncrement h => some
    ("ChangelogStateHandleStreamImpl (changelog)".toList, h.startKeyGroup.toInt,
      h.numKeyGroups.toInt)
  | .null | .keyGroups _ | .operatorStream _ => none

def inlineName (subtask : Int) : Text := "subtask ".toList ++ intText subtask ++ " (inline)".toList

/-- The file of a source, or the subtask of an inline one. -/
def Source.what (subtask : Int) : Source → Text
  | .file path _ _ => path
  | .inline _ => inlineName subtask

/-- Where a delegate's bytes are, for messages. -/
def describeDelegate (dir : Text) (subtask : Int) : StreamStateHandle → Text
  | .relative h => joinPath dir h.relativePath
  | .file h => h.filePath
  | .segment h => h.filePath
  | _ => inlineName subtask

/-- The header runs from offset 0 to the first key-group. -/
def headerLen (offsets : List Int) (streamLen : Nat) : Nat :=
  min ((offsets.filter fun o => 0 < o).min?.elim streamLen Int.toNat) streamLen

section Opening

variable (env : Environment)

/-- Open the stream of a key-groups handle. -/
def openKeyGroups (statePos : Nat) (st : SubtaskState) (kg : KeyGroupsStateHandle) :
    Option ReadUnit :=
  let delegate := effectiveDelegate kg
  let subtask := st.subtaskIndex.toInt
  let start := kg.startKeyGroup.toInt
  let offsets := kg.offsets.map Int64.toInt
  let fail (error : Text) := ReadUnit.failed
    ⟨subtask, start, kg.numKeyGroups.toInt, describeDelegate env.dir subtask delegate, error⟩
  match sourceFor env delegate with
  | .ok none => none
  | .error e => some (fail e)
  | .ok (some src) =>
    let what := src.what subtask
    match checkOffsets what offsets start src.len with
    | .error e => some (fail e)
    | .ok () =>
      let len := headerLen offsets src.len
      some (.stream {
        subtaskIndex := subtask
        statePos := statePos
        startKeyGroup := start
        offsets := offsets
        src := src
        what := what
        headerLen := len
        header := (src.read env.files 0 len).map env.resolve })

/-- What opening makes of a subtask. -/
def openSubtask (statePos : Nat) (st : SubtaskState) : Option ReadUnit :=
  match st.managedKeyedState with
  | .keyGroups kg => openKeyGroups env statePos st kg
  | other => (unsupportedKeyedHandle other).map fun (kind, start, num) =>
    let subtask := "subtask ".toList ++ intText st.subtaskIndex.toInt
    .failed ⟨st.subtaskIndex.toInt, start, num, subtask ++ " (".toList ++ kind ++ [')'],
      subtask ++ ": unsupported keyed handle ".toList ++ kind
        ++ ": only canonical savepoints (key-groups handles) are read".toList⟩

end Opening

def ReadUnit.stream? : ReadUnit → Option SubtaskStream
  | .stream s => some s
  | .failed _ => none

def ReadUnit.failed? : ReadUnit → Option FailedSubtask
  | .stream _ => none
  | .failed f => some f

/-- What opening makes of the subtasks of an operator, in their order. -/
def openSubtasks (env : Environment) (op : Operator) : List ReadUnit :=
  op.subtaskStates.zipIdx.filterMap fun x => openSubtask env x.2 x.1

section Opened

variable {env : Environment}

/-- What a subtask becomes, when its handle is one of key-groups that has a source. -/
theorem openKeyGroups_eq_some {statePos : Nat} {st : SubtaskState} {kg : KeyGroupsStateHandle}
    {u : ReadUnit} (h : openKeyGroups env statePos st kg = some u) :
    (∃ f, u = .failed f ∧ f.startKeyGroup = kg.startKeyGroup.toInt
        ∧ f.numKeyGroups = kg.numKeyGroups.toInt)
      ∨ ∃ s, u = .stream s ∧ s.statePos = statePos ∧ s.startKeyGroup = kg.startKeyGroup.toInt
        ∧ s.offsets = kg.offsets.map Int64.toInt ∧ s.headerLen = headerLen s.offsets s.src.len
        ∧ checkOffsets s.what s.offsets s.startKeyGroup s.src.len = .ok () := by
  unfold openKeyGroups at h
  dsimp only at h
  rcases hsource : sourceFor env (effectiveDelegate kg) with e | _ | src
  · rw [hsource] at h
    exact .inl ⟨_, (Option.some.inj h).symm, rfl, rfl⟩
  · rw [hsource] at h
    cases h
  · rw [hsource] at h
    dsimp only at h
    rcases hcheck : checkOffsets (src.what st.subtaskIndex.toInt) (kg.offsets.map Int64.toInt)
      kg.startKeyGroup.toInt src.len with e | ⟨⟩
    · rw [hcheck] at h
      exact .inl ⟨_, (Option.some.inj h).symm, rfl, rfl⟩
    · rw [hcheck] at h
      exact .inr ⟨_, (Option.some.inj h).symm, rfl, rfl, rfl, rfl, hcheck⟩

theorem openKeyGroups_eq_none {statePos : Nat} {st : SubtaskState} {kg : KeyGroupsStateHandle} :
    openKeyGroups env statePos st kg = none ↔ sourceFor env (effectiveDelegate kg) = .ok none := by
  unfold openKeyGroups
  dsimp only
  rcases hsource : sourceFor env (effectiveDelegate kg) with e | _ | src
  · simp
  · simp
  · dsimp only
    rcases hcheck : checkOffsets (src.what st.subtaskIndex.toInt) (kg.offsets.map Int64.toInt)
      kg.startKeyGroup.toInt src.len with e | ⟨⟩
    · simp
    · simp

/-- A stream keeps the place of its subtask. -/
theorem statePos_openSubtask {statePos : Nat} {st : SubtaskState} {s : SubtaskStream}
    (h : openSubtask env statePos st = some (.stream s)) : s.statePos = statePos := by
  unfold openSubtask at h
  split at h
  · rcases openKeyGroups_eq_some h with ⟨f, hf, -⟩ | ⟨s', hs', hpos, -⟩
    · cases hf
    · cases hs'
      exact hpos
  · rw [Option.map_eq_some_iff] at h
    obtain ⟨x, -, hx⟩ := h
    cases hx

theorem sublist_map_filterMap {α β γ : Type} {f : α → Option β} {g : β → γ} {k : α → γ}
    (h : ∀ a b, f a = some b → g b = k a) (xs : List α) :
    ((xs.filterMap f).map g).Sublist (xs.map k) := by
  induction xs with
  | nil => exact .slnil
  | cons x xs ih =>
    rcases hx : f x with _ | y
    · rw [List.filterMap_cons_none hx, List.map_cons]
      exact ih.cons _
    · rw [List.filterMap_cons_some hx, List.map_cons, List.map_cons, h x y hx]
      exact ih.cons_cons _

/-- **`OpContext::open`**: every keyed stream of an operator. -/
def OpContext.opened (env : Environment) (opIndex : Nat) (op : Operator) : OpContext where
  opIndex := opIndex
  streams := (openSubtasks env op).filterMap ReadUnit.stream?
  failed := (openSubtasks env op).filterMap ReadUnit.failed?
  statePos_nodup := by
    have hplace : ∀ (x : SubtaskState × Nat) (s : SubtaskStream),
        (openSubtask env x.2 x.1).bind ReadUnit.stream? = some s → s.statePos = x.2 := by
      intro x s h
      obtain ⟨u, hu, hs⟩ := Option.bind_eq_some_iff.mp h
      cases u with
      | stream s' =>
        cases hs
        exact statePos_openSubtask hu
      | failed f => cases hs
    unfold openSubtasks
    rw [List.filterMap_filterMap]
    refine (sublist_map_filterMap hplace _).nodup ?_
    rw [List.zipIdx_map_snd]
    exact List.nodup_range'

/-- The units of an operator are what its subtasks become. -/
theorem mem_units_opened {opIndex : Nat} {op : Operator} {u : ReadUnit} :
    u ∈ (OpContext.opened env opIndex op).units
      ↔ ∃ p st, op.subtaskStates[p]? = some st ∧ openSubtask env p st = some u := by
  have hmem : u ∈ openSubtasks env op
      ↔ ∃ p st, op.subtaskStates[p]? = some st ∧ openSubtask env p st = some u := by
    unfold openSubtasks
    rw [List.mem_filterMap]
    constructor
    · rintro ⟨⟨st, p⟩, hx, hu⟩
      exact ⟨p, st, List.mem_zipIdx_iff_getElem?.mp hx, hu⟩
    · rintro ⟨p, st, hst, hu⟩
      exact ⟨(st, p), List.mem_zipIdx_iff_getElem?.mpr hst, hu⟩
  rw [OpContext.mem_units, ← hmem]
  unfold OpContext.opened
  dsimp only
  constructor
  · rintro (⟨s, hs, rfl⟩ | ⟨f, hf, rfl⟩)
    · obtain ⟨u, hu, hus⟩ := List.mem_filterMap.mp hs
      cases u with
      | stream s' => cases hus; exact hu
      | failed f => cases hus
    · obtain ⟨u, hu, huf⟩ := List.mem_filterMap.mp hf
      cases u with
      | stream s' => cases huf
      | failed f' => cases huf; exact hu
  · intro hu
    cases u with
    | stream s => exact .inl ⟨s, List.mem_filterMap.mpr ⟨_, hu, rfl⟩, rfl⟩
    | failed f => exact .inr ⟨f, List.mem_filterMap.mpr ⟨_, hu, rfl⟩, rfl⟩

end Opened

/-- An operator, opened. -/
def OpenOperator.opened (env : Environment) (opIndex : Nat) (op : Operator) : OpenOperator where
  id := op.id
  parallelism := op.parallelism.toInt
  maxParallelism := op.maxParallelism.toInt
  ctx := .opened env opIndex op

/-- A reader of a savepoint. -/
def StateReader.ofSavepoint (env : Environment) (sp : Savepoint) : StateReader where
  operators := sp.operators.mapIdx (OpenOperator.opened env)
  host := env.host
  proto := env.proto
  files := env.files
  inflate := env.inflate
  entryLimit := env.entryLimit
  entryLimit_pos := env.entryLimit_pos
  keyedEntrySize := env.keyedEntrySize
  rawKeySize := env.rawKeySize
  opIndex_eq i o h := by
    rw [List.getElem?_mapIdx, Option.map_eq_some_iff] at h
    obtain ⟨op, -, rfl⟩ := h
    rfl

end FlinkExplorer
