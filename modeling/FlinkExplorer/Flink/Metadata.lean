import FlinkExplorer.Flink.Written

namespace FlinkExplorer

open Lib Lib.Read

/-!
# `_metadata` as Flink writes it

`MetadataSerializer` writes more than the parser keeps: state handle ids, the changes of an in-memory
changelog, the directories of a file-merging handle.  `KeyedHandle`, `OperatorHandle` and so on are
what Flink writes; `toModel` is what the parser keeps of it.

For each part three things are said: what is written, when Flink can write it (`Writable`), and when
none of its strings has a null character (`Clean`); and one theorem says that the part is `Written`
for its reader.
-/

/-! ### Stream handles -/

mutual

/-- A handle to a stream, its tag first. -/
def writeStreamHandle : StreamStateHandle → Bytes
  | .null => [0]
  | .byteStream h =>
    1 :: (writeUtf h.handleName ++ (writeInt (Int32.ofNat h.data.length) ++ h.data))
  | .file h => 2 :: (writeLong h.stateSize ++ writeUtf h.filePath)
  | .relative h => 6 :: (writeUtf h.relativePath ++ writeLong h.stateSize)
  | .segment h =>
    15 :: (writeLong h.startPos ++ (writeLong h.stateSize ++ (writeInt h.scope
      ++ (writeUtf h.filePath ++ writeUtf h.logicalFileId))))
  | .emptySegment => [16]
  | .keyGroups kg => 3 :: writeKeyGroups kg

/-- The range, its offsets and the handle they point into. -/
def writeKeyGroups : KeyGroupsStateHandle → Bytes
  | ⟨startKeyGroup, numKeyGroups, offsets, delegateHandle⟩ =>
    writeInt startKeyGroup ++ (writeInt numKeyGroups
      ++ (offsets.flatMap writeLong ++ writeStreamHandle delegateHandle))

end

mutual

/-- A handle that Flink can write: its texts and its lists fit their lengths. -/
def StreamStateHandle.Writable : StreamStateHandle → Prop
  | .null => True
  | .byteStream h => Utf h.handleName ∧ h.data.length < 2 ^ 31
  | .file h => Utf h.filePath
  | .relative h => Utf h.relativePath
  | .segment h => Utf h.filePath ∧ Utf h.logicalFileId
  | .emptySegment => True
  | .keyGroups kg => kg.Writable

/-- There is an offset for each key-group. -/
def KeyGroupsStateHandle.Writable : KeyGroupsStateHandle → Prop
  | ⟨_, numKeyGroups, offsets, delegateHandle⟩ =>
    offsets.length < 2 ^ 31 ∧ numKeyGroups = Int32.ofNat offsets.length ∧ delegateHandle.Writable

end

mutual

/-- No text of a handle has the character U+0000. -/
def StreamStateHandle.Clean : StreamStateHandle → Prop
  | .null => True
  | .byteStream h => NoNull h.handleName
  | .file h => NoNull h.filePath
  | .relative h => NoNull h.relativePath
  | .segment h => NoNull h.filePath ∧ NoNull h.logicalFileId
  | .emptySegment => True
  | .keyGroups kg => kg.Clean

def KeyGroupsStateHandle.Clean : KeyGroupsStateHandle → Prop
  | ⟨_, _, _, delegateHandle⟩ => delegateHandle.Clean

end

section Handles

variable {fuel : Nat}

/-- Offsets are read back. -/
theorem written_longs {xs : List Int64} (h : xs.length < 2 ^ 31) :
    Written fuel (repeated (Int32.ofNat xs.length) (liftM readLong)) (xs.flatMap writeLong) True xs := by
  have hlong : ∀ x ∈ xs, Written fuel (liftM readLong) (writeLong x) True x := fun x _ => .long x
  exact (Written.items h hlong).mono (by simp)

/-- A key-groups handle is read back, if its delegate is. -/
theorem written_readKeyGroupsInner {p : MetaRead StreamStateHandle} {kg : KeyGroupsStateHandle}
    (hkg : kg.Writable)
    (hp : Written fuel p (writeStreamHandle kg.delegateHandle) kg.delegateHandle.Clean
      kg.delegateHandle) :
    Written fuel (readKeyGroupsInner capacity p) (writeKeyGroups kg) kg.Clean kg := by
  obtain ⟨startKeyGroup, numKeyGroups, offsets, delegateHandle⟩ := kg
  unfold KeyGroupsStateHandle.Writable at hkg
  obtain ⟨hlen, rfl, hdelegate⟩ := hkg
  unfold writeKeyGroups KeyGroupsStateHandle.Clean
  exact (Written.int _).then ((Written.int _).then ((Written.capacity hlen).nil_bind
    ((written_longs hlen).then (hp.bind_nil (.pure _)))))

/-- A handle has a tag at least. -/
theorem writeStreamHandle_ne_nil (h : StreamStateHandle) : writeStreamHandle h ≠ [] := by
  cases h <;> simp [writeStreamHandle]

/-- **Stream handles**, nested to any depth. -/
theorem written_readStreamStateHandle (fuel : Nat) {h : StreamStateHandle} (hh : h.Writable) :
    Written fuel (readStreamStateHandle capacity fuel) (writeStreamHandle h) h.Clean h := by
  -- On the depth, which only a key-groups handle goes down by.
  induction fuel generalizing h with
  | zero => exact .eof (writeStreamHandle_ne_nil h) _ _
  | succ fuel ih =>
    unfold readStreamStateHandle
    cases h with
    | null =>
      unfold writeStreamHandle StreamStateHandle.Clean
      exact .tagged 0 (.pure _)
    | emptySegment =>
      unfold writeStreamHandle StreamStateHandle.Clean
      exact .tagged 16 (.pure _)
    | byteStream h =>
      unfold StreamStateHandle.Writable at hh
      unfold writeStreamHandle StreamStateHandle.Clean
      refine .tagged 1 ((Written.utf hh.1).bind_true ((Written.int _).then ?_))
      obtain ⟨handleName, data⟩ := h
      obtain ⟨-, hlen⟩ := hh
      -- the reader asks for capacity only where the length is positive
      by_cases hdata : data = []
      · subst hdata
        exact .pure _
      · have hpos : 0 < Int32.ofNat data.length := by
          rw [Int32.lt_iff_toInt_lt, toInt_ofNat hlen]
          exact Int.natCast_pos.mpr (List.length_pos_iff.mpr hdata)
        simp only [if_pos hpos]
        exact (Written.capacity hlen).nil_bind
          ((Written.bytes (asUsize_ofNat hlen).symm).bind_nil (.pure _))
    | file h =>
      unfold StreamStateHandle.Writable at hh
      unfold writeStreamHandle StreamStateHandle.Clean
      exact .tagged 2 ((Written.long _).then ((Written.utf hh).bind_nil (.pure _)))
    | relative h =>
      unfold StreamStateHandle.Writable at hh
      unfold writeStreamHandle StreamStateHandle.Clean
      exact .tagged 6 ((Written.utf hh).bind_true ((Written.long _).bind_nil (.pure _)))
    | segment h =>
      unfold StreamStateHandle.Writable at hh
      unfold writeStreamHandle StreamStateHandle.Clean
      exact .tagged 15 ((Written.long _).then ((Written.long _).then ((Written.int _).then
        ((Written.utf hh.1).bind ((Written.utf hh.2).bind_nil (.pure _))))))
    | keyGroups kg =>
      unfold StreamStateHandle.Writable at hh
      unfold writeStreamHandle StreamStateHandle.Clean
      refine .tagged 3 ((written_readKeyGroupsInner hh (ih ?_)).bind_nil (.pure _))
      obtain ⟨startKeyGroup, numKeyGroups, offsets, delegateHandle⟩ := kg
      unfold KeyGroupsStateHandle.Writable at hh
      exact hh.2.2

end Handles

/-! ### Keyed handles -/

/-- A keyed handle as Flink writes it. -/
inductive KeyedHandle
  | null
  | keyGroups (kg : KeyGroupsStateHandle)
  | savepointKeyGroups (kg : KeyGroupsStateHandle)
  | keyGroupsV2 (kg : KeyGroupsStateHandle) (stateHandleId : Text)
  /-- Its checkpointed size is not written. -/
  | incremental (h : IncrementalRemoteKeyedStateHandle)
  | incrementalV2 (h : IncrementalRemoteKeyedStateHandle) (stateHandleId : Text)
  /-- Its checkpoint id is written in version 2 only. -/
  | changelog (isV2 : Bool) (startKeyGroup numKeyGroups : Int32) (checkpointedSize : Int64)
    (materialized nonMaterialized : List KeyedHandle) (materializationId checkpointId : Int64)
    (stateHandleId : Text)
  | changelogByteIncrement (h : ChangelogByteIncrementHandle) (from' to' : Int64)
    (changes : List (Int32 × Bytes)) (stateHandleId : Text)
  | changelogFileIncrement (h : ChangelogFileIncrementHandle) (stateHandleId : Text)
  | changelogFileIncrementV2 (h : ChangelogFileIncrementHandle)
    (stateHandleId storageIdentifier : Text)

mutual

/-- What the reader keeps of a keyed handle. -/
def KeyedHandle.toModel : KeyedHandle → StateHandle
  | .null => .null
  | .keyGroups kg | .savepointKeyGroups kg | .keyGroupsV2 kg _ => .keyGroups kg
  | .incremental h => .incrementalRemoteKeyed { h with checkpointedSize := -1 }
  | .incrementalV2 h _ => .incrementalRemoteKeyed h
  | .changelog isV2 startKeyGroup numKeyGroups checkpointedSize materialized nonMaterialized
      materializationId checkpointId _ =>
    .changelog ⟨startKeyGroup, numKeyGroups, checkpointedSize, toModels materialized,
      toModels nonMaterialized, materializationId,
      if isV2 then checkpointId else materializationId⟩
  | .changelogByteIncrement h _ _ _ _ => .changelogByteIncrement h
  | .changelogFileIncrement h _ | .changelogFileIncrementV2 h _ _ => .changelogFileIncrement h

/-- Handles, one by one. -/
def toModels : List KeyedHandle → List StateHandle
  | [] => []
  | h :: hs => h.toModel :: toModels hs

end

/-- A path, then the handle. -/
def writeHandleAndLocalPath (h : HandleAndLocalPath) : Bytes :=
  writeUtf h.localPath ++ writeStreamHandle h.handle

/-- A count, then the items. -/
def writeItems {δ : Type} (enc : δ → Bytes) (xs : List δ) : Bytes :=
  writeInt (Int32.ofNat xs.length) ++ xs.flatMap enc

/-- Tags 5 and 11: the later one has a size and an id more. -/
def writeIncremental (h : IncrementalRemoteKeyedStateHandle) (checkpointedSize last : Bytes) :
    Bytes :=
  writeLong h.checkpointId ++ (writeUtf h.backendId ++ (writeInt h.startKeyGroup
    ++ (writeInt h.numKeyGroups ++ (checkpointedSize ++ (writeStreamHandle h.metaStateHandle
    ++ (writeItems writeHandleAndLocalPath h.sharedState
    ++ (writeItems writeHandleAndLocalPath h.privateState ++ last)))))))

/-- An offset, then the handle. -/
def writeOffsetAndHandle (x : Int64 × StreamStateHandle) : Bytes :=
  writeLong x.1 ++ writeStreamHandle x.2

/-- Tags 10 and 13: the later one has a storage identifier more. -/
def writeChangelogFile (h : ChangelogFileIncrementHandle) (stateHandleId : Text) (last : Bytes) :
    Bytes :=
  writeInt h.startKeyGroup ++ (writeInt h.numKeyGroups
    ++ (writeInt (Int32.ofNat h.handlesAndOffsets.length)
    ++ (h.handlesAndOffsets.flatMap writeOffsetAndHandle ++ (writeLong h.size
    ++ (writeLong h.checkpointedSize ++ (writeUtf stateHandleId ++ last))))))

/-- A key-group and the bytes of its change. -/
def writeChange (change : Int32 × Bytes) : Bytes :=
  writeInt change.1 ++ (writeInt (Int32.ofNat change.2.length) ++ change.2)

mutual

/-- A keyed handle, its tag first. -/
def writeKeyedHandle : KeyedHandle → Bytes
  | .null => [0]
  | .keyGroups kg => 3 :: writeKeyGroups kg
  | .savepointKeyGroups kg => 7 :: writeKeyGroups kg
  | .keyGroupsV2 kg stateHandleId => 12 :: (writeKeyGroups kg ++ writeUtf stateHandleId)
  | .incremental h => 5 :: writeIncremental h [] []
  | .incrementalV2 h stateHandleId =>
    11 :: writeIncremental h (writeLong h.checkpointedSize) (writeUtf stateHandleId)
  | .changelog isV2 startKeyGroup numKeyGroups checkpointedSize materialized nonMaterialized
      materializationId checkpointId stateHandleId =>
    (if isV2 then 14 else 8) :: (writeInt startKeyGroup ++ (writeInt numKeyGroups
      ++ (writeLong checkpointedSize ++ (writeInt (Int32.ofNat materialized.length)
      ++ (writeKeyedHandles materialized ++ (writeInt (Int32.ofNat nonMaterialized.length)
      ++ (writeKeyedHandles nonMaterialized ++ (writeLong materializationId
      ++ ((if isV2 then writeLong checkpointId else []) ++ writeUtf stateHandleId)))))))))
  | .changelogByteIncrement h from' to' changes stateHandleId =>
    9 :: (writeInt h.startKeyGroup ++ (writeInt h.numKeyGroups ++ (writeLong from'
      ++ (writeLong to' ++ (writeInt (Int32.ofNat changes.length) ++ (changes.flatMap writeChange
      ++ writeUtf stateHandleId))))))
  | .changelogFileIncrement h stateHandleId => 10 :: writeChangelogFile h stateHandleId []
  | .changelogFileIncrementV2 h stateHandleId storageIdentifier =>
    13 :: writeChangelogFile h stateHandleId (writeUtf storageIdentifier)

/-- Handles, back to back. -/
def writeKeyedHandles : List KeyedHandle → Bytes
  | [] => []
  | h :: hs => writeKeyedHandle h ++ writeKeyedHandles hs

end

/-- Lists that Flink can count, of items it can write. -/
structure WritableList {δ : Type} (writable : δ → Prop) (xs : List δ) : Prop where
  length : xs.length < 2 ^ 31
  items : ∀ x ∈ xs, writable x

/-- A file with its local path, as Flink can write it. -/
def HandleAndLocalPath.Writable (h : HandleAndLocalPath) : Prop :=
  Utf h.localPath ∧ h.handle.Writable

def HandleAndLocalPath.Clean (h : HandleAndLocalPath) : Prop := NoNull h.localPath ∧ h.handle.Clean

/-- An incremental handle that Flink can write. -/
structure IncrementalRemoteKeyedStateHandle.Writable (h : IncrementalRemoteKeyedStateHandle) :
    Prop where
  backendId : Utf h.backendId
  metaStateHandle : h.metaStateHandle.Writable
  sharedState : WritableList HandleAndLocalPath.Writable h.sharedState
  privateState : WritableList HandleAndLocalPath.Writable h.privateState

/-- No text of it has the character U+0000. -/
def IncrementalRemoteKeyedStateHandle.Clean (h : IncrementalRemoteKeyedStateHandle) : Prop :=
  NoNull h.backendId ∧ h.metaStateHandle.Clean ∧ (∀ x ∈ h.sharedState, x.Clean)
    ∧ ∀ x ∈ h.privateState, x.Clean

/-- An increment of a changelog that Flink can write. -/
def ChangelogFileIncrementHandle.Writable (h : ChangelogFileIncrementHandle) : Prop :=
  WritableList (fun x : Int64 × StreamStateHandle => x.2.Writable) h.handlesAndOffsets

def ChangelogFileIncrementHandle.Clean (h : ChangelogFileIncrementHandle) : Prop :=
  ∀ x ∈ h.handlesAndOffsets, x.2.Clean

mutual

/-- A keyed handle that Flink can write, and the handles in it. -/
def KeyedHandle.Writable : KeyedHandle → Prop
  | .null => True
  | .keyGroups kg | .savepointKeyGroups kg => kg.Writable
  | .keyGroupsV2 kg stateHandleId => kg.Writable ∧ Utf stateHandleId
  | .incremental h => h.Writable
  | .incrementalV2 h stateHandleId => h.Writable ∧ Utf stateHandleId
  | .changelog _ _ _ _ materialized nonMaterialized _ _ stateHandleId =>
    (materialized.length < 2 ^ 31 ∧ AllWritable materialized)
      ∧ (nonMaterialized.length < 2 ^ 31 ∧ AllWritable nonMaterialized) ∧ Utf stateHandleId
  | .changelogByteIncrement _ _ _ changes stateHandleId =>
    WritableList (fun change : Int32 × Bytes => change.2.length < 2 ^ 31) changes
      ∧ Utf stateHandleId
  | .changelogFileIncrement h stateHandleId => h.Writable ∧ Utf stateHandleId
  | .changelogFileIncrementV2 h stateHandleId storageIdentifier =>
    h.Writable ∧ Utf stateHandleId ∧ Utf storageIdentifier

def AllWritable : List KeyedHandle → Prop
  | [] => True
  | h :: hs => h.Writable ∧ AllWritable hs

end

mutual

/-- No text of a keyed handle has the character U+0000, nor of the handles in it. -/
def KeyedHandle.Clean : KeyedHandle → Prop
  | .null => True
  | .keyGroups kg | .savepointKeyGroups kg => kg.Clean
  | .keyGroupsV2 kg stateHandleId => kg.Clean ∧ NoNull stateHandleId
  | .incremental h => h.Clean
  | .incrementalV2 h stateHandleId => h.Clean ∧ NoNull stateHandleId
  | .changelog _ _ _ _ materialized nonMaterialized _ _ stateHandleId =>
    AllClean materialized ∧ AllClean nonMaterialized ∧ NoNull stateHandleId
  | .changelogByteIncrement _ _ _ _ stateHandleId => NoNull stateHandleId
  | .changelogFileIncrement h stateHandleId => h.Clean ∧ NoNull stateHandleId
  | .changelogFileIncrementV2 h stateHandleId storageIdentifier =>
    h.Clean ∧ NoNull stateHandleId ∧ NoNull storageIdentifier

def AllClean : List KeyedHandle → Prop
  | [] => True
  | h :: hs => h.Clean ∧ AllClean hs

end

section Keyed

variable {fuel : Nat}

/-- The files of an incremental handle are read back. -/
theorem written_readHandleAndLocalPathList {xs : List HandleAndLocalPath}
    (h : WritableList HandleAndLocalPath.Writable xs) :
    Written fuel (readHandleAndLocalPathList capacity fuel) (writeItems writeHandleAndLocalPath xs)
      (∀ x ∈ xs, x.Clean) xs := by
  have hitem : ∀ x ∈ xs, Written fuel (readHandleAndLocalPath capacity fuel)
      (writeHandleAndLocalPath x) x.Clean x := fun x hx => (Written.utf (h.items x hx).1).bind
    ((written_readStreamStateHandle fuel (h.items x hx).2).bind_nil (.pure _))
  exact (Written.int _).then ((Written.capacity h.length).nil_bind (.items h.length hitem))

/-- An incremental handle is read back, but for the size that version 1 does not write. -/
theorem written_readIncrementalHandle {h : IncrementalRemoteKeyedStateHandle} (hh : h.Writable) :
    Written fuel (readIncrementalHandle capacity fuel false) (writeIncremental h [] []) h.Clean
      (.incrementalRemoteKeyed { h with checkpointedSize := -1 }) := by
  unfold writeIncremental IncrementalRemoteKeyedStateHandle.Clean
  refine (Written.long _).then ((Written.utf hh.backendId).bind ((Written.int _).then
    ((Written.int _).then ?_)))
  rw [List.nil_append, List.append_nil]
  exact (written_readStreamStateHandle fuel hh.metaStateHandle).bind
    ((written_readHandleAndLocalPathList hh.sharedState).bind
      ((written_readHandleAndLocalPathList hh.privateState).bind_nil (.pure _)))

/-- Version 2 writes the size and an id behind it. -/
theorem written_readIncrementalHandleV2 {h : IncrementalRemoteKeyedStateHandle} (hh : h.Writable)
    {stateHandleId : Text} (hid : Utf stateHandleId) :
    Written fuel (readIncrementalHandle capacity fuel true)
      (writeIncremental h (writeLong h.checkpointedSize) (writeUtf stateHandleId))
      (h.Clean ∧ NoNull stateHandleId) (.incrementalRemoteKeyed h) := by
  unfold writeIncremental IncrementalRemoteKeyedStateHandle.Clean
  refine Written.mono ((Written.long _).then ((Written.utf hh.backendId).bind ((Written.int _).then
    ((Written.int _).then ((Written.long _).then
      ((written_readStreamStateHandle fuel hh.metaStateHandle).bind
        ((written_readHandleAndLocalPathList hh.sharedState).bind
          ((written_readHandleAndLocalPathList hh.privateState).bind
            ((Written.utf hid).bind_nil (.pure _)))))))))) ?_
  simp only [and_assoc]

theorem writeKeyedHandles_eq (hs : List KeyedHandle) :
    writeKeyedHandles hs = hs.flatMap writeKeyedHandle := by
  induction hs with
  | nil => rw [writeKeyedHandles, List.flatMap_nil]
  | cons h hs ih => rw [writeKeyedHandles, ih, List.flatMap_cons]

theorem toModels_eq (hs : List KeyedHandle) : toModels hs = hs.map KeyedHandle.toModel := by
  induction hs with
  | nil => rw [toModels, List.map_nil]
  | cons h hs ih => rw [toModels, ih, List.map_cons]

theorem allWritable_iff {hs : List KeyedHandle} : AllWritable hs ↔ ∀ h ∈ hs, h.Writable := by
  induction hs with
  | nil => simp [AllWritable]
  | cons h hs ih => rw [AllWritable, ih, List.forall_mem_cons]

theorem allClean_iff {hs : List KeyedHandle} : AllClean hs ↔ ∀ h ∈ hs, h.Clean := by
  induction hs with
  | nil => simp [AllClean]
  | cons h hs ih => rw [AllClean, ih, List.forall_mem_cons]

/-- Handles in a changelog are read back, given that one is. -/
theorem written_keyedHandles {p : MetaRead StateHandle} {hs : List KeyedHandle}
    (hlen : hs.length < 2 ^ 31) (hs' : AllWritable hs)
    (hp : ∀ h : KeyedHandle, h.Writable → Written fuel p (writeKeyedHandle h) h.Clean h.toModel) :
    Written fuel (repeated (Int32.ofNat hs.length) p) (writeKeyedHandles hs) (AllClean hs)
      (toModels hs) := by
  rw [writeKeyedHandles_eq, toModels_eq, allClean_iff]
  exact .repeated hlen fun h hh => hp h (allWritable_iff.mp hs' h hh)

/-- An increment in files is read back; version 2 has the id of the storage behind it. -/
theorem written_readChangelogFileHandle {h : ChangelogFileIncrementHandle} (hh : h.Writable)
    {stateHandleId : Text} (hid : Utf stateHandleId) {isV2 : Bool} {last : Bytes} {clean : Prop}
    (hlast : Written fuel (if isV2 then do
        let _storageIdentifier ← liftM readUtf
        pure (.changelogFileIncrement h)
      else pure (.changelogFileIncrement h) : MetaRead StateHandle) last clean
        (.changelogFileIncrement h)) :
    Written fuel (readChangelogFileHandle capacity fuel isV2) (writeChangelogFile h stateHandleId last)
      (h.Clean ∧ NoNull stateHandleId ∧ clean) (.changelogFileIncrement h) := by
  have hitem : ∀ x ∈ h.handlesAndOffsets, Written fuel (readOffsetAndHandle capacity fuel)
      (writeOffsetAndHandle x) x.2.Clean x := fun x hx => (Written.long x.1).then
    ((written_readStreamStateHandle fuel (hh.items x hx)).bind_nil (.pure _))
  exact (Written.int _).then ((Written.int _).then ((Written.int _).then
    ((Written.capacity hh.length).nil_bind ((Written.items hh.length hitem).bind
      ((Written.long _).then ((Written.long _).then ((Written.utf hid).bind hlast)))))))

/-- An increment in bytes is read back. -/
theorem written_readChangelogByteHandle {h : ChangelogByteIncrementHandle} {from' to' : Int64}
    {changes : List (Int32 × Bytes)}
    (hchanges : WritableList (fun change : Int32 × Bytes => change.2.length < 2 ^ 31) changes)
    {stateHandleId : Text} (hid : Utf stateHandleId) :
    Written fuel (readChangelogByteHandle capacity)
      (writeInt h.startKeyGroup ++ (writeInt h.numKeyGroups ++ (writeLong from' ++ (writeLong to'
        ++ (writeInt (Int32.ofNat changes.length) ++ (changes.flatMap writeChange
        ++ writeUtf stateHandleId))))))
      (NoNull stateHandleId) (.changelogByteIncrement h) := by
  have hskip {n : Nat} {bs : Bytes} (hn : bs.length = n) : Written fuel (liftM (skip n)) bs True () :=
    .of_stable ((reads_readBytes hn).bind_nil (Reads.pure ()))
      ((stable_readBytes n).bind fun _ => Stable.pure ())
  have hchange : ∀ x ∈ changes, Written fuel (skipChange capacity) (writeChange x) True ((fun _ => ()) x) :=
    fun x hx => (Written.int _).then ((Written.int _).then
      ((Written.capacity (hchanges.items x hx)).nil_bind
        (hskip (asUsize_ofNat (hchanges.items x hx)).symm)))
  have hall := (Written.repeated hchanges.length hchange).mono (by simp : True ↔ _)
  exact (Written.int _).then ((Written.int _).then ((Written.long _).then ((Written.long _).then
    ((Written.int _).then (hall.then ((Written.utf hid).bind_nil (.pure _)))))))

/-- A changelog handle is read back, given that the handles in it are. -/
theorem written_readChangelogHandle {p : MetaRead StateHandle} (isV2 : Bool)
    {startKeyGroup numKeyGroups : Int32} {checkpointedSize materializationId checkpointId : Int64}
    {materialized nonMaterialized : List KeyedHandle} {stateHandleId : Text}
    (hm : materialized.length < 2 ^ 31 ∧ AllWritable materialized)
    (hn : nonMaterialized.length < 2 ^ 31 ∧ AllWritable nonMaterialized) (hid : Utf stateHandleId)
    (hp : ∀ h : KeyedHandle, h.Writable → Written fuel p (writeKeyedHandle h) h.Clean h.toModel) :
    Written fuel (readChangelogHandle capacity isV2 p)
      (writeInt startKeyGroup ++ (writeInt numKeyGroups ++ (writeLong checkpointedSize
        ++ (writeInt (Int32.ofNat materialized.length) ++ (writeKeyedHandles materialized
        ++ (writeInt (Int32.ofNat nonMaterialized.length) ++ (writeKeyedHandles nonMaterialized
        ++ (writeLong materializationId ++ ((if isV2 then writeLong checkpointId else [])
        ++ writeUtf stateHandleId)))))))))
      (AllClean materialized ∧ AllClean nonMaterialized ∧ NoNull stateHandleId)
      (.changelog ⟨startKeyGroup, numKeyGroups, checkpointedSize, toModels materialized,
        toModels nonMaterialized, materializationId,
        if isV2 then checkpointId else materializationId⟩) := by
  refine (Written.int _).then ((Written.int _).then ((Written.long _).then ((Written.int _).then
    ((Written.capacity hm.1).nil_bind ((written_keyedHandles hm.1 hm.2 hp).bind
      ((Written.int _).then ((Written.capacity hn.1).nil_bind ((written_keyedHandles hn.1 hn.2 hp).bind
        ((Written.long _).then ?_)))))))))
  cases isV2 with
  | false => exact (Written.utf hid).bind_nil (.pure _)
  | true => exact (Written.long _).then ((Written.utf hid).bind_nil (.pure _))

/-- Every handle has a tag, so a cut in front of one is noticed. -/
theorem writeKeyedHandle_ne_nil (h : KeyedHandle) : writeKeyedHandle h ≠ [] := by
  cases h <;> simp [writeKeyedHandle]

theorem delegate_writable {kg : KeyGroupsStateHandle} (h : kg.Writable) :
    kg.delegateHandle.Writable := by
  obtain ⟨startKeyGroup, numKeyGroups, offsets, delegateHandle⟩ := kg
  unfold KeyGroupsStateHandle.Writable at h
  exact h.2.2

/-- **Keyed handles**, nested to any depth. -/
theorem written_readKeyedStateHandle (fuel : Nat) {h : KeyedHandle} (hh : h.Writable) :
    Written fuel (readKeyedStateHandle capacity fuel) (writeKeyedHandle h) h.Clean h.toModel := by
  -- The three kinds of key-groups handle share their body.
  have hkeyGroups (fuel : Nat) {kg : KeyGroupsStateHandle} (hkg : kg.Writable) :
      Written fuel (readKeyGroupsInner capacity (readStreamStateHandle capacity fuel))
        (writeKeyGroups kg) kg.Clean kg :=
    written_readKeyGroupsInner hkg (written_readStreamStateHandle fuel (delegate_writable hkg))
  -- On the fuel: the handles of a changelog are handles again.
  induction fuel generalizing h with
  | zero => exact .eof (writeKeyedHandle_ne_nil h) _ _
  | succ fuel ih =>
    unfold readKeyedStateHandle
    cases h with
    | null =>
      unfold writeKeyedHandle KeyedHandle.Clean KeyedHandle.toModel
      exact .tagged 0 (.pure _)
    | keyGroups kg =>
      unfold KeyedHandle.Writable at hh
      unfold writeKeyedHandle KeyedHandle.Clean KeyedHandle.toModel
      exact .tagged 3 ((hkeyGroups fuel hh).bind_nil (.pure _))
    | savepointKeyGroups kg =>
      unfold KeyedHandle.Writable at hh
      unfold writeKeyedHandle KeyedHandle.Clean KeyedHandle.toModel
      exact .tagged 7 ((hkeyGroups fuel hh).bind_nil (.pure _))
    | keyGroupsV2 kg stateHandleId =>
      unfold KeyedHandle.Writable at hh
      unfold writeKeyedHandle KeyedHandle.Clean KeyedHandle.toModel
      exact .tagged 12 ((hkeyGroups fuel hh.1).bind ((Written.utf hh.2).bind_nil (.pure _)))
    | incremental h =>
      unfold KeyedHandle.Writable at hh
      unfold writeKeyedHandle KeyedHandle.Clean KeyedHandle.toModel
      exact .tagged 5 (written_readIncrementalHandle hh)
    | incrementalV2 h stateHandleId =>
      unfold KeyedHandle.Writable at hh
      unfold writeKeyedHandle KeyedHandle.Clean KeyedHandle.toModel
      exact .tagged 11 (written_readIncrementalHandleV2 hh.1 hh.2)
    | changelog isV2 startKeyGroup numKeyGroups checkpointedSize materialized nonMaterialized
        materializationId checkpointId stateHandleId =>
      unfold KeyedHandle.Writable at hh
      unfold writeKeyedHandle KeyedHandle.Clean KeyedHandle.toModel
      cases isV2 with
      | false => exact .tagged 8 (written_readChangelogHandle false hh.1 hh.2.1 hh.2.2 fun _ => ih)
      | true => exact .tagged 14 (written_readChangelogHandle true hh.1 hh.2.1 hh.2.2 fun _ => ih)
    | changelogByteIncrement h from' to' changes stateHandleId =>
      unfold KeyedHandle.Writable at hh
      unfold writeKeyedHandle KeyedHandle.Clean KeyedHandle.toModel
      exact .tagged 9 (written_readChangelogByteHandle hh.1 hh.2)
    | changelogFileIncrement h stateHandleId =>
      unfold KeyedHandle.Writable at hh
      unfold writeKeyedHandle KeyedHandle.Clean KeyedHandle.toModel
      exact .tagged 10 ((written_readChangelogFileHandle hh.1 hh.2 (.pure _)).mono (by simp))
    | changelogFileIncrementV2 h stateHandleId storageIdentifier =>
      unfold KeyedHandle.Writable at hh
      unfold writeKeyedHandle KeyedHandle.Clean KeyedHandle.toModel
      exact .tagged 13 (written_readChangelogFileHandle hh.1 hh.2.1
        ((Written.utf hh.2.2).bind_nil (.pure _)))

end Keyed

/-! ### Operator handles -/

/-- An operator state handle as Flink writes it. -/
inductive OperatorHandle
  | null
  | partitionable (h : OperatorStreamStateHandle)
  | fileMerging (h : OperatorStreamStateHandle) (taskOwnedDir sharedDir : Text) (isEmpty : Bool)

/-- What the reader keeps of an operator's handle: the merging of files is read past. -/
def OperatorHandle.toModel : OperatorHandle → StateHandle
  | .null => .null
  | .partitionable h | .fileMerging h _ _ _ => .operatorStream h

def writePartitionOffsetEntry (x : PartitionOffsetEntry) : Bytes :=
  writeUtf x.stateName ++ (x.mode :: (writeInt (Int32.ofNat x.offsets.length)
    ++ x.offsets.flatMap writeLong))

/-- The offsets and the delegate of operator state, with what the merging of files adds. -/
def writeOperatorStream (h : OperatorStreamStateHandle) (merging : Bytes) : Bytes :=
  writeInt (Int32.ofNat h.partitionOffsets.length)
    ++ (h.partitionOffsets.flatMap writePartitionOffsetEntry
    ++ (merging ++ writeStreamHandle h.delegateHandle))

/-- An operator's handle, its tag first. -/
def writeOperatorHandle : OperatorHandle → Bytes
  | .null => [0]
  | .partitionable h => 4 :: writeOperatorStream h []
  | .fileMerging h taskOwnedDir sharedDir isEmpty =>
    17 :: writeOperatorStream h
      (writeUtf taskOwnedDir ++ (writeUtf sharedDir ++ writeBoolean isEmpty))

/-- Offsets under a name, as Flink can write them. -/
def PartitionOffsetEntry.Writable (x : PartitionOffsetEntry) : Prop :=
  Utf x.stateName ∧ x.offsets.length < 2 ^ 31

/-- A stream of operator state that Flink can write. -/
structure OperatorStreamStateHandle.Writable (h : OperatorStreamStateHandle) : Prop where
  partitionOffsets : WritableList PartitionOffsetEntry.Writable h.partitionOffsets
  delegateHandle : h.delegateHandle.Writable

/-- An operator's handle that Flink can write. -/
def OperatorHandle.Writable : OperatorHandle → Prop
  | .null => True
  | .partitionable h => h.Writable
  | .fileMerging h taskOwnedDir sharedDir _ => h.Writable ∧ Utf taskOwnedDir ∧ Utf sharedDir

/-- No text of it has the character U+0000. -/
def OperatorHandle.Clean : OperatorHandle → Prop
  | .null => True
  | .partitionable h => (∀ x ∈ h.partitionOffsets, NoNull x.stateName) ∧ h.delegateHandle.Clean
  | .fileMerging h taskOwnedDir sharedDir _ =>
    (∀ x ∈ h.partitionOffsets, NoNull x.stateName) ∧ NoNull taskOwnedDir ∧ NoNull sharedDir
      ∧ h.delegateHandle.Clean

section Operators

variable {fuel : Nat}

/-- The offsets of operator state are read back. -/
theorem written_partitionOffsets {xs : List PartitionOffsetEntry}
    (h : WritableList PartitionOffsetEntry.Writable xs) :
    Written fuel (repeated (Int32.ofNat xs.length) (readPartitionOffsetEntry capacity))
      (xs.flatMap writePartitionOffsetEntry) (∀ x ∈ xs, NoNull x.stateName) xs := by
  refine .items h.length fun x hx => ?_
  obtain ⟨hname, hlen⟩ := h.items x hx
  exact (Written.utf hname).bind_true ((Written.byte x.mode).then ((Written.int _).then
    ((Written.capacity hlen).nil_bind ((written_longs hlen).bind_nil (.pure _)))))

/-- **Operator handles.** -/
theorem written_readOperatorStateHandle (fuel : Nat) {h : OperatorHandle} (hh : h.Writable) :
    Written (fuel + 1) (readOperatorStateHandle capacity fuel) (writeOperatorHandle h) h.Clean
      h.toModel := by
  cases h with
  | null => exact .tagged 0 (.pure _)
  | partitionable h =>
    exact .tagged 4 ((Written.int _).then ((Written.capacity hh.partitionOffsets.length).nil_bind
      ((written_partitionOffsets hh.partitionOffsets).bind
        ((written_readStreamStateHandle fuel hh.delegateHandle).bind_nil (.pure _)))))
  | fileMerging h taskOwnedDir sharedDir isEmpty =>
    obtain ⟨hh, htask, hshared⟩ := hh
    unfold writeOperatorHandle writeOperatorStream
    dsimp only
    rw [List.append_assoc, List.append_assoc]
    exact .tagged 17 ((Written.int _).then ((Written.capacity hh.partitionOffsets.length).nil_bind
      ((written_partitionOffsets hh.partitionOffsets).bind ((Written.utf htask).bind
        ((Written.utf hshared).bind ((Written.boolean _).then
          ((written_readStreamStateHandle fuel hh.delegateHandle).bind_nil (.pure _))))))))

end Operators

/-! ### Subtasks -/

/-- A subtask as Flink writes it. -/
inductive Subtask
  | finished (subtaskIndex : Int32)
  | running (subtaskIndex : Int32) (managedOperatorState rawOperatorState : Option OperatorHandle)
    (managedKeyedState rawKeyedState : KeyedHandle)
    (inputChannelState : List InputChannelStateHandle)
    (resultSubpartitionState : List ResultSubpartitionStateHandle)

/-- What the reader keeps of a subtask. -/
def Subtask.toModel : Subtask → SubtaskState
  | .finished subtaskIndex => ⟨subtaskIndex, none, none, .null, .null, [], []⟩
  | .running subtaskIndex managedOperatorState rawOperatorState managedKeyedState rawKeyedState
      inputChannelState resultSubpartitionState =>
    ⟨subtaskIndex, managedOperatorState.map (·.toModel), rawOperatorState.map (·.toModel),
      managedKeyedState.toModel, rawKeyedState.toModel, inputChannelState, resultSubpartitionState⟩

/-- A channel's handle: its subtask and two numbers, then its offsets, its size and its delegate. -/
def writeChannel (subtaskIndex i j : Int32) (offsets : List Int64) (stateSize : Int64)
    (delegateHandle : StreamStateHandle) : Bytes :=
  writeInt subtaskIndex ++ (writeInt i ++ (writeInt j ++ (writeInt (Int32.ofNat offsets.length)
    ++ (offsets.flatMap writeLong ++ (writeLong stateSize ++ writeStreamHandle delegateHandle)))))

def writeInputChannel (h : InputChannelStateHandle) : Bytes :=
  writeChannel h.subtaskIndex h.inputGateIdx h.inputChannelIdx h.offsets h.stateSize h.delegateHandle

def writeResultSubpartition (h : ResultSubpartitionStateHandle) : Bytes :=
  writeChannel h.subtaskIndex h.partitionIdx h.subpartitionIdx h.offsets h.stateSize h.delegateHandle

/-- A collection of at most one handle: its size, then the handle. -/
def writeOptional : Option OperatorHandle → Bytes
  | none => writeInt 0
  | some h => writeInt 1 ++ writeOperatorHandle h

/-- A subtask; one that is finished is its index alone, negative. -/
def writeSubtask : Subtask → Bytes
  | .finished subtaskIndex => writeInt (-(subtaskIndex + 1))
  | .running subtaskIndex managedOperatorState rawOperatorState managedKeyedState rawKeyedState
      inputChannelState resultSubpartitionState =>
    writeInt subtaskIndex ++ (writeOptional managedOperatorState ++ (writeOptional rawOperatorState
      ++ (writeKeyedHandle managedKeyedState ++ (writeKeyedHandle rawKeyedState
      ++ (writeInt (Int32.ofNat inputChannelState.length)
      ++ (inputChannelState.flatMap writeInputChannel
      ++ (writeInt (Int32.ofNat resultSubpartitionState.length)
      ++ resultSubpartitionState.flatMap writeResultSubpartition)))))))

/-- An input channel that Flink can write. -/
def InputChannelStateHandle.Writable (h : InputChannelStateHandle) : Prop :=
  h.offsets.length < 2 ^ 31 ∧ h.delegateHandle.Writable

/-- A result subpartition that Flink can write. -/
def ResultSubpartitionStateHandle.Writable (h : ResultSubpartitionStateHandle) : Prop :=
  h.offsets.length < 2 ^ 31 ∧ h.delegateHandle.Writable

/-- Subtasks are numbered from 0. -/
def Subtask.Writable : Subtask → Prop
  | .finished subtaskIndex => 0 ≤ subtaskIndex
  | .running subtaskIndex managedOperatorState rawOperatorState managedKeyedState rawKeyedState
      inputChannelState resultSubpartitionState =>
    0 ≤ subtaskIndex ∧ (∀ h ∈ managedOperatorState, h.Writable) ∧ (∀ h ∈ rawOperatorState, h.Writable)
      ∧ managedKeyedState.Writable ∧ rawKeyedState.Writable
      ∧ WritableList InputChannelStateHandle.Writable inputChannelState
      ∧ WritableList ResultSubpartitionStateHandle.Writable resultSubpartitionState

/-- No text of a subtask has the character U+0000. -/
def Subtask.Clean : Subtask → Prop
  | .finished _ => True
  | .running _ managedOperatorState rawOperatorState managedKeyedState rawKeyedState
      inputChannelState resultSubpartitionState =>
    (∀ h ∈ managedOperatorState, h.Clean) ∧ (∀ h ∈ rawOperatorState, h.Clean)
      ∧ managedKeyedState.Clean ∧ rawKeyedState.Clean
      ∧ (∀ h ∈ inputChannelState, h.delegateHandle.Clean)
      ∧ ∀ h ∈ resultSubpartitionState, h.delegateHandle.Clean

section Subtasks

variable (fuel : Nat)

/-- A channel's handle is read back, whatever is made of its numbers. -/
theorem written_readChannelHandle {β : Type}
    (make : Int32 → Int32 → Int32 → List Int64 → Int64 → StreamStateHandle → β)
    (subtaskIndex i j : Int32) {offsets : List Int64} (stateSize : Int64)
    {delegateHandle : StreamStateHandle}
    (h : offsets.length < 2 ^ 31 ∧ delegateHandle.Writable) :
    Written fuel (readChannelHandle capacity fuel make)
      (writeChannel subtaskIndex i j offsets stateSize delegateHandle) delegateHandle.Clean
      (make subtaskIndex i j offsets stateSize delegateHandle) :=
  (Written.int _).then ((Written.int _).then ((Written.int _).then ((Written.int _).then
    ((Written.capacity h.1).nil_bind ((written_longs h.1).then ((Written.long _).then
      ((written_readStreamStateHandle fuel h.2).bind_nil (.pure _))))))))

/-- A list of at most one handle is read back. -/
theorem written_readOptionalHandle {h : Option OperatorHandle} (hh : ∀ x ∈ h, x.Writable) :
    Written fuel (readOptionalHandle capacity fuel) (writeOptional h) (∀ x ∈ h, x.Clean)
      (h.map (·.toModel)) := by
  cases h with
  | none =>
    have hnone : Written fuel (readOptionalHandle capacity fuel) (writeInt 0) True none :=
      (Written.int 0).bind_nil (.pure _)
    exact hnone.mono (by simp)
  | some h =>
    have hhandle := (written_readOperatorStateHandle fuel (hh h rfl)).of_le (Nat.le_succ fuel)
    have hsome : Written fuel (readOptionalHandle capacity fuel) (writeInt 1 ++ writeOperatorHandle h)
        h.Clean (some h.toModel) := (Written.int 1).then (hhandle.bind_nil (.pure _))
    exact hsome.mono (by simp)

/-- The index of a finished subtask, read back from its negative. -/
theorem neg_neg_succ (i : Int32) : -(-(i + 1) + 1) = i := by
  rw [Int32.neg_add, Int32.neg_neg, Int32.add_sub_cancel]

/-- The index of a finished subtask is written as a negative number. -/
theorem neg_succ_neg {i : Int32} (h : 0 ≤ i) : -(i + 1) < 0 := by
  rw [Int32.le_iff_toInt_le] at h
  rw [Int32.lt_iff_toInt_lt, Int32.toInt_neg, Int32.toInt_add]
  have hlt := i.toInt_lt
  simp at *
  rw [Int.bmod_def]
  omega

/-- **Subtasks.** -/
theorem written_readSubtaskState {s : Subtask} (hs : s.Writable) :
    Written fuel (readSubtaskState capacity fuel) (writeSubtask s) s.Clean s.toModel := by
  unfold readSubtaskState
  cases s with
  | finished subtaskIndex =>
    have hfinished : Written fuel (readSubtaskState capacity fuel) (writeInt (-(subtaskIndex + 1))) True
        ⟨subtaskIndex, none, none, .null, .null, [], []⟩ := by
      refine (Written.int _).bind_nil ?_
      simp only [if_pos (neg_succ_neg hs), neg_neg_succ]
      exact .pure _
    exact hfinished
  | running subtaskIndex managedOperatorState rawOperatorState managedKeyedState rawKeyedState
      inputChannelState resultSubpartitionState =>
    obtain ⟨hindex, hmanaged, hraw, hkeyed, hrawKeyed, hinput, hresult⟩ := hs
    refine (Written.int subtaskIndex).then ?_
    have hnonneg : ¬ subtaskIndex < 0 := Int32.not_lt.mpr hindex
    simp only [if_neg hnonneg]
    exact (written_readOptionalHandle fuel hmanaged).bind
      ((written_readOptionalHandle fuel hraw).bind ((written_readKeyedStateHandle fuel hkeyed).bind
        ((written_readKeyedStateHandle fuel hrawKeyed).bind ((Written.int _).then
          ((Written.items hinput.length fun x hx =>
              written_readChannelHandle fuel _ _ _ _ _ (hinput.items x hx)).bind
            ((Written.int _).then ((Written.items hresult.length fun x hx =>
              written_readChannelHandle fuel _ _ _ _ _ (hresult.items x hx)).bind_nil
                (.pure _))))))))

end Subtasks

end FlinkExplorer
