import FlinkExplorer.Parser.JavaDeser

namespace FlinkExplorer

open Lib Lib.Read

/-!
# `parser/state_handle.rs` — state handles

A handle says where the bytes of a state are.  Handles nest: a stream handle may hold a key-groups
handle, a changelog handle holds keyed handles.

The source casts the counts it reads to `usize` and allocates for them.  The readers take the
allocator as a parameter; no allocator grants more than `isize::MAX`, as a negative count asks for.
-/

/-! ### Handles -/

structure ByteStreamStateHandle where
  handleName : Text
  data : Bytes

structure FileStateHandle where
  filePath : Text
  stateSize : Int64

structure RelativeFileStateHandle where
  relativePath : Text
  stateSize : Int64

structure SegmentFileStateHandle where
  startPos : Int64
  stateSize : Int64
  scope : Int32
  filePath : Text
  logicalFileId : Text

mutual

/-- Where a stream of bytes is. -/
inductive StreamStateHandle
  | null
  | byteStream (h : ByteStreamStateHandle)
  | file (h : FileStateHandle)
  | relative (h : RelativeFileStateHandle)
  | segment (h : SegmentFileStateHandle)
  | emptySegment
  /-- `KeyGroupsStateHandle` can appear as a `StreamStateHandle` (tag 3). -/
  | keyGroups (h : KeyGroupsStateHandle)

/-- The key-groups of a keyed stream, by offset. -/
structure KeyGroupsStateHandle where
  startKeyGroup : Int32
  numKeyGroups : Int32
  offsets : List Int64
  delegateHandle : StreamStateHandle

end

structure HandleAndLocalPath where
  localPath : Text
  handle : StreamStateHandle

structure IncrementalRemoteKeyedStateHandle where
  checkpointId : Int64
  backendId : Text
  startKeyGroup : Int32
  numKeyGroups : Int32
  checkpointedSize : Int64
  metaStateHandle : StreamStateHandle
  sharedState : List HandleAndLocalPath
  privateState : List HandleAndLocalPath

structure ChangelogByteIncrementHandle where
  startKeyGroup : Int32
  numKeyGroups : Int32

structure ChangelogFileIncrementHandle where
  startKeyGroup : Int32
  numKeyGroups : Int32
  handlesAndOffsets : List (Int64 × StreamStateHandle)
  size : Int64
  checkpointedSize : Int64

structure PartitionOffsetEntry where
  stateName : Text
  /-- The distribution mode, one byte. -/
  mode : UInt8
  offsets : List Int64

structure OperatorStreamStateHandle where
  partitionOffsets : List PartitionOffsetEntry
  delegateHandle : StreamStateHandle

mutual

/-- A keyed state handle, or an operator state handle. -/
inductive StateHandle
  | null
  | operatorStream (h : OperatorStreamStateHandle)
  | keyGroups (h : KeyGroupsStateHandle)
  | incrementalRemoteKeyed (h : IncrementalRemoteKeyedStateHandle)
  | changelog (h : ChangelogHandle)
  | changelogByteIncrement (h : ChangelogByteIncrementHandle)
  | changelogFileIncrement (h : ChangelogFileIncrementHandle)

structure ChangelogHandle where
  startKeyGroup : Int32
  numKeyGroups : Int32
  checkpointedSize : Int64
  baseState : List StateHandle
  deltaState : List StateHandle
  materializationId : Int64
  checkpointId : Int64

end

/-! ### Reading -/

/-- How reading `_metadata` ends without a value: with an error, or at an allocation of more than
    the allocator can represent, which is a panic. -/
inductive Halt
  | error (e : ParseError)
  | allocation
  deriving DecidableEq

/-- A read of `_metadata`. -/
abbrev MetaRead := ReadBytes Halt

instance : MonadLift (ReadBytes ParseError) MetaRead := ⟨fun p => p.mapError .error⟩

/-- `as usize`. -/
def asUsize (n : Int32) : Nat := (n.toInt % 2 ^ 64).toNat

/-- What a vector holds that is allocated for a count or a length. -/
inductive VecItem
  | byte
  | offset
  | masterState
  | operator
  | subtask
  | localPath
  | keyedHandle
  | offsetAndHandle
  | partition

/-- Which vectors can be allocated: so many elements of a kind. -/
structure Allocator where
  grants : VecItem → Nat → Bool
  /-- A vector of more than `isize::MAX` bytes is a capacity overflow. -/
  overflow : ∀ e n, 2 ^ 63 ≤ n → grants e n = false

/-- `Vec::with_capacity`, and `vec![0; n]`. -/
def Allocator.alloc (A : Allocator) (e : VecItem) (n : Nat) : MetaRead Unit :=
  if A.grants e n then pure () else throw .allocation

/-- An allocator that grants whatever is no capacity overflow. -/
def capacity : Allocator where
  grants _ n := n < 2 ^ 63
  overflow _ _ h := decide_eq_false (not_lt.mpr h)

/-- `for _ in 0..n`. -/
def repeated {β : Type} (n : Int32) (p : MetaRead β) : MetaRead (List β) := many p n.toInt.toNat

/-- Fail at the tag just read. -/
def unknownTag {β : Type} (error : Nat → ParseError) : MetaRead β := fun r =>
  (.error (.error (error (r.pos - 1))), r)

section Readers

variable (A : Allocator)

/-- `startKeyGroup`, `numKeyGroups`, offsets, delegate stream handle. -/
def readKeyGroupsInner (readDelegate : MetaRead StreamStateHandle) :
    MetaRead KeyGroupsStateHandle := do
  let startKeyGroup ← readInt
  let numKeyGroups ← readInt
  A.alloc .offset (asUsize numKeyGroups)
  let offsets ← repeated numKeyGroups readLong
  let delegateHandle ← readDelegate
  pure ⟨startKeyGroup, numKeyGroups, offsets, delegateHandle⟩

/-- A stream handle, nested to a depth below `fuel`.  Each level has a tag, so there are no more
    levels than bytes: out of fuel is out of bytes. -/
def readStreamStateHandle : Nat → MetaRead StreamStateHandle
  | 0 => liftM (eof : ReadBytes ParseError StreamStateHandle)
  | fuel + 1 => do
    let tag ← readByte
    match tag.toNat with
    | 0 => pure .null
    | 1 => do
      let handleName ← readUtf
      let dataLen ← readInt
      let data ← if 0 < dataLen then do
          A.alloc .byte (asUsize dataLen)
          readBytes (asUsize dataLen)
        else pure []
      pure (.byteStream ⟨handleName, data⟩)
    | 2 => do
      let stateSize ← readLong
      let filePath ← readUtf
      pure (.file ⟨filePath, stateSize⟩)
    | 6 => do
      let relativePath ← readUtf
      let stateSize ← readLong
      pure (.relative ⟨relativePath, stateSize⟩)
    | 3 => do
      let kg ← readKeyGroupsInner A (readStreamStateHandle fuel)
      pure (.keyGroups kg)
    | 15 => do
      let startPos ← readLong
      let stateSize ← readLong
      let scope ← readInt
      let filePath ← readUtf
      let logicalFileId ← readUtf
      pure (.segment ⟨startPos, stateSize, scope, filePath, logicalFileId⟩)
    | 16 => pure .emptySegment
    | _ => unknownTag (.unknownStreamHandleTag tag)

variable (fuel : Nat)

def readHandleAndLocalPath : MetaRead HandleAndLocalPath := do
  let localPath ← readUtf
  let handle ← readStreamStateHandle A fuel
  pure ⟨localPath, handle⟩

def readHandleAndLocalPathList : MetaRead (List HandleAndLocalPath) := do
  let count ← readInt
  A.alloc .localPath (asUsize count)
  repeated count (readHandleAndLocalPath A fuel)

/-- Tags 3, 7 and 12; the last has a `StateHandleID`, which is dropped. -/
def readKeyGroupsHandle (isV2 : Bool) : MetaRead StateHandle := do
  let kg ← readKeyGroupsInner A (readStreamStateHandle A fuel)
  if isV2 then do
    let _stateHandleId ← readUtf
    pure (.keyGroups kg)
  else pure (.keyGroups kg)

/-- Tags 5 and 11. -/
def readIncrementalHandle (isV2 : Bool) : MetaRead StateHandle := do
  let checkpointId ← readLong
  let backendId ← readUtf
  let startKeyGroup ← readInt
  let numKeyGroups ← readInt
  let checkpointedSize ← if isV2 then liftM readLong else pure (-1)
  let metaStateHandle ← readStreamStateHandle A fuel
  let sharedState ← readHandleAndLocalPathList A fuel
  let privateState ← readHandleAndLocalPathList A fuel
  let handle := StateHandle.incrementalRemoteKeyed ⟨checkpointId, backendId, startKeyGroup,
    numKeyGroups, checkpointedSize, metaStateHandle, sharedState, privateState⟩
  if isV2 then do
    let _stateHandleId ← readUtf
    pure handle
  else pure handle

/-- Tags 8 and 14. -/
def readChangelogHandle (isV2 : Bool) (readKeyed : MetaRead StateHandle) : MetaRead StateHandle := do
  let startKeyGroup ← readInt
  let numKeyGroups ← readInt
  let checkpointedSize ← readLong
  let baseSize ← readInt
  A.alloc .keyedHandle (asUsize baseSize)
  let baseState ← repeated baseSize readKeyed
  let deltaSize ← readInt
  A.alloc .keyedHandle (asUsize deltaSize)
  let deltaState ← repeated deltaSize readKeyed
  let materializationId ← readLong
  let checkpointId ← if isV2 then liftM readLong else pure materializationId
  let _stateHandleId ← readUtf
  pure (.changelog ⟨startKeyGroup, numKeyGroups, checkpointedSize, baseState, deltaState,
    materializationId, checkpointId⟩)

/-- One change of an in-memory changelog, skipped. -/
def skipChange : MetaRead Unit := do
  let _keyGroup ← readInt
  let bytesSize ← readInt
  A.alloc .byte (asUsize bytesSize)
  skip (asUsize bytesSize)

/-- Tag 9. -/
def readChangelogByteHandle : MetaRead StateHandle := do
  let startKeyGroup ← readInt
  let numKeyGroups ← readInt
  let _from ← readLong
  let _to ← readLong
  let size ← readInt
  let _changes ← repeated size (skipChange A)
  let _stateHandleId ← readUtf
  pure (.changelogByteIncrement ⟨startKeyGroup, numKeyGroups⟩)

def readOffsetAndHandle : MetaRead (Int64 × StreamStateHandle) := do
  let offset ← readLong
  let handle ← readStreamStateHandle A fuel
  pure (offset, handle)

/-- Tags 10 and 13. -/
def readChangelogFileHandle (isV2 : Bool) : MetaRead StateHandle := do
  let startKeyGroup ← readInt
  let numKeyGroups ← readInt
  let numHandles ← readInt
  A.alloc .offsetAndHandle (asUsize numHandles)
  let handlesAndOffsets ← repeated numHandles (readOffsetAndHandle A fuel)
  let size ← readLong
  let checkpointedSize ← readLong
  let _stateHandleId ← readUtf
  let handle := StateHandle.changelogFileIncrement ⟨startKeyGroup, numKeyGroups, handlesAndOffsets,
    size, checkpointedSize⟩
  if isV2 then do
    let _storageIdentifier ← readUtf
    pure handle
  else pure handle

/-- A keyed state handle, nested to a depth below `fuel`. -/
def readKeyedStateHandle : Nat → MetaRead StateHandle
  | 0 => liftM (eof : ReadBytes ParseError StateHandle)
  | fuel + 1 => do
    let tag ← readByte
    match tag.toNat with
    | 0 => pure .null
    | 3 | 7 => readKeyGroupsHandle A fuel false
    | 12 => readKeyGroupsHandle A fuel true
    | 5 => readIncrementalHandle A fuel false
    | 11 => readIncrementalHandle A fuel true
    | 8 => readChangelogHandle A false (readKeyedStateHandle fuel)
    | 14 => readChangelogHandle A true (readKeyedStateHandle fuel)
    | 9 => readChangelogByteHandle A
    | 10 => readChangelogFileHandle A fuel false
    | 13 => readChangelogFileHandle A fuel true
    | _ => unknownTag (.unknownStateHandleTag tag)

def readPartitionOffsetEntry : MetaRead PartitionOffsetEntry := do
  let stateName ← readUtf
  let mode ← readByte
  let numOffsets ← readInt
  A.alloc .offset (asUsize numOffsets)
  let offsets ← repeated numOffsets readLong
  pure ⟨stateName, mode, offsets⟩

/-- A file-merging handle has two directories and a flag before its delegate. -/
def readOperatorStreamStateHandle (fileMerging : Bool) : MetaRead StateHandle := do
  let numPartitions ← readInt
  A.alloc .partition (asUsize numPartitions)
  let partitionOffsets ← repeated numPartitions (readPartitionOffsetEntry A)
  if fileMerging then do
    let _taskOwnedDir ← readUtf
    let _sharedDir ← readUtf
    let _isEmpty ← readBoolean
    let delegateHandle ← readStreamStateHandle A fuel
    pure (.operatorStream ⟨partitionOffsets, delegateHandle⟩)
  else do
    let delegateHandle ← readStreamStateHandle A fuel
    pure (.operatorStream ⟨partitionOffsets, delegateHandle⟩)

def readOperatorStateHandle : MetaRead StateHandle := do
  let tag ← readByte
  match tag.toNat with
  | 0 => pure .null
  | 4 => readOperatorStreamStateHandle A fuel false
  | 17 => readOperatorStreamStateHandle A fuel true
  | _ => unknownTag (.unknownStateHandleTag tag)

end Readers

end FlinkExplorer
