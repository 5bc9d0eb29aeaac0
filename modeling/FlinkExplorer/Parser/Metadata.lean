import FlinkExplorer.Parser.StateHandle

namespace FlinkExplorer

open Lib Lib.Read

/-!
# `parser/metadata.rs` — the `_metadata` file

`parseMetadata` reads a savepoint's `_metadata`: the header, the master states, the operators.  The
end of the data among the operators ends the list; any other error is the answer.
-/

/-- `Checkpoints.HEADER_MAGIC_NUMBER`. -/
def headerMagicNumber : UInt32 := 0x4960672D

/-- `MetadataV2V3SerializerBase.MASTER_STATE_MAGIC_NUMBER`. -/
def masterStateMagicNumber : UInt32 := 0xC96B1696

def minSupportedVersion : UInt32 := 3

def maxSupportedVersion : UInt32 := 5

structure InputChannelStateHandle where
  subtaskIndex : Int32
  inputGateIdx : Int32
  inputChannelIdx : Int32
  offsets : List Int64
  stateSize : Int64
  delegateHandle : StreamStateHandle

structure ResultSubpartitionStateHandle where
  subtaskIndex : Int32
  partitionIdx : Int32
  subpartitionIdx : Int32
  offsets : List Int64
  stateSize : Int64
  delegateHandle : StreamStateHandle

structure SubtaskState where
  subtaskIndex : Int32
  managedOperatorState : Option StateHandle
  rawOperatorState : Option StateHandle
  managedKeyedState : StateHandle
  rawKeyedState : StateHandle
  inputChannelState : List InputChannelStateHandle
  resultSubpartitionState : List ResultSubpartitionStateHandle

structure Operator where
  id : Bytes
  /-- The names are empty before version 5. -/
  name : Text
  identifierName : Text
  parallelism : Int32
  maxParallelism : Int32
  coordinatorState : Option Bytes
  subtaskStates : List SubtaskState
  fullyFinished : Bool

structure MasterState where
  version : Int32
  name : Text
  data : Bytes

structure Savepoint where
  version : UInt32
  checkpointId : Int64
  operators : List Operator
  masterStates : List MasterState

/-- Up to `n` values, fewer when the data ends. -/
def untilEof {β : Type} (p : MetaRead β) : Nat → MetaRead (List β)
  | 0 => pure []
  | n + 1 => fun r =>
    match p r with
    | (.ok v, r) => (do
        let vs ← untilEof p n
        pure (v :: vs) : MetaRead (List β)) r
    | (.error (.error (.unexpectedEof _)), r) => (.ok [], r)
    | (.error e, r) => (.error e, r)

section Readers

variable (A : Allocator)

def readMasterState : MetaRead MasterState := do
  let magic ← readInt
  if magic.toUInt32 ≠ masterStateMagicNumber then
    throw (.error (.invalidMagic magic.toUInt32))
  else do
    let numBytes ← readInt
    let version ← readInt
    let name ← readUtf
    let dataLen ← readInt
    A.alloc .byte (asUsize dataLen)
    let data ← readBytes (asUsize dataLen)
    let consumed := 4 + 2 + (String.ofList name).utf8ByteSize + 4 + asUsize dataLen
    if asUsize numBytes > consumed then do
      A.alloc .byte (asUsize numBytes - consumed)
      skip (asUsize numBytes - consumed)
      pure ⟨version, name, data⟩
    else pure ⟨version, name, data⟩

/-- Three numbers, offsets, a size and a delegate: what both kinds of channel handle are. -/
def readChannelHandle (fuel : Nat) {β : Type}
    (make : Int32 → Int32 → Int32 → List Int64 → Int64 → StreamStateHandle → β) : MetaRead β := do
  let subtaskIndex ← readInt
  let i ← readInt
  let j ← readInt
  let numOffsets ← readInt
  A.alloc .offset (asUsize numOffsets)
  let offsets ← repeated numOffsets readLong
  let stateSize ← readLong
  let delegateHandle ← readStreamStateHandle A fuel
  pure (make subtaskIndex i j offsets stateSize delegateHandle)

def readInputChannelHandle (fuel : Nat) : MetaRead InputChannelStateHandle :=
  readChannelHandle A fuel InputChannelStateHandle.mk

def readResultSubpartitionHandle (fuel : Nat) : MetaRead ResultSubpartitionStateHandle :=
  readChannelHandle A fuel ResultSubpartitionStateHandle.mk

/-- A flag, then the handle if it is 1. -/
def readOptionalHandle (fuel : Nat) : MetaRead (Option StateHandle) := do
  let has ← readInt
  if has = 1 then do
    let handle ← readOperatorStateHandle A fuel
    pure (some handle)
  else pure none

/-- A negative index means a finished subtask: `-(index + 1)`. -/
def readSubtaskState (fuel : Nat) : MetaRead SubtaskState := do
  let subtaskIndexRaw ← readInt
  if subtaskIndexRaw < 0 then
    pure ⟨-(subtaskIndexRaw + 1), none, none, .null, .null, [], []⟩
  else do
    let managedOperatorState ← readOptionalHandle A fuel
    let rawOperatorState ← readOptionalHandle A fuel
    let managedKeyedState ← readKeyedStateHandle A fuel
    let rawKeyedState ← readKeyedStateHandle A fuel
    let numInput ← readInt
    let inputChannelState ← repeated numInput (readInputChannelHandle A fuel)
    let numResult ← readInt
    let resultSubpartitionState ← repeated numResult (readResultSubpartitionHandle A fuel)
    pure ⟨subtaskIndexRaw, managedOperatorState, rawOperatorState, managedKeyedState, rawKeyedState,
      inputChannelState, resultSubpartitionState⟩

/-- Version 5 writes the names of an operator before its id. -/
def readOperatorNames (version : UInt32) : MetaRead (Text × Text) :=
  if version ≥ 5 then do
    let name ← readUtf
    let identifierName ← readUtf
    pure (name, identifierName)
  else pure ([], [])

/-- The coordinator's state is a stream handle, kept when it is inline. -/
def readCoordinatorState (fuel : Nat) : MetaRead (Option Bytes) := do
  let handle ← readStreamStateHandle A fuel
  match handle with
  | .byteStream bs => pure (some bs.data)
  | _ => pure none

/-- The number of subtasks is -1 for an operator that is fully finished; its sign is dropped
    otherwise. -/
def readOperatorState (version : UInt32) (fuel : Nat) : MetaRead Operator := do
  let names ← readOperatorNames version
  let lower ← readLong
  let upper ← readLong
  let parallelism ← readInt
  let maxParallelism ← readInt
  let coordinatorState ← readCoordinatorState A fuel
  let numSubtasksRaw ← readInt
  let fullyFinished := numSubtasksRaw == -1
  let numSubtasks := if fullyFinished then 0 else numSubtasksRaw.toInt.natAbs
  A.alloc .subtask numSubtasks
  let subtaskStates ← many (readSubtaskState A fuel) numSubtasks
  pure {
    id := writeLong lower ++ writeLong upper
    name := names.1
    identifierName := names.2
    parallelism := parallelism
    maxParallelism := maxParallelism
    coordinatorState := coordinatorState
    subtaskStates := subtaskStates
    fullyFinished := fullyFinished }

/-- A savepoint, whose handles nest to a depth below `fuel`. -/
def readSavepoint (fuel : Nat) : MetaRead Savepoint := do
  let magic ← readInt
  if magic.toUInt32 ≠ headerMagicNumber then throw (.error (.invalidMagic magic.toUInt32))
  else do
    let version ← readInt
    if ¬ (minSupportedVersion ≤ version.toUInt32 ∧ version.toUInt32 ≤ maxSupportedVersion) then
      throw (.error (.unsupportedVersion version.toUInt32))
    else do
      let checkpointId ← readLong
      let numMaster ← readInt
      A.alloc .masterState (asUsize numMaster)
      let masterStates ← repeated numMaster (readMasterState A)
      let numOperators ← readInt
      A.alloc .operator (asUsize numOperators)
      let operators ←
        untilEof (readOperatorState A version.toUInt32 fuel) numOperators.toInt.toNat
      pure ⟨version.toUInt32, checkpointId, operators, masterStates⟩

/-- Parse a `_metadata` file with an allocator. -/
def parseMetadataWith (source : Bytes) : Except Halt Savepoint :=
  (readSavepoint A (source.length + 1) (JavaReader.new source)).1

end Readers

/-- Parse a `_metadata` file. -/
def parseMetadata (source : Bytes) : Except Halt Savepoint := parseMetadataWith capacity source

/-! ### What is parsed -/

/-- A keyed handle: one of key-groups has an offset for each of them. -/
def StateHandle.Keyed : StateHandle → Prop
  | .keyGroups kg => kg.numKeyGroups.toInt = kg.offsets.length
  | .operatorStream _ => False
  | _ => True

/-- A count that is allocated for is not negative. -/
theorem Allocator.alloc_nonneg (A : Allocator) (e : VecItem) (n : Int32) :
    Ensures (A.alloc e (asUsize n)) fun _ => 0 ≤ n.toInt := by
  unfold Allocator.alloc
  by_cases hgrants : A.grants e (asUsize n) = true
  · rw [if_pos hgrants]
    refine .pure ?_
    by_contra hneg
    have hover : 2 ^ 63 ≤ asUsize n := by
      have hle := n.le_toInt
      unfold asUsize
      omega
    rw [A.overflow e _ hover] at hgrants
    cases hgrants
  · rw [if_neg hgrants]
    exact .throw _ _

theorem ensures_readKeyGroupsInner (p : MetaRead StreamStateHandle) :
    Ensures (readKeyGroupsInner capacity p) fun kg => kg.numKeyGroups.toInt = kg.offsets.length := by
  refine .step fun _ => .step fun n => (capacity.alloc_nonneg .offset n).bind fun _ hn =>
    ((Ensures.trivial _).many _).bind fun offsets hoffsets => .step fun _ => .pure ?_
  show n.toInt = offsets.length
  rw [hoffsets.1, Int.toNat_of_nonneg hn]

theorem ensures_readKeyGroupsHandle (fuel : Nat) (isV2 : Bool) :
    Ensures (readKeyGroupsHandle capacity fuel isV2) StateHandle.Keyed := by
  refine (ensures_readKeyGroupsInner _).bind fun kg hkg => ?_
  cases isV2 with
  | false => exact .pure hkg
  | true => exact .step fun _ => .pure hkg

theorem ensures_readIncrementalHandle (fuel : Nat) (isV2 : Bool) :
    Ensures (readIncrementalHandle capacity fuel isV2) StateHandle.Keyed := by
  refine .step fun _ => .step fun _ => .step fun _ => .step fun _ => ?_
  cases isV2 with
  | false => exact .step fun _ => .step fun _ => .step fun _ => .step fun _ => .pure trivial
  | true =>
    exact .step fun _ => .step fun _ => .step fun _ => .step fun _ => .step fun _ => .pure trivial

theorem ensures_readChangelogHandle (isV2 : Bool) (readKeyed : MetaRead StateHandle) :
    Ensures (readChangelogHandle capacity isV2 readKeyed) StateHandle.Keyed := by
  refine .step fun _ => .step fun _ => .step fun _ => .step fun _ => .step fun _ => .step fun _ =>
    .step fun _ => .step fun _ => .step fun _ => .step fun _ => ?_
  cases isV2 with
  | false => exact .step fun _ => .step fun _ => .pure trivial
  | true => exact .step fun _ => .step fun _ => .pure trivial

theorem ensures_readChangelogByteHandle :
    Ensures (readChangelogByteHandle capacity) StateHandle.Keyed :=
  .step fun _ => .step fun _ => .step fun _ => .step fun _ => .step fun _ => .step fun _ =>
    .step fun _ => .pure trivial

theorem ensures_readChangelogFileHandle (fuel : Nat) (isV2 : Bool) :
    Ensures (readChangelogFileHandle capacity fuel isV2) StateHandle.Keyed := by
  refine .step fun _ => .step fun _ => .step fun _ => .step fun _ => .step fun _ => .step fun _ =>
    .step fun _ => .step fun _ => ?_
  cases isV2 with
  | false => exact .pure trivial
  | true => exact .step fun _ => .pure trivial

theorem ensures_readKeyedStateHandle (fuel : Nat) :
    Ensures (readKeyedStateHandle capacity fuel) StateHandle.Keyed := by
  cases fuel with
  | zero => exact fun r v r' h => by cases h
  | succ fuel =>
    refine .step fun tag => ?_
    split
    · exact .pure trivial
    · exact ensures_readKeyGroupsHandle fuel false
    · exact ensures_readKeyGroupsHandle fuel false
    · exact ensures_readKeyGroupsHandle fuel true
    · exact ensures_readIncrementalHandle fuel false
    · exact ensures_readIncrementalHandle fuel true
    · exact ensures_readChangelogHandle false _
    · exact ensures_readChangelogHandle true _
    · exact ensures_readChangelogByteHandle
    · exact ensures_readChangelogFileHandle fuel false
    · exact ensures_readChangelogFileHandle fuel true
    · exact fun r v r' h => by cases h

theorem ensures_readSubtaskState (fuel : Nat) :
    Ensures (readSubtaskState capacity fuel) fun st => st.managedKeyedState.Keyed := by
  refine .step fun raw => ?_
  by_cases hraw : raw < 0
  · simp only [if_pos hraw]
    exact .pure trivial
  · simp only [if_neg hraw]
    exact .step fun _ => .step fun _ => (ensures_readKeyedStateHandle fuel).bind fun _ hkeyed =>
      .step fun _ => .step fun _ => .step fun _ => .step fun _ => .step fun _ => .pure hkeyed

theorem ensures_readOperatorState (version : UInt32) (fuel : Nat) :
    Ensures (readOperatorState capacity version fuel) fun o =>
      ∀ st ∈ o.subtaskStates, st.managedKeyedState.Keyed :=
  .step fun _ => .step fun _ => .step fun _ => .step fun _ => .step fun _ => .step fun _ =>
    .step fun _ => .step fun _ => ((ensures_readSubtaskState fuel).many _).bind
      fun _ hsubtasks => .pure hsubtasks.2

theorem ensures_untilEof {β : Type} {p : MetaRead β} {P : β → Prop} (hp : Ensures p P) (n : Nat) :
    Ensures (untilEof p n) fun vs => ∀ v ∈ vs, P v := by
  induction n with
  | zero => exact .pure (List.forall_mem_nil P)
  | succ n ih =>
    intro r vs r' h
    unfold untilEof at h
    rcases hrun : p r with ⟨e | v, s⟩
    · rw [hrun] at h
      rcases e with e | _
      · cases e <;> cases h
        exact List.forall_mem_nil P
      · cases h
    · rw [hrun] at h
      obtain ⟨ws, s', hws, hpure⟩ := bind_eq_ok h
      cases hpure
      exact List.forall_mem_cons.mpr ⟨hp r v s hrun, ih s ws _ hws⟩

/-- **The keyed state of every subtask that is parsed** is a keyed handle. -/
theorem parseMetadata_keyed {source : Bytes} {sp : Savepoint} (h : parseMetadata source = .ok sp) :
    ∀ o ∈ sp.operators, ∀ st ∈ o.subtaskStates, st.managedKeyedState.Keyed := by
  have hsavepoint : Ensures (readSavepoint capacity (source.length + 1)) fun sp =>
      ∀ o ∈ sp.operators, ∀ st ∈ o.subtaskStates, st.managedKeyedState.Keyed := by
    refine .step fun magic => ?_
    by_cases hmagic : magic.toUInt32 ≠ headerMagicNumber
    · simp only [if_pos hmagic]
      exact .throw _ _
    · simp only [if_neg hmagic]
      refine .step fun version => ?_
      by_cases hversion : ¬ (minSupportedVersion ≤ version.toUInt32
          ∧ version.toUInt32 ≤ maxSupportedVersion)
      · simp only [if_pos hversion]
        exact .throw _ _
      · simp only [if_neg hversion]
        exact .step fun _ => .step fun _ => .step fun _ => .step fun _ => .step fun _ =>
          .step fun _ => (ensures_untilEof (ensures_readOperatorState _ _) _).bind
            fun _ hoperators => .pure hoperators
  exact hsavepoint (JavaReader.new source) sp _ (Prod.ext h rfl)

end FlinkExplorer
