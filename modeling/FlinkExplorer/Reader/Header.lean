import FlinkExplorer.Parser.KeyGroupBlock
import FlinkExplorer.Parser.StateValue

namespace FlinkExplorer

open Lib

/-!
# `reader/mod.rs` — what a subtask's header says

`SubtaskHeader` is what a keyed stream's header resolves to; states are numbered by their place
in it.  `entryOf` decodes an entry of a block with the state it belongs to.
-/

/-- A keyed state as one subtask's header registers it. -/
structure ResolvedState where
  name : Text
  stateType : Text
  valueType : Text
  valueClass : Option Text
  pojo : Option PojoInfo
  mapKeyType : Text
  mapValueType : Text

/-- Everything one subtask's header says. -/
structure SubtaskHeader where
  compressed : Bool
  keyType : Text
  keyPojo : Option PojoInfo
  keyTupleClasses : List Text
  states : List ResolvedState
  stateTypes : List Text
  layouts : List EntryLayout
  numStates : Nat

namespace SubtaskHeader

/-- The stateId of `name` in this subtask. -/
def stateId (h : SubtaskHeader) (name : Text) : Option UInt16 :=
  (h.states.findIdx? fun s => s.name == name).map UInt16.ofNat

/-- What parsing a block of this subtask needs. -/
def parseCtx (h : SubtaskHeader) (kgPrefixLen : Nat) (onlyState : Option UInt16) :
    KeyGroupParse where
  numStates := h.numStates
  keyType := h.keyType
  kgPrefixLen := kgPrefixLen
  keyPojo := h.keyPojo
  stateTypes := h.stateTypes
  layouts := h.layouts
  onlyState := onlyState

/-- The label of a state: its name, or its number when the header does not describe it. -/
def stateLabel (h : SubtaskHeader) (stateId : UInt16) : Text :=
  match h.states[stateId.toNat]? with
  | some st => st.name
  | none => '#' :: natText stateId.toNat

end SubtaskHeader

/-- `CompositeKeySerializationUtils.computeRequiredBytesInKeyGroupPrefix`. -/
def kgPrefixLen (maxParallelism : Int) : Nat := if maxParallelism > 128 then 2 else 1

/-- One stored entry of one key: a value, an entry of a map, or a timer. -/
structure StateEntry where
  state : Text
  stateType : Text
  valueType : Text
  mapKey : Option Text
  namespaceBytes : Bytes
  raw : Bytes
  value : Json

section Decode

variable (F : FloatText) (proto : Option ProtoContext)

/-- Decode one entry's value.  `fallbackKey` keeps undecodable map keys apart. -/
def decodeEntryValue (state : ResolvedState) (namespaceBytes value : Bytes) (fallbackKey : Nat) :
    Option Text × Json :=
  if state.stateType = "MAP".toList then
    let entry := decodeMapEntry F proto namespaceBytes value state.mapKeyType state.mapValueType
      state.pojo fallbackKey
    (some entry.1, entry.2)
  else (none, decodeStateValue F proto value state.valueType state.pojo)

/-- Decode one raw entry, the `i`-th of its key. -/
def entryOf (h : SubtaskHeader) (i : Nat) (e : KeyedEntry) : StateEntry :=
  match h.states[e.stateId.toNat]? with
  | some st =>
    let decoded := decodeEntryValue F proto st e.namespaceBytes e.value i
    ⟨st.name, st.stateType, st.valueType, decoded.1, e.namespaceBytes, e.value, decoded.2⟩
  | none =>
    ⟨'#' :: natText e.stateId.toNat, ['?'], ['?'], none, e.namespaceBytes, e.value,
      undecodable ['?']⟩

end Decode

end FlinkExplorer
