import FlinkExplorer.Flink.Block
import FlinkExplorer.Parser.StateCount

namespace FlinkExplorer

open Lib

/-!
# The states of a header as Flink registers them

`KeyedBackendSerializationProxy` writes the snapshot of the key's serializer, the number of states
and their records.  The number has to bound every stateId of the key-groups that follow.

* `KeyedHeader.write` — the header of any states, whatever their names and serializers;
* `blockFrames_loosen` — a larger bound reports no block that a smaller one accepts;
* `countStates_suffices_iff` — which headers the explorer reads a large enough number from;
* `countStates_too_small` — two states under a namespace of their own, one of which is left out.
-/

/-! ### The header -/

/-- What a registered state stores. -/
inductive BackendStateType
  | keyValue
  | operator
  | broadcast
  | priorityQueue

/-- The ordinal that is written. -/
def BackendStateType.ordinal : BackendStateType → Int32
  | keyValue => 0
  | operator => 1
  | broadcast => 2
  | priorityQueue => 3

/-- A text's bytes behind their length, as `writeUTF` has them. -/
def writeUtfBytes (bs : Bytes) : Bytes := beBytes 2 bs.length ++ bs

/-- `StateMetaInfoSnapshot`: a state's name, what it stores, its options and the snapshots of its
    serializers.  Texts are their modified UTF-8, a snapshot is its class name, its version and
    its own bytes. -/
structure StateMetaInfo where
  name : Bytes
  backendStateType : BackendStateType
  options : List (Bytes × Bytes)
  serializers : List (Bytes × Bytes × Int32 × Bytes)

/-- `TypeSerializerSnapshotSerializationProxy`, version 2. -/
def writeSnapshot (className : Bytes) (version : Int32) (payload : Bytes) : Bytes :=
  writeInt 2 ++ writeUtfBytes className ++ writeInt version ++ payload

/-- `StateMetaInfoSnapshotReadersWriters`, version 6. -/
def StateMetaInfo.write (s : StateMetaInfo) : Bytes :=
  writeUtfBytes s.name ++ writeInt s.backendStateType.ordinal
    ++ writeInt (Int32.ofNat s.options.length)
    ++ s.options.flatMap (fun o => writeUtfBytes o.1 ++ writeUtfBytes o.2)
    ++ writeInt (Int32.ofNat s.serializers.length)
    ++ s.serializers.flatMap fun z => writeUtfBytes z.1 ++ writeSnapshot z.2.1 z.2.2.1 z.2.2.2

/-- `KeyedBackendSerializationProxy`.  StateIds are `short`s, and `0xFFFF` ends a key-group. -/
structure KeyedHeader where
  usingKeyGroupCompression : Bool
  keyClass : Bytes
  keyVersion : Int32
  keyPayload : Bytes
  states : List StateMetaInfo
  states_le : states.length ≤ 0xFFFF

namespace KeyedHeader

variable (h : KeyedHeader)

/-- What lies in front of the number of states. -/
def start : Bytes :=
  writeInt 6 ++ writeBoolean h.usingKeyGroupCompression
    ++ writeSnapshot h.keyClass h.keyVersion h.keyPayload

/-- The bytes of a header. -/
def write : Bytes :=
  h.start ++ beBytes 2 h.states.length ++ h.states.flatMap StateMetaInfo.write

/-- Where the first state's record starts. -/
def firstRecord : Nat := h.start.length + 2

variable (C : CharText) (keyType : Text)

/-- The states the explorer finds. -/
def metas : List KeyedStateMeta := extractStateMetadata C h.write keyType

/-- The number of states the explorer counts. -/
def stateCount : Nat := countStatesInHeader h.write (h.metas C keyType)

/-- What the count is for: it is no smaller than the number of registered states, and no block of
    their entries is reported. -/
structure CountSuffices : Prop where
  enough : h.states.length ≤ h.stateCount C keyType
  healthy : ∀ (F : FloatText) (ctx : KeyGroupParse) (keyGroup : UInt16)
    (rs : List (StateRun ctx.kgPrefixLen h.states.length)), 0 < ctx.kgPrefixLen →
    ctx.numStates = h.stateCount C keyType →
    (parseKeyGroupBlock ctx F (encodeBlock rs) keyGroup).2 = none

/-- The earliest record that is found is at `p`. -/
def EarliestRecord (p : Nat) : Prop := IsEarliest h.write (nameBytes (h.metas C keyType)) p

/-- Where the explorer finds a large enough number. -/
inductive CountFound : Prop
  | single (hle : h.states.length ≤ 1)
  | allFound (hle : h.states.length ≤ (h.metas C keyType).length)
  | voidNamespaces (hle : h.states.length ≤ voidNamespaces h.write)
  | firstRecord (hfirst : h.EarliestRecord C keyType h.firstRecord)
  | otherRecord (p : Nat) (hp : h.EarliestRecord C keyType p) (hother : p ≠ h.firstRecord)
      (hlate : 11 ≤ p) (hle : h.states.length ≤ u16At h.write (p - 2))

/-! ### The number in front of the first record -/

theorem eleven_le_firstRecord : 11 ≤ h.firstRecord := by
  have hint (v : Int32) : (writeInt v).length = 4 := length_beBytes _ _
  simp only [firstRecord, start, writeSnapshot, List.length_append, hint, writeBoolean,
    List.length_singleton]
  omega

theorem u16At_firstRecord : u16At h.write (h.firstRecord - 2) = h.states.length := by
  have hle := h.states_le
  have hdrop : h.write.drop (h.firstRecord - 2)
      = beBytes 2 h.states.length ++ h.states.flatMap StateMetaInfo.write := by
    rw [write, firstRecord, List.append_assoc]
    exact List.drop_left' rfl
  rw [u16At, slice, hdrop, List.take_left' (length_beBytes _ _), beNat_beBytes_of_lt (by omega)]

end KeyedHeader

/-! ### Larger bounds -/

section Loosen

variable {ctx : KeyGroupParse} {n : Nat}

theorem noteUnknown_loosen (hn : n ≤ ctx.numStates) {stateId : UInt16} {pos : Nat}
    {unknown unknown' : Option BlockDefect} (hunknown : unknown' = none → unknown = none)
    (h : noteUnknown { ctx with numStates := n } stateId pos unknown' = none) :
    noteUnknown ctx stateId pos unknown = none := by
  unfold noteUnknown at h ⊢
  by_cases hnew : ¬ stateId.toNat < n ∧ unknown'.isNone
  · rw [if_pos hnew] at h
    cases h
  · rw [if_neg hnew] at h
    have hlt : stateId.toNat < n := by
      by_contra hge
      exact hnew ⟨hge, by rw [h]; rfl⟩
    rw [if_neg (fun hold => hold.1 (Nat.lt_of_lt_of_le hlt hn))]
    exact hunknown h

/-- **A larger bound finds nothing wrong** where a smaller one does not. -/
theorem frameLoop_loosen (hn : n ≤ ctx.numStates) (fuel : Nat) (stateId : UInt16)
    {unknown unknown' : Option BlockDefect} (hunknown : unknown' = none → unknown = none)
    (r : JavaReader)
    (h : (frameLoop { ctx with numStates := n } fuel stateId unknown' r).2 = none) :
    (frameLoop ctx fuel stateId unknown r).2 = none := by
  induction fuel generalizing stateId unknown unknown' r with
  | zero => exact hunknown h
  | succ fuel ih =>
    unfold frameLoop at h ⊢
    by_cases hmark : stateId = endOfKeyGroupMark
    · rw [if_pos hmark] at h ⊢
      exact hunknown h
    rw [if_neg hmark] at h ⊢
    have hnote : noteUnknown { ctx with numStates := n } stateId r.pos unknown' = none →
        noteUnknown ctx stateId r.pos unknown = none := noteUnknown_loosen hn hunknown
    rcases hframe : readFrame ctx.kgPrefixLen r with ⟨defect | frame, r'⟩
    · simp only [hframe] at h
      cases h
    simp only [hframe] at h ⊢
    by_cases hlast : frame.lastOfRun = true
    · rw [if_pos hlast] at h ⊢
      rcases hnext : orTruncated readChar r' with ⟨defect | next, r''⟩
      · simp only [hnext] at h
        cases h
      simp only [hnext] at h ⊢
      exact ih next hnote r'' h
    · rw [if_neg hlast] at h ⊢
      exact ih stateId hnote r' h

theorem blockFrames_loosen (hn : n ≤ ctx.numStates) (data : Bytes)
    (h : (blockFrames { ctx with numStates := n } data).2 = none) :
    (blockFrames ctx data).2 = none := by
  unfold blockFrames at h ⊢
  rcases hfirst : orTruncated readChar (JavaReader.new data) with ⟨defect | stateId, r⟩
  · simp only [hfirst] at h
    cases h
  simp only [hfirst] at h ⊢
  exact frameLoop_loosen hn _ stateId id r h

end Loosen

/-! ### The number that is read -/

namespace KeyedHeader

variable {h : KeyedHeader} {C : CharText} {keyType : Text}

/-- A large enough number bounds every stateId of a block. -/
theorem countSuffices_of_le (hle : h.states.length ≤ h.stateCount C keyType) :
    h.CountSuffices C keyType := by
  refine ⟨hle, fun F ctx keyGroup rs hk hcount => ?_⟩
  have hread := parseKeyGroupBlock_runs F { ctx with numStates := h.states.length } keyGroup hk
    h.states_le rs
  rw [parseKeyGroupBlockAt_eq] at hread
  have hnone := congrArg Prod.snd (Option.some.inj hread)
  exact blockFrames_loosen (hcount ▸ hle) _ hnone

end KeyedHeader

/-- **Which headers the explorer counts enough states in**: those of one state, those whose states
    are all found, or all have a void namespace, and else those whose earliest record is that of the
    first state, or has a large enough number in front of it by chance. -/
theorem countStates_suffices_iff (C : CharText) (keyType : Text) (h : KeyedHeader) :
    h.CountSuffices C keyType ↔ h.CountFound C keyType := by
  have hle := le_countStatesInHeader h.write (h.metas C keyType) h.states.length
  constructor
  · intro hcount
    rcases hle.mp hcount.enough with hone | hmetas | hvoid | ⟨p, hp, hlate, hnumber⟩
    · exact .single hone
    · exact .allFound hmetas
    · exact .voidNamespaces hvoid
    · by_cases hfirst : p = h.firstRecord
      · exact .firstRecord (hfirst ▸ hp)
      · exact .otherRecord p hp hfirst hlate hnumber
  · intro hfound
    apply KeyedHeader.countSuffices_of_le
    apply hle.mpr
    rcases hfound with hone | hmetas | hvoid | hfirst | ⟨p, hp, -, hlate, hnumber⟩
    · exact .inl hone
    · exact .inr (.inl hmetas)
    · exact .inr (.inr (.inl hvoid))
    · exact .inr (.inr (.inr ⟨_, hfirst, h.eleven_le_firstRecord, h.u16At_firstRecord.ge⟩))
    · exact .inr (.inr (.inr ⟨p, hp, hlate, hnumber⟩))

/-! ### States under a namespace of their own -/

/-- A value under a namespace with its own serializer, whose snapshot is of version 1. -/
def bucketValue (name : Text) : StateMetaInfo where
  name := encodeUtf8 name
  backendStateType := .keyValue
  options := [(keyedStateType, encodeUtf8 "VALUE".toList)]
  serializers := [
    (encodeUtf8 "VALUE_SERIALIZER".toList, encodeUtf8 "job.ValueSnapshot".toList, 1, []),
    (encodeUtf8 "NAMESPACE_SERIALIZER".toList, encodeUtf8 "job.BucketSnapshot".toList, 1, [])]

/-- The header of two such states, `A` and `b`. -/
def bucketHeader : KeyedHeader where
  usingKeyGroupCompression := false
  keyClass := encodeUtf8 "job.KeySnapshot".toList
  keyVersion := 1
  keyPayload := []
  states := ["A".toList, "b".toList].map bucketValue
  states_le := by decide

/-- What is known of the header of the two states. -/
def bucketParse : KeyGroupParse where
  numStates := bucketHeader.stateCount asciiText "?".toList
  keyType := "?".toList
  kgPrefixLen := 1
  keyPojo := none
  stateTypes := ["VALUE".toList]
  layouts := []
  onlyState := none

theorem stateCount_bucketHeader : bucketHeader.stateCount asciiText "?".toList = 1 := by
  decide +kernel

/-- A name without a lowercase letter is not found, the version in front of the next record is taken
    for the number of states, and the entries of the second state are left out. -/
theorem countStates_too_small :
    ¬ bucketHeader.CountSuffices asciiText "?".toList
      ∧ parseKeyGroupBlock bucketParse noFloats
          (encodeBlock [(⟨1, clockEntry, [], by decide⟩ : StateRun 1 2)]) 0
        = ([], some (.unknownStateId 0 1 1)) := by
  refine ⟨fun h => ?_, ?_⟩
  · have hle := h.enough
    rw [stateCount_bucketHeader] at hle
    exact absurd hle (by decide)
  · unfold bucketParse
    rw [stateCount_bucketHeader]
    rfl

end FlinkExplorer
