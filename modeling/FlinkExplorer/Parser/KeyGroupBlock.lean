import FlinkExplorer.Parser.Key

namespace FlinkExplorer

open Lib Lib.Read

/-!
# `parser/keyed_state.rs` — the block of a key-group

A block is a run of entries for each state that has some: a stateId, then the entries, the last
of which is flagged; after it comes the next stateId or the end mark.

* `blockFrames` — the entries as bytes, and why the reading stopped before the end mark;
* `parseKeyGroupBlock` — the same with the key of each entry decoded and split from what
  follows it;
* `frameLoop_fuel` — reading ends with the block, whatever bound it is given past its length.
-/

/-- `FullSnapshotUtil.END_OF_KEY_GROUP_MARK`. -/
def endOfKeyGroupMark : UInt16 := 0xFFFF

/-- `FullSnapshotUtil.FIRST_BIT_IN_BYTE_MASK`: set on the first byte of the last entry of a run. -/
def firstBitInByteMask : UInt8 := 0x80

/-- Why a block stopped before its end mark. -/
inductive BlockDefect
  | truncated (offset : Nat)
  | badLength (offset : Nat) (len : Int32)
  | unknownStateId (offset : Nat) (stateId : UInt16) (numStates : Nat)
  | decompression
  deriving DecidableEq

/-- How a defect is reported. -/
def BlockDefect.text : BlockDefect → Text
  | truncated offset => "truncated at byte ".toList ++ natText offset
  | badLength offset len =>
    "invalid length ".toList ++ intText len.toInt ++ " at byte ".toList ++ natText offset
  | unknownStateId offset stateId numStates =>
    "stateId ".toList ++ natText stateId.toNat ++ " at byte ".toList ++ natText offset
      ++ ", but the header registers ".toList ++ natText numStates ++ " states".toList
  | decompression => "Snappy frame does not decode".toList

/-- What follows the key in one state's entries: the width of the namespace, when it is known, and
    the type of the map key. -/
structure EntryLayout where
  namespaceLen : Option Nat
  mapKeyType : Option Text

/-- What parsing a block needs to know about the operator's header. -/
structure KeyGroupParse where
  numStates : Nat
  keyType : Text
  kgPrefixLen : Nat
  keyPojo : Option PojoInfo
  stateTypes : List Text
  layouts : List EntryLayout
  onlyState : Option UInt16

/-- An entry of a block. -/
structure KeyedEntry where
  stateId : UInt16
  key : Text
  keyGroup : UInt16
  namespaceBytes : Bytes
  value : Bytes

/-! ### Splitting the key from what follows it -/

section Split

variable (F : FloatText)

/-- Whether the bytes after a decoded key are a namespace of the known width, followed, for a
    map, by exactly one map key. -/
def tailFits (tail : Bytes) (namespaceLen : Option Nat) (mapKeyType : Option Text) : Bool :=
  match namespaceLen, mapKeyType with
  | none, _ => true
  | some n, none => tail.length == n
  | some n, some mk =>
    n < tail.length && (n != 1 || tail.head? == some 0)
      && (decodedLen F (tail.drop n) mk).all (· == tail.length - n)

/-- Where a key that is not decoded ends. -/
def opaqueKeyEnd (payload : Bytes) (namespaceLen : Option Nat) (mapKeyType : Option Text) : Nat :=
  match namespaceLen, mapKeyType with
  | none, _ => payload.length
  | some n, none => payload.length - n
  | some n, some mk =>
    -- The shortest suffix that is exactly one map key, after a well-formed namespace.
    (((List.range' n (payload.length - n)).reverse.find? fun uk =>
      (n != 1 || payload[uk - n]? == some 0)
        && decodedLen F (payload.drop uk) mk == some (payload.length - uk)).map (· - n)).getD
      payload.length

/-- The text of the key at the start of `payload` and its length.  A decoded key is kept only
    when what follows it fits. -/
def splitKey (payload : Bytes) (keyType : Text) (keyPojo : Option PojoInfo)
    (namespaceLen : Option Nat) (mapKeyType : Option Text) : Text × Nat :=
  let keyEnd := opaqueKeyEnd F payload namespaceLen mapKeyType
  ((decodeKey F payload keyType keyPojo).filter fun key =>
      key.2 ≤ payload.length && tailFits F (payload.drop key.2) namespaceLen mapKeyType).getD
    (opaqueKey (payload.take keyEnd), keyEnd)

variable (ctx : KeyGroupParse)

/-- The key of an entry and the bytes after it. -/
def readKeyFromBytes (keyBytes : Bytes) (layout : Option EntryLayout) : Text × Bytes :=
  if ctx.kgPrefixLen ≥ keyBytes.length then
    ("[".toList ++ natText keyBytes.length ++ " bytes]".toList, [])
  else
    let payload := keyBytes.drop ctx.kgPrefixLen
    let key := splitKey F payload ctx.keyType ctx.keyPojo (layout.bind (·.namespaceLen))
      (layout.bind (·.mapKeyType))
    (key.1, payload.drop key.2)

/-- The key of a timer and its firing timestamp, which is written with its sign flipped. -/
def readTimerKey (keyBytes : Bytes) (layout : Option EntryLayout) : Text × Bytes :=
  if ctx.kgPrefixLen + 8 > keyBytes.length then ([], [])
  else
    let flipped := Int64.ofInt (beInt ((keyBytes.drop ctx.kgPrefixLen).take 8))
    let payload := keyBytes.drop (ctx.kgPrefixLen + 8)
    let key := splitKey F payload ctx.keyType ctx.keyPojo (layout.bind (·.namespaceLen)) none
    (key.1, writeLong (flipped ^^^ Int64.minValue))

end Split

/-! ### Reading the entries -/

/-- An entry as it is stored. -/
structure Frame where
  keyBytes : Bytes
  value : Bytes

/-- Whether the entry is the last of its run. -/
def Frame.lastOfRun (f : Frame) : Bool := f.keyBytes.head?.any fun b => b &&& firstBitInByteMask != 0

/-- A read that reports where the block was cut short. -/
def orTruncated {β : Type} (p : ReadBytes ParseError β) : ReadBytes BlockDefect β := fun r =>
  p.mapError (fun _ => .truncated r.pos) r

/-- The value of the entry that starts at `entryAt`. -/
def readFrameValue (entryAt : Nat) : ReadBytes BlockDefect Bytes := fun r =>
  (do
    let vl ← orTruncated readInt
    if vl.toInt < 0 then throw (.badLength r.pos vl)
    else (readBytes vl.toInt.toNat).mapError fun _ => .truncated entryAt) r

/-- One entry: the length of its key and the key, the length of its value and the value. -/
def readFrame (kgPrefixLen : Nat) : ReadBytes BlockDefect Frame := fun r =>
  (do
    let kl ← orTruncated readInt
    if kl.toInt < max kgPrefixLen 1 then throw (.badLength r.pos kl)
    else do
      let keyBytes ← (readBytes kl.toInt.toNat).mapError fun _ => .truncated r.pos
      let value ← readFrameValue r.pos
      pure (Frame.mk keyBytes value)) r

section Block

variable (ctx : KeyGroupParse)

/-- The first stateId that the header does not declare is remembered. -/
def noteUnknown (stateId : UInt16) (pos : Nat) (unknown : Option BlockDefect) :
    Option BlockDefect :=
  if ¬ stateId.toNat < ctx.numStates ∧ unknown.isNone then
    some (.unknownStateId (pos - 2) stateId ctx.numStates)
  else unknown

/-- The entries from a stateId on, and what was wrong with the block. -/
def frameLoop : Nat → UInt16 → Option BlockDefect → JavaReader →
    List (UInt16 × Frame) × Option BlockDefect
  | 0, _, unknown, _ => ([], unknown)
  | fuel + 1, stateId, unknown, r =>
    if stateId = endOfKeyGroupMark then ([], unknown)
    else
      let unknown := noteUnknown ctx stateId r.pos unknown
      match readFrame ctx.kgPrefixLen r with
      | (.error defect, _) => ([], some defect)
      | (.ok frame, r) =>
        if frame.lastOfRun then
          match orTruncated readChar r with
          | (.error defect, _) => ([(stateId, frame)], some defect)
          | (.ok next, r) =>
            let rest := frameLoop fuel next unknown r
            ((stateId, frame) :: rest.1, rest.2)
        else
          let rest := frameLoop fuel stateId unknown r
          ((stateId, frame) :: rest.1, rest.2)

/-- The entries of a block, each under its stateId. -/
def blockFrames (data : Bytes) : List (UInt16 × Frame) × Option BlockDefect :=
  match orTruncated readChar (JavaReader.new data) with
  | (.error defect, _) => ([], some defect)
  | (.ok stateId, r) => frameLoop ctx (data.length + 1) stateId none r

/-- Whether a state's entries are asked for. -/
def isWanted (stateId : UInt16) : Bool :=
  stateId.toNat < ctx.numStates && ctx.onlyState.all (· == stateId)

variable (F : FloatText)

/-- An entry with its key decoded; a timer's value is its timestamp. -/
def frameEntry (kgIndex : UInt16) (stateId : UInt16) (frame : Frame) : KeyedEntry :=
  let layout := ctx.layouts[stateId.toNat]?
  if ctx.stateTypes[stateId.toNat]? = some "TIMER".toList then
    let key := readTimerKey F ctx frame.keyBytes layout
    ⟨stateId, key.1, kgIndex, [], key.2⟩
  else
    let key := readKeyFromBytes F ctx frame.keyBytes layout
    ⟨stateId, key.1, kgIndex, key.2, frame.value⟩

/-- The entries of a block that are asked for, and what was wrong with the block. -/
def parseKeyGroupBlock (data : Bytes) (kgIndex : UInt16) : List KeyedEntry × Option BlockDefect :=
  let frames := blockFrames ctx data
  ((frames.1.filter fun f => isWanted ctx f.1).map fun f => frameEntry ctx F kgIndex f.1 f.2,
    frames.2)

end Block

/-! ### The bound on the loop -/

section Fuel

theorem length_of_orTruncated {β : Type} {p : ReadBytes ParseError β} (hp : Stable p)
    {r r' : JavaReader} {v : β} (h : orTruncated p r = (.ok v, r')) :
    r'.inner.length ≤ r.inner.length := by
  obtain ⟨used, hused, -⟩ := hp _ _ _ (mapError_ok.mp h)
  rw [hused, List.length_append]
  exact Nat.le_add_left _ _

theorem length_of_readBytes {n : Nat} {defect : BlockDefect} {r r' : JavaReader} {bs : Bytes}
    (h : ((readBytes n).mapError fun _ => defect) r = (.ok bs, r')) :
    r'.inner.length ≤ r.inner.length := by
  obtain ⟨used, hused, -⟩ := stable_readBytes n _ _ _ (mapError_ok.mp h)
  rw [hused, List.length_append]
  exact Nat.le_add_left _ _

theorem length_of_readInt {r r' : JavaReader} {v : Int32}
    (h : orTruncated readInt r = (.ok v, r')) : r'.inner.length + 4 = r.inner.length := by
  obtain ⟨buf, s, hbuf, hrest⟩ := bind_eq_ok (mapError_ok.mp h)
  unfold readExactBytes at hbuf
  split at hbuf
  · rename_i hlen
    cases hbuf
    cases hrest
    simp only [List.length_drop]
    omega
  · cases hbuf

/-- An entry takes at least its two lengths. -/
theorem length_of_readFrame {kgPrefixLen : Nat} {r r' : JavaReader} {frame : Frame}
    (h : readFrame kgPrefixLen r = (.ok frame, r')) : r'.inner.length < r.inner.length := by
  obtain ⟨kl, r₁, hkl, h⟩ := bind_eq_ok h
  have h₁ := length_of_readInt hkl
  by_cases hshort : kl.toInt < max kgPrefixLen 1
  · rw [if_pos hshort] at h
    cases h
  rw [if_neg hshort] at h
  obtain ⟨keyBytes, r₂, hkey, h⟩ := bind_eq_ok h
  have h₂ := length_of_readBytes hkey
  obtain ⟨value, r₃, hvalue, h⟩ := bind_eq_ok h
  cases h
  obtain ⟨vl, r₄, hvl, hvalue⟩ := bind_eq_ok hvalue
  have h₄ := length_of_readInt hvl
  by_cases hneg : vl.toInt < 0
  · rw [if_pos hneg] at hvalue
    cases hvalue
  · rw [if_neg hneg] at hvalue
    have h₃ := length_of_readBytes hvalue
    omega

/-- The loop ends with the block: any bound past its length reads the same entries. -/
theorem frameLoop_fuel (ctx : KeyGroupParse) (n m : Nat) (stateId : UInt16)
    (unknown : Option BlockDefect) (r : JavaReader) (hn : r.inner.length < n)
    (hm : r.inner.length < m) :
    frameLoop ctx n stateId unknown r = frameLoop ctx m stateId unknown r := by
  induction n generalizing m stateId unknown r with
  | zero => omega
  | succ n ih =>
    obtain ⟨m, rfl⟩ : ∃ k, m = k + 1 := ⟨m - 1, by omega⟩
    unfold frameLoop
    by_cases hmark : stateId = endOfKeyGroupMark
    · rw [if_pos hmark, if_pos hmark]
    rw [if_neg hmark, if_neg hmark]
    rcases hframe : readFrame ctx.kgPrefixLen r with ⟨defect | frame, r'⟩
    · rfl
    have hlt := length_of_readFrame hframe
    simp only
    by_cases hlast : frame.lastOfRun = true
    · rw [if_pos hlast, if_pos hlast]
      rcases hnext : orTruncated readChar r' with ⟨defect | next, r''⟩
      · rfl
      have hle := length_of_orTruncated stable_readChar hnext
      simp only
      rw [ih m next _ r'' (by omega) (by omega)]
    · rw [if_neg hlast, if_neg hlast, ih m stateId _ r' (by omega) (by omega)]

end Fuel

end FlinkExplorer
