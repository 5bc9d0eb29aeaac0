import FlinkExplorer.Lib.Checked
import FlinkExplorer.Parser.KeyGroupBlock

namespace FlinkExplorer

open Lib Lib.Read

/-!
# `parser/keyed_state.rs` — the block of a key-group, index by index

`parse_key_group_block` keeps a position and slices the block with it.  `parseKeyGroupBlockAt` is
the same with every slice, index and difference that could abort; none does, and it gives what
`parseKeyGroupBlock` gives (`parseKeyGroupBlockAt_eq`).
-/

/-! ### The loop -/

section Loop

/-- A big-endian `short` at `pos`, and the position after it. -/
def readBeU16 (data : Bytes) (pos : Nat) : Except BlockDefect (UInt16 × Nat) :=
  if pos + 2 ≤ data.length then .ok (UInt16.ofNat (beNat ((data.drop pos).take 2)), pos + 2)
  else .error (.truncated pos)

/-- A big-endian `int` at `pos`, and the position after it. -/
def readBeI32 (data : Bytes) (pos : Nat) : Except BlockDefect (Int32 × Nat) :=
  if pos + 4 ≤ data.length then
    .ok (Int32.ofBitVec (BitVec.ofNat 32 (beNat ((data.drop pos).take 4))), pos + 4)
  else .error (.truncated pos)

variable (ctx : KeyGroupParse) (data : Bytes)

/-- The value at `valueAt`, of the entry that starts at `entryAt`, and the position after it. -/
def valueAt (entryAt valueAt : Nat) : Option (Except BlockDefect (Bytes × Nat)) :=
  match readBeI32 data valueAt with
  | .error defect => some (.error defect)
  | .ok (vl, pos) =>
    if vl.toInt < 0 then some (.error (.badLength valueAt vl))
    else do
      let left ← Checked.sub data.length pos
      if left < vl.toInt.toNat then some (.error (.truncated entryAt))
      else do
        let value ← Checked.slice data pos (pos + vl.toInt.toNat)
        some (.ok (value, pos + vl.toInt.toNat))

/-- The entry at `entryAt`, whether it is the last of its run, and the position after it. -/
def entryAt (entryAt : Nat) : Option (Except BlockDefect (Frame × Bool × Nat)) :=
  match readBeI32 data entryAt with
  | .error defect => some (.error defect)
  | .ok (kl, keyStart) =>
    if kl.toInt < max ctx.kgPrefixLen 1 then some (.error (.badLength entryAt kl))
    else do
      let left ← Checked.sub data.length keyStart
      if left < kl.toInt.toNat then some (.error (.truncated entryAt))
      else do
        let keyEnd := keyStart + kl.toInt.toNat
        let flags ← data[keyStart]?
        let keyBytes ← Checked.slice data keyStart keyEnd
        match ← valueAt data entryAt keyEnd with
        | .error defect => some (.error defect)
        | .ok (value, pos) =>
          some (.ok (⟨keyBytes, value⟩, flags &&& firstBitInByteMask != 0, pos))

/-- The first stateId that the header does not declare is remembered, by where it is. -/
def noteUnknownAt (stateId : UInt16) (pos : Nat) (unknown : Option BlockDefect) :
    Option (Option BlockDefect) :=
  if ¬ stateId.toNat < ctx.numStates ∧ unknown.isNone then do
    let offset ← Checked.sub pos 2
    some (some (.unknownStateId offset stateId ctx.numStates))
  else some unknown

/-- The entries from a stateId on. -/
def blockLoop : Nat → UInt16 → Option BlockDefect → Nat →
    Option (List (UInt16 × Frame) × Option BlockDefect)
  | 0, _, _, _ => none
  | fuel + 1, stateId, unknown, pos =>
    if stateId = endOfKeyGroupMark then some ([], unknown)
    else do
      let unknown ← noteUnknownAt ctx stateId pos unknown
      match ← entryAt ctx data pos with
      | .error defect => some ([], some defect)
      | .ok (frame, lastOfRun, pos) =>
        if lastOfRun then
          match readBeU16 data pos with
          | .error defect => some ([(stateId, frame)], some defect)
          | .ok (next, pos) => do
            let rest ← blockLoop fuel next unknown pos
            some ((stateId, frame) :: rest.1, rest.2)
        else do
          let rest ← blockLoop fuel stateId unknown pos
          some ((stateId, frame) :: rest.1, rest.2)

/-- The entries of a block, each under its stateId. -/
def blockFramesAt : Option (List (UInt16 × Frame) × Option BlockDefect) :=
  match readBeU16 data 0 with
  | .error defect => some ([], some defect)
  | .ok (stateId, pos) => blockLoop ctx data (data.length + 1) stateId none pos

end Loop

/-! ### The keys -/

section Keys

variable (F : FloatText)

/-- Whether a namespace of `n` bytes is well-formed: one of a single byte is zero. -/
def isNamespaceAt (bytes : Bytes) (n start : Nat) : Option Bool :=
  if n != 1 then some true else (bytes[start]?).map (· == 0)

/-- Whether the bytes after a decoded key are what follows a key. -/
def tailFitsAt (tail : Bytes) (namespaceLen : Option Nat) (mapKeyType : Option Text) :
    Option Bool :=
  match namespaceLen, mapKeyType with
  | none, _ => some true
  | some n, none => some (tail.length == n)
  | some n, some mk =>
    if ¬ n < tail.length then some false
    else do
      let wellFormed ← isNamespaceAt tail n 0
      if ¬ wellFormed then some false
      else do
        let mapKey ← Checked.slice tail n tail.length
        some ((decodedLen F mapKey mk).all (· == tail.length - n))

/-- Whether a suffix is one map key after a well-formed namespace. -/
def isMapKeyAt (payload : Bytes) (n : Nat) (mk : Text) (uk : Nat) : Option Bool := do
  let nsStart ← Checked.sub uk n
  let wellFormed ← isNamespaceAt payload n nsStart
  if ¬ wellFormed then some false
  else do
    let mapKey ← Checked.slice payload uk payload.length
    some (decodedLen F mapKey mk == some (payload.length - uk))

/-- The first number of a list that passes a test that may abort. -/
def findAt (p : Nat → Option Bool) : List Nat → Option (Option Nat)
  | [] => some none
  | i :: is => do if ← p i then some (some i) else findAt p is

/-- Where a key that is not decoded ends. -/
def opaqueKeyEndAt (payload : Bytes) (namespaceLen : Option Nat) (mapKeyType : Option Text) :
    Option Nat :=
  match namespaceLen, mapKeyType with
  | none, _ => some payload.length
  | some n, none => some (payload.length - n)
  | some n, some mk => do
    match ← findAt (isMapKeyAt F payload n mk) (List.range' n (payload.length - n)).reverse with
    | none => some payload.length
    | some uk => Checked.sub uk n

/-- The text of the key at the start of `payload` and its length. -/
def splitKeyAt (payload : Bytes) (keyType : Text) (keyPojo : Option PojoInfo)
    (namespaceLen : Option Nat) (mapKeyType : Option Text) : Option (Text × Nat) := do
  let opaquely : Option (Text × Nat) := do
    let keyEnd ← opaqueKeyEndAt F payload namespaceLen mapKeyType
    let key ← Checked.slice payload 0 keyEnd
    some (opaqueKey key, keyEnd)
  match decodeKey F payload keyType keyPojo with
  | none => opaquely
  | some (key, used) =>
    if used ≤ payload.length then do
      let tail ← Checked.slice payload used payload.length
      if ← tailFitsAt F tail namespaceLen mapKeyType then some (key, used) else opaquely
    else opaquely

variable (ctx : KeyGroupParse)

/-- The key of an entry and the bytes after it. -/
def readKeyFromBytesAt (keyBytes : Bytes) (layout : Option EntryLayout) : Option (Text × Bytes) :=
  if ctx.kgPrefixLen ≥ keyBytes.length then
    some ("[".toList ++ natText keyBytes.length ++ " bytes]".toList, [])
  else do
    let payload ← Checked.slice keyBytes ctx.kgPrefixLen keyBytes.length
    let (key, keyEnd) ← splitKeyAt F payload ctx.keyType ctx.keyPojo
      (layout.bind (·.namespaceLen)) (layout.bind (·.mapKeyType))
    let after ← Checked.slice payload keyEnd payload.length
    some (key, after)

/-- The key of a timer and its firing timestamp. -/
def readTimerKeyAt (keyBytes : Bytes) (layout : Option EntryLayout) : Option (Text × Bytes) :=
  if ctx.kgPrefixLen + 8 > keyBytes.length then some ([], [])
  else do
    let word ← Checked.slice keyBytes ctx.kgPrefixLen (ctx.kgPrefixLen + 8)
    let payload ← Checked.slice keyBytes (ctx.kgPrefixLen + 8) keyBytes.length
    let (key, _) ← splitKeyAt F payload ctx.keyType ctx.keyPojo (layout.bind (·.namespaceLen)) none
    some (key, writeLong (Int64.ofInt (beInt word) ^^^ Int64.minValue))

/-- An entry with its key decoded. -/
def frameEntryAt (kgIndex : UInt16) (stateId : UInt16) (frame : Frame) : Option KeyedEntry := do
  let layout := ctx.layouts[stateId.toNat]?
  if ctx.stateTypes[stateId.toNat]? = some "TIMER".toList then
    let key ← readTimerKeyAt F ctx frame.keyBytes layout
    some ⟨stateId, key.1, kgIndex, [], key.2⟩
  else
    let key ← readKeyFromBytesAt F ctx frame.keyBytes layout
    some ⟨stateId, key.1, kgIndex, key.2, frame.value⟩

/-- The entries of a block that are asked for, and what was wrong with the block. -/
def parseKeyGroupBlockAt (data : Bytes) (kgIndex : UInt16) :
    Option (List KeyedEntry × Option BlockDefect) := do
  let frames ← blockFramesAt ctx data
  let entries ← (frames.1.filter fun f => isWanted ctx f.1).mapM fun f =>
    frameEntryAt F ctx kgIndex f.1 f.2
  some (entries, frames.2)

end Keys

/-! ### The loop reads what the reader reads -/

section Refine

variable {ctx : KeyGroupParse} {data : Bytes}

/-- A reader at a position of the block. -/
def readerAt (data : Bytes) (pos : Nat) : JavaReader := ⟨data.drop pos, pos⟩

theorem drop_readerAt (pos n : Nat) : (readerAt data pos).inner.drop n = data.drop (pos + n) := by
  rw [readerAt, List.drop_drop]

/-- `readExactBytes` at a position. -/
theorem readExactBytes_readerAt {pos n : Nat} (hpos : pos ≤ data.length) :
    readExactBytes n (readerAt data pos)
      = if pos + n ≤ data.length then (.ok ((data.drop pos).take n), readerAt data (pos + n))
        else (.error (.unexpectedEof pos), ⟨[], pos⟩) := by
  have hlen : (readerAt data pos).inner.length = data.length - pos := by
    rw [readerAt, List.length_drop]
  rw [readExactBytes, hlen, drop_readerAt]
  by_cases h : pos + n ≤ data.length
  · rw [if_pos h, if_pos (by omega)]
    rfl
  · rw [if_neg h, if_neg (by omega)]
    rfl

theorem readChar_readerAt {pos : Nat} (hpos : pos ≤ data.length) :
    orTruncated readChar (readerAt data pos)
      = match readBeU16 data pos with
        | .ok (v, next) => (.ok v, readerAt data next)
        | .error defect => (.error defect, ⟨[], pos⟩) := by
  have hbytes := @readExactBytes_readerAt data pos 2 hpos
  unfold readBeU16
  by_cases h : pos + 2 ≤ data.length
  · rw [if_pos h] at hbytes ⊢
    exact mapError_ok.mpr (bind_ok hbytes)
  · rw [if_neg h] at hbytes ⊢
    have herror : readChar (readerAt data pos) = (.error (.unexpectedEof pos), ⟨[], pos⟩) :=
      bind_error hbytes
    rw [orTruncated, Read.mapError, herror]
    rfl

theorem readInt_readerAt {pos : Nat} (hpos : pos ≤ data.length) :
    orTruncated readInt (readerAt data pos)
      = match readBeI32 data pos with
        | .ok (v, next) => (.ok v, readerAt data next)
        | .error defect => (.error defect, ⟨[], pos⟩) := by
  have hbytes := @readExactBytes_readerAt data pos 4 hpos
  unfold readBeI32
  by_cases h : pos + 4 ≤ data.length
  · rw [if_pos h] at hbytes ⊢
    exact mapError_ok.mpr (bind_ok hbytes)
  · rw [if_neg h] at hbytes ⊢
    have herror : readInt (readerAt data pos) = (.error (.unexpectedEof pos), ⟨[], pos⟩) :=
      bind_error hbytes
    rw [orTruncated, Read.mapError, herror]
    rfl

theorem readBytes_readerAt {pos n : Nat} (hpos : pos ≤ data.length) (defect : BlockDefect) :
    ((readBytes n).mapError fun _ => defect) (readerAt data pos)
      = if pos + n ≤ data.length then (.ok ((data.drop pos).take n), readerAt data (pos + n))
        else (.error defect, ⟨[], pos⟩) := by
  rw [Read.mapError, readBytes, readExactBytes_readerAt hpos]
  by_cases h : pos + n ≤ data.length
  · rw [if_pos h, if_pos h]
  · rw [if_neg h, if_neg h]

/-- An `int` that is read ends inside the block. -/
theorem pos_of_readBeI32 {pos next : Nat} {v : Int32} (h : readBeI32 data pos = .ok (v, next)) :
    pos ≤ next ∧ next ≤ data.length := by
  unfold readBeI32 at h
  by_cases hlen : pos + 4 ≤ data.length
  · rw [if_pos hlen] at h
    cases h
    omega
  · rw [if_neg hlen] at h
    cases h

theorem pos_of_readBeU16 {pos next : Nat} {v : UInt16} (h : readBeU16 data pos = .ok (v, next)) :
    pos + 2 = next ∧ next ≤ data.length := by
  unfold readBeU16 at h
  by_cases hlen : pos + 2 ≤ data.length
  · rw [if_pos hlen] at h
    cases h
    omega
  · rw [if_neg hlen] at h
    cases h

/-- What is read at a position by index and by a reader: the same value, which ends inside the
    block, or the same defect. -/
def Agrees {β : Type} (data : Bytes) (pos : Nat) :
    Except BlockDefect (β × Nat) → Except BlockDefect β × JavaReader → Prop
  | .ok (v, next), run => run = (.ok v, readerAt data next) ∧ pos ≤ next ∧ next ≤ data.length
  | .error defect, run => run.1 = .error defect

theorem readFrameValue_readerAt {entry pos : Nat} (hpos : pos ≤ data.length) :
    ∃ result, valueAt data entry pos = some result ∧
      Agrees data pos result (readFrameValue entry (readerAt data pos)) := by
  have hint := readInt_readerAt hpos
  unfold valueAt
  rcases hvl : readBeI32 data pos with defect | ⟨vl, next⟩
  · rw [hvl] at hint
    exact ⟨_, rfl, congrArg Prod.fst (bind_error hint)⟩
  · rw [hvl] at hint
    obtain ⟨hle, hnext⟩ := pos_of_readBeI32 hvl
    have hrun := bind_ok (f := fun vl : Int32 =>
      if vl.toInt < 0 then throw (BlockDefect.badLength pos vl)
      else (readBytes vl.toInt.toNat).mapError fun _ => .truncated entry) hint
    have hvalue : readFrameValue entry (readerAt data pos)
        = (if vl.toInt < 0 then throw (BlockDefect.badLength pos vl)
          else (readBytes vl.toInt.toNat).mapError fun _ => .truncated entry)
            (readerAt data next) := hrun
    rw [hvalue]
    simp only
    by_cases hneg : vl.toInt < 0
    · rw [if_pos hneg, if_pos hneg]
      exact ⟨_, rfl, rfl⟩
    rw [if_neg hneg, if_neg hneg, Checked.sub_eq_some hnext, readBytes_readerAt hnext]
    simp only [Option.bind_eq_bind, Option.bind_some]
    by_cases hfits : next + vl.toInt.toNat ≤ data.length
    · rw [if_neg (by omega), if_pos hfits, Checked.slice_eq_some (Nat.le_add_right _ _) hfits,
        Nat.add_sub_cancel_left]
      exact ⟨_, rfl, rfl, by omega, hfits⟩
    · rw [if_pos (by omega), if_neg hfits]
      exact ⟨_, rfl, rfl⟩

/-- The entry at a position is the one that is read there, flag included. -/
theorem readFrame_readerAt (ctx : KeyGroupParse) {pos : Nat} (hpos : pos ≤ data.length) :
    ∃ result, entryAt ctx data pos = some result ∧
      Agrees data pos (result.map fun e => (e.1, e.2.2))
        (readFrame ctx.kgPrefixLen (readerAt data pos)) ∧
      ∀ e, result = .ok e → e.2.1 = e.1.lastOfRun := by
  have hint := readInt_readerAt hpos
  unfold entryAt
  rcases hkl : readBeI32 data pos with defect | ⟨kl, start⟩
  · rw [hkl] at hint
    exact ⟨_, rfl, congrArg Prod.fst (bind_error hint), nofun⟩
  · rw [hkl] at hint
    obtain ⟨hle, hstart⟩ := pos_of_readBeI32 hkl
    have hentry : readFrame ctx.kgPrefixLen (readerAt data pos)
        = (if kl.toInt < max ctx.kgPrefixLen 1 then throw (BlockDefect.badLength pos kl)
          else do
            let keyBytes ← (readBytes kl.toInt.toNat).mapError fun _ => .truncated pos
            let value ← readFrameValue pos
            pure (Frame.mk keyBytes value)) (readerAt data start) := bind_ok hint
    rw [hentry]
    simp only
    by_cases hshort : kl.toInt < max ctx.kgPrefixLen 1
    · rw [if_pos hshort, if_pos hshort]
      exact ⟨_, rfl, rfl, nofun⟩
    rw [if_neg hshort, if_neg hshort, Checked.sub_eq_some hstart]
    simp only [Option.bind_eq_bind, Option.bind_some]
    have hbytes := readBytes_readerAt (n := kl.toInt.toNat) hstart (.truncated pos)
    -- The key is inside the block, or the subtraction and the slice are never reached.
    by_cases hfits : start + kl.toInt.toNat ≤ data.length
    · rw [if_pos hfits] at hbytes
      obtain ⟨value, hvalue, hagrees⟩ := @readFrameValue_readerAt data pos _ hfits
      have hindex : start < data.length := by omega
      rw [if_neg (by omega), Checked.slice_eq_some (Nat.le_add_right _ _) hfits,
        Nat.add_sub_cancel_left, List.getElem?_eq_getElem hindex, hvalue, bind_ok hbytes]
      simp only [Option.bind_some]
      -- the key is not empty: its length is at least the prefix's and at least 1
      have hflag (value : Bytes) : (Frame.mk ((data.drop start).take kl.toInt.toNat) value).lastOfRun
          = (data[start] &&& firstBitInByteMask != 0) := by
        obtain ⟨m, hm⟩ : ∃ m, kl.toInt.toNat = m + 1 := ⟨kl.toInt.toNat - 1, by omega⟩
        rw [Frame.lastOfRun, hm, List.drop_eq_getElem_cons hindex]
        rfl
      rcases value with defect | ⟨value, next⟩
      · have herror : readFrameValue pos (readerAt data (start + kl.toInt.toNat))
            = (.error defect, (readFrameValue pos (readerAt data (start + kl.toInt.toNat))).2) :=
          Prod.ext hagrees rfl
        exact ⟨_, rfl, congrArg Prod.fst (bind_error herror), nofun⟩
      · obtain ⟨hrun, hle', hnext⟩ := hagrees
        refine ⟨_, rfl, ⟨bind_ok hrun, Nat.le_trans (by omega) hle', hnext⟩, ?_⟩
        rintro e ⟨⟩
        exact (hflag value).symm
    · rw [if_neg hfits] at hbytes
      rw [if_pos (by omega), bind_error hbytes]
      exact ⟨_, rfl, rfl, nofun⟩

/-- The loop reads what the reader reads. -/
theorem blockLoop_eq (fuel : Nat) (stateId : UInt16) (unknown : Option BlockDefect) (pos : Nat)
    (hpos : pos ≤ data.length) (htwo : 2 ≤ pos) (hfuel : data.length - pos < fuel) :
    blockLoop ctx data fuel stateId unknown pos
      = some (frameLoop ctx fuel stateId unknown (readerAt data pos)) := by
  induction fuel generalizing stateId unknown pos with
  | zero => omega
  | succ fuel ih =>
    unfold blockLoop frameLoop
    by_cases hmark : stateId = endOfKeyGroupMark
    · rw [if_pos hmark, if_pos hmark]
    rw [if_neg hmark, if_neg hmark]
    -- two bytes of a stateId were read before `pos`, so `pos - 2` does not wrap
    have hunknown : noteUnknownAt ctx stateId pos unknown
        = some (noteUnknown ctx stateId pos unknown) := by
      unfold noteUnknownAt noteUnknown
      by_cases hnew : ¬ stateId.toNat < ctx.numStates ∧ unknown.isNone = true
      · rw [if_pos hnew, if_pos hnew, Checked.sub_eq_some htwo]
        rfl
      · rw [if_neg hnew, if_neg hnew]
    obtain ⟨entry, hentry, hagrees, hflag⟩ := readFrame_readerAt ctx hpos
    -- each entry takes bytes, which is what the fuel counts
    have hlt := fun frame r' (h : readFrame ctx.kgPrefixLen (readerAt data pos) = (.ok frame, r')) =>
      length_of_readFrame h
    simp only [Option.bind_eq_bind, hunknown, hentry, Option.bind_some]
    rcases entry with defect | ⟨frame, last, next⟩
    · have herror : readFrame ctx.kgPrefixLen (readerAt data pos)
          = (.error defect, (readFrame ctx.kgPrefixLen (readerAt data pos)).2) := Prod.ext hagrees rfl
      rw [herror]
    · obtain ⟨hrun, hle, hnext⟩ : _ ∧ pos ≤ next ∧ next ≤ data.length := hagrees
      have hshorter := hlt _ _ hrun
      simp only [readerAt, List.length_drop] at hshorter
      have hlast : last = frame.lastOfRun := hflag _ rfl
      rw [hrun, hlast]
      simp only
      by_cases hend : frame.lastOfRun = true
      · rw [if_pos hend, if_pos hend, readChar_readerAt hnext]
        rcases hword : readBeU16 data next with defect | ⟨id, after⟩
        · rfl
        · obtain ⟨rfl, hafter⟩ := pos_of_readBeU16 hword
          simp only [ih id _ _ hafter (by omega) (by omega), Option.bind_some]
          rfl
      · rw [if_neg hend, if_neg hend]
        simp only [ih stateId _ _ hnext (by omega) (by omega), Option.bind_some]
        rfl

theorem blockFramesAt_eq (ctx : KeyGroupParse) (data : Bytes) :
    blockFramesAt ctx data = some (blockFrames ctx data) := by
  have hword := @readChar_readerAt data 0 (Nat.zero_le _)
  have hstart : readerAt data 0 = JavaReader.new data := rfl
  rw [hstart] at hword
  unfold blockFramesAt blockFrames
  rw [hword]
  rcases hid : readBeU16 data 0 with defect | ⟨id, after⟩
  · rfl
  · obtain ⟨rfl, hafter⟩ := pos_of_readBeU16 hid
    exact blockLoop_eq _ _ _ _ hafter (by omega) (by omega)

end Refine

/-! ### The keys are split inside their bytes -/

section Split

variable {F : FloatText}

theorem slice_drop {data : Bytes} {n : Nat} (h : n ≤ data.length) :
    Checked.slice data n data.length = some (data.drop n) := by
  rw [Checked.slice_eq_some h (Nat.le_refl _), List.take_of_length_le (by rw [List.length_drop])]

/-- Inside the bytes the namespace is looked at without aborting. -/
theorem isNamespaceAt_eq {bytes : Bytes} (n : Nat) {start : Nat} (h : start < bytes.length) :
    isNamespaceAt bytes n start = some (n != 1 || bytes[start]? == some 0) := by
  unfold isNamespaceAt
  rw [List.getElem?_eq_getElem h]
  by_cases hn : (n != 1) = true
  · rw [if_pos hn, hn, Bool.true_or]
  · rw [if_neg hn, Bool.eq_false_iff.mpr hn, Bool.false_or]
    rfl

theorem tailFitsAt_eq (tail : Bytes) (namespaceLen : Option Nat) (mapKeyType : Option Text) :
    tailFitsAt F tail namespaceLen mapKeyType
      = some (tailFits F tail namespaceLen mapKeyType) := by
  match namespaceLen, mapKeyType with
  | none, _ => rfl
  | some n, none => rfl
  | some n, some mk =>
    unfold tailFitsAt tailFits
    simp only
    by_cases hn : n < tail.length
    · rw [if_neg (not_not_intro hn), slice_drop (Nat.le_of_lt hn), isNamespaceAt_eq n (by omega),
        List.head?_eq_getElem?]
      by_cases hmarked : (n != 1 || tail[0]? == some 0) = true
      · simp [hmarked, hn]
      · simp [hmarked]
    · rw [if_pos hn]
      simp [hn]

theorem findAt_eq {p : Nat → Option Bool} {q : Nat → Bool} {is : List Nat}
    (h : ∀ i ∈ is, p i = some (q i)) : findAt p is = some (is.find? q) := by
  induction is with
  | nil => rfl
  | cons i is ih =>
    rw [findAt, h i List.mem_cons_self, List.find?_cons]
    cases hq : q i with
    | true => simp
    | false => simpa using ih fun j hj => h j (List.mem_cons_of_mem i hj)

theorem isMapKeyAt_eq {payload : Bytes} {n uk : Nat} (mk : Text) (hn : n ≤ uk)
    (huk : uk < payload.length) :
    isMapKeyAt F payload n mk uk = some ((n != 1 || payload[uk - n]? == some 0)
      && decodedLen F (payload.drop uk) mk == some (payload.length - uk)) := by
  unfold isMapKeyAt
  simp only [Checked.sub_eq_some hn, Option.bind_eq_bind, Option.bind_some,
    isNamespaceAt_eq n (show uk - n < payload.length by omega), slice_drop (Nat.le_of_lt huk)]
  by_cases hmarked : (n != 1 || payload[uk - n]? == some 0) = true
  · simp [hmarked]
  · simp [hmarked]

theorem opaqueKeyEndAt_eq (payload : Bytes) (namespaceLen : Option Nat)
    (mapKeyType : Option Text) :
    opaqueKeyEndAt F payload namespaceLen mapKeyType
        = some (opaqueKeyEnd F payload namespaceLen mapKeyType) ∧
      opaqueKeyEnd F payload namespaceLen mapKeyType ≤ payload.length := by
  match namespaceLen, mapKeyType with
  | none, _ => exact ⟨rfl, Nat.le_refl _⟩
  | some n, none => exact ⟨rfl, Nat.sub_le _ _⟩
  | some n, some mk =>
    have hmem {uk : Nat} (h : uk ∈ (List.range' n (payload.length - n)).reverse) :
        n ≤ uk ∧ uk < payload.length := by
      rw [List.mem_reverse, List.mem_range'_1] at h
      omega
    have hfind := findAt_eq fun uk huk => isMapKeyAt_eq (F := F) mk (hmem huk).1 (hmem huk).2
    unfold opaqueKeyEndAt opaqueKeyEnd
    simp only [hfind, Option.bind_eq_bind, Option.bind_some]
    rcases hfound : List.find? _ (List.range' n (payload.length - n)).reverse with _ | uk
    · exact ⟨rfl, Nat.le_refl _⟩
    · obtain ⟨hn, huk⟩ := hmem (List.mem_of_find?_eq_some hfound)
      exact ⟨Checked.sub_eq_some hn, Nat.le_trans (Nat.sub_le _ _) (Nat.le_of_lt huk)⟩

theorem splitKeyAt_eq (payload : Bytes) (keyType : Text) (keyPojo : Option PojoInfo)
    (namespaceLen : Option Nat) (mapKeyType : Option Text) :
    splitKeyAt F payload keyType keyPojo namespaceLen mapKeyType
        = some (splitKey F payload keyType keyPojo namespaceLen mapKeyType) ∧
      (splitKey F payload keyType keyPojo namespaceLen mapKeyType).2 ≤ payload.length := by
  obtain ⟨hend, hle⟩ := opaqueKeyEndAt_eq (F := F) payload namespaceLen mapKeyType
  have hslice := Checked.slice_eq_some (Nat.zero_le _) hle
  unfold splitKeyAt splitKey
  simp only [hend, hslice, Option.bind_eq_bind, Option.bind_some, List.drop_zero, Nat.sub_zero]
  rcases decodeKey F payload keyType keyPojo with _ | ⟨key, used⟩
  · exact ⟨rfl, hle⟩
  · simp only [Option.filter_some]
    by_cases hused : used ≤ payload.length
    · rw [if_pos hused, slice_drop hused]
      simp only [Option.bind_some, tailFitsAt_eq]
      by_cases hfits : tailFits F (payload.drop used) namespaceLen mapKeyType = true
      · simp [hfits, hused]
      · simp [hfits, hle]
    · rw [if_neg hused]
      simp [hused, hle]

theorem frameEntryAt_eq (ctx : KeyGroupParse) (kgIndex stateId : UInt16) (frame : Frame) :
    frameEntryAt F ctx kgIndex stateId frame = some (frameEntry ctx F kgIndex stateId frame) := by
  have hkey (layout : Option EntryLayout) : readKeyFromBytesAt F ctx frame.keyBytes layout
      = some (readKeyFromBytes F ctx frame.keyBytes layout) := by
    unfold readKeyFromBytesAt readKeyFromBytes
    by_cases hshort : ctx.kgPrefixLen ≥ frame.keyBytes.length
    · rw [if_pos hshort, if_pos hshort]
    · obtain ⟨hsplit, hle⟩ := splitKeyAt_eq (F := F) (frame.keyBytes.drop ctx.kgPrefixLen)
        ctx.keyType ctx.keyPojo (layout.bind (·.namespaceLen)) (layout.bind (·.mapKeyType))
      rw [if_neg hshort, if_neg hshort, slice_drop (by omega)]
      simp only [Option.bind_eq_bind, Option.bind_some, hsplit, slice_drop hle]
  have htimer (layout : Option EntryLayout) : readTimerKeyAt F ctx frame.keyBytes layout
      = some (readTimerKey F ctx frame.keyBytes layout) := by
    unfold readTimerKeyAt readTimerKey
    by_cases hshort : ctx.kgPrefixLen + 8 > frame.keyBytes.length
    · rw [if_pos hshort, if_pos hshort]
    · have hsplit := (splitKeyAt_eq (F := F) (frame.keyBytes.drop (ctx.kgPrefixLen + 8))
        ctx.keyType ctx.keyPojo (layout.bind (·.namespaceLen)) none).1
      rw [if_neg hshort, if_neg hshort, slice_drop (by omega),
        Checked.slice_eq_some (Nat.le_add_right _ _) (by omega), Nat.add_sub_cancel_left]
      simp only [Option.bind_eq_bind, Option.bind_some, hsplit]
  unfold frameEntryAt frameEntry
  by_cases htype : ctx.stateTypes[stateId.toNat]? = some "TIMER".toList
  · simp only [if_pos htype, htimer, Option.bind_eq_bind, Option.bind_some]
  · simp only [if_neg htype, hkey, Option.bind_eq_bind, Option.bind_some]

theorem mapM_eq_some {α β : Type} {f : α → Option β} {g : α → β} (h : ∀ a, f a = some (g a))
    (xs : List α) : xs.mapM f = some (xs.map g) := by
  induction xs with
  | nil => rfl
  | cons x xs ih => simp [List.mapM_cons, h x, ih]

/-- **No step of the parse aborts**, whatever the bytes, and the parse is the reader's. -/
theorem parseKeyGroupBlockAt_eq (ctx : KeyGroupParse) (data : Bytes) (kgIndex : UInt16) :
    parseKeyGroupBlockAt F ctx data kgIndex = some (parseKeyGroupBlock ctx F data kgIndex) := by
  have hmap := mapM_eq_some (f := fun f : UInt16 × Frame => frameEntryAt F ctx kgIndex f.1 f.2)
    (fun f => frameEntryAt_eq ctx kgIndex f.1 f.2)
    ((blockFrames ctx data).1.filter fun f => isWanted ctx f.1)
  unfold parseKeyGroupBlockAt
  simp only [blockFramesAt_eq, Option.bind_eq_bind, Option.bind_some, hmap]
  rfl

end Split

end FlinkExplorer
