import FlinkExplorer.Parser.BlockBounds

namespace FlinkExplorer

open Lib Lib.Read

/-!
# `parse_key_group_block` for one state

The loop as the code has it: an entry is emitted when it is read, and the key of one that is not
asked for is not decoded.

* `emitEntry`, `emitLoop`, `emitKeyGroupBlock` — the loop with its emissions, every index checked;
* `emitKeyGroupBlock_eq` — it emits what `parseKeyGroupBlock` gives;
* `only_state_filters` — asked for one state, it emits that state's entries of the full parse and
  ends the same way.
-/

section Emit

variable (F : FloatText) (ctx : KeyGroupParse) (kgIndex : UInt16)

/-- The key, the namespace and, for a timer, the timestamp that stands for its value. -/
def decodedKeyAt (stateId : UInt16) (keyBytes : Bytes) : Option (Text × Bytes × Option Bytes) :=
  let layout := ctx.layouts[stateId.toNat]?
  if ctx.stateTypes[stateId.toNat]? = some "TIMER".toList then do
    let key ← readTimerKeyAt F ctx keyBytes layout
    some (key.1, [], some key.2)
  else do
    let key ← readKeyFromBytesAt F ctx keyBytes layout
    some (key.1, key.2, none)

variable (data : Bytes)

/-- The entry at `entryAt`: what is emitted of it, whether it is the last of its run, and the
    position after it. -/
def emitEntry (stateId : UInt16) (entryAt : Nat) :
    Option (Except BlockDefect (List KeyedEntry × Bool × Nat)) :=
  match readBeI32 data entryAt with
  | .error defect => some (.error defect)
  | .ok (kl, keyStart) =>
    if kl.toInt < max ctx.kgPrefixLen 1 then some (.error (.badLength entryAt kl))
    else do
      let left ← Checked.sub data.length keyStart
      if left < kl.toInt.toNat then some (.error (.truncated entryAt))
      else do
        let keyEnd := keyStart + kl.toInt.toNat
        let flags ← data[keyStart]?
        -- an entry that is not asked for is skipped without decoding its key
        let key ← if isWanted ctx stateId then do
            let keyBytes ← Checked.slice data keyStart keyEnd
            let key ← decodedKeyAt F ctx stateId keyBytes
            some (some key)
          else some none
        match ← valueAt data entryAt keyEnd with
        | .error defect => some (.error defect)
        | .ok (value, pos) =>
          let emitted := key.toList.map fun key =>
            ⟨stateId, key.1, kgIndex, key.2.1, key.2.2.getD value⟩
          some (.ok (emitted, flags &&& firstBitInByteMask != 0, pos))

/-- The entries emitted from a stateId on, and how the parse ends. -/
def emitLoop : Nat → UInt16 → Option BlockDefect → Nat →
    Option (List KeyedEntry × Option BlockDefect)
  | 0, _, _, _ => none
  | fuel + 1, stateId, unknown, pos =>
    if stateId = endOfKeyGroupMark then some ([], unknown)
    else do
      let unknown ← noteUnknownAt ctx stateId pos unknown
      match ← emitEntry F ctx kgIndex data stateId pos with
      | .error defect => some ([], some defect)
      | .ok (emitted, lastOfRun, pos) =>
        if lastOfRun then
          match readBeU16 data pos with
          | .error defect => some (emitted, some defect)
          | .ok (next, pos) => do
            let rest ← emitLoop fuel next unknown pos
            some (emitted ++ rest.1, rest.2)
        else do
          let rest ← emitLoop fuel stateId unknown pos
          some (emitted ++ rest.1, rest.2)

/-- `parse_key_group_block`: what it emits, and the defect it returns. -/
def emitKeyGroupBlock : Option (List KeyedEntry × Option BlockDefect) :=
  match readBeU16 data 0 with
  | .error defect => some ([], some defect)
  | .ok (stateId, pos) => emitLoop F ctx kgIndex data (data.length + 1) stateId none pos

end Emit

/-! ### The emitted entries are those of the frames -/

section Frames

variable {F : FloatText} {ctx : KeyGroupParse} {kgIndex : UInt16} {data : Bytes}

/-- A key is decoded, and its entry is that of the frame. -/
theorem decodedKeyAt_spec (F : FloatText) (ctx : KeyGroupParse) (kgIndex stateId : UInt16) (keyBytes : Bytes) :
    ∃ key, decodedKeyAt F ctx stateId keyBytes = some key
      ∧ ∀ value, (⟨stateId, key.1, kgIndex, key.2.1, key.2.2.getD value⟩ : KeyedEntry)
          = frameEntry ctx F kgIndex stateId ⟨keyBytes, value⟩ := by
  have hentry (value : Bytes) := frameEntryAt_eq (F := F) ctx kgIndex stateId ⟨keyBytes, value⟩
  unfold frameEntryAt at hentry
  unfold decodedKeyAt
  by_cases htimer : ctx.stateTypes[stateId.toNat]? = some "TIMER".toList
  · simp only [if_pos htimer, Option.bind_eq_bind, Option.bind_eq_some_iff] at hentry ⊢
    obtain ⟨key, hkey, -⟩ := hentry []
    refine ⟨(key.1, [], some key.2), ⟨key, hkey, rfl⟩, ?_⟩
    intro value
    obtain ⟨key', hkey', hvalue⟩ := hentry value
    obtain rfl : key = key' := Option.some.inj (hkey.symm.trans hkey')
    exact Option.some.inj hvalue
  · simp only [if_neg htimer, Option.bind_eq_bind, Option.bind_eq_some_iff] at hentry ⊢
    obtain ⟨key, hkey, -⟩ := hentry []
    refine ⟨(key.1, key.2, none), ⟨key, hkey, rfl⟩, ?_⟩
    intro value
    obtain ⟨key', hkey', hvalue⟩ := hentry value
    obtain rfl : key = key' := Option.some.inj (hkey.symm.trans hkey')
    exact Option.some.inj hvalue

/-- What is emitted of a frame. -/
def emittedOf (F : FloatText) (ctx : KeyGroupParse) (kgIndex stateId : UInt16) (frame : Frame) :
    List KeyedEntry :=
  if isWanted ctx stateId then [frameEntry ctx F kgIndex stateId frame] else []

/-- An entry emits what its frame gives, and stops where reading the frame stops. -/
theorem emitEntry_eq (stateId : UInt16) (pos : Nat) :
    emitEntry F ctx kgIndex data stateId pos
      = (entryAt ctx data pos).map fun read =>
          read.map fun r => (emittedOf F ctx kgIndex stateId r.1, r.2.1, r.2.2) := by
  unfold emitEntry entryAt
  rcases readBeI32 data pos with defect | ⟨kl, keyStart⟩
  · rfl
  simp only
  by_cases hshort : kl.toInt < max ctx.kgPrefixLen 1
  · rw [if_pos hshort, if_pos hshort]
    rfl
  rw [if_neg hshort, if_neg hshort]
  simp only [Option.bind_eq_bind]
  rcases hleft : Checked.sub data.length keyStart with _ | left
  · rfl
  obtain ⟨hle, rfl⟩ : keyStart ≤ data.length ∧ data.length - keyStart = left := by
    unfold Checked.sub at hleft
    split at hleft
    · exact ⟨by assumption, Option.some.inj hleft⟩
    · cases hleft
  simp only [Option.bind_some]
  by_cases hlong : data.length - keyStart < kl.toInt.toNat
  · rw [if_pos hlong, if_pos hlong]
    rfl
  rw [if_neg hlong, if_neg hlong]
  rcases data[keyStart]? with _ | flags
  · rfl
  -- the key lies within the block, whether it is sliced out or not
  rw [Checked.slice_eq_some (Nat.le_add_right _ _) (by omega)]
  simp only [Option.bind_some]
  unfold emittedOf
  by_cases hwanted : isWanted ctx stateId = true
  · obtain ⟨key, hkey, hentry⟩ := decodedKeyAt_spec F ctx kgIndex stateId
      ((data.drop keyStart).take (keyStart + kl.toInt.toNat - keyStart))
    simp only [if_pos hwanted, hkey, Option.bind_some]
    rcases valueAt data pos (keyStart + kl.toInt.toNat) with _ | ⟨defect | ⟨value, next⟩⟩
    · rfl
    · rfl
    · exact congrArg (fun e => some (Except.ok ([e], flags &&& firstBitInByteMask != 0, next)))
        (hentry value)
  · simp only [if_neg hwanted]
    rcases valueAt data pos (keyStart + kl.toInt.toNat) with _ | ⟨defect | ⟨value, next⟩⟩
    · rfl
    · rfl
    · rfl

/-- **The loop emits what the frames give.** -/
theorem emitLoop_eq (fuel : Nat) (stateId : UInt16) (unknown : Option BlockDefect) (pos : Nat) :
    emitLoop F ctx kgIndex data fuel stateId unknown pos
      = (blockLoop ctx data fuel stateId unknown pos).map fun frames =>
          (frames.1.flatMap fun f => emittedOf F ctx kgIndex f.1 f.2, frames.2) := by
  induction fuel generalizing stateId unknown pos with
  | zero => rfl
  | succ fuel ih =>
    unfold emitLoop blockLoop
    by_cases hmark : stateId = endOfKeyGroupMark
    · rw [if_pos hmark, if_pos hmark]
      rfl
    rw [if_neg hmark, if_neg hmark]
    simp only [Option.bind_eq_bind, emitEntry_eq]
    rcases noteUnknownAt ctx stateId pos unknown with _ | unknown
    · rfl
    simp only [Option.bind_some]
    rcases entryAt ctx data pos with _ | ⟨defect | ⟨frame, last, next⟩⟩
    · rfl
    · rfl
    simp only [Option.map_some, Except.map, Option.bind_some]
    by_cases hlast : last = true
    · rw [if_pos hlast, if_pos hlast]
      rcases readBeU16 data next with defect | ⟨id, after⟩
      · simp
      · simp only [ih]
        rcases blockLoop ctx data fuel id unknown after with _ | rest
        · rfl
        · simp
    · rw [if_neg hlast, if_neg hlast, ih]
      rcases blockLoop ctx data fuel stateId unknown next with _ | rest
      · rfl
      · simp

theorem flatMap_emittedOf (frames : List (UInt16 × Frame)) :
    (frames.flatMap fun f => emittedOf F ctx kgIndex f.1 f.2)
      = (frames.filter fun f => isWanted ctx f.1).map fun f =>
          frameEntry ctx F kgIndex f.1 f.2 := by
  induction frames with
  | nil => rfl
  | cons f frames ih =>
    rw [List.flatMap_cons, ih, List.filter_cons, emittedOf]
    split
    · rfl
    · rfl

/-- **The code's parse is the parse of the frames**, and no step of it aborts. -/
theorem emitKeyGroupBlock_eq (F : FloatText) (ctx : KeyGroupParse) (kgIndex : UInt16)
    (data : Bytes) :
    emitKeyGroupBlock F ctx kgIndex data = some (parseKeyGroupBlock ctx F data kgIndex) := by
  have hframes := blockFramesAt_eq ctx data
  unfold blockFramesAt at hframes
  unfold emitKeyGroupBlock parseKeyGroupBlock
  rcases hid : readBeU16 data 0 with defect | ⟨stateId, pos⟩
  · rw [hid] at hframes
    rw [← Option.some.inj hframes]
    rfl
  · rw [hid] at hframes
    simp only at hframes ⊢
    rw [emitLoop_eq, hframes, Option.map_some, flatMap_emittedOf]

/-! ### One state -/

/-- Which entries are asked for does not change how a block is read. -/
theorem frameLoop_onlyState (ctx : KeyGroupParse) (only : Option UInt16) (fuel : Nat)
    (stateId : UInt16) (unknown : Option BlockDefect) (r : JavaReader) :
    frameLoop { ctx with onlyState := only } fuel stateId unknown r
      = frameLoop ctx fuel stateId unknown r := by
  induction fuel generalizing stateId unknown r with
  | zero => rfl
  | succ fuel ih =>
    unfold frameLoop
    simp only [ih]
    rfl

theorem blockFrames_onlyState (ctx : KeyGroupParse) (only : Option UInt16) (data : Bytes) :
    blockFrames { ctx with onlyState := only } data = blockFrames ctx data := by
  unfold blockFrames
  simp only [frameLoop_onlyState]

theorem stateId_frameEntry (F : FloatText) (ctx : KeyGroupParse) (kgIndex stateId : UInt16)
    (frame : Frame) : (frameEntry ctx F kgIndex stateId frame).stateId = stateId := by
  unfold frameEntry
  simp only
  split
  · rfl
  · rfl

/-- A state is asked for when its entries are, and it is the one asked for. -/
theorem isWanted_only (ctx : KeyGroupParse) (id stateId : UInt16) :
    isWanted { ctx with onlyState := some id } stateId
      = (isWanted { ctx with onlyState := none } stateId && stateId == id) := by
  unfold isWanted
  simp only [Option.all_some, Option.all_none, Bool.and_true]
  rw [Bool.beq_comm]

/-- **Parsing for one state is filtering the full parse**: the entries of that state, in the same
    order and with the same bytes, and the same end. -/
theorem only_state_filters (F : FloatText) (ctx : KeyGroupParse) (kgIndex : UInt16) (data : Bytes)
    (stateId : UInt16) :
    ∃ entries defect,
      emitKeyGroupBlock F { ctx with onlyState := none } kgIndex data = some (entries, defect)
        ∧ emitKeyGroupBlock F { ctx with onlyState := some stateId } kgIndex data
            = some (entries.filter (·.stateId == stateId), defect) := by
  refine ⟨_, _, emitKeyGroupBlock_eq F _ kgIndex data, ?_⟩
  rw [emitKeyGroupBlock_eq]
  have hentry (f : UInt16 × Frame) :
      frameEntry { ctx with onlyState := some stateId } F kgIndex f.1 f.2
        = frameEntry { ctx with onlyState := none } F kgIndex f.1 f.2 := rfl
  unfold parseKeyGroupBlock
  simp only [blockFrames_onlyState, hentry, List.filter_map, List.filter_filter, isWanted_only,
    Function.comp_def, stateId_frameEntry, Bool.and_comm]

end Frames

end FlinkExplorer
