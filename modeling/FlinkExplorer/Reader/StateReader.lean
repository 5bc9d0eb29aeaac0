import FlinkExplorer.Parser.JavaKey
import FlinkExplorer.Reader.Walk

namespace FlinkExplorer

open Lib

/-!
# `reader/mod.rs` — `StateReader`

Random access to a savepoint's keyed state: pages of keys (`keyPage`), one key by its text (`get`),
the entries of one state of a key (`entries`), a search (`scanWith`) and counts (`count`).

Opening an operator reads the savepoint once and for all, so a reader holds its operators opened.
The cache of blocks goes through every call that reads one.
-/

/-- An operator, opened. -/
structure OpenOperator where
  id : Bytes
  parallelism : Int
  maxParallelism : Int
  ctx : OpContext

/-- Ten entries are a limit. -/
theorem tenEntries_pos : 0 < 10 := by decide

/-- A reader, and what it takes from outside: the files, Snappy's decoder (`inflate`), the texts of
    the standard library, and the sizes of its own records. -/
structure StateReader where
  operators : List OpenOperator
  host : HostText
  proto : Option ProtoContext
  files : Files
  inflate : Bytes → Except Text Bytes
  entryLimit : Nat
  entryLimit_pos : 0 < entryLimit
  keyedEntrySize : Nat
  rawKeySize : Nat
  opIndex_eq : ∀ (i : Nat) (o : OpenOperator), operators[i]? = some o → o.ctx.opIndex = i

inductive ReaderError
  | unknownOperator (op : Text)
  | ambiguousOperator (op : Text) (candidates : List Text)
  | noKeyedState (op : Text)
  | badCursor (cursor reason : Text)
  | notFound (what : Text)
  | unreadable (why : Unreadable)
  | malformed (subtask : Int) (keyGroup : UInt16) (what defect key : Text)
  deriving DecidableEq

/-- `Display` of a reader's error. -/
def ReaderError.text (host : HostText) : ReaderError → Text
  | .unknownOperator op => "no operator matches ".toList ++ host.debugText op
  | .ambiguousOperator op candidates =>
    "operator prefix ".toList ++ host.debugText op ++ " is ambiguous: ".toList
      ++ (candidates.intersperse ", ".toList).flatten
  | .noKeyedState op => "operator ".toList ++ op ++ " has no keyed state".toList
  | .badCursor _ reason => reason
  | .notFound what => what
  | .unreadable why => why.error
  | .malformed _ _ what defect key =>
    what ++ ": ".toList ++ defect ++ "; key ".toList ++ host.debugText key
      ++ " may be in the part that could not be read".toList

/-- A state of a key that holds more entries than a record carries. -/
structure Truncated where
  state : Text
  total : Nat
  returned : Nat
  deriving DecidableEq

/-- A key with its entries in its key-group, across all states. -/
structure KeyRecord where
  key : Text
  keyGroup : UInt16
  subtask : Int
  position : Cursor
  entries : List StateEntry
  truncated : List Truncated

/-- Counts of one keyed state. -/
structure StateCount where
  state : Text
  keys : Nat
  entries : Nat
  deriving DecidableEq

/-- Counts per state, in order of first appearance, and of keys. -/
structure Counts where
  states : List StateCount
  keys : Nat
  deriving DecidableEq

/-- How far one scan may go. -/
structure ScanOptions where
  byteBudget : Nat
  maxMatches : Nat
  lastKeyGroup : Option UInt16

/-- How far a scan is, in key-groups and in stored bytes. -/
structure Progress where
  keyGroupsDone : Nat
  keyGroupsTotal : Nat
  bytesDone : Nat
  bytesTotal : Nat
  deriving DecidableEq

inductive Lookup
  | found (record : KeyRecord) (stats : ReadStats) (malformed : List Text)
  | absent (keyGroup : UInt16) (subtask : Int) (stats : ReadStats)
  | needsScan (reason : Text)

/-- Entries of one state of one key. -/
structure EntryPage where
  key : Text
  state : Text
  entries : List StateEntry
  offset : Nat
  total : Nat
  next : Option Nat
  stats : ReadStats
  malformed : List Text

/-! ### Texts -/

/-- Lowercase hex of an operator id. -/
def hexId (id : Bytes) : Text := id.flatMap hexByte

/-- `subtask.keygroup.ordinal`. -/
def Cursor.text (c : Cursor) : Text :=
  intText c.subtask ++ '.' :: natText c.keyGroup.toNat ++ '.' :: natText c.ordinal.toNat

/-- How many times a text occurs in another, one after the other. -/
def countText (p : Text) : Text → Nat
  | [] => 0
  | c :: cs =>
    if p.isPrefixOf (c :: cs) then 1 + countText p (cs.drop (p.length - 1)) else countText p cs
  termination_by t => t.length

/-- Whether a class is one of Flink's `TupleN`. -/
def isFlinkTuple (className : Text) : Bool :=
  (stripPrefix "org.apache.flink.api.java.tuple.Tuple".toList className).any fun n =>
    !n.isEmpty && n.all Char.isDigit

/-- Why a tuple key's `hashCode()` is not known, if it is not. -/
def SubtaskHeader.tupleKeyUnhashable (h : SubtaskHeader) : Option Text :=
  if (stripPrefix "Tuple<".toList h.keyType).isNone then none
  else if h.keyTupleClasses.length ≠ countText "Tuple<".toList h.keyType then
    some ("the key's tuple classes could not be read from its serializer snapshot, so its ".toList
      ++ "hashCode() is not known".toList)
  else
    (h.keyTupleClasses.find? fun c => !isFlinkTuple c).map fun c =>
      "the key class ".toList ++ c
        ++ " is not one of Flink's TupleN: it may override hashCode()".toList

/-! ### Tallies -/

/-- One more entry of a state. -/
def tally (stateId : UInt16) : List (UInt16 × Nat) → List (UInt16 × Nat)
  | [] => [(stateId, 1)]
  | (id, n) :: counts =>
    if id = stateId then (id, n + 1) :: counts else (id, n) :: tally stateId counts

/-- How many entries of a state were seen. -/
def seen (stateId : UInt16) (counts : List (UInt16 × Nat)) : Nat :=
  ((counts.find? fun c => c.1 = stateId).map (·.2)).getD 0

/-- The counts of one key's state, added to its state's. -/
def addCount (label : Text) (n : Nat) : List StateCount → List StateCount
  | [] => [⟨label, 1, n⟩]
  | c :: counts =>
    if c.state = label then ⟨c.state, c.keys + 1, c.entries + n⟩ :: counts
    else c :: addCount label n counts

namespace StateReader

variable (R : StateReader)

/-! ### Operators and cursors -/

/-- The index of the operator whose hex id is `op`, or the only one that starts with it. -/
def operatorIndex (op : Text) : Except ReaderError Nat :=
  let ids := R.operators.map fun o => hexId o.id
  match ids.findIdx? (· == op) with
  | some i => .ok i
  | none =>
    match (List.range ids.length).filter fun i => op.isPrefixOf (ids.getD i []) with
    | [i] => .ok i
    | [] => .error (.unknownOperator op)
    | many => .error (.ambiguousOperator op (many.map fun i => ids.getD i []))

/-- The opened operator of `op`. -/
def operator (op : Text) : Except ReaderError OpenOperator := do
  let i ← R.operatorIndex op
  match R.operators[i]? with
  | some o => .ok o
  | none => .error (.unknownOperator op)

end StateReader

/-- A cursor must name a key-group of the operator, and the subtask that holds it. -/
def OpenOperator.checkCursor (o : OpenOperator) (cursor : Cursor) : Except ReaderError Unit :=
  let maxP := max o.maxParallelism 1
  let doesNotFit := "cursor ".toList ++ cursor.text ++ " does not fit operator ".toList ++ hexId o.id
  if (cursor.keyGroup.toNat : Int) ≥ maxP then
    .error (.badCursor cursor.text
      (doesNotFit ++ ": it has key-groups 0..".toList ++ intText (maxP - 1)))
  else
    match o.ctx.unitOf cursor.keyGroup.toNat with
    | some u =>
      if u.subtask ≠ cursor.subtask then
        .error (.badCursor cursor.text
          (doesNotFit ++ ": key-group ".toList ++ natText cursor.keyGroup.toNat
            ++ " is held by subtask ".toList ++ intText u.subtask))
      else .ok ()
    | none => .ok ()

namespace StateReader

variable (R : StateReader)

/-! ### Blocks -/

/-- The block of a key-group, inflated when its stream is compressed. -/
def keyGroupBlock (raw : Bytes) (compressed : Bool) : Except Text Bytes :=
  if !compressed then pure raw else R.inflate raw

/-- What a grouped block costs in the cache. -/
def weightOf (block : Bytes) (keys : List RawKey) : Nat :=
  block.length + (keys.map fun k =>
    R.rawKeySize + 2 * (String.ofList k.key).utf8ByteSize
      + (k.entries.map fun e => R.keyedEntrySize + e.namespaceBytes.length + e.value.length).sum).sum

/-- Read, inflate, parse and group the block stored at `[start, last)`. -/
def readGrouped (o : OpenOperator) (s : SubtaskStream) (header : SubtaskHeader) (kg : Int)
    (start last : Nat) : Except Text GroupedBlock := do
  let bytes ← s.src.read R.files start last
  match R.keyGroupBlock bytes header.compressed with
  | .error e =>
    throw (s.what ++ ": key-group ".toList ++ intText kg ++ ": snappy decode: ".toList ++ e)
  | .ok block =>
    let grouped := groupBlock R.host.floats (header.parseCtx (kgPrefixLen o.maxParallelism) none)
      block (UInt16.ofInt kg)
    pure {
      keys := grouped.1
      defect := grouped.2.map fun d =>
        "subtask ".toList ++ intText s.subtaskIndex ++ ", key-group ".toList ++ intText kg
          ++ ": ".toList ++ d.text
      inflatedLen := block.length
      weight := R.weightOf block grouped.1 }

/-- The parsed block of key-group `kg` of a stream, from the cache, or read and, if `keep`, put
    there. -/
def grouped (o : OpenOperator) (keep : Bool) : Fetch BlockCache := fun s kg stats cache =>
  match s.blockRange (kg - s.startKeyGroup).toNat with
  | none => (.ok none, stats, cache)
  | some (start, last) =>
    match s.header with
    | .error e => (.error e, stats, cache)
    | .ok header =>
      let stats := { stats with
        blocks := stats.blocks + 1, blockBytes := stats.blockBytes + (last - start) }
      let key := (o.ctx.opIndex, s.statePos, kg)
      match cache.get key with
      | (some b, cache) =>
        (.ok (some (header, b)), { stats with
          cacheHits := stats.cacheHits + 1
          maxBlockBytes := max stats.maxBlockBytes b.inflatedLen }, cache)
      | (none, cache) =>
        let stats := { stats with bytesRead := stats.bytesRead + (last - start) }
        match R.readGrouped o s header kg start last with
        | .error e => (.error e, stats, cache)
        | .ok b =>
          (.ok (some (header, b)),
            { stats with maxBlockBytes := max stats.maxBlockBytes b.inflatedLen },
            if keep then cache.insert key b else cache)

/-! ### Records -/

/-- The entries of a key from the `i`-th on, at most the entry limit of each state, and how many
    each state has. -/
def recordEntries (header : SubtaskHeader) :
    Nat → List (UInt16 × Nat) → List KeyedEntry → List StateEntry × List (UInt16 × Nat)
  | _, counts, [] => ([], counts)
  | i, counts, e :: es =>
    let counts := tally e.stateId counts
    let rest := recordEntries header (i + 1) counts es
    if seen e.stateId counts ≤ R.entryLimit then
      (entryOf R.host.floats R.proto header i e :: rest.1, rest.2)
    else rest

/-- Decode a key's entries, at most the entry limit per state. -/
def record (s : SubtaskStream) (header : SubtaskHeader) (kg : Int) (ordinal : Nat) (raw : RawKey) :
    KeyRecord :=
  let (entries, counts) := R.recordEntries header 0 [] raw.entries
  { key := raw.key
    keyGroup := UInt16.ofInt kg
    subtask := s.subtaskIndex
    position := ⟨s.subtaskIndex, UInt16.ofInt kg, UInt32.ofNat ordinal⟩
    entries := entries
    truncated := (counts.filter fun c => c.2 > R.entryLimit).map fun c =>
      ⟨header.stateLabel c.1, c.2, R.entryLimit⟩ }

/-! ### Pages -/

/-- One call of a walk: the operator, the check of the cursor, and the loop from it on. -/
def page {α : Type} (op : Text) (cursor : Cursor) (w : Walk α) (keep : Bool) (ordinal : UInt32)
    (found : α) (cache : BlockCache) : Except ReaderError (Page α) × BlockCache :=
  match R.operator op with
  | .error e => (.error e, cache)
  | .ok o =>
    match o.checkCursor cursor with
    | .error e => (.error e, cache)
    | .ok () =>
      let (page, cache) := w.run (R.grouped o keep) o.ctx cursor.keyGroup.toNat ordinal found cache
      (.ok page, cache)

/-- Up to `limit` keys, each with its entries. -/
def keyWalk (limit : Nat) : Walk (List KeyRecord) where
  lastKeyGroup := none
  byteBudget := none
  full keys := max limit 1 ≤ keys.length
  step s header kg ord raw keys := keys ++ [R.record s header kg ord raw]

/-- Up to `limit` keys from `cursor` on, and the cursor of the next page. -/
def keyPage (op : Text) (cursor : Cursor) (limit : Nat) (cache : BlockCache) :
    Except ReaderError (Page (List KeyRecord)) × BlockCache :=
  R.page op cursor (R.keyWalk limit) true cursor.ordinal [] cache

/-- The counts of one key, added. -/
def countKey (header : SubtaskHeader) (raw : RawKey) (counts : Counts) : Counts :=
  let perKey := raw.entries.foldl (fun counts e => tally e.stateId counts) []
  { keys := counts.keys + 1
    states := perKey.foldl (fun states c => addCount (header.stateLabel c.1) c.2 states)
      counts.states }

/-- Whole blocks until their stored size reaches a budget, each key counted. -/
def countWalk (byteBudget : Nat) : Walk Counts where
  lastKeyGroup := none
  byteBudget := some byteBudget
  full _ := false
  step _ header _ _ raw counts := countKey header raw counts

/-- Count each state's keys and entries in whole blocks from `cursor`'s key-group on. -/
def count (op : Text) (cursor : Cursor) (byteBudget : Nat) (cache : BlockCache) :
    Except ReaderError (Page Counts) × BlockCache :=
  R.page op cursor (countWalk byteBudget) false 0 ⟨[], 0⟩ cache

section Scan

variable {τ : Type}

/-- The keys a test takes, with its state: the test is called once for each key. -/
def scanWalk (opts : ScanOptions) (test : τ → Text → τ × Bool) : Walk (List KeyRecord × τ) where
  lastKeyGroup := opts.lastKeyGroup
  byteBudget := some opts.byteBudget
  full found := max opts.maxMatches 1 ≤ found.1.length
  step s header kg ord raw found :=
    let (t, taken) := test found.2 raw.key
    (if taken then found.1 ++ [R.record s header kg ord raw] else found.1, t)

/-- Test every key's text from `cursor` on.  A test may change (`&mut dyn FnMut`): its state is
    passed along. -/
def scanWith (op : Text) (cursor : Cursor) (opts : ScanOptions) (test : τ → Text → τ × Bool) (t : τ)
    (cache : BlockCache) : Except ReaderError (Page (List KeyRecord × τ)) × BlockCache :=
  R.page op cursor (R.scanWalk opts test) false cursor.ordinal ([], t) cache

end Scan

/-! ### One key -/

/-- The stream and the block of a key-group whose unit is `u`; `none` when it is empty. -/
def blockOf (o : OpenOperator) (u : ReadUnit) (kg : Int) (cache : BlockCache) :
    Except Unreadable (Option (SubtaskStream × SubtaskHeader × GroupedBlock)) × ReadStats
      × BlockCache :=
  match u with
  | .failed _ => (.error (u.unreadable kg), .zero, cache)
  | .stream s =>
    if u.error.isSome then (.error (u.unreadable kg), .zero, cache)
    else
      match R.grouped o true s kg .zero cache with
      | (.error e, stats, cache) => (.error (unreadableBlock s kg e), stats, cache)
      | (.ok none, stats, cache) => (.ok none, stats, cache)
      | (.ok (some (header, block)), stats, cache) =>
        (.ok (some (s, header, block)), stats, cache)

/-- The key of a text, and its canonical text; else why its key-group cannot be computed. -/
def parseLookup (header : SubtaskHeader) (keyText : Text) : Except Text (JavaKey × Text) := do
  match header.tupleKeyUnhashable with
  | some reason => throw reason
  | none => do
    let key ← JavaKey.parse R.host header.keyType keyText
    match key.canonicalText R.host.floats header.keyType with
    | some canonical => pure (key, canonical)
    | none => throw (R.host.debugText keyText ++ " does not render as a ".toList
        ++ header.keyType ++ " key".toList)

/-- Look one key up by its text. -/
def get (op keyText : Text) (cache : BlockCache) : Except ReaderError Lookup × BlockCache :=
  match R.operator op with
  | .error e => (.error e, cache)
  | .ok o =>
    match o.ctx.firstHeader with
    | none =>
      match o.ctx.units.head? with
      | some u => (.error (.unreadable (u.unreadable 0)), cache)
      | none => (.error (.noKeyedState (hexId o.id)), cache)
    | some first =>
      match R.parseLookup first keyText with
      | .error reason => (.ok (.needsScan reason), cache)
      | .ok (key, canonical) =>
        let kg := keyGroupForHash key.hashCode o.maxParallelism
        match o.ctx.unitOf kg with
        | none =>
          (.ok (.absent (UInt16.ofInt kg)
            (subtaskForKeyGroup o.maxParallelism o.parallelism kg) .zero), cache)
        | some u =>
          match R.blockOf o u kg cache with
          | (.error why, _, cache) =>
            -- Only the key's own key-group is named.
            (.error (.unreadable { why with
              firstKeyGroup := UInt16.ofInt kg, lastKeyGroup := UInt16.ofInt kg }), cache)
          | (.ok none, stats, cache) =>
            (.ok (.absent (UInt16.ofInt kg) u.subtask stats), cache)
          | (.ok (some (s, header, block)), stats, cache) =>
            match block.keys.findIdx? fun k => k.key == canonical with
            | some ord =>
              (.ok (.found (R.record s header kg ord (block.keys.getD ord ⟨[], []⟩)) stats
                block.defect.toList), cache)
            | none =>
              match block.defect with
              | some d =>
                (.error (.malformed s.subtaskIndex (UInt16.ofInt kg) s.what d keyText), cache)
              | none => (.ok (.absent (UInt16.ofInt kg) s.subtaskIndex stats), cache)

/-- The entries of a state from the `i`-th of the key on: those in the page, and how many there are
    after `total`. -/
def pageEntries (header : SubtaskHeader) (stateId : UInt16) (offset limit : Nat) :
    Nat → Nat → List KeyedEntry → List StateEntry × Nat
  | _, total, [] => ([], total)
  | i, total, e :: es =>
    if e.stateId ≠ stateId then pageEntries header stateId offset limit (i + 1) total es
    else
      let rest := pageEntries header stateId offset limit (i + 1) (total + 1) es
      if offset ≤ total ∧ total < offset + limit then
        (entryOf R.host.floats R.proto header i e :: rest.1, rest.2)
      else rest

/-- What a page of entries holds: the label of the state, its entries and how many there are. -/
def entriesOf (o : OpenOperator) (header : SubtaskHeader) (raw : RawKey) (state : Text)
    (offset limit : Nat) : Except ReaderError (Text × List StateEntry × Nat) :=
  match header.stateId state with
  | some id => pure (header.stateLabel id, R.pageEntries header id offset limit 0 0 raw.entries)
  | none =>
    -- Registered by another subtask only: this key has no entries of it.
    if o.ctx.streams.any fun s => s.header.toOption.any fun h => (h.stateId state).isSome then
      pure (state, [], 0)
    else
      throw (.notFound ("operator ".toList ++ hexId o.id ++ " has no keyed state ".toList
        ++ R.host.debugText state))

/-- Entries `offset..offset + limit` of a state of the key at `position`. -/
def entries (op : Text) (position : Cursor) (state : Text) (offset limit : Nat)
    (cache : BlockCache) : Except ReaderError EntryPage × BlockCache :=
  match R.operator op with
  | .error e => (.error e, cache)
  | .ok o =>
    match o.checkCursor position with
    | .error e => (.error e, cache)
    | .ok () =>
      let kg : Int := position.keyGroup.toNat
      let notFound := ReaderError.notFound ("no key at ".toList ++ position.text)
      match o.ctx.unitOf kg with
      | none => (.error notFound, cache)
      | some u =>
        match R.blockOf o u kg cache with
        | (.error why, _, cache) => (.error (.unreadable why), cache)
        | (.ok none, _, cache) => (.error notFound, cache)
        | (.ok (some (_, header, block)), stats, cache) =>
          match block.keys[position.ordinal.toNat]? with
          | none => (.error notFound, cache)
          | some raw =>
            match R.entriesOf o header raw state offset (max limit 1) with
            | .error e => (.error e, cache)
            | .ok (label, found, total) =>
              let last := offset + found.length
              (.ok { key := raw.key, state := label, entries := found, offset := offset
                     total := total, next := if last < total then some last else none
                     stats := stats, malformed := block.defect.toList }, cache)

/-! ### Where a scan is -/

/-- The cursor of the first key at or after a key-group. -/
def cursorAt (op : Text) (keyGroup : UInt16) : Except ReaderError Cursor := do
  let o ← R.operator op
  let subtask := match o.ctx.unitOf keyGroup.toNat with
    | some u => u.subtask
    | none => subtaskForKeyGroup o.maxParallelism o.parallelism keyGroup.toNat
  pure ⟨subtask, keyGroup, 0⟩

/-- The stored size of the blocks of a stream whose key-group is in a range. -/
def bytesIn (s : SubtaskStream) (first last : Int) : Nat :=
  ((List.range s.offsets.length).map fun (i : Nat) =>
    let kg := s.startKeyGroup + i
    if kg < first ∨ kg > last then 0
    else (s.blockRange i).elim 0 fun r => r.2 - r.1).sum

/-- How far `at'` is in key-groups `first..last`; `none` is past the end. -/
def progress (op : Text) (at' : Option Cursor) (first : UInt16) (last : Option UInt16) :
    Except ReaderError Progress := do
  let o ← R.operator op
  let maxP := max o.maxParallelism 1
  let first : Int := first.toNat
  let last := last.elim (maxP - 1) fun l => min (l.toNat : Int) (maxP - 1)
  if last < first then return ⟨0, 0, 0, 0⟩
  let doneBelow := at'.elim (last + 1) fun c => min (c.keyGroup.toNat : Int) (last + 1)
  return {
    keyGroupsTotal := (last - first + 1).toNat
    keyGroupsDone := (doneBelow - first).toNat
    bytesTotal := (o.ctx.streams.map fun s => bytesIn s first last).sum
    bytesDone := (o.ctx.streams.map fun s => bytesIn s first (min last (doneBelow - 1))).sum }

end StateReader

end FlinkExplorer
