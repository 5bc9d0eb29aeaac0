import Mathlib.Data.List.Sort
import FlinkExplorer.Reader.Header

namespace FlinkExplorer

open Lib

/-!
# `reader/mod.rs` — an operator's keyed streams

`OpContext` is what opening an operator gives: the streams of its subtasks, the subtasks that could
not be opened, and both in the order keys are visited in.  `OpContext.seek` finds the next position
of a walk over them, `OpContext.cursorOf` writes a position down.

Key-groups are `i32` in the source and `Int` here; `as u16` is `UInt16.ofInt`.
-/

/-- Where one stream lives: in `_metadata`, or in a region of a file. -/
inductive Source
  | inline (data : Bytes)
  | file (path : Text) (base len : Nat)

/-- The files of the savepoint: what reading `len` bytes of one from an offset on gives. -/
abbrev Files := Text → Nat → Nat → Except Text Bytes

namespace Source

def len : Source → Nat
  | .inline data => data.length
  | .file _ _ len => len

/-- `[start, last)` of the stream, clamped to its length. -/
def read (files : Files) (src : Source) (start last : Nat) : Except Text Bytes :=
  let last := min last src.len
  if last ≤ start then pure []
  else
    match src with
    | .inline data => pure ((data.drop start).take (last - start))
    | .file path base _ => files path (base + start) (last - start)

end Source

/-- One subtask's keyed stream, opened. -/
structure SubtaskStream where
  subtaskIndex : Int
  statePos : Nat
  startKeyGroup : Int
  offsets : List Int
  src : Source
  what : Text
  headerLen : Nat
  header : Except Text SubtaskHeader

/-- `[start, end)` of the `i`-th key-group of a stream, or `none` when it is empty. -/
def SubtaskStream.blockRange (s : SubtaskStream) (i : Nat) : Option (Nat × Nat) := do
  let start ← s.offsets[i]?
  if start ≤ 0 ∨ start.toNat < s.headerLen ∨ start.toNat ≥ s.src.len then none
  else
    let last := min (((s.offsets.drop (i + 1)).find? fun o => o > start).elim s.src.len Int.toNat)
      s.src.len
    if last > start.toNat then some (start.toNat, last) else none

/-- A subtask whose keyed stream could not be opened, or whose handle is not supported. -/
structure FailedSubtask where
  subtaskIndex : Int
  startKeyGroup : Int
  numKeyGroups : Int
  what : Text
  error : Text

/-- A stream or a failure, where the source has its index. -/
inductive ReadUnit
  | stream (s : SubtaskStream)
  | failed (f : FailedSubtask)

namespace ReadUnit

/-- The first key-group. -/
def first : ReadUnit → Int
  | .stream s => s.startKeyGroup
  | .failed f => f.startKeyGroup

/-- The last key-group. -/
def last : ReadUnit → Int
  | .stream s => s.startKeyGroup + s.offsets.length - 1
  | .failed f => f.startKeyGroup + f.numKeyGroups - 1

def subtask : ReadUnit → Int
  | .stream s => s.subtaskIndex
  | .failed f => f.subtaskIndex

/-- Why a unit cannot be read at all, if it cannot: its stream failed to open, or its header. -/
def error : ReadUnit → Option (Text × Text)
  | .failed f => some (f.what, f.error)
  | .stream s =>
    match s.header with
    | .error e => some (s.what, e)
    | .ok _ => none

end ReadUnit

/-- A place in the walk over an operator's keys. -/
structure Cursor where
  subtask : Int
  keyGroup : UInt16
  ordinal : UInt32
  deriving DecidableEq

/-- `Cursor::START`. -/
def Cursor.start : Cursor := ⟨0, 0, 0⟩

/-- Key-groups a page could not read at all. -/
structure Unreadable where
  subtask : Int
  firstKeyGroup : UInt16
  lastKeyGroup : UInt16
  what : Text
  error : Text
  deriving DecidableEq

/-- A unit, unreadable from key-group `from'` to its end. -/
def ReadUnit.unreadable (u : ReadUnit) (from' : Int) : Unreadable :=
  let why := u.error.getD ([], [])
  ⟨u.subtask, UInt16.ofInt (max u.first from'), UInt16.ofInt u.last, why.1, why.2⟩

/-- A block that could not be read, as a page reports it. -/
def unreadableBlock (s : SubtaskStream) (keyGroup : Int) (error : Text) : Unreadable :=
  ⟨s.subtaskIndex, UInt16.ofInt keyGroup, UInt16.ofInt keyGroup, s.what, error⟩

/-- An operator's keyed streams, each opened once; no two of them are of one subtask state. -/
structure OpContext where
  opIndex : Nat
  streams : List SubtaskStream
  failed : List FailedSubtask
  statePos_nodup : (streams.map (·.statePos)).Nodup

inductive Position
  | block (s : SubtaskStream) (keyGroup : Int) (ordinal : UInt32)
  | unreadable (u : ReadUnit) (from' : Int)
  | ended

/-- The key-groups of a range, in order. -/
def keyGroups (first last : Int) : List Int :=
  (List.range (last + 1 - first).toNat).map fun (i : Nat) => first + (i : Int)

/-- Whether a key-group of a stream holds a block. -/
def SubtaskStream.holds (s : SubtaskStream) (keyGroup : Int) : Bool :=
  (s.blockRange (keyGroup - s.startKeyGroup).toNat).isSome

/-- The first non-empty key-group of `units` at or after `from'`, or the first unit that cannot be
    read. -/
def seekUnits (from' : Int) (ordinal : UInt32) : List ReadUnit → Position
  | [] => .ended
  | u :: units =>
    if u.last < from' then seekUnits from' ordinal units
    else if u.error.isSome then
      -- Whether it holds keys is unknown: it must be reported, not skipped.
      .unreadable u (max u.first from')
    else
      match u with
      | .failed _ => seekUnits from' ordinal units
      | .stream s =>
        match (keyGroups (max u.first from') u.last).find? s.holds with
        | some kg => .block s kg (if kg = from' then ordinal else 0)
        | none => seekUnits from' ordinal units

namespace OpContext

variable (ctx : OpContext)

/-- Streams and failures by ascending first key-group: the order keys are visited in. -/
def units : List ReadUnit :=
  (ctx.streams.map ReadUnit.stream ++ ctx.failed.map ReadUnit.failed).insertionSort
    fun u v => u.first ≤ v.first

def seek (from' : Int) (ordinal : UInt32) : Position := seekUnits from' ordinal ctx.units

/-- The unit whose key-group range holds `keyGroup`. -/
def unitOf (keyGroup : Int) : Option ReadUnit :=
  ctx.units.find? fun u => u.first ≤ keyGroup ∧ keyGroup ≤ u.last

/-- The first readable header. -/
def firstHeader : Option SubtaskHeader :=
  ctx.streams.findSome? fun s => s.header.toOption

theorem mem_units {u : ReadUnit} :
    u ∈ ctx.units ↔ (∃ s ∈ ctx.streams, u = .stream s) ∨ ∃ f ∈ ctx.failed, u = .failed f := by
  unfold units
  rw [List.mem_insertionSort, List.mem_append, List.mem_map, List.mem_map]
  simp only [eq_comm]

end OpContext

/-- Where a position is, as a cursor. -/
def Position.cursorOf : Position → Option Cursor
  | .block s kg ordinal => some ⟨s.subtaskIndex, UInt16.ofInt kg, ordinal⟩
  | .unreadable u from' => some ⟨u.subtask, UInt16.ofInt from', 0⟩
  | .ended => none

end FlinkExplorer
