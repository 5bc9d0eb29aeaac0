import FlinkExplorer.Reader.StateReader

namespace FlinkExplorer

open Lib

/-!
# `tui/tree.rs` — what the tree keeps of an operator's keys

The tree knows the keys of an operator by their positions, in a sequence that grows as it pages, and
keeps rows of only some of them.

* `KeySeq` — the positions known so far, and where more are found;
* `KeyRow` — a key, as its record and the operator's states make it;
* `KeyedSnapshot` — both sequences of an operator (all of its keys, and those of a filter), its rows,
  and what could not be read on the way.

How a MAP of one key is scrolled is left out, and what only the rows' texts are made of.
-/

/-- `PARTITION_PAGE_SIZE`: keys a window shows. -/
def partitionPageSize : Nat := 30

/-! ### `export.rs` -/

/-- The JSON key of a MAP entry, the `i`-th of its key's entries of that state. -/
def mapKeyOf (e : StateEntry) (i : Nat) : Text := e.mapKey.getD ('#' :: natText i)

/-- The value one key holds for one state, from its entries of that state: a MAP's entries gathered
    into one object, otherwise the first entry whose bytes are not empty. -/
def stateValue (stateType : Text) (entries : List StateEntry) : Option Json :=
  if stateType = "MAP".toList then
    if entries.isEmpty then none
    else some (.object (entries.zipIdx.foldl
      (fun obj e => objInsert (mapKeyOf e.1 e.2) e.1.value obj) []))
  else (entries.find? fun e => !e.raw.isEmpty).map (·.value)

/-! ### Rows -/

/-- A keyed state of an operator. -/
structure StateDesc where
  name : Text
  stateType : Text

/-- One state of one key: its entries, how many it has, and the value they make. -/
structure Slot where
  entries : List StateEntry
  total : Nat
  value : Option Json

/-- A key the tree shows. -/
structure KeyRow where
  key : Text
  keyGroup : UInt16
  slots : List Slot

/-- A row is built from the key's record once. -/
def KeyRow.new (record : KeyRecord) (descriptors : List StateDesc) : KeyRow where
  key := record.key
  keyGroup := record.keyGroup
  slots := descriptors.mapIdx fun i d =>
    let entries := record.entries.filter fun e =>
      descriptors.findIdx? (fun d => d.name = e.state) = some i
    { entries := entries
      total := ((record.truncated.find? fun t => t.state = d.name).map (·.total)).getD entries.length
      value := stateValue d.stateType entries }

/-- Rows by position. -/
abbrev Rows := List (Cursor × KeyRow)

namespace Rows

/-- `HashMap::insert`. -/
def insert (pos : Cursor) (row : KeyRow) (rows : Rows) : Rows :=
  (pos, row) :: rows.filter fun p => p.1 ≠ pos

/-- `HashMap::get`. -/
def get (rows : Rows) (pos : Cursor) : Option KeyRow := (rows.find? fun p => p.1 = pos).map (·.2)

/-- `HashMap::retain`, by position. -/
def retain (rows : Rows) (keep : List Cursor) : Rows := rows.filter fun p => p.1 ∈ keep

end Rows

/-! ### Sequences of keys -/

/-- An ordered sequence of keys the tree pages through: every key of the operator, the keys of a
    key-group range, or the matches of a search. -/
structure KeySeq where
  positions : List Cursor
  next : Option Cursor
  stopKg : Option UInt16
  startKg : UInt16
  isMatches : Bool
  seen : List Cursor
  offset : Nat

namespace KeySeq

def browse (start : Cursor) : KeySeq where
  positions := []
  next := some start
  stopKg := none
  startKg := 0
  isMatches := false
  seen := []
  offset := 0

def done (seq : KeySeq) : Bool := seq.next.isNone

def pushMatch (seq : KeySeq) (pos : Cursor) : KeySeq :=
  if pos ∈ seq.seen then seq
  else { seq with seen := pos :: seq.seen, positions := seq.positions ++ [pos] }

end KeySeq

/-! ### Snapshots -/

/-- How many keys an operator has, as far as is known. -/
inductive KeyCount
  | unknown
  | counting (keys : Nat) (percent : UInt8)
  | exact (keys : Nat)
  | atLeast (keys : Nat)
  deriving DecidableEq

/-- Keyed state of one operator, for display. -/
structure KeyedSnapshot where
  opHex : Text
  descriptors : List StateDesc
  errors : List Text
  malformed : List Text
  count : KeyCount
  all : KeySeq
  filtered : Option KeySeq
  rows : Rows

/-- A text is noted once. -/
def pushNew (noted : List Text) (t : Text) : List Text :=
  if noted.contains t then noted else noted ++ [t]

namespace KeyedSnapshot

/-- `keyed_snapshot`: before any key is read. -/
def new (opHex : Text) (descriptors : List StateDesc) (errors : List Text) : KeyedSnapshot where
  opHex := opHex
  descriptors := descriptors
  errors := errors
  malformed := []
  count := .unknown
  all := .browse .start
  filtered := none
  rows := []

variable (k : KeyedSnapshot)

def seq : KeySeq := k.filtered.getD k.all

/-- `*k.seq_mut() = seq`. -/
def setSeq (seq : KeySeq) : KeyedSnapshot :=
  match k.filtered with
  | some _ => { k with filtered := some seq }
  | none => { k with all := seq }

/-- The operator's key count when it is known exactly: counted, or paged to the end. -/
def total : Option Nat :=
  match k.count with
  | .exact n => some n
  | _ => if k.all.done && k.errors.isEmpty then some k.all.positions.length else none

/-- `key_count` of a keyed operator. -/
def keyCount : KeyCount :=
  match k.total with
  | some n => .exact n
  | none => k.count

/-- Where a total comes from. -/
theorem total_eq_some {k : KeyedSnapshot} {n : Nat} (h : k.total = some n) :
    k.count = .exact n
      ∨ k.all.next = none ∧ k.errors = [] ∧ k.all.positions.length = n := by
  have hpaged (h : (if k.all.done && k.errors.isEmpty then some k.all.positions.length else none)
      = some n) : k.all.next = none ∧ k.errors = [] ∧ k.all.positions.length = n := by
    by_cases hdone : (k.all.done && k.errors.isEmpty) = true
    · rw [if_pos hdone] at h
      obtain ⟨hnext, herrors⟩ := (Bool.and_eq_true _ _).mp hdone
      exact ⟨Option.isNone_iff_eq_none.mp hnext, List.isEmpty_iff.mp herrors, Option.some.inj h⟩
    · rw [if_neg hdone] at h
      cases h
  unfold total at h
  cases hcount : k.count with
  | exact m =>
    rw [hcount] at h
    exact .inl (congrArg _ (Option.some.inj h))
  | unknown | counting keys percent | atLeast keys =>
    rw [hcount] at h
    exact .inr (hpaged h)

/-- A count is exact only where the total is. -/
theorem total_of_keyCount {k : KeyedSnapshot} {n : Nat} (h : k.keyCount = .exact n) :
    k.total = some n := by
  unfold keyCount at h
  cases htotal : k.total with
  | some m =>
    rw [htotal] at h
    rw [KeyCount.exact.inj h]
  | none =>
    rw [htotal] at h
    unfold total at htotal
    rw [show k.count = .exact n from h] at htotal
    cases htotal

def notePage (unreadable : List Unreadable) (malformed : List Text) : KeyedSnapshot :=
  { k with
    errors := unreadable.foldl (fun errors u => pushNew errors u.error) k.errors
    malformed := malformed.foldl pushNew k.malformed }

def noteError (host : HostText) (e : ReaderError) : KeyedSnapshot :=
  { k with errors := pushNew k.errors (e.text host) }

/-- Keep a record's row. -/
def loadRow (record : KeyRecord) : KeyedSnapshot :=
  { k with rows := k.rows.insert record.position (.new record k.descriptors) }

end KeyedSnapshot

end FlinkExplorer
