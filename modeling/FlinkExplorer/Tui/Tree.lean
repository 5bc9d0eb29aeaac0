import FlinkExplorer.Tui.Jobs
import FlinkExplorer.Tui.Window
import Mathlib.Logic.Relation

namespace FlinkExplorer

open Lib

/-!
# `tui/tree.rs` — an operator of the tree, over a run

The user expands and scrolls, filters come and go, the workers report, and the reader is replaced;
after each of these the tree makes sure of the window of an expanded operator.

* `applyFilter`, `applySearch`, `applyCount` — what a filter and a report change;
* `OperatorTree` — an operator with the reader of the tree and the reports of a search still to come;
* `OperatorTree.Effect`, `OperatorTree.Refilter` — what can happen to it; `OperatorTree.Step` — that,
  and its window made sure of;
* `KeepsAll` — what all of this leaves alone.

Operators do not share anything but the reader, so one is enough.
-/

/-! ### Reports -/

namespace KeyedSnapshot

/-- The matches of a report; a row is kept of those at the indices `lo..hi`. -/
def takeMatches (lo hi : Nat) : List KeyRecord → KeyedSnapshot × KeySeq → KeyedSnapshot × KeySeq
  | [], ks => ks
  | record :: records, (k, seq) =>
    let before := seq.positions.length
    let seq := seq.pushMatch record.position
    if before < seq.positions.length ∧ lo ≤ before ∧ before < hi then
      takeMatches lo hi records (k.loadRow record, seq)
    else takeMatches lo hi records (k, seq)

/-- `apply_search`. -/
def applySearch (host : HostText) (msg : SearchMsg) (k : KeyedSnapshot) : KeyedSnapshot :=
  match msg with
  | .page found next unreadable malformed =>
    let k := k.notePage unreadable malformed
    match k.filtered with
    | none => k
    | some seq =>
      let (k, seq) := takeMatches seq.offset (seq.offset + 2 * partitionPageSize) found (k, seq)
      { k with filtered := some { seq with next := next } }
  | .failed error =>
    let k := k.noteError host error
    match k.filtered with
    | none => k
    | some seq => { k with filtered := some { seq with next := none } }

/-- `apply_count`. -/
def applyCount (msg : CountMsg) (k : KeyedSnapshot) : KeyedSnapshot :=
  match msg with
  | .progress keys percent => { k with count := .counting keys percent }
  | .done keys complete => { k with count := if complete then .exact keys else .atLeast keys }

/-- `cancel_count`: what was counted so far stays, as a lower bound. -/
def cancelCount (k : KeyedSnapshot) : KeyedSnapshot :=
  match k.keyCount with
  | .counting keys _ => { k with count := .atLeast keys }
  | _ => k

end KeyedSnapshot

/-! ### Filters -/

section Filter

variable (R : StateReader) (T : CaseTables) (maxParallelism parallelism : Int)

/-- The sequence of a key-group range: its start is sought, or its keys are paged from the first. -/
def KeyedSnapshot.rangeSeq (k : KeyedSnapshot) (start stop : UInt16) (cache : BlockCache) : KeySeq :=
  let from' : Cursor := ⟨subtaskForKeyGroup maxParallelism parallelism start.toNat, start, 0⟩
  let sought := (R.keyPage k.opHex from' 1 cache).1.isOk
  { KeySeq.browse (if sought then from' else .start) with stopKg := some stop, startKg := start }

/-- A filter, applied to the keys of an operator; and whether they are to be searched. -/
def KeyedSnapshot.applyFilter (filter : Option AppliedFilter) (cache : BlockCache)
    (k : KeyedSnapshot) : KeyedSnapshot × Bool :=
  let k := { k with all := { k.all with offset := 0 }, filtered := none }
  match filter with
  | none => (k, false)
  | some f =>
    if k.descriptors.isEmpty then (k, false)
    else
      let search : KeySeq := { KeySeq.browse .start with isMatches := true }
      match f with
      | .keyGroupRange start stop =>
        let range := k.rangeSeq R maxParallelism parallelism start stop cache
        ({ k with filtered := some range }, false)
      | .exact bytes =>
        match (R.get k.opHex (decodeUtf8Lossy bytes) cache).1 with
        | .ok (.found record _ _) =>
          ({ k.loadRow record with
            filtered := some { search.pushMatch record.position with next := none } }, false)
        | .ok (.absent _ _ _) => ({ k with filtered := some { search with next := none } }, false)
        | .ok (.needsScan _) => ({ k with filtered := some search }, true)
        | .error e =>
          ({ k.noteError R.host e with filtered := some { search with next := none } }, false)
      | .pattern p =>
        if p.contains '*' || p.contains '?' then ({ k with filtered := some search }, true)
        else
          -- What was typed is most likely a key; the search then adds the others.
          match (R.get k.opHex p cache).1 with
          | .ok (.found record _ _) =>
            ({ k.loadRow record with filtered := some (search.pushMatch record.position) }, true)
          | _ => ({ k with filtered := some search }, true)

end Filter

/-! ### An operator of the tree -/

/-- An operator: its keyed state with the reader of the tree, whether it is expanded, and the reports
    of its search that are still to come. -/
structure OperatorTree where
  reader : StateReader
  maxParallelism : Int
  parallelism : Int
  keyed : KeyedSnapshot
  expanded : Bool
  reports : List SearchMsg

/-- A reader over the same savepoint: it may decode with another protobuf context, and return more or
    fewer entries with a key. -/
def StateReader.SameSavepoint (R R' : StateReader) : Prop :=
  ∃ proto entryLimit, ∃ hpos : 0 < entryLimit,
    R' = { R with proto := proto, entryLimit := entryLimit, entryLimit_pos := hpos }

namespace OperatorTree

/-- `poll_search`: the first reports, in order. -/
def poll (n : Nat) (t : OperatorTree) : OperatorTree :=
  { t with
    keyed := (t.reports.take n).foldl (fun k msg => k.applySearch t.reader.host msg) t.keyed
    reports := t.reports.drop n }

/-- `set_reader`. -/
def setReader (R : StateReader) (t : OperatorTree) : OperatorTree :=
  { t with reader := R, keyed := { t.keyed with rows := [] } }

/-- Before rows are shown, the window of an expanded operator is made sure of. -/
def rebuild (caches : Nat → BlockCache) (turns : Nat) (t : OperatorTree) : Option OperatorTree :=
  if t.expanded then
    (t.keyed.ensureWindow t.reader caches turns).map fun k => { t with keyed := k }
  else some t

/-- The operator under a filter; `msgs` are what its search will report, if it is searched. -/
def filter (f : Option AppliedFilter) (cache : BlockCache) (msgs : List SearchMsg)
    (t : OperatorTree) : OperatorTree :=
  let applied := t.keyed.applyFilter t.reader t.maxParallelism t.parallelism f cache
  { t with keyed := applied.1, reports := if applied.2 then msgs else [] }

/-- What can happen to an operator under one filter, before its window is made sure of. -/
inductive Effect (t : OperatorTree) : OperatorTree → Prop
  /-- How values are shown changes. -/
  | redraw : Effect t t
  | expand (expanded : Bool) : Effect t { t with expanded := expanded }
  | scroll (h : t.expanded = true) (forward : Bool) (amount : Nat) :
    Effect t { t with keyed := (t.keyed.scroll forward amount).1 }
  | poll (n : Nat) : Effect t (t.poll n)
  | cancelSearch : Effect t { t with reports := [] }
  | setReader {R : StateReader} (h : t.reader.SameSavepoint R) : Effect t (t.setReader R)
  | count {caches : Nat → BlockCache} (hcaches : ∀ i, t.reader.Reached (caches i))
    {stepBytes maxMatches turns : Nat} {msg : CountMsg}
    (hmsg : msg ∈ t.reader.countJob caches t.keyed.opHex t.maxParallelism stepBytes maxMatches turns
      0 .start 0 true) :
    Effect t { t with keyed := t.keyed.applyCount msg }
  | cancelCount : Effect t { t with keyed := t.keyed.cancelCount }
  /-- Entries of one key could not be read. -/
  | entriesFailed (e : ReaderError) :
    Effect t { t with keyed := t.keyed.noteError t.reader.host e }

variable (T : CaseTables)

/-- Another filter, or none. -/
inductive Refilter (t : OperatorTree) : OperatorTree → Prop
  | clear (cache : BlockCache) : Refilter t (t.filter none cache [])
  | apply (f : AppliedFilter) {cache : BlockCache} {caches : Nat → BlockCache}
    (hcache : t.reader.Reached cache) (hcaches : ∀ i, t.reader.Reached (caches i))
    {stepBytes maxMatches turns : Nat} {msgs : List SearchMsg}
    (hmsgs : t.reader.searchJob caches t.keyed.opHex (f.test T) stepBytes maxMatches turns 0 .start
      .empty = some msgs) :
    Refilter t (t.filter (some f) cache msgs)

/-- The window is made sure of, whatever is cached. -/
def Rebuilt (t t' : OperatorTree) : Prop :=
  ∃ caches turns, (∀ i, t.reader.Reached (caches i)) ∧ t.rebuild caches turns = some t'

/-- A step under one filter. -/
def StepUnder (t t' : OperatorTree) : Prop := ∃ mid, t.Effect mid ∧ mid.Rebuilt t'

/-- Something happens, and the window is made sure of. -/
def Step (t t' : OperatorTree) : Prop :=
  ∃ mid, (t.Effect mid ∨ t.Refilter T mid) ∧ mid.Rebuilt t'

/-- An operator before any key is read. -/
def start (R : StateReader) (o : OpenOperator) (op : Text) (descriptors : List StateDesc)
    (errors : List Text) : OperatorTree where
  reader := R
  maxParallelism := o.maxParallelism
  parallelism := o.parallelism
  keyed := .new op descriptors errors
  expanded := false
  reports := []

end OperatorTree

/-! ### What is left alone -/

namespace KeyedSnapshot

/-- The sequence of all keys stays, but for how far it is scrolled; errors stay; nothing is counted. -/
structure KeepsAll (k k' : KeyedSnapshot) : Prop where
  opHex : k'.opHex = k.opHex
  descriptors : k'.descriptors = k.descriptors
  count : k'.count = k.count
  all : ∃ offset, k'.all = { k.all with offset := offset }
  errors : k.errors ⊆ k'.errors

variable {k k' k'' : KeyedSnapshot}

theorem KeepsAll.refl (k : KeyedSnapshot) : k.KeepsAll k := ⟨rfl, rfl, rfl, ⟨_, rfl⟩, fun _ h => h⟩

theorem KeepsAll.trans (h : k.KeepsAll k') (h' : k'.KeepsAll k'') : k.KeepsAll k'' where
  opHex := h'.opHex.trans h.opHex
  descriptors := h'.descriptors.trans h.descriptors
  count := h'.count.trans h.count
  all := by
    obtain ⟨offset, hall⟩ := h.all
    obtain ⟨offset', hall'⟩ := h'.all
    exact ⟨offset', by rw [hall', hall]⟩
  errors := List.Subset.trans h.errors h'.errors

theorem keepsAll_noteError (host : HostText) (e : ReaderError) (k : KeyedSnapshot) :
    k.KeepsAll (k.noteError host e) := ⟨rfl, rfl, rfl, ⟨_, rfl⟩, subset_pushNew _ _⟩

theorem keepsAll_scroll (forward : Bool) (amount : Nat) (k : KeyedSnapshot) :
    k.KeepsAll (k.scroll forward amount).1 := by
  rcases k with ⟨_, _, _, _, _, _, _ | f, _⟩
  · exact ⟨rfl, rfl, rfl, ⟨_, rfl⟩, fun _ h => h⟩
  · exact ⟨rfl, rfl, rfl, ⟨_, rfl⟩, fun _ h => h⟩

/-- The matches of a report change the rows only, beside their sequence. -/
theorem takeMatches_fst (lo hi : Nat) (rs : List KeyRecord) (k : KeyedSnapshot) (seq : KeySeq) :
    ∃ rows, (takeMatches lo hi rs (k, seq)).1 = { k with rows := rows } := by
  induction rs generalizing k seq with
  | nil => exact ⟨k.rows, rfl⟩
  | cons r rs ih =>
    unfold takeMatches
    dsimp only
    split
    · obtain ⟨rows, hrows⟩ := ih (k.loadRow r) (seq.pushMatch r.position)
      exact ⟨rows, hrows⟩
    · exact ih k _

theorem keepsAll_applySearch (host : HostText) (msg : SearchMsg) (k : KeyedSnapshot) :
    k.KeepsAll (k.applySearch host msg) := by
  cases msg with
  | page found next unreadable malformed =>
    have hnoted := (k.errors_notePage unreadable malformed).1
    unfold applySearch
    dsimp only
    cases hfiltered : (k.notePage unreadable malformed).filtered with
    | none => exact ⟨rfl, rfl, rfl, ⟨_, rfl⟩, hnoted⟩
    | some seq =>
      obtain ⟨rows, hrows⟩ := takeMatches_fst seq.offset (seq.offset + 2 * partitionPageSize) found
        (k.notePage unreadable malformed) seq
      dsimp only
      rw [hrows]
      exact ⟨rfl, rfl, rfl, ⟨_, rfl⟩, hnoted⟩
  | failed error =>
    have hnoted := subset_pushNew k.errors (error.text host)
    unfold applySearch
    dsimp only
    cases (k.noteError host error).filtered with
    | none => exact ⟨rfl, rfl, rfl, ⟨_, rfl⟩, hnoted⟩
    | some seq => exact ⟨rfl, rfl, rfl, ⟨_, rfl⟩, hnoted⟩

theorem keepsAll_applyFilter (R : StateReader) (maxParallelism parallelism : Int)
    (filter : Option AppliedFilter) (cache : BlockCache) (k : KeyedSnapshot) :
    k.KeepsAll (k.applyFilter R maxParallelism parallelism filter cache).1 := by
  have hkept (filtered : Option KeySeq) (rows : Rows) :
      k.KeepsAll { k with all := { k.all with offset := 0 }, filtered := filtered, rows := rows } :=
    ⟨rfl, rfl, rfl, ⟨0, rfl⟩, fun _ h => h⟩
  unfold applyFilter
  cases filter with
  | none => exact hkept none k.rows
  | some f =>
    dsimp only
    by_cases hempty : k.descriptors.isEmpty = true
    · rw [if_pos hempty]
      exact hkept none k.rows
    · rw [if_neg hempty]
      cases f with
      | keyGroupRange start stop => exact hkept _ k.rows
      | exact bytes =>
        dsimp only
        rcases (R.get k.opHex (decodeUtf8Lossy bytes) cache).1 with e | ⟨_ | _ | _⟩
        · exact ⟨rfl, rfl, rfl, ⟨0, rfl⟩, subset_pushNew _ _⟩
        · exact hkept _ _
        · exact hkept _ k.rows
        · exact hkept _ k.rows
      | pattern p =>
        dsimp only
        split
        · exact hkept _ k.rows
        · rcases (R.get k.opHex p cache).1 with e | ⟨_ | _ | _⟩
          · exact hkept _ k.rows
          · exact hkept _ _
          · exact hkept _ k.rows
          · exact hkept _ k.rows

theorem keepsAll_poll (host : HostText) (msgs : List SearchMsg) (k : KeyedSnapshot) :
    k.KeepsAll (msgs.foldl (fun k msg => k.applySearch host msg) k) := by
  induction msgs generalizing k with
  | nil => exact .refl k
  | cons msg msgs ih => exact (keepsAll_applySearch host msg k).trans (ih _)

end KeyedSnapshot

/-! ### Another reader of the same savepoint -/

namespace StateReader.SameSavepoint

variable {R R' : StateReader} {o : OpenOperator}

theorem refl (R : StateReader) : R.SameSavepoint R := ⟨R.proto, R.entryLimit, R.entryLimit_pos, rfl⟩

theorem trans {R'' : StateReader} (h : R.SameSavepoint R') (h' : R'.SameSavepoint R'') :
    R.SameSavepoint R'' := by
  obtain ⟨proto, entryLimit, hpos, rfl⟩ := h
  obtain ⟨proto', entryLimit', hpos', rfl⟩ := h'
  exact ⟨proto', entryLimit', hpos', rfl⟩

theorem operator (h : R.SameSavepoint R') : R'.operator = R.operator := by
  obtain ⟨proto, entryLimit, hpos, rfl⟩ := h
  rfl

/-- What is met on the way does not depend on how values are decoded. -/
theorem eventsFrom (h : R.SameSavepoint R') : R'.eventsFrom o = R.eventsFrom o := by
  obtain ⟨proto, entryLimit, hpos, rfl⟩ := h
  rfl

theorem defectOf (h : R.SameSavepoint R') : R'.defectOf o = R.defectOf o := by
  obtain ⟨proto, entryLimit, hpos, rfl⟩ := h
  rfl

theorem reportOf (h : R.SameSavepoint R') : R'.reportOf o = R.reportOf o := by
  obtain ⟨proto, entryLimit, hpos, rfl⟩ := h
  rfl

theorem sized (h : R.SameSavepoint R') (hsized : R.Sized o) : R'.Sized o := by
  obtain ⟨proto, entryLimit, hpos, rfl⟩ := h
  exact hsized

theorem readWhole (h : R.SameSavepoint R') (hwhole : R'.ReadWhole o) : R.ReadWhole o := by
  obtain ⟨proto, entryLimit, hpos, rfl⟩ := h
  exact ⟨hwhole.units, hwhole.blocks⟩

/-- Its keys are at the same places. -/
theorem positions (h : R.SameSavepoint R') (ho : o.Regular) :
    (R'.keysWhere o fun _ => true).map (·.position)
      = (R.keysWhere o fun _ => true).map (·.position) := by
  rw [← keysFrom_start ho, ← keysFrom_start ho, keysFrom, keysFrom, h.eventsFrom,
    map_position_records, map_position_records]

end StateReader.SameSavepoint

end FlinkExplorer
