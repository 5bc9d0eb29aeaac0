import FlinkExplorer.Reader.KeyPages
import FlinkExplorer.Tui.Snapshot

namespace FlinkExplorer

open Lib

/-!
# `tui/tree.rs` — the window of keys

`ensure_window` pages forward until a page of look-ahead is known, reads the rows of the window that
are not loaded, and drops those far from it.  `scroll` moves the window.

* `discover` — pages until enough positions are known; each turn takes a page (`pageIn`);
* `loadRuns` — the rows of the window, one page for each run of consecutive keys;
* `evict` — the rows kept;
* `pageIn_ok`, `discover_spec`, `ensureWindow_keeps` — what a page changes, and what every page and so
  the whole keeps.

What each call of the reader finds cached is a parameter: `caches i` for the `i`-th.
-/

section Window

variable (R : StateReader) (caches : Nat → BlockCache)

namespace KeyedSnapshot

/-- The answer of the `call`-th `key_page` of a snapshot. -/
def pageAt (k : KeyedSnapshot) (call : Nat) (from' : Cursor) (limit : Nat) :
    Except ReaderError (Page (List KeyRecord)) := (R.keyPage k.opHex from' limit (caches call)).1

/-- The keys of a page, and whether the range ended in it. -/
def takeKeys : List KeyRecord → KeyedSnapshot → KeyedSnapshot × Bool
  | [], k => (k, false)
  | record :: records, k =>
    if k.seq.stopKg.any fun s => record.keyGroup > s then (k, true)
    else if record.keyGroup < k.seq.startKg then takeKeys records k
    else
      let seq := k.seq
      takeKeys records
        ((k.setSeq { seq with positions := seq.positions ++ [record.position] }).loadRow record)

/-- One page more of a browsing sequence. -/
def pageIn (answer : Except ReaderError (Page (List KeyRecord))) (k : KeyedSnapshot) :
    KeyedSnapshot :=
  match answer with
  | .ok p =>
    let (k, ended) := takeKeys p.found (k.notePage p.unreadable p.malformed)
    k.setSeq { k.seq with next := if ended then none else p.next }
  | .error e =>
    let k := k.noteError R.host e
    k.setSeq { k.seq with next := none }

/-- Positions known before paging stops: up to two pages past the offset. -/
def wanted (k : KeyedSnapshot) : Nat := k.seq.offset + 2 * partitionPageSize

/-- Page forward until enough positions are known, with the number of calls made; `none` where the
    turns run out first. -/
def discover : Nat → Nat → KeyedSnapshot → Option (KeyedSnapshot × Nat)
  | turns, call, k =>
    match k.seq.next with
    | none => some (k, call)
    | some next =>
      if k.wanted ≤ k.seq.positions.length then some (k, call)
      else
        match turns with
        | 0 => none
        | turns + 1 =>
          let limit := max (k.wanted - k.seq.positions.length) partitionPageSize
          discover turns (call + 1) (k.pageIn R (k.pageAt R caches call next limit))

/-- The first position of the window, and the one after its last. -/
def windowStart (k : KeyedSnapshot) : Nat := min k.seq.offset k.seq.positions.length

def windowEnd (k : KeyedSnapshot) : Nat :=
  min (k.windowStart + partitionPageSize) k.seq.positions.length

/-- The positions of the window. -/
def visible (k : KeyedSnapshot) : List Cursor :=
  (k.seq.positions.drop k.windowStart).take (k.windowEnd - k.windowStart)

/-- The window's keys not loaded yet, by index. -/
def missing (k : KeyedSnapshot) : List Nat :=
  (List.range' k.windowStart (k.windowEnd - k.windowStart)).filter fun i =>
    (k.rows.get (k.seq.positions.getD i .start)).isNone

/-- Indices in runs: consecutive ones together when `contiguous`, each alone otherwise. -/
def runs (contiguous : Bool) : List Nat → List (Nat × Nat)
  | [] => []
  | i :: rest =>
    match runs contiguous rest with
    | [] => [(i, 1)]
    | (j, run) :: more =>
      if contiguous ∧ j = i + 1 then (i, run + 1) :: more else (i, 1) :: (j, run) :: more

/-- The rows of a page. -/
def loadPage (answer : Except ReaderError (Page (List KeyRecord))) (k : KeyedSnapshot) :
    KeyedSnapshot :=
  match answer with
  | .ok p => p.found.foldl loadRow (k.notePage p.unreadable p.malformed)
  | .error e => k.noteError R.host e

/-- The rows of runs, a page each. -/
def loadRuns : Nat → List (Nat × Nat) → KeyedSnapshot → KeyedSnapshot
  | _, [], k => k
  | call, (i, run) :: more, k =>
    loadRuns (call + 1) more
      (k.loadPage R (k.pageAt R caches call (k.seq.positions.getD i .start) run))

/-- The positions whose rows are kept: the window, the page before and the page after it. -/
def kept (k : KeyedSnapshot) : List Cursor :=
  let lo := min (k.seq.offset - partitionPageSize) k.seq.positions.length
  let hi := min (k.seq.offset + 2 * partitionPageSize) k.seq.positions.length
  (k.seq.positions.drop lo).take (hi - lo)

def evict (k : KeyedSnapshot) : KeyedSnapshot := { k with rows := k.rows.retain k.kept }

/-- `ensure_window`; `none` where the turns of paging run out. -/
def ensureWindow (turns : Nat) (k : KeyedSnapshot) : Option KeyedSnapshot :=
  if k.descriptors.isEmpty then some k
  else
    (if k.seq.isMatches then some (k, 0) else discover R caches turns 0 k).map fun (k, call) =>
      (k.loadRuns R caches call (runs (!k.seq.isMatches) k.missing)).evict

/-- `scroll` for the keys of an operator, with how far it scrolled. -/
def scroll (forward : Bool) (amount : Nat) (k : KeyedSnapshot) : KeyedSnapshot × Nat :=
  let seq := k.seq
  let before := seq.offset
  let offset :=
    if forward then max before (min (before + amount) (seq.positions.length - partitionPageSize))
    else before - amount
  (k.setSeq { seq with offset := offset }, max before offset - min before offset)

end KeyedSnapshot

end Window

/-! ### Sequences -/

namespace KeyedSnapshot

variable (k : KeyedSnapshot) (seq : KeySeq)

@[simp] theorem seq_setSeq : (k.setSeq seq).seq = seq := by
  rcases k with ⟨_, _, _, _, _, _, _ | f, _⟩ <;> rfl

@[simp] theorem setSeq_setSeq (seq' : KeySeq) : (k.setSeq seq).setSeq seq' = k.setSeq seq' := by
  rcases k with ⟨_, _, _, _, _, _, _ | f, _⟩ <;> rfl

@[simp] theorem opHex_setSeq : (k.setSeq seq).opHex = k.opHex := by
  rcases k with ⟨_, _, _, _, _, _, _ | f, _⟩ <;> rfl

@[simp] theorem descriptors_setSeq : (k.setSeq seq).descriptors = k.descriptors := by
  rcases k with ⟨_, _, _, _, _, _, _ | f, _⟩ <;> rfl

@[simp] theorem errors_setSeq : (k.setSeq seq).errors = k.errors := by
  rcases k with ⟨_, _, _, _, _, _, _ | f, _⟩ <;> rfl

@[simp] theorem count_setSeq : (k.setSeq seq).count = k.count := by
  rcases k with ⟨_, _, _, _, _, _, _ | f, _⟩ <;> rfl

@[simp] theorem rows_setSeq : (k.setSeq seq).rows = k.rows := by
  rcases k with ⟨_, _, _, _, _, _, _ | f, _⟩ <;> rfl

/-- Under a filter the sequence of all keys stays. -/
theorem all_setSeq {f : KeySeq} (h : k.filtered = some f) :
    (k.setSeq seq).all = k.all ∧ (k.setSeq seq).filtered = some seq := by
  unfold setSeq
  rw [h]
  exact ⟨rfl, rfl⟩

/-- Without one it is the sequence. -/
theorem all_setSeq_none (h : k.filtered = none) :
    (k.setSeq seq).all = seq ∧ (k.setSeq seq).filtered = none := by
  rcases k with ⟨_, _, _, _, _, _, f, _⟩
  obtain rfl : f = none := h
  exact ⟨rfl, rfl⟩

end KeyedSnapshot

/-! ### Pages -/

/-- Rows of records, put in one after the other. -/
def Rows.insertAll (descriptors : List StateDesc) (records : List KeyRecord) (rows : Rows) : Rows :=
  records.foldl (fun rows r => rows.insert r.position (.new r descriptors)) rows

namespace KeySeq

variable (seq : KeySeq)

/-- Whether a key is past the range of a sequence. -/
def past (record : KeyRecord) : Bool := seq.stopKg.any fun s => record.keyGroup > s

/-- The keys of a page that are in the range of a sequence. -/
def inRange (records : List KeyRecord) : List KeyRecord :=
  (records.takeWhile fun r => !seq.past r).filter fun r => decide (seq.startKg ≤ r.keyGroup)

variable {seq}

theorem inRange_cons_past {r : KeyRecord} (rs : List KeyRecord) (h : seq.past r = true) :
    seq.inRange (r :: rs) = [] := by
  unfold inRange
  rw [List.takeWhile_cons, h]
  rfl

theorem inRange_cons {r : KeyRecord} (rs : List KeyRecord) (h : ¬ seq.past r = true) :
    seq.inRange (r :: rs)
      = if r.keyGroup < seq.startKg then seq.inRange rs else r :: seq.inRange rs := by
  unfold inRange
  rw [List.takeWhile_cons, (Bool.not_eq_true _).mp h]
  by_cases hbefore : r.keyGroup < seq.startKg
  · rw [if_pos hbefore]
    exact List.filter_cons_of_neg (by simpa using hbefore)
  · rw [if_neg hbefore]
    exact List.filter_cons_of_pos (by simpa using hbefore)

end KeySeq

namespace KeyedSnapshot

/-- Keys at the end of the sequence, with their rows. -/
def addKeys (records : List KeyRecord) (k : KeyedSnapshot) : KeyedSnapshot :=
  let seq := k.seq
  { k.setSeq { seq with positions := seq.positions ++ records.map (·.position) } with
    rows := k.rows.insertAll k.descriptors records }

theorem addKeys_nil (k : KeyedSnapshot) : k.addKeys [] = k := by
  rcases k with ⟨_, _, _, _, _, ⟨_, _, _, _, _, _, _⟩, _ | ⟨_, _, _, _, _, _, _⟩, _⟩ <;>
    simp [addKeys, setSeq, seq, Rows.insertAll]

theorem addKeys_cons (r : KeyRecord) (rs : List KeyRecord) (k : KeyedSnapshot) :
    k.addKeys (r :: rs)
      = (((k.setSeq { k.seq with positions := k.seq.positions ++ [r.position] }).loadRow r).addKeys
        rs) := by
  rcases k with ⟨_, _, _, _, _, ⟨_, _, _, _, _, _, _⟩, _ | ⟨_, _, _, _, _, _, _⟩, _⟩ <;>
    simp [addKeys, setSeq, seq, Rows.insertAll, loadRow]

/-- **The keys of a page** are appended as far as they are in the range, and their rows kept. -/
theorem takeKeys_eq (rs : List KeyRecord) (k : KeyedSnapshot) :
    takeKeys rs k = (k.addKeys (k.seq.inRange rs), rs.any k.seq.past) := by
  induction rs generalizing k with
  | nil => exact congrArg (·, false) (addKeys_nil k).symm
  | cons r rs ih =>
    unfold takeKeys
    by_cases hpast : k.seq.past r = true
    · have htest : (k.seq.stopKg.any fun s => r.keyGroup > s) = true := hpast
      rw [if_pos htest, KeySeq.inRange_cons_past rs hpast, addKeys_nil, List.any_cons, hpast]
      rfl
    · have htest : ¬ (k.seq.stopKg.any fun s => r.keyGroup > s) = true := hpast
      rw [if_neg htest, KeySeq.inRange_cons rs hpast, List.any_cons,
        (Bool.not_eq_true _).mp hpast, Bool.false_or]
      by_cases hbefore : r.keyGroup < k.seq.startKg
      · rw [if_pos hbefore, if_pos hbefore, ih]
      · rw [if_neg hbefore, if_neg hbefore, ih, addKeys_cons]
        -- The range is the same after a key.
        have hseq : ((k.setSeq { k.seq with
            positions := k.seq.positions ++ [r.position] }).loadRow r).seq
            = { k.seq with positions := k.seq.positions ++ [r.position] } := seq_setSeq k _
        rw [hseq]
        rfl

end KeyedSnapshot

/-- The sequence with the keys of a page, and where it goes on. -/
def KeySeq.add (seq : KeySeq) (records : List KeyRecord) (next : Option Cursor) : KeySeq :=
  { seq with
    positions := seq.positions ++ (seq.inRange records).map (·.position)
    next := if records.any seq.past then none else next }

namespace KeyedSnapshot

variable (R : StateReader) (k : KeyedSnapshot)

theorem pageIn_ok (p : Page (List KeyRecord)) :
    k.pageIn R (.ok p)
      = { (k.setSeq (k.seq.add p.found p.next)).notePage p.unreadable p.malformed with
          rows := k.rows.insertAll k.descriptors (k.seq.inRange p.found) } := by
  unfold pageIn
  dsimp only
  rw [takeKeys_eq]
  rcases k with ⟨_, _, _, _, _, _, _ | f, _⟩ <;> rfl

theorem pageIn_error (e : ReaderError) :
    k.pageIn R (.error e) = (k.setSeq { k.seq with next := none }).noteError R.host e := by
  rcases k with ⟨_, _, _, _, _, _, _ | f, _⟩ <;> rfl

theorem seq_pageIn_ok (p : Page (List KeyRecord)) :
    (k.pageIn R (.ok p)).seq = k.seq.add p.found p.next := by
  rw [pageIn_ok]
  exact seq_setSeq k _

theorem seq_pageIn_error (e : ReaderError) :
    (k.pageIn R (.error e)).seq = { k.seq with next := none } := by
  rw [pageIn_error]
  exact seq_setSeq k _

/-- A page changes the positions and where the sequence goes on. -/
theorem isMatches_pageIn (answer : Except ReaderError (Page (List KeyRecord))) :
    (k.pageIn R answer).seq.isMatches = k.seq.isMatches := by
  cases answer with
  | ok p => rw [seq_pageIn_ok, KeySeq.add]
  | error e => rw [seq_pageIn_error]

end KeyedSnapshot

/-! ### Errors -/

theorem subset_pushNew (noted : List Text) (t : Text) : noted ⊆ pushNew noted t := by
  unfold pushNew
  by_cases h : noted.contains t = true
  · rw [if_pos h]
    exact List.Subset.refl _
  · rw [if_neg h]
    exact List.subset_append_left _ _

theorem mem_pushNew (noted : List Text) (t : Text) : t ∈ pushNew noted t := by
  unfold pushNew
  by_cases h : noted.contains t = true
  · rw [if_pos h]
    exact List.contains_iff_mem.mp h
  · rw [if_neg h]
    exact List.mem_append_right _ (List.mem_singleton_self t)

namespace KeyedSnapshot

variable (k : KeyedSnapshot)

theorem errors_notePage (unreadable : List Unreadable) (malformed : List Text) :
    k.errors ⊆ (k.notePage unreadable malformed).errors
      ∧ ∀ u ∈ unreadable, u.error ∈ (k.notePage unreadable malformed).errors := by
  unfold notePage
  dsimp only
  induction unreadable generalizing k with
  | nil =>
    refine ⟨List.Subset.refl _, fun u hu => ?_⟩
    cases hu
  | cons u us ih =>
    obtain ⟨hkept, hnoted⟩ := ih { k with errors := pushNew k.errors u.error }
    rw [List.foldl_cons]
    refine ⟨List.Subset.trans (subset_pushNew _ _) hkept, fun v hv => ?_⟩
    rcases List.mem_cons.mp hv with rfl | hv
    · exact hkept (mem_pushNew _ _)
    · exact hnoted v hv

/-- A page leaves no error only where it reports nothing. -/
theorem errors_notePage_eq_nil {unreadable : List Unreadable} {malformed : List Text}
    (h : (k.notePage unreadable malformed).errors = []) : k.errors = [] ∧ unreadable = [] := by
  obtain ⟨hkept, hnoted⟩ := k.errors_notePage unreadable malformed
  rw [h] at hkept hnoted
  refine ⟨List.subset_nil.mp hkept, List.eq_nil_iff_forall_not_mem.mpr fun u hu => ?_⟩
  exact List.not_mem_nil (hnoted u hu)

theorem errors_noteError_ne_nil (host : HostText) (e : ReaderError) :
    (k.noteError host e).errors ≠ [] :=
  List.ne_nil_of_mem (mem_pushNew _ _)

variable (R : StateReader) (answer : Except ReaderError (Page (List KeyRecord)))

/-- **What a page leaves alone.** -/
theorem pageIn_frame :
    (k.pageIn R answer).opHex = k.opHex ∧ (k.pageIn R answer).descriptors = k.descriptors
      ∧ (k.pageIn R answer).count = k.count ∧ k.errors ⊆ (k.pageIn R answer).errors := by
  cases answer with
  | ok p =>
    rw [pageIn_ok]
    refine ⟨k.opHex_setSeq _, k.descriptors_setSeq _, k.count_setSeq _, ?_⟩
    have hkept := ((k.setSeq (k.seq.add p.found p.next)).errors_notePage p.unreadable p.malformed).1
    rwa [k.errors_setSeq] at hkept
  | error e =>
    rw [pageIn_error]
    refine ⟨k.opHex_setSeq _, k.descriptors_setSeq _, k.count_setSeq _, ?_⟩
    unfold noteError
    rw [k.errors_setSeq]
    exact subset_pushNew _ _

/-- No error after a page: there was none before, and nothing is reported. -/
theorem errors_pageIn_ok {p : Page (List KeyRecord)} (h : (k.pageIn R (.ok p)).errors = []) :
    k.errors = [] ∧ p.unreadable = [] := by
  rw [pageIn_ok] at h
  have hnoted : ((k.setSeq (k.seq.add p.found p.next)).notePage p.unreadable p.malformed).errors = []
    := h
  obtain ⟨hbefore, hunreadable⟩ := errors_notePage_eq_nil _ hnoted
  exact ⟨k.errors_setSeq _ ▸ hbefore, hunreadable⟩

theorem errors_pageIn_error (e : ReaderError) : (k.pageIn R (.error e)).errors ≠ [] := by
  rw [pageIn_error]
  exact errors_noteError_ne_nil _ _ _

/-- Under a filter a page is of its sequence. -/
theorem all_pageIn {f : KeySeq} (h : k.filtered = some f) :
    (k.pageIn R answer).all = k.all
      ∧ (k.pageIn R answer).filtered = some (k.pageIn R answer).seq := by
  rcases k with ⟨_, _, _, _, _, _, g, _⟩
  obtain rfl : g = some f := h
  cases answer with
  | ok p =>
    rw [pageIn_ok]
    exact ⟨rfl, rfl⟩
  | error e =>
    rw [pageIn_error]
    exact ⟨rfl, rfl⟩

/-- Without one it is of the sequence of all keys. -/
theorem all_pageIn_none (h : k.filtered = none) :
    (k.pageIn R answer).all = (k.pageIn R answer).seq ∧ (k.pageIn R answer).filtered = none := by
  rcases k with ⟨_, _, _, _, _, _, g, _⟩
  obtain rfl : g = none := h
  cases answer with
  | ok p =>
    rw [pageIn_ok]
    exact ⟨rfl, rfl⟩
  | error e =>
    rw [pageIn_error]
    exact ⟨rfl, rfl⟩

end KeyedSnapshot

/-! ### The window -/

section Ensured

variable {R : StateReader} {caches : Nat → BlockCache}

namespace KeyedSnapshot

/-- **Paging** keeps what every page keeps, and stops where enough positions are known. -/
theorem discover_spec {P : KeyedSnapshot → Prop}
    (hpage : ∀ k call next limit, P k → k.seq.next = some next →
      P (k.pageIn R (k.pageAt R caches call next (max limit partitionPageSize))))
    {turns call call' : Nat} {k k' : KeyedSnapshot} (hk : P k)
    (h : k.discover R caches turns call = some (k', call')) :
    P k' ∧ (k'.seq.next = none ∨ k'.wanted ≤ k'.seq.positions.length) := by
  induction turns generalizing k call with
  | zero =>
    unfold discover at h
    cases hnext : k.seq.next with
    | none =>
      simp only [hnext] at h
      obtain ⟨rfl, -⟩ := Prod.mk.inj (Option.some.inj h)
      exact ⟨hk, .inl hnext⟩
    | some next =>
      simp only [hnext] at h
      by_cases hwanted : k.wanted ≤ k.seq.positions.length
      · rw [if_pos hwanted] at h
        obtain ⟨rfl, -⟩ := Prod.mk.inj (Option.some.inj h)
        exact ⟨hk, .inr hwanted⟩
      · rw [if_neg hwanted] at h
        cases h
  | succ turns ih =>
    unfold discover at h
    cases hnext : k.seq.next with
    | none =>
      simp only [hnext] at h
      obtain ⟨rfl, -⟩ := Prod.mk.inj (Option.some.inj h)
      exact ⟨hk, .inl hnext⟩
    | some next =>
      simp only [hnext] at h
      by_cases hwanted : k.wanted ≤ k.seq.positions.length
      · rw [if_pos hwanted] at h
        obtain ⟨rfl, -⟩ := Prod.mk.inj (Option.some.inj h)
        exact ⟨hk, .inr hwanted⟩
      · rw [if_neg hwanted] at h
        exact ih (hpage k call next _ hk hnext) h

variable (R) in
/-- A page read for its rows leaves the sequences as they are. -/
theorem loadPage_frame (answer : Except ReaderError (Page (List KeyRecord))) (k : KeyedSnapshot) :
    ∃ errors malformed rows, k.errors ⊆ errors
      ∧ k.loadPage R answer = { k with errors := errors, malformed := malformed, rows := rows } := by
  have hrows (records : List KeyRecord) (k : KeyedSnapshot) :
      records.foldl loadRow k = { k with rows := k.rows.insertAll k.descriptors records } := by
    induction records generalizing k with
    | nil => rfl
    | cons r rs ih =>
      rw [List.foldl_cons, ih]
      rfl
  cases answer with
  | ok p =>
    let noted := k.notePage p.unreadable p.malformed
    exact ⟨noted.errors, noted.malformed, _, (k.errors_notePage p.unreadable p.malformed).1,
      hrows p.found noted⟩
  | error e => exact ⟨_, _, _, subset_pushNew _ _, rfl⟩

variable (R caches) in
theorem loadRuns_frame (call : Nat) (rs : List (Nat × Nat)) (k : KeyedSnapshot) :
    ∃ errors malformed rows, k.errors ⊆ errors
      ∧ k.loadRuns R caches call rs
        = { k with errors := errors, malformed := malformed, rows := rows } := by
  induction rs generalizing call k with
  | nil => exact ⟨_, _, _, List.Subset.refl _, rfl⟩
  | cons run rs ih =>
    unfold loadRuns
    obtain ⟨errors, malformed, rows, hkept, hload⟩ := loadPage_frame R
      (k.pageAt R caches call (k.seq.positions.getD run.1 .start) run.2) k
    obtain ⟨errors', malformed', rows', hkept', hloads⟩ := ih (call + 1)
      (k.loadPage R (k.pageAt R caches call (k.seq.positions.getD run.1 .start) run.2))
    rw [hload] at hkept' hloads
    exact ⟨errors', malformed', rows', List.Subset.trans hkept hkept', hload ▸ hloads⟩

/-- **Making sure of the window** keeps what every page keeps, if errors, notes and rows do not
    matter to it more than that errors stay. -/
theorem ensureWindow_keeps {P : KeyedSnapshot → Prop}
    (hpage : ∀ k call next limit, P k → k.seq.isMatches = false → k.seq.next = some next →
      P (k.pageIn R (k.pageAt R caches call next (max limit partitionPageSize))))
    (hframe : ∀ k errors malformed rows, P k → k.errors ⊆ errors →
      P { k with errors := errors, malformed := malformed, rows := rows })
    {turns : Nat} {k k' : KeyedSnapshot} (hk : P k)
    (h : k.ensureWindow R caches turns = some k') : P k' := by
  unfold ensureWindow at h
  by_cases hempty : k.descriptors.isEmpty = true
  · rw [if_pos hempty] at h
    exact Option.some.inj h ▸ hk
  · rw [if_neg hempty] at h
    obtain ⟨⟨mid, call⟩, hmid, rfl⟩ := Option.map_eq_some_iff.mp h
    have hPmid : P mid := by
      by_cases hmatches : k.seq.isMatches = true
      · rw [if_pos hmatches] at hmid
        exact (Prod.mk.inj (Option.some.inj hmid)).1 ▸ hk
      · rw [if_neg hmatches] at hmid
        have hkept := discover_spec (P := fun k => P k ∧ k.seq.isMatches = false) ?_
          ⟨hk, (Bool.not_eq_true _).mp hmatches⟩ hmid
        · exact hkept.1.1
        · rintro k call next limit ⟨hP, hbrowse⟩ hnext
          exact ⟨hpage k call next limit hP hbrowse hnext, (k.isMatches_pageIn R _).trans hbrowse⟩
    obtain ⟨errors, malformed, rows, hkept, hload⟩ :=
      loadRuns_frame R caches call (runs (!mid.seq.isMatches) mid.missing) mid
    dsimp only
    rw [hload]
    exact hframe mid errors malformed _ hPmid hkept

end KeyedSnapshot

end Ensured

end FlinkExplorer
