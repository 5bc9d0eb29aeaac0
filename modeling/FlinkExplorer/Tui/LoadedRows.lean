import FlinkExplorer.Tui.Browse

namespace FlinkExplorer

open Lib

/-!
# `tui/tree.rs` — the rows that are loaded

Rows are kept by position, of some keys only.  Those of the window that are not loaded are read run
by run, and then the rows far from the window are dropped.

* `Rows.Of` — rows that are those of an operator's keys;
* `KeySeq.Reads`, `Consecutive` — positions that follow each other and are of keys that do;
* `loadRuns_rows` — a run that is read loads its rows;
* `KeyedSnapshot.Ensured`, `ensured_evict` — every row of the window is loaded, and few others.
-/

/-! ### Parts of a list -/

theorem mem_slice {α : Type} {l : List α} {a n : Nat} {x : α} :
    x ∈ (l.drop a).take n ↔ ∃ i, a ≤ i ∧ i < a + n ∧ l[i]? = some x := by
  rw [List.mem_iff_getElem?]
  constructor
  · rintro ⟨j, hj⟩
    rw [List.getElem?_take] at hj
    by_cases hlt : j < n
    · rw [if_pos hlt, List.getElem?_drop] at hj
      exact ⟨a + j, Nat.le_add_right _ _, by omega, hj⟩
    · rw [if_neg hlt] at hj
      cases hj
  · rintro ⟨i, hle, hlt, hi⟩
    refine ⟨i - a, ?_⟩
    rw [List.getElem?_take, if_pos (by omega), List.getElem?_drop, Nat.add_sub_cancel' hle]
    exact hi

/-! ### Rows -/

namespace Rows

/-- The positions whose rows are loaded. -/
def loaded (rows : Rows) : List Cursor := rows.map (·.1)

/-- **Rows of keys**: one for each position, and each made of the record of the key there. -/
structure Of (R : StateReader) (o : OpenOperator) (descriptors : List StateDesc) (rows : Rows) :
    Prop where
  nodup : rows.loaded.Nodup
  record : ∀ p ∈ rows, ∃ r ∈ R.keysWhere o fun _ => true,
    r.position = p.1 ∧ p.2 = .new r descriptors

variable {R : StateReader} {o : OpenOperator} {descriptors : List StateDesc} {rows : Rows}

theorem isSome_get (rows : Rows) (pos : Cursor) : (rows.get pos).isSome = true ↔ pos ∈ rows.loaded := by
  unfold get loaded
  rw [Option.isSome_map, List.find?_isSome, List.mem_map]
  simp

theorem mem_insert {pos : Cursor} {row : KeyRow} {p : Cursor × KeyRow} :
    p ∈ rows.insert pos row ↔ p = (pos, row) ∨ p ∈ rows ∧ p.1 ≠ pos := by
  unfold insert
  rw [List.mem_cons, List.mem_filter, decide_eq_true_eq]

theorem mem_loaded_insert {pos q : Cursor} {row : KeyRow} :
    q ∈ (rows.insert pos row).loaded ↔ q = pos ∨ q ∈ rows.loaded := by
  unfold loaded
  simp only [List.mem_map, mem_insert]
  constructor
  · rintro ⟨p, rfl | ⟨hp, -⟩, rfl⟩
    · exact .inl rfl
    · exact .inr ⟨p, hp, rfl⟩
  · rintro (rfl | ⟨p, hp, rfl⟩)
    · exact ⟨_, .inl rfl, rfl⟩
    · by_cases hpos : p.1 = pos
      · exact ⟨_, .inl rfl, hpos.symm⟩
      · exact ⟨p, .inr ⟨hp, hpos⟩, rfl⟩

theorem length_insert_le (rows : Rows) (pos : Cursor) (row : KeyRow) :
    (rows.insert pos row).length ≤ rows.length + 1 := by
  unfold insert
  rw [List.length_cons]
  exact Nat.succ_le_succ (List.length_filter_le _ _)

theorem Of.nil : Of R o descriptors [] := ⟨List.nodup_nil, fun p hp => by cases hp⟩

theorem Of.filter (h : rows.Of R o descriptors) (p : Cursor × KeyRow → Bool) :
    Of R o descriptors (rows.filter p) :=
  ⟨h.nodup.sublist (List.filter_sublist.map _), fun q hq => h.record q (List.mem_of_mem_filter hq)⟩

/-- The row of a key is put in the place of the one that was there. -/
theorem Of.insert (h : rows.Of R o descriptors) {r : KeyRecord}
    (hr : r ∈ R.keysWhere o fun _ => true) :
    Of R o descriptors (rows.insert r.position (.new r descriptors)) := by
  constructor
  · unfold Rows.insert loaded
    rw [List.map_cons, List.nodup_cons]
    refine ⟨fun hmem => ?_, (h.filter _).nodup⟩
    obtain ⟨p, hp, heq⟩ := List.mem_map.mp hmem
    exact of_decide_eq_true (List.mem_filter.mp hp).2 heq
  · intro p hp
    rcases mem_insert.mp hp with rfl | ⟨hp, -⟩
    · exact ⟨r, hr, rfl, rfl⟩
    · exact h.record p hp

theorem Of.insertAll (h : rows.Of R o descriptors) {rs : List KeyRecord}
    (hrs : ∀ r ∈ rs, r ∈ R.keysWhere o fun _ => true) :
    Of R o descriptors (rows.insertAll descriptors rs) := by
  unfold Rows.insertAll
  induction rs generalizing rows with
  | nil => exact h
  | cons r rs ih =>
    exact ih (h.insert (hrs r List.mem_cons_self)) fun r hr => hrs r (List.mem_cons_of_mem _ hr)

theorem mem_loaded_insertAll {rs : List KeyRecord} {q : Cursor} :
    q ∈ (rows.insertAll descriptors rs).loaded ↔ q ∈ rows.loaded ∨ ∃ r ∈ rs, r.position = q := by
  unfold insertAll
  induction rs generalizing rows with
  | nil => simp
  | cons r rs ih =>
    rw [List.foldl_cons, ih, mem_loaded_insert, List.exists_mem_cons_iff, eq_comm (a := q)]
    tauto

/-- **The row at a position** is made of the record of the key there. -/
theorem Of.get (h : rows.Of R o descriptors) {pos : Cursor} (hpos : pos ∈ rows.loaded) :
    ∃ r ∈ R.keysWhere o fun _ => true, r.position = pos ∧ rows.get pos = some (.new r descriptors) := by
  obtain ⟨row, hrow⟩ := Option.isSome_iff_exists.mp ((isSome_get rows pos).mpr hpos)
  obtain ⟨p, hp, rfl⟩ := Option.map_eq_some_iff.mp hrow
  obtain ⟨r, hr, hposition, hnew⟩ := h.record p (List.mem_of_find?_eq_some hp)
  have hat : p.1 = pos := by simpa using List.find?_some hp
  exact ⟨r, hr, hposition.trans hat, hrow.trans (congrArg some hnew)⟩

/-- Rows kept at some positions are no more than these. -/
theorem Of.length_retain (h : rows.Of R o descriptors) (keep : List Cursor) :
    (rows.retain keep).length ≤ keep.length := by
  have hnodup : (rows.retain keep).loaded.Nodup := (h.filter _).nodup
  have hsubset : (rows.retain keep).loaded ⊆ keep := by
    intro q hq
    obtain ⟨p, hp, rfl⟩ := List.mem_map.mp hq
    exact of_decide_eq_true (List.mem_filter.mp hp).2
  have hlength := (List.subperm_of_subset hnodup hsubset).length_le
  unfold loaded at hlength
  rwa [List.length_map] at hlength

end Rows

/-! ### Runs -/

namespace KeyedSnapshot

/-- The indices of a run are among those given, and alone unless runs are wanted. -/
theorem mem_runs {contiguous : Bool} {l : List Nat} {run : Nat × Nat}
    (h : run ∈ runs contiguous l) :
    0 < run.2 ∧ (∀ j < run.2, run.1 + j ∈ l) ∧ (contiguous = false → run.2 = 1) := by
  induction l generalizing run with
  | nil => cases h
  | cons i rest ih =>
    have hone : 0 < (i, 1).2 ∧ (∀ j < (i, 1).2, (i, 1).1 + j ∈ i :: rest)
        ∧ (contiguous = false → (i, 1).2 = 1) := by
      refine ⟨Nat.one_pos, fun j hj => ?_, fun _ => rfl⟩
      obtain rfl : j = 0 := Nat.lt_one_iff.mp hj
      exact List.mem_cons_self
    have hlater {run : Nat × Nat} (h : run ∈ runs contiguous rest) : 0 < run.2
        ∧ (∀ j < run.2, run.1 + j ∈ i :: rest) ∧ (contiguous = false → run.2 = 1) := by
      obtain ⟨hpos, hmem, halone⟩ := ih h
      exact ⟨hpos, fun j hj => List.mem_cons_of_mem _ (hmem j hj), halone⟩
    unfold runs at h
    rcases hruns : runs contiguous rest with _ | ⟨⟨j, n⟩, more⟩
    · simp only [hruns, List.mem_singleton] at h
      subst h
      exact hone
    · simp only [hruns] at h
      by_cases hnext : contiguous = true ∧ j = i + 1
      · rw [if_pos hnext] at h
        rcases List.mem_cons.mp h with rfl | h
        · -- The index goes in front of the first run.
          obtain ⟨-, hmem, -⟩ := ih (hruns ▸ List.mem_cons_self)
          refine ⟨Nat.succ_pos n, fun j' hj' => ?_, fun hfalse => ?_⟩
          · rcases j' with _ | j'
            · exact List.mem_cons_self
            · have hin := hmem j' (Nat.lt_of_succ_lt_succ hj')
              rw [hnext.2, Nat.add_assoc, Nat.add_comm 1] at hin
              exact List.mem_cons_of_mem _ hin
          · rw [hfalse] at hnext
            exact absurd hnext.1 Bool.false_ne_true
        · exact hlater (hruns ▸ List.mem_cons_of_mem _ h)
      · rw [if_neg hnext] at h
        rcases List.mem_cons.mp h with rfl | h
        · exact hone
        · exact hlater (hruns ▸ h)

/-- Every index given is in a run. -/
theorem exists_run (contiguous : Bool) {l : List Nat} {i : Nat} (h : i ∈ l) :
    ∃ run ∈ runs contiguous l, run.1 ≤ i ∧ i < run.1 + run.2 := by
  induction l with
  | nil => cases h
  | cons a rest ih =>
    unfold runs
    rcases hruns : runs contiguous rest with _ | ⟨⟨j, n⟩, more⟩
    · rcases List.mem_cons.mp h with rfl | h
      · exact ⟨_, List.mem_singleton_self _, le_rfl, Nat.lt_succ_self _⟩
      · obtain ⟨run, hrun, -⟩ := ih h
        rw [hruns] at hrun
        cases hrun
    · dsimp only
      by_cases hnext : contiguous = true ∧ j = a + 1
      · rw [if_pos hnext]
        rcases List.mem_cons.mp h with rfl | h
        · exact ⟨_, List.mem_cons_self, le_rfl, by omega⟩
        · obtain ⟨run, hrun, hle, hlt⟩ := ih h
          rw [hruns] at hrun
          rcases List.mem_cons.mp hrun with rfl | hrun
          · refine ⟨_, List.mem_cons_self, ?_, ?_⟩
            · have hnext := hnext.2
              dsimp only at hle ⊢
              omega
            · have hnext := hnext.2
              dsimp only at hlt ⊢
              omega
          · exact ⟨run, List.mem_cons_of_mem _ hrun, hle, hlt⟩
      · rw [if_neg hnext]
        rcases List.mem_cons.mp h with rfl | h
        · exact ⟨_, List.mem_cons_self, le_rfl, Nat.lt_succ_self _⟩
        · obtain ⟨run, hrun, hle, hlt⟩ := ih h
          exact ⟨run, List.mem_cons_of_mem _ (hruns ▸ hrun), hle, hlt⟩

end KeyedSnapshot

section Consecutive

variable (R : StateReader) (o : OpenOperator)

/-- The `run.2` positions from the `run.1`-th on are those of keys that follow each other. -/
def Consecutive (positions : List Cursor) (run : Nat × Nat) : Prop :=
  run.1 + run.2 ≤ positions.length ∧ 0 < run.2
    ∧ ∃ before rs after, (R.keysWhere o fun _ => true) = before ++ rs ++ after
      ∧ rs.map (·.position) = (positions.drop run.1).take run.2

/-- **A sequence that reads keys**: every position is that of a key, and where the sequence is paged
    the keys follow each other. -/
structure KeySeq.Reads (seq : KeySeq) : Prop where
  keys : ∀ pos ∈ seq.positions, pos ∈ R.keyOrder o
  paged : seq.isMatches = false → seq.positions <:+: R.keyOrder o

end Consecutive

variable {R R' : StateReader} {o : OpenOperator} {op : Text} {lo : UInt16} {hi : Option UInt16}
  {seq : KeySeq}

theorem KeySeq.Browsed.front (h : seq.Browsed R o lo hi) : seq.positions <+: R.rangeOrder o lo hi :=
  h.keys ▸ List.prefix_append _ _

theorem KeySeq.Browsed.reads (ho : o.Regular) (hsized : R.Sized o) (h : seq.Browsed R o lo hi) :
    seq.Reads R o := by
  have htogether : seq.positions <:+: R.keyOrder o :=
    h.front.isInfix.trans (rangeOrder_together ho hsized lo hi)
  exact ⟨fun pos hpos => htogether.subset hpos, fun _ => htogether⟩

theorem KeySeq.Reads.same (ho : o.Regular) (hsame : R.SameSavepoint R') (h : seq.Reads R o) :
    seq.Reads R' o := by
  have horder := hsame.keyOrder ho
  exact ⟨fun pos hpos => horder ▸ h.keys pos hpos, fun hbrowse => horder ▸ h.paged hbrowse⟩

/-- A run of a paged sequence, or one position of any. -/
theorem KeySeq.Reads.consecutive (h : seq.Reads R o) {i n : Nat} (hin : i + n ≤ seq.positions.length)
    (hn : 0 < n) (hone : seq.isMatches = true → n = 1) : Consecutive R o seq.positions (i, n) := by
  refine ⟨hin, hn, ?_⟩
  cases hmatches : seq.isMatches with
  | true =>
    obtain rfl := hone hmatches
    have hlt : i < seq.positions.length := by omega
    obtain ⟨r, hr, hposition⟩ := List.mem_map.mp (h.keys _ (List.getElem_mem hlt))
    obtain ⟨before, after, hkeys⟩ := List.append_of_mem hr
    refine ⟨before, [r], after, by rw [hkeys, List.append_assoc]; rfl, ?_⟩
    rw [List.drop_eq_getElem_cons hlt, ← hposition]
    rfl
  | false =>
    obtain ⟨before, after, hkeys⟩ := h.paged hmatches
    obtain ⟨rs₁, after', hwhole, hfront, -⟩ := List.map_eq_append_iff.mp hkeys.symm
    obtain ⟨before', rs, rfl, -, hrs⟩ := List.map_eq_append_iff.mp hfront
    refine ⟨before' ++ rs.take i, (rs.drop i).take n, (rs.drop i).drop n ++ after', ?_, ?_⟩
    · rw [hwhole]
      conv_lhs => rw [← List.take_append_drop i rs, ← List.take_append_drop n (rs.drop i)]
      simp only [List.append_assoc]
    · rw [List.map_take, List.map_drop, hrs]

namespace KeyedSnapshot

variable {k : KeyedSnapshot} {caches : Nat → BlockCache}

/-- A page for a run holds the keys of the run. -/
theorem pageAt_run (hop : R.operator op = .ok o) (ho : o.Regular) (hsized : R.Sized o)
    (hcaches : ∀ i, R.Reached (caches i)) (hhex : k.opHex = op) (call : Nat) {run : Nat × Nat}
    (h : Consecutive R o k.seq.positions run) :
    ∃ page, k.pageAt R caches call (k.seq.positions.getD run.1 .start) run.2 = .ok page
      ∧ (∀ r ∈ page.found, r ∈ R.keysWhere o fun _ => true)
      ∧ page.found.map (·.position) = (k.seq.positions.drop run.1).take run.2 := by
  obtain ⟨hin, hn, before, rs, after, hkeys, hrs⟩ := h
  have hlt : run.1 < k.seq.positions.length := by omega
  have hlength : rs.length = run.2 := by
    have hlength := congrArg List.length hrs
    rw [List.length_map, List.length_take, List.length_drop] at hlength
    omega
  cases rs with
  | nil =>
    rw [List.length_nil] at hlength
    omega
  | cons r rs =>
    have hfirst : k.seq.positions.getD run.1 .start = r.position := by
      have hhead := congrArg List.head? hrs
      rw [List.map_cons, List.head?_cons, List.head?_take, if_neg (by omega), List.head?_drop] at hhead
      rw [List.getD_eq_getElem?_getD, ← hhead]
      rfl
    rw [List.append_assoc, List.cons_append] at hkeys
    obtain ⟨page, hpage, hfound⟩ := keyPage_position hop ho hsized (hcaches call) hkeys run.2
    have hall : page.found = r :: rs := by
      rw [hfound, max_eq_left hn, ← List.cons_append, ← hlength, List.take_left]
    refine ⟨page, ?_, ?_, hall ▸ hrs⟩
    · unfold pageAt
      rw [hfirst, hhex]
      exact hpage
    · intro r' hr'
      rw [hkeys]
      rw [hall] at hr'
      rw [← List.cons_append]
      exact List.mem_append_right _ (List.mem_append_left _ hr')

theorem rows_loadPage (R : StateReader) (p : Page (List KeyRecord)) (k : KeyedSnapshot) :
    (k.loadPage R (.ok p)).rows = k.rows.insertAll k.descriptors p.found := by
  unfold loadPage Rows.insertAll
  have hfold (records : List KeyRecord) (k : KeyedSnapshot) :
      (records.foldl loadRow k).rows
        = records.foldl (fun rows r => rows.insert r.position (.new r k.descriptors)) k.rows := by
    induction records generalizing k with
    | nil => rfl
    | cons r rs ih => exact ih (k.loadRow r)
  exact hfold p.found _

/-- **Runs that are read** load their rows, and leave those that are loaded. -/
theorem loadRuns_rows (hop : R.operator op = .ok o) (ho : o.Regular) (hsized : R.Sized o)
    (hcaches : ∀ i, R.Reached (caches i)) (hhex : k.opHex = op)
    (hrows : k.rows.Of R o k.descriptors) (call : Nat) {rs : List (Nat × Nat)}
    (hruns : ∀ run ∈ rs, Consecutive R o k.seq.positions run) :
    (k.loadRuns R caches call rs).rows.Of R o k.descriptors
      ∧ k.rows.loaded ⊆ (k.loadRuns R caches call rs).rows.loaded
      ∧ ∀ run ∈ rs, (k.seq.positions.drop run.1).take run.2
        ⊆ (k.loadRuns R caches call rs).rows.loaded := by
  induction rs generalizing k call with
  | nil => exact ⟨hrows, List.Subset.refl _, fun run hrun => by cases hrun⟩
  | cons run rs ih =>
    obtain ⟨page, hpage, hmem, hpositions⟩ := pageAt_run hop ho hsized hcaches hhex call
      (hruns run List.mem_cons_self)
    obtain ⟨errors, malformed, rows, -, hload⟩ := loadPage_frame R (.ok page) k
    have hseq : (k.loadPage R (.ok page)).seq = k.seq := by
      rw [hload]
      rfl
    have hdescriptors : (k.loadPage R (.ok page)).descriptors = k.descriptors := by rw [hload]
    have hhex' : (k.loadPage R (.ok page)).opHex = op := by rw [hload, ← hhex]
    have hnew : (k.loadPage R (.ok page)).rows.Of R o (k.loadPage R (.ok page)).descriptors := by
      rw [rows_loadPage, hdescriptors]
      exact hrows.insertAll hmem
    obtain ⟨hof, hkept, hlater⟩ := ih hhex' hnew (call + 1) fun run hrun =>
      hseq ▸ hruns run (List.mem_cons_of_mem _ hrun)
    rw [hdescriptors] at hof
    rw [rows_loadPage] at hkept
    rw [hseq] at hlater
    unfold loadRuns
    rw [hpage]
    refine ⟨hof, fun q hq => hkept (Rows.mem_loaded_insertAll.mpr (.inl hq)), fun run' hrun' => ?_⟩
    rcases List.mem_cons.mp hrun' with rfl | hrun'
    · intro q hq
      rw [← hpositions] at hq
      exact hkept (Rows.mem_loaded_insertAll.mpr (.inr (List.mem_map.mp hq)))
    · exact hlater run' hrun'

/-! ### The window -/

/-- The positions of the window are up to a page from the offset on. -/
theorem mem_visible {pos : Cursor} : pos ∈ k.visible
    ↔ ∃ i, k.seq.offset ≤ i ∧ i < k.seq.offset + partitionPageSize ∧ k.seq.positions[i]? = some pos := by
  unfold visible
  rw [mem_slice]
  constructor
  · rintro ⟨i, hle, hlt, hi⟩
    obtain ⟨hlength, -⟩ := List.getElem?_eq_some_iff.mp hi
    unfold windowEnd windowStart at hlt
    unfold windowStart at hle
    exact ⟨i, by omega, by omega, hi⟩
  · rintro ⟨i, hle, hlt, hi⟩
    obtain ⟨hlength, -⟩ := List.getElem?_eq_some_iff.mp hi
    refine ⟨i, ?_, ?_, hi⟩
    · unfold windowStart
      omega
    · unfold windowEnd windowStart
      omega

theorem mem_kept {pos : Cursor} (h : pos ∈ k.visible) : pos ∈ k.kept := by
  obtain ⟨i, hle, hlt, hi⟩ := mem_visible.mp h
  obtain ⟨hlength, -⟩ := List.getElem?_eq_some_iff.mp hi
  unfold kept
  dsimp only
  rw [mem_slice]
  exact ⟨i, by omega, by omega, hi⟩

theorem length_kept_le (k : KeyedSnapshot) : k.kept.length ≤ 3 * partitionPageSize := by
  unfold kept
  dsimp only
  rw [List.length_take]
  omega

/-- **A window that was made sure of**: a page more than it shows is known, unless there is no more;
    every row of it is loaded, and rows of at most three pages are. -/
structure Ensured (k : KeyedSnapshot) : Prop where
  ahead : k.seq.isMatches = false → k.seq.next = none ∨ k.wanted ≤ k.seq.positions.length
  loaded : ∀ pos ∈ k.visible, pos ∈ k.rows.loaded
  few : k.rows.length ≤ 3 * partitionPageSize

/-- **The rows of the window are loaded, and those far from it are dropped.** -/
theorem ensured_evict (hop : R.operator op = .ok o) (ho : o.Regular) (hsized : R.Sized o)
    (hcaches : ∀ i, R.Reached (caches i)) (hhex : k.opHex = op)
    (hrows : k.rows.Of R o k.descriptors) (hreads : k.seq.Reads R o)
    (hahead : k.seq.isMatches = false → k.seq.next = none ∨ k.wanted ≤ k.seq.positions.length)
    (call : Nat) :
    (k.loadRuns R caches call (runs (!k.seq.isMatches) k.missing)).evict.Ensured
      ∧ (k.loadRuns R caches call (runs (!k.seq.isMatches) k.missing)).evict.rows.Of R o
        k.descriptors := by
  -- the rows missing are those of the window that no load has brought yet
  have hmissing {i : Nat} : i ∈ k.missing ↔ k.windowStart ≤ i ∧ i < k.windowEnd
      ∧ k.seq.positions.getD i .start ∉ k.rows.loaded := by
    have hend : k.windowStart + (k.windowEnd - k.windowStart) = k.windowEnd := by
      unfold windowEnd windowStart
      omega
    unfold missing
    rw [List.mem_filter, List.mem_range'_1, hend, and_assoc, Option.isNone_iff_eq_none,
      ← Rows.isSome_get, Option.not_isSome_iff_eq_none]
  -- in a browse the positions of a run follow one another, so one page loads them
  have hruns : ∀ run ∈ runs (!k.seq.isMatches) k.missing, Consecutive R o k.seq.positions run := by
    intro run hrun
    obtain ⟨hpos, hmem, halone⟩ := mem_runs hrun
    refine hreads.consecutive ?_ hpos fun hmatches => halone (by rw [hmatches]; rfl)
    have hlast := (hmissing.mp (hmem (run.2 - 1) (by omega))).2.1
    unfold windowEnd at hlast
    omega
  obtain ⟨hof, hkept, hloaded⟩ := loadRuns_rows hop ho hsized hcaches hhex hrows call hruns
  obtain ⟨errors, malformed, rows, -, hload⟩ :=
    loadRuns_frame R caches call (runs (!k.seq.isMatches) k.missing) k
  rw [hload] at hof hkept hloaded ⊢
  refine ⟨⟨hahead, fun pos hpos => ?_, ?_⟩, ?_⟩
  · -- The row was loaded before, or a run of missing ones loaded it.
    have hvisible : pos ∈ k.visible := hpos
    have hthere : pos ∈ rows.loaded := by
      by_cases hbefore : pos ∈ k.rows.loaded
      · exact hkept hbefore
      · unfold visible at hvisible
        obtain ⟨i, hle, hlt, hi⟩ := mem_slice.mp hvisible
        have hin : i ∈ k.missing := by
          refine hmissing.mpr ⟨hle, ?_, ?_⟩
          · unfold windowEnd windowStart at hlt ⊢
            omega
          · rw [List.getD_eq_getElem?_getD, hi]
            exact hbefore
        obtain ⟨run, hrun, hfirst, hlast⟩ := exists_run (!k.seq.isMatches) hin
        exact hloaded run hrun (mem_slice.mpr ⟨i, hfirst, hlast, hi⟩)
    obtain ⟨p, hp, rfl⟩ := List.mem_map.mp hthere
    refine List.mem_map_of_mem (List.mem_filter.mpr ⟨hp, decide_eq_true ?_⟩)
    exact mem_kept hvisible
  · exact (hof.length_retain _).trans (length_kept_le _)
  · exact hof.filter _

end KeyedSnapshot

end FlinkExplorer
