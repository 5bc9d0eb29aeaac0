import FlinkExplorer.Tui.LoadedRows
import FlinkExplorer.Tui.PatternFilter

namespace FlinkExplorer

open Lib

/-!
# `tui/tree.rs` — what a filter shows

A pattern is searched for, an exact key is looked up where its text can be parsed and searched for
where it cannot, and a key-group range is paged.

* `StateReader.Takes` — the keys a search filter is for; `Named` — those its lookup hits;
* `searched_search` — where a search filter starts;
* `rows_applyFilter`, `rows_poll` — the rows that a filter and reports bring.
-/

/-- A filter that is looked up or searched for, not paged. -/
def AppliedFilter.searches : AppliedFilter → Bool
  | .keyGroupRange _ _ => false
  | _ => true

section Takes

variable (R : StateReader) (o : OpenOperator) (T : CaseTables)

/-- A text that cannot be looked up. -/
def StateReader.Refuses (keyText : Text) : Prop :=
  ∃ first reason, o.ctx.firstHeader = some first ∧ R.parseLookup first keyText = .error reason

/-- The key that the lookup of a filter hits. -/
def StateReader.Named (f : AppliedFilter) (r : KeyRecord) : Prop :=
  match f with
  | .pattern p => Hits R o p r
  | .exact bytes => R.Names o (decodeUtf8Lossy bytes) r
  | .keyGroupRange _ _ => False

/-- The keys that a search filter is for. -/
def StateReader.Takes (f : AppliedFilter) (r : KeyRecord) : Prop :=
  match f with
  | .pattern p => globMatch T p r.key = true
  | .exact bytes =>
    R.Names o (decodeUtf8Lossy bytes) r
      ∨ R.Refuses o (decodeUtf8Lossy bytes) ∧ r.key = decodeUtf8Lossy bytes
  | .keyGroupRange _ _ => False

end Takes

/-! ### Another reader of the same savepoint -/

namespace StateReader.SameSavepoint

variable {R R' : StateReader} {o : OpenOperator} {T : CaseTables} {f : AppliedFilter} {r : KeyRecord}

theorem symm (h : R.SameSavepoint R') : R'.SameSavepoint R := by
  obtain ⟨proto, entryLimit, hpos, rfl⟩ := h
  exact ⟨R.proto, R.entryLimit, R.entryLimit_pos, rfl⟩

/-- Its keys have the same texts. -/
theorem key (h : R.SameSavepoint R') {wanted : Int → Bool} (hr : r ∈ R.keysWhere o wanted) :
    ∃ r' ∈ R'.keysWhere o wanted, r'.position = r.position ∧ r'.key = r.key := by
  obtain ⟨proto, entryLimit, hpos, rfl⟩ := h
  obtain ⟨u, hu, hr⟩ := List.mem_flatMap.mp hr
  cases u with
  | failed f => cases hr
  | stream s =>
    obtain ⟨kg, hkg, hr⟩ := List.mem_flatMap.mp hr
    unfold StateReader.keysOf at hr
    rcases hcontent : R.contentOf o s kg with e | _ | ⟨header, block⟩
    · simp [hcontent] at hr
    · simp [hcontent] at hr
    · simp only [hcontent] at hr
      obtain ⟨ord, hord, rfl⟩ := List.mem_mapIdx.mp hr
      have hcontent' : StateReader.contentOf { R with
        proto := proto, entryLimit := entryLimit, entryLimit_pos := hpos } o s kg
          = .ok (some (header, block)) := hcontent
      let R' : StateReader := { R with
        proto := proto, entryLimit := entryLimit, entryLimit_pos := hpos }
      refine ⟨R'.record s header kg ord (block.keys[ord]), ?_, rfl, rfl⟩
      refine List.mem_flatMap.mpr ⟨_, hu, List.mem_flatMap.mpr ⟨kg, hkg, ?_⟩⟩
      unfold StateReader.keysOf
      rw [hcontent']
      exact List.mem_mapIdx.mpr ⟨ord, hord, rfl⟩

/-- A text names the key at the same place. -/
theorem names (h : R.SameSavepoint R') {keyText : Text} (hr : R.Names o keyText r) :
    ∃ r', R'.Names o keyText r' ∧ r'.position = r.position := by
  obtain ⟨proto, entryLimit, hpos, rfl⟩ := h
  obtain ⟨first, key, canonical, hfirst, hparse, s, hs, hhas, hfind⟩ := hr
  obtain ⟨header, block, ord, raw, hcontent, -, -⟩ := mem_keysOf (List.mem_of_find?_eq_some hfind)
  rw [find?_keysOf hcontent] at hfind
  obtain ⟨ord, hord, rfl⟩ := Option.map_eq_some_iff.mp hfind
  let R' : StateReader := { R with
        proto := proto, entryLimit := entryLimit, entryLimit_pos := hpos }
  have hcontent' : R'.contentOf o s (keyGroupForHash key.hashCode o.maxParallelism)
      = .ok (some (header, block)) := hcontent
  refine ⟨R'.record s header (keyGroupForHash key.hashCode o.maxParallelism) ord
    (block.keys.getD ord ⟨[], []⟩), ⟨first, key, canonical, hfirst, hparse, s, hs, hhas, ?_⟩, rfl⟩
  rw [find?_keysOf hcontent', hord]
  rfl

theorem refuses (h : R.SameSavepoint R') {keyText : Text} (hr : R.Refuses o keyText) :
    R'.Refuses o keyText := by
  obtain ⟨proto, entryLimit, hpos, rfl⟩ := h
  exact hr

theorem takes (h : R.SameSavepoint R') (hr : r ∈ R.keysWhere o fun _ => true)
    (htakes : R.Takes o T f r) :
    ∃ r' ∈ R'.keysWhere o fun _ => true, r'.position = r.position ∧ R'.Takes o T f r' := by
  obtain ⟨r', hr', hposition, hkey⟩ := h.key hr
  cases f with
  | pattern p => exact ⟨r', hr', hposition, by
      unfold StateReader.Takes
      rw [hkey]
      exact htakes⟩
  | exact bytes =>
    rcases htakes with hnames | ⟨hrefuses, htext⟩
    · obtain ⟨r'', hnames', hposition'⟩ := h.names hnames
      exact ⟨r'', hnames'.mem, hposition', .inl hnames'⟩
    · exact ⟨r', hr', hposition, .inr ⟨h.refuses hrefuses, hkey.trans htext⟩⟩
  | keyGroupRange start stop => exact htakes.elim

theorem named (h : R.SameSavepoint R') (hnamed : R.Named o f r) :
    ∃ r' ∈ R'.keysWhere o fun _ => true, r'.position = r.position ∧ R'.Named o f r' := by
  cases f with
  | pattern p =>
    obtain ⟨hplain, hnames⟩ := hnamed
    obtain ⟨r', hnames', hposition⟩ := h.names hnames
    exact ⟨r', hnames'.mem, hposition, hplain, hnames'⟩
  | exact bytes =>
    obtain ⟨r', hnames', hposition⟩ := h.names hnamed
    exact ⟨r', hnames'.mem, hposition, hnames'⟩
  | keyGroupRange start stop => exact hnamed.elim

end StateReader.SameSavepoint

/-! ### Where a search filter starts -/

section Search

variable {R : StateReader} {o : OpenOperator} {op : Text} {T : CaseTables}

/-- A lookup gives up exactly where the text cannot be parsed. -/
theorem get_needsScan (hop : R.operator op = .ok o) {keyText : Text} {cache : BlockCache} :
    (∃ reason, (R.get op keyText cache).1 = .ok (.needsScan reason)) ↔ R.Refuses o keyText := by
  unfold StateReader.get StateReader.Refuses
  rw [hop]
  dsimp only
  cases hfirst : o.ctx.firstHeader with
  | none =>
    constructor
    · rintro ⟨reason, h⟩
      cases hhead : o.ctx.units.head? with
      | none => simp [hhead] at h
      | some u => simp [hhead] at h
    · rintro ⟨first, reason, heq, -⟩
      cases heq
  | some first =>
    dsimp only
    rcases hparse : R.parseLookup first keyText with reason | ⟨key, canonical⟩
    · exact ⟨fun _ => ⟨first, reason, rfl, hparse⟩, fun _ => ⟨reason, rfl⟩⟩
    · dsimp only
      constructor
      · rintro ⟨reason, h⟩
        -- No other answer gives up.
        revert h
        cases o.ctx.unitOf (keyGroupForHash key.hashCode o.maxParallelism) with
        | none => exact fun h => by cases h
        | some u =>
          dsimp only
          rcases R.blockOf o u (keyGroupForHash key.hashCode o.maxParallelism) cache
            with ⟨why | _ | ⟨s, header, block⟩, stats, cache'⟩
          · exact fun h => by cases h
          · exact fun h => by cases h
          · dsimp only
            cases block.keys.findIdx? fun k => k.key == canonical with
            | some ord => exact fun h => by cases h
            | none =>
              cases block.defect with
              | some d => exact fun h => by cases h
              | none => exact fun h => by cases h
      · rintro ⟨first', reason, heq, herror⟩
        obtain rfl := Option.some.inj heq
        rw [hparse] at herror
        cases herror

variable {t : OperatorTree}

/-- **Where a search filter starts**: with the key that its lookup hits, and with the reports of a
    search of all keys, unless the lookup has answered. -/
theorem searched_search (hop : t.reader.operator t.keyed.opHex = .ok o) (ho : o.Regular)
    (hsized : t.reader.Sized o) (hcheck : o.checkCursor .start = .ok ())
    (hkeyed : t.keyed.descriptors ≠ []) {f : AppliedFilter} (hf : f.searches = true)
    {cache : BlockCache} (hcache : t.reader.Reached cache) {caches : Nat → BlockCache}
    (hcaches : ∀ i, t.reader.Reached (caches i)) {stepBytes maxMatches turns : Nat}
    {msgs : List SearchMsg}
    (hmsgs : t.reader.searchJob caches t.keyed.opHex (f.test T) stepBytes maxMatches turns 0 .start
      .empty = some msgs) :
    ∃ seq, Searched t.reader o (t.reader.Named o f) (t.reader.Takes o T f)
      (t.filter (some f) cache msgs).keyed (t.filter (some f) cache msgs).reports seq := by
  cases f with
  | keyGroupRange start stop => cases hf
  | pattern p => exact searched_filter hop ho hsized hkeyed hcache hcaches hmsgs (.inl hcheck)
  | exact bytes =>
    have hsome : ¬ t.keyed.descriptors.isEmpty = true := fun h => hkeyed (List.isEmpty_iff.mp h)
    have hstart : ({ KeySeq.browse .start with isMatches := true } : KeySeq).Pushed :=
      ⟨List.nodup_nil, fun _ => Iff.rfl⟩
    -- A lookup that answers leaves nothing to be searched.
    have hanswered {answer : Except ReaderError Lookup}
        (hget : (t.reader.get t.keyed.opHex (decodeUtf8Lossy bytes) cache).1 = answer)
        (hother : ∀ reason, answer ≠ .ok (.needsScan reason)) {r : KeyRecord}
        (htakes : t.reader.Takes o T (.exact bytes) r) :
        ∃ stats malformed, answer = .ok (.found r stats malformed) := by
      rcases htakes with hnames | ⟨hrefuses, -⟩
      · rw [← hget]
        exact get_of_names hop ho hcache hnames
      · obtain ⟨reason, hreason⟩ : ∃ reason, (t.reader.get t.keyed.opHex (decodeUtf8Lossy bytes)
            cache).1 = .ok (.needsScan reason) := (get_needsScan hop).mpr hrefuses
        exact absurd (hget.symm.trans hreason) (hother reason)
    have hnothing {k : KeyedSnapshot} (hfiltered : k.filtered
          = some { KeySeq.browse .start with isMatches := true, next := none })
        (hnone : ∀ r, ¬ t.reader.Takes o T (.exact bytes) r) :
        ∃ seq, Searched t.reader o (t.reader.Named o (.exact bytes)) (t.reader.Takes o T (.exact bytes))
          k [] seq := by
      refine ⟨_, hfiltered, rfl, ⟨hstart.nodup, hstart.seen⟩, fun pos hpos => ?_, [], .ended,
        fun r hr => ?_, fun r _ htakes => absurd htakes (hnone r)⟩
      · cases hpos
      · cases hr
    unfold OperatorTree.filter KeyedSnapshot.applyFilter
    simp only [if_neg hsome]
    rcases hget : (t.reader.get t.keyed.opHex (decodeUtf8Lossy bytes) cache).1 with e | answer
    · refine hnothing rfl fun r htakes => ?_
      obtain ⟨_, _, hfound⟩ := hanswered hget (fun _ h => by cases h) htakes
      cases hfound
    · cases answer with
      | found record stats malformed =>
        have hnames := names_of_get hop hcache hget
        obtain ⟨hpushed, hmem⟩ := hstart.pushMatch record.position
        obtain ⟨positions, seen, hframe⟩ :=
          KeySeq.pushMatch_frame { KeySeq.browse .start with isMatches := true } record.position
        refine ⟨_, rfl, by rw [hframe], ⟨hpushed.nodup, hpushed.seen⟩, fun pos hpos => ?_, [], .ended,
          fun r hr => ?_, fun r _ htakes => .inl ((hmem _).mpr (.inr ?_))⟩
        · rcases (hmem pos).mp hpos with hpos | rfl
          · cases hpos
          · exact ⟨record, hnames.mem, rfl, .inl hnames⟩
        · cases hr
        · obtain ⟨_, _, hfound⟩ := hanswered hget (fun _ h => by cases h) htakes
          cases hfound
          rfl
      | absent kg subtask stats =>
        refine hnothing rfl fun r htakes => ?_
        obtain ⟨_, _, hfound⟩ := hanswered hget (fun _ h => by cases h) htakes
        cases hfound
      | needsScan reason =>
        have hrefuses := (get_needsScan hop).mp ⟨reason, hget⟩
        have hreports := searchJob_reports hop ho hsized hcaches hcheck hmsgs
        rw [keysFrom_start ho] at hreports
        refine ⟨_, rfl, rfl, ⟨hstart.nodup, hstart.seen⟩, fun pos hpos => ?_, _,
          .reports _ hreports, fun r hr => ?_, fun r hr htakes => .inr ?_⟩
        · cases hpos
        · obtain ⟨hmem, htest⟩ := List.mem_filter.mp hr
          exact ⟨hmem, .inr ⟨hrefuses, eq_of_beq htest⟩⟩
        · refine List.mem_filter.mpr ⟨hr, beq_iff_eq.mpr ?_⟩
          rcases htakes with hnames | ⟨-, htext⟩
          · -- A text that is refused names nothing.
            obtain ⟨stats, malformed, hfound⟩ := get_of_names hop ho hcache hnames
            rw [hget] at hfound
            cases hfound
          · exact htext

/-! ### The rows a filter brings -/

/-- **A filter brings** at most the row of the key that its lookup hits. -/
theorem rows_applyFilter {R : StateReader} {k : KeyedSnapshot} (hop : R.operator k.opHex = .ok o)
    {cache : BlockCache} (hcache : R.Reached cache) (maxParallelism parallelism : Int)
    (filter : Option AppliedFilter) :
    ∃ rs, (∀ r ∈ rs, r ∈ R.keysWhere o fun _ => true)
      ∧ (k.applyFilter R maxParallelism parallelism filter cache).1.rows
        = k.rows.insertAll k.descriptors rs
      ∧ rs.length ≤ if filter.any AppliedFilter.searches ∧ k.descriptors ≠ [] then 1 else 0 := by
  -- Filters that look nothing up bring no row.
  have hkept {rows : Rows} {n : Nat} (h : rows = k.rows) : ∃ rs : List KeyRecord,
      (∀ r ∈ rs, r ∈ R.keysWhere o fun _ => true)
        ∧ rows = k.rows.insertAll k.descriptors rs ∧ rs.length ≤ n :=
    ⟨[], fun r hr => absurd hr List.not_mem_nil, h, Nat.zero_le _⟩
  unfold KeyedSnapshot.applyFilter
  cases filter with
  | none => exact hkept rfl
  | some f =>
    dsimp only
    by_cases hempty : k.descriptors.isEmpty = true
    · rw [if_pos hempty]
      exact hkept rfl
    · rw [if_neg hempty]
      have hkeyed : k.descriptors ≠ [] := fun h => hempty (List.isEmpty_iff.mpr h)
      -- A lookup that finds its key brings the one row.
      have hhit {keyText : Text} {record : KeyRecord} {stats : ReadStats} {malformed : List Text}
          (hf : f.searches = true)
          (hget : (R.get k.opHex keyText cache).1 = .ok (.found record stats malformed)) :
          ∃ rs, (∀ r ∈ rs, r ∈ R.keysWhere o fun _ => true)
            ∧ k.rows.insert record.position (.new record k.descriptors)
              = k.rows.insertAll k.descriptors rs
            ∧ rs.length ≤ if (some f).any AppliedFilter.searches ∧ k.descriptors ≠ [] then 1 else 0 := by
        refine ⟨[record], fun r hr => ?_, rfl, ?_⟩
        · rw [List.mem_singleton.mp hr]
          exact (names_of_get hop hcache hget).mem
        · rw [if_pos ⟨hf, hkeyed⟩, List.length_singleton]
      cases f with
      | keyGroupRange start stop => exact hkept rfl
      | exact bytes =>
        dsimp only
        rcases hget : (R.get k.opHex (decodeUtf8Lossy bytes) cache).1 with e | ⟨_ | _ | _⟩
        · exact hkept rfl
        · exact hhit rfl hget
        · exact hkept rfl
        · exact hkept rfl
      | pattern p =>
        dsimp only
        by_cases hwild : (p.contains '*' || p.contains '?') = true
        · rw [if_pos hwild]
          exact hkept rfl
        · rw [if_neg hwild]
          rcases hget : (R.get k.opHex p cache).1 with e | ⟨_ | _ | _⟩
          · exact hkept rfl
          · exact hhit rfl hget
          · exact hkept rfl
          · exact hkept rfl

end Search

/-! ### The rows that reports bring -/

/-- The matches of a report. -/
def SearchMsg.found : SearchMsg → List KeyRecord
  | .page found _ _ _ => found
  | .failed _ => []

/-- How many matches a search still keeps the rows of as they come. -/
def KeyedSnapshot.room (k : KeyedSnapshot) : Nat :=
  match k.filtered with
  | some seq => seq.offset + 2 * partitionPageSize - seq.positions.length
  | none => 0

namespace KeyedSnapshot

/-- The rows of a report's matches are kept while there is room. -/
theorem takeMatches_rows (lo hi : Nat) (rs : List KeyRecord) (k : KeyedSnapshot) (seq : KeySeq) :
    ∃ taken, taken ⊆ rs
      ∧ (takeMatches lo hi rs (k, seq)).1 = { k with rows := k.rows.insertAll k.descriptors taken }
      ∧ taken.length ≤ rs.length
      ∧ taken.length + (hi - (seq.pushAll rs).positions.length) ≤ hi - seq.positions.length := by
  induction rs generalizing k seq with
  | nil => exact ⟨[], List.Subset.refl _, rfl, le_rfl, by simp [KeySeq.pushAll]⟩
  | cons r rs ih =>
    have hgrows : seq.positions.length ≤ (seq.pushMatch r.position).positions.length
        ∧ (seq.pushMatch r.position).positions.length ≤ seq.positions.length + 1 := by
      unfold KeySeq.pushMatch
      split
      · exact ⟨le_rfl, Nat.le_succ _⟩
      · dsimp only
        rw [List.length_append, List.length_singleton]
        exact ⟨Nat.le_succ _, le_rfl⟩
    have hpush : seq.pushAll (r :: rs) = (seq.pushMatch r.position).pushAll rs := rfl
    rw [hpush]
    unfold takeMatches
    dsimp only
    by_cases hnew : seq.positions.length < (seq.pushMatch r.position).positions.length
        ∧ lo ≤ seq.positions.length ∧ seq.positions.length < hi
    · rw [if_pos hnew]
      obtain ⟨taken, hsubset, htaken, hlength, hroom⟩ := ih (k.loadRow r) (seq.pushMatch r.position)
      refine ⟨r :: taken, List.cons_subset_cons r hsubset, htaken, ?_, ?_⟩
      · exact Nat.succ_le_succ hlength
      · rw [List.length_cons]
        omega
    · rw [if_neg hnew]
      obtain ⟨taken, hsubset, htaken, hlength, hroom⟩ := ih k (seq.pushMatch r.position)
      exact ⟨taken, List.subset_cons_of_subset r hsubset, htaken, by rw [List.length_cons]; omega,
        by omega⟩

/-- One report. -/
theorem rows_applySearch (host : HostText) (msg : SearchMsg) (k : KeyedSnapshot) :
    ∃ taken, taken ⊆ msg.found
      ∧ (k.applySearch host msg).rows = k.rows.insertAll k.descriptors taken
      ∧ taken.length ≤ msg.found.length
      ∧ taken.length + (k.applySearch host msg).room ≤ k.room := by
  cases msg with
  | failed e =>
    refine ⟨[], List.Subset.refl _, ?_, le_rfl, ?_⟩
    · unfold applySearch
      dsimp only
      split <;> rfl
    · rcases k with ⟨_, _, _, _, _, _, _ | seq, _⟩ <;> exact (Nat.zero_add _).le
  | page found next unreadable malformed =>
    rcases hfiltered : k.filtered with _ | seq
    · refine ⟨[], List.nil_subset _, ?_, Nat.zero_le _, ?_⟩
      · have hnoted : (k.notePage unreadable malformed).filtered = none := hfiltered
        unfold applySearch
        simp only [hnoted]
        rfl
      · have hnoted : (k.notePage unreadable malformed).filtered = none := hfiltered
        unfold applySearch room
        simp only [hnoted]
        exact Nat.zero_le _
    · obtain ⟨taken, hsubset, htaken, hlength, hroom⟩ := takeMatches_rows seq.offset
        (seq.offset + 2 * partitionPageSize) found (k.notePage unreadable malformed) seq
      have hafter := filtered_applySearch hfiltered host found next unreadable malformed
      obtain ⟨positions, seen, hframe⟩ := seq.pushAll_frame found
      refine ⟨taken, hsubset, ?_, hlength, ?_⟩
      · have hnoted : (k.notePage unreadable malformed).filtered = some seq := hfiltered
        unfold applySearch
        simp only [hnoted, htaken]
        rfl
      · unfold room
        rw [hafter, hfiltered]
        rw [hframe] at hroom ⊢
        exact hroom

/-- **Reports bring** rows of their matches, no more than there is room for. -/
theorem rows_poll (host : HostText) (msgs : List SearchMsg) (k : KeyedSnapshot) :
    ∃ taken, (∀ r ∈ taken, ∃ msg ∈ msgs, r ∈ msg.found)
      ∧ (msgs.foldl (fun k msg => k.applySearch host msg) k).rows
        = k.rows.insertAll k.descriptors taken
      ∧ taken.length ≤ min (msgs.flatMap SearchMsg.found).length k.room := by
  induction msgs generalizing k with
  | nil => exact ⟨[], fun r hr => absurd hr List.not_mem_nil, rfl, Nat.zero_le _⟩
  | cons msg msgs ih =>
    obtain ⟨taken, hsubset, hrows, hlength, hroom⟩ := rows_applySearch host msg k
    obtain ⟨later, hlater, hrows', hlength'⟩ := ih (k.applySearch host msg)
    have hdescriptors := (keepsAll_applySearch host msg k).descriptors
    refine ⟨taken ++ later, fun r hr => ?_, ?_, ?_⟩
    · rcases List.mem_append.mp hr with hr | hr
      · exact ⟨msg, List.mem_cons_self, hsubset hr⟩
      · obtain ⟨msg', hmsg', hr⟩ := hlater r hr
        exact ⟨msg', List.mem_cons_of_mem _ hmsg', hr⟩
    · rw [List.foldl_cons, hrows', hrows, hdescriptors]
      exact List.foldl_append.symm
    · rw [List.flatMap_cons, List.length_append, List.length_append]
      omega

end KeyedSnapshot

namespace Rows

theorem length_insertAll_le (descriptors : List StateDesc) (rs : List KeyRecord) (rows : Rows) :
    (rows.insertAll descriptors rs).length ≤ rows.length + rs.length := by
  unfold insertAll
  induction rs generalizing rows with
  | nil => exact le_rfl
  | cons r rs ih =>
    have hone := rows.length_insert_le r.position (.new r descriptors)
    have hrest := ih (rows.insert r.position (.new r descriptors))
    rw [List.foldl_cons, List.length_cons]
    omega

end Rows

end FlinkExplorer
