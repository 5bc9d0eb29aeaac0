import FlinkExplorer.Tui.Tree

namespace FlinkExplorer

open Lib

/-!
# `tui/tree.rs` — exact totals

A total is exact when a count says so, or when every key was paged and nothing was noted as an
error.  A malformed block is no error, so paging passes one without a trace in the total.

* `TotalInv` — what the total of a snapshot rests on, in every state of a run;
* `total_readWhole` — an exact total is exact, for operators without malformed blocks, and for those
  with something unreadable;
* `total_malformed` — for the others it is not.
-/

section Total

variable {R R' : StateReader} {o : OpenOperator} {op : Text}

/-- **What a total rests on.**  Without an error, the positions are those of the events paged so far,
    none of which is a report. -/
structure TotalInv (R : StateReader) (o : OpenOperator) (op : Text) (k : KeyedSnapshot) : Prop where
  opHex : k.opHex = op
  browses : k.all.isMatches = false ∧ k.all.stopKg = none ∧ k.all.startKg = 0
  paged : k.errors = [] → ∃ passed, R.eventsFrom o (some .start) = passed ++ R.eventsFrom o k.all.next
    ∧ k.all.positions = passed.filterMap Event.position ∧ passed.filterMap Event.reported = []
    ∧ ∀ c ∈ k.all.next, c = .start ∨ o.checkCursor c = .ok ()
  counted : ∀ n, k.count = .exact n → R.ReadWhole o ∧ n = (R.keysWhere o fun _ => true).length

/-- A sequence of all keys takes every key of a page. -/
theorem add_browse {seq : KeySeq} (hstop : seq.stopKg = none) (hstart : seq.startKg = 0)
    (records : List KeyRecord) (next : Option Cursor) :
    seq.add records next
      = { seq with positions := seq.positions ++ records.map (·.position), next := next } := by
  have hpast (r : KeyRecord) : seq.past r = false := by
    unfold KeySeq.past
    rw [hstop]
    rfl
  have hrange : seq.inRange records = records := by
    unfold KeySeq.inRange
    rw [List.takeWhile_eq_self_iff.mpr fun r _ => by rw [hpast]; rfl, hstart]
    exact List.filter_eq_self.mpr fun r _ => decide_eq_true UInt16.zero_le
  have hend : records.any seq.past = false :=
    List.any_eq_false.mpr fun r _ => Bool.eq_false_iff.mp (hpast r)
  unfold KeySeq.add
  rw [hrange, hend, if_neg Bool.false_ne_true]

/-- What does not touch the keys paged keeps what a total rests on. -/
theorem TotalInv.keep {k k' : KeyedSnapshot} (h : TotalInv R o op k) (hkeep : k.KeepsAll k') :
    TotalInv R o op k' := by
  obtain ⟨offset, hall⟩ := hkeep.all
  refine ⟨hkeep.opHex.trans h.opHex, ?_, ?_, hkeep.count ▸ h.counted⟩
  · rw [hall]
    exact h.browses
  · intro hnone
    have herrors := hkeep.errors
    rw [hnone] at herrors
    rw [hall]
    exact h.paged (List.subset_nil.mp herrors)

/-- A page of keys, from an accepted cursor. -/
theorem keyPage_onward (hop : R.operator op = .ok o) (ho : o.Regular) (hsized : R.Sized o)
    {cache : BlockCache} (hcache : R.Reached cache) {c : Cursor} (hcheck : o.checkCursor c = .ok ())
    (limit : Nat) :
    ∃ page taken, (R.keyPage op c limit cache).1 = .ok page
      ∧ R.Onward o (R.keyWalk limit) c [] page taken
      ∧ page.found = taken.filterMap R.recordOf := by
  have hfull : ¬ (R.keyWalk limit).full [] = true := by simp [StateReader.keyWalk]
  obtain ⟨page, taken, hpage, honward⟩ := page_onward hop ho hsized
    (rfl : (R.keyWalk limit).lastKeyGroup = none) true hcache.sound hcheck hfull
  refine ⟨page, taken, hpage, honward, ?_⟩
  rw [honward.found, gather_keys, List.nil_append]

theorem keyPage_refused (hop : R.operator op = .ok o) {c : Cursor} {e : ReaderError}
    (hcheck : o.checkCursor c = .error e) (limit : Nat) (cache : BlockCache) :
    (R.keyPage op c limit cache).1 = .error e := by
  unfold StateReader.keyPage StateReader.page
  rw [hop]
  dsimp only
  rw [hcheck]

/-- **A page keeps what a total rests on.** -/
theorem TotalInv.pageIn (hop : R.operator op = .ok o) (ho : o.Regular) (hsized : R.Sized o)
    (hsame : R.SameSavepoint R') {caches : Nat → BlockCache} (hcaches : ∀ i, R'.Reached (caches i))
    {k : KeyedSnapshot} (h : TotalInv R o op k) (call limit : Nat) {next : Cursor}
    (hnext : k.seq.next = some next) :
    TotalInv R o op (k.pageIn R' (k.pageAt R' caches call next limit)) := by
  have hop' : R'.operator op = .ok o := hsame.operator ▸ hop
  obtain ⟨hhex, hdescriptors, hcount, herrors⟩ := k.pageIn_frame R' (k.pageAt R' caches call next limit)
  cases hfiltered : k.filtered with
  | some f =>
    -- The page is one of the filter's.
    obtain ⟨hall, -⟩ := k.all_pageIn R' (k.pageAt R' caches call next limit) hfiltered
    exact h.keep ⟨hhex, hdescriptors, hcount, ⟨_, hall⟩, herrors⟩
  | none =>
    have hseq : k.seq = k.all := by
      unfold KeyedSnapshot.seq
      rw [hfiltered]
      rfl
    obtain ⟨hall, -⟩ := k.all_pageIn_none R' (k.pageAt R' caches call next limit) hfiltered
    rw [hseq] at hnext
    refine ⟨hhex.trans h.opHex, ?_, ?_, hcount.symm ▸ h.counted⟩
    · rw [hall]
      unfold KeyedSnapshot.pageAt
      rcases (R'.keyPage k.opHex next limit (caches call)).1 with e | page
      · rw [KeyedSnapshot.seq_pageIn_error, hseq]
        exact h.browses
      · rw [KeyedSnapshot.seq_pageIn_ok, hseq]
        exact h.browses
    · rw [hall]
      unfold KeyedSnapshot.pageAt
      rw [h.opHex]
      cases hcheck : o.checkCursor next with
      | error e =>
        -- Refused, and noted.
        rw [keyPage_refused hop' hcheck]
        exact fun hnone => absurd hnone (k.errors_pageIn_error R' e)
      | ok =>
        obtain ⟨page, taken, hpage, honward, hfound⟩ :=
          keyPage_onward hop' ho (hsame.sized hsized) (hcaches call) hcheck limit
        rw [hpage, KeyedSnapshot.seq_pageIn_ok, hseq, add_browse h.browses.2.1 h.browses.2.2]
        intro hnone
        obtain ⟨hbefore, hunreadable⟩ := k.errors_pageIn_ok R' hnone
        obtain ⟨passed, hevents, hpositions, hreports, -⟩ := h.paged hbefore
        have hmore := honward.events
        rw [hsame.eventsFrom] at hmore
        refine ⟨passed ++ taken, ?_, ?_, ?_, fun c hc => .inr (honward.next c hc).1⟩
        · rw [hevents, hnext, hmore, List.append_assoc]
        · dsimp only
          rw [hpositions, hfound, map_position_records, List.filterMap_append]
        · rw [List.filterMap_append, hreports, ← honward.unreadable, hunreadable]
          rfl

/-! ### Over a run -/

variable {T : CaseTables} {t t' : OperatorTree}

/-- **Whatever happens keeps what a total rests on.** -/
theorem TotalInv.effect (hop : R.operator op = .ok o) (ho : o.Regular) (hsized : R.Sized o)
    (hsame : R.SameSavepoint t.reader) (h : TotalInv R o op t.keyed) (heffect : t.Effect t') :
    R.SameSavepoint t'.reader ∧ TotalInv R o op t'.keyed := by
  cases heffect with
  | redraw => exact ⟨hsame, h⟩
  | expand expanded => exact ⟨hsame, h⟩
  | scroll _ forward amount => exact ⟨hsame, h.keep (KeyedSnapshot.keepsAll_scroll _ _ _)⟩
  | poll n => exact ⟨hsame, h.keep (KeyedSnapshot.keepsAll_poll _ _ _)⟩
  | cancelSearch => exact ⟨hsame, h⟩
  | setReader hreader =>
    exact ⟨hsame.trans hreader, h.keep ⟨rfl, rfl, rfl, ⟨_, rfl⟩, fun _ he => he⟩⟩
  -- only a count that ran to its end over unbroken blocks makes the total exact
  | @count caches hcaches stepBytes maxMatches turns msg hmsg =>
    refine ⟨hsame, ?_⟩
    cases msg with
    | progress keys percent =>
      refine ⟨h.opHex, h.browses, h.paged, fun n hn => ?_⟩
      cases hn
    | done keys complete =>
      refine ⟨h.opHex, h.browses, h.paged, fun n hn => ?_⟩
      cases complete with
      | false => cases hn
      | true =>
        obtain rfl := KeyCount.exact.inj hn
        rw [h.opHex] at hmsg
        obtain ⟨hwhole, hkeys⟩ :=
          countJob_exact (hsame.operator ▸ hop) ho (hsame.sized hsized) hcaches hmsg
        refine ⟨hsame.readWhole hwhole, ?_⟩
        have hlength := congrArg List.length (hsame.positions ho)
        rw [List.length_map, List.length_map] at hlength
        exact hkeys.trans hlength
  | cancelCount =>
    refine ⟨hsame, ?_⟩
    show TotalInv R o op t.keyed.cancelCount
    unfold KeyedSnapshot.cancelCount
    cases t.keyed.keyCount with
    | counting keys percent =>
      refine ⟨h.opHex, h.browses, h.paged, fun n hn => ?_⟩
      cases hn
    | unknown | exact keys | atLeast keys => exact h
  | entriesFailed e => exact ⟨hsame, h.keep (KeyedSnapshot.keepsAll_noteError _ _ _)⟩

theorem TotalInv.refilter (hsame : R.SameSavepoint t.reader) (h : TotalInv R o op t.keyed)
    (hfilter : t.Refilter T t') : R.SameSavepoint t'.reader ∧ TotalInv R o op t'.keyed := by
  cases hfilter with
  | clear cache => exact ⟨hsame, h.keep (KeyedSnapshot.keepsAll_applyFilter _ _ _ _ _ _)⟩
  | apply f _ _ _ => exact ⟨hsame, h.keep (KeyedSnapshot.keepsAll_applyFilter _ _ _ _ _ _)⟩

/-- ... and so does making sure of the window. -/
theorem TotalInv.rebuilt (hop : R.operator op = .ok o) (ho : o.Regular) (hsized : R.Sized o)
    (hsame : R.SameSavepoint t.reader) (h : TotalInv R o op t.keyed) (hrebuilt : t.Rebuilt t') :
    R.SameSavepoint t'.reader ∧ TotalInv R o op t'.keyed := by
  obtain ⟨caches, turns, hcaches, hrebuild⟩ := hrebuilt
  unfold OperatorTree.rebuild at hrebuild
  by_cases hexpanded : t.expanded = true
  · rw [if_pos hexpanded] at hrebuild
    obtain ⟨k, hk, rfl⟩ := Option.map_eq_some_iff.mp hrebuild
    refine ⟨hsame, KeyedSnapshot.ensureWindow_keeps ?_ ?_ h hk⟩
    · intro k call next limit hk _ hnext
      exact hk.pageIn hop ho hsized hsame hcaches call _ hnext
    · intro k errors malformed rows hk herrors
      exact hk.keep ⟨rfl, rfl, rfl, ⟨_, rfl⟩, herrors⟩
  · rw [if_neg hexpanded] at hrebuild
    exact Option.some.inj hrebuild ▸ ⟨hsame, h⟩

theorem TotalInv.run (hop : R.operator op = .ok o) (ho : o.Regular) (hsized : R.Sized o)
    {descriptors : List StateDesc} {errors : List Text}
    (hrun : Relation.ReflTransGen (OperatorTree.Step T) (.start R o op descriptors errors) t) :
    R.SameSavepoint t.reader ∧ TotalInv R o op t.keyed := by
  induction hrun with
  | refl =>
    refine ⟨.refl R, rfl, ⟨rfl, rfl, rfl⟩, fun _ => ⟨[], rfl, rfl, rfl, fun c hc => ?_⟩, fun n hn => ?_⟩
    · exact .inl (Option.some.inj hc).symm
    · cases hn
  | tail _ hstep ih =>
    obtain ⟨mid, heffect | hfilter, hrebuilt⟩ := hstep
    · obtain ⟨hsame, h⟩ := ih.2.effect hop ho hsized ih.1 heffect
      exact h.rebuilt hop ho hsized hsame hrebuilt
    · obtain ⟨hsame, h⟩ := ih.2.refilter ih.1 hfilter
      exact h.rebuilt hop ho hsized hsame hrebuilt

/-- **An exact total is exact**, in every state of every run, for an operator that has no malformed
    block or something that cannot be read. -/
theorem total_readWhole (hop : R.operator op = .ok o) (ho : o.Regular) (hsized : R.Sized o)
    (hdefects : (∀ s ∈ o.ctx.streams, ∀ kg, (ReadUnit.stream s).Has kg → R.defectOf o s kg = none)
      ∨ R.reports o ≠ [])
    {descriptors : List StateDesc} {errors : List Text}
    (hrun : Relation.ReflTransGen (OperatorTree.Step T) (.start R o op descriptors errors) t)
    {n : Nat} (htotal : t.keyed.total = some n ∨ t.keyed.keyCount = .exact n) :
    R.ReadWhole o ∧ n = (R.keysWhere o fun _ => true).length := by
  obtain ⟨-, h⟩ := TotalInv.run hop ho hsized hrun
  rcases KeyedSnapshot.total_eq_some (htotal.elim id KeyedSnapshot.total_of_keyCount)
    with hcount | ⟨hdone, hnone, rfl⟩
  · exact h.counted n hcount
  · -- Everything was paged, so a report would be an error by now.
    obtain ⟨passed, hevents, hpositions, hreports, -⟩ := h.paged hnone
    have hall : R.eventsFrom o (some .start) = passed := by
      rw [hevents, hdone]
      exact List.append_nil _
    have hnothing : R.reports o = [] := by
      rw [← reportsFrom_start ho, StateReader.reportsFrom, hall, hreports]
    have hclean := hdefects.resolve_right (not_not.mpr hnothing)
    refine ⟨readWhole_of_reports hnothing hclean, ?_⟩
    rw [← keysFrom_start ho, hpositions, StateReader.keysFrom, hall, ← map_position_records R,
      List.length_map]

end Total

/-! ### One block, whole and cut short -/

section Sole

/-- An operator of one subtask. -/
def soleOperator (s : SubtaskStream) : OpenOperator := ⟨[1], 1, 1, ⟨0, [s], [], List.nodup_singleton _⟩⟩

def soleReader (s : SubtaskStream) : StateReader :=
  { sampleReader 1 with
    operators := [soleOperator s]
    opIndex_eq := by
      intro i o h
      rcases i with _ | i
      · cases h
        rfl
      · cases h }

/-- `sampleStream` without the end mark of its block. -/
def unmarkedStream : SubtaskStream :=
  { sampleStream with
    src := .inline [0, 0, 0, 0, 0, 0, 6, 0x80, 0, 0, 0, 7, 0, 0, 0, 0, 4, 0, 0, 0, 9] }

def soleStart (s : SubtaskStream) : OperatorTree :=
  .start (soleReader s) (soleOperator s) "01".toList [⟨"n".toList, "VALUE".toList⟩] []

/-- Once the operator is expanded, its one key is paged. -/
private theorem sole_run {s : SubtaskStream} (T : CaseTables)
    (htotal : ((soleStart s).keyed.ensureWindow (soleReader s) (fun _ => .empty 0) 1).bind (·.total)
      = some 1) :
    ∃ t, Relation.ReflTransGen (OperatorTree.Step T) (soleStart s) t ∧ t.keyed.total = some 1 := by
  obtain ⟨k, hk, hone⟩ := Option.bind_eq_some_iff.mp htotal
  refine ⟨{ soleStart s with keyed := k, expanded := true }, .single ?_, hone⟩
  refine ⟨{ soleStart s with expanded := true }, .inl (.expand true), fun _ => .empty 0, 1,
    fun _ => ⟨0, [], rfl⟩, ?_⟩
  unfold OperatorTree.rebuild
  rw [if_pos rfl]
  exact Option.map_eq_some_iff.mpr ⟨k, hk, rfl⟩

theorem regular_soleOperator : (soleOperator sampleStream).Regular where
  disjoint := List.pairwise_singleton _ _
  reported := by
    intro u hu herror
    obtain rfl := List.mem_singleton.mp hu
    cases herror
  within := by
    intro u hu kg hkg
    obtain rfl := List.mem_singleton.mp hu
    have h0 : (0 : Int) ≤ kg := hkg.1
    have h1 : kg ≤ 0 := hkg.2
    exact ⟨h0, lt_of_le_of_lt h1 (by decide), by omega⟩

theorem sole_block {s : SubtaskStream} (hs : s ∈ (soleOperator sampleStream).ctx.streams)
    {kg : Int} (hkg : (ReadUnit.stream s).Has kg) : s = sampleStream ∧ kg = 0 := by
  obtain rfl := List.mem_singleton.mp hs
  have h0 : (0 : Int) ≤ kg := hkg.1
  have h1 : kg ≤ 0 := hkg.2
  exact ⟨rfl, le_antisymm h1 h0⟩

theorem sized_soleReader : (soleReader sampleStream).Sized (soleOperator sampleStream) := by
  intro s hs kg hkg header block hcontent
  obtain ⟨rfl, rfl⟩ := sole_block hs hkg
  have hone : ((soleReader sampleStream).contentOf (soleOperator sampleStream) sampleStream
      0).toOption.all (fun c => c.all fun b => decide (b.2.keys.length ≤ 2 ^ 32)) = true := by
    decide +kernel
  rw [hcontent] at hone
  simpa [Except.toOption] using hone

/-- The total of the whole block. -/
theorem total_readWhole_sole : ∃ t,
    Relation.ReflTransGen (OperatorTree.Step greekTables) (soleStart sampleStream) t
      ∧ t.keyed.total = some 1
      ∧ (soleReader sampleStream).ReadWhole (soleOperator sampleStream)
      ∧ 1 = ((soleReader sampleStream).keysWhere (soleOperator sampleStream)
        fun _ => true).length := by
  obtain ⟨t, hrun, hone⟩ := sole_run (s := sampleStream) greekTables (by decide +kernel)
  have hclean : ∀ s ∈ (soleOperator sampleStream).ctx.streams, ∀ kg,
      (ReadUnit.stream s).Has kg →
        (soleReader sampleStream).defectOf (soleOperator sampleStream) s kg = none := by
    intro s hs kg hkg
    obtain ⟨rfl, rfl⟩ := sole_block hs hkg
    decide +kernel
  exact ⟨t, hrun, hone, total_readWhole rfl regular_soleOperator sized_soleReader (.inl hclean) hrun
    (.inl hone)⟩

/-- **A malformed block leaves no trace in a total.** -/
theorem total_malformed : ∃ t,
    Relation.ReflTransGen (OperatorTree.Step greekTables) (soleStart unmarkedStream) t
      ∧ t.keyed.total = some 1 ∧ t.keyed.keyCount = .exact 1
      ∧ ¬ (soleReader unmarkedStream).ReadWhole (soleOperator unmarkedStream) := by
  obtain ⟨t, hrun, hone⟩ := sole_run (s := unmarkedStream) greekTables (by decide +kernel)
  refine ⟨t, hrun, hone, ?_, fun hwhole => ?_⟩
  · unfold KeyedSnapshot.keyCount
    rw [hone]
  · have hclean := (hwhole.blocks unmarkedStream (List.mem_singleton_self _) 0 ⟨le_rfl, le_rfl⟩).2
    exact absurd hclean (by decide +kernel)

end Sole

end FlinkExplorer
