import FlinkExplorer.KeyMatcher
import FlinkExplorer.Reader.Lookup
import FlinkExplorer.Tui.Total

namespace FlinkExplorer

open Lib

/-!
# `tui/tree.rs` — a pattern filter

A pattern without a wildcard is looked up as a key at once, and every key is searched for it.  The
lookup shows whatever key it finds, without matching the key against the pattern.

* `KeySeq.Pushed`, `KeySeq.pushAll` — a sequence that matches are put in once each;
* `Searched` — what a search has shown, and what its reports will; `Searched.under` — over a run;
* `ShowsMatches` — what a pattern filter should show: the keys the pattern matches;
* `FilterAgrees`, `patternFilter_iff` — when it does.
-/

/-! ### Matches, once each -/

namespace KeySeq

/-- A sequence of different positions, all of them noted. -/
structure Pushed (seq : KeySeq) : Prop where
  nodup : seq.positions.Nodup
  seen : ∀ pos, pos ∈ seq.seen ↔ pos ∈ seq.positions

/-- The matches of a report, one after the other. -/
def pushAll (records : List KeyRecord) (seq : KeySeq) : KeySeq :=
  records.foldl (fun seq r => seq.pushMatch r.position) seq

variable {seq : KeySeq}

theorem pushMatch_frame (seq : KeySeq) (pos : Cursor) : ∃ positions seen,
    seq.pushMatch pos = { seq with positions := positions, seen := seen } := by
  unfold pushMatch
  by_cases h : pos ∈ seq.seen
  · rw [if_pos h]
    exact ⟨_, _, rfl⟩
  · rw [if_neg h]
    exact ⟨_, _, rfl⟩

theorem pushAll_frame (records : List KeyRecord) (seq : KeySeq) : ∃ positions seen,
    seq.pushAll records = { seq with positions := positions, seen := seen } := by
  induction records generalizing seq with
  | nil => exact ⟨_, _, rfl⟩
  | cons r rs ih =>
    obtain ⟨positions, seen, hpush⟩ := pushMatch_frame seq r.position
    obtain ⟨positions', seen', hrest⟩ := ih (seq.pushMatch r.position)
    exact ⟨positions', seen', hrest.trans (by rw [hpush])⟩

theorem Pushed.pushMatch (h : seq.Pushed) (pos : Cursor) :
    (seq.pushMatch pos).Pushed
      ∧ ∀ p, p ∈ (seq.pushMatch pos).positions ↔ p ∈ seq.positions ∨ p = pos := by
  unfold KeySeq.pushMatch
  by_cases hseen : pos ∈ seq.seen
  · rw [if_pos hseen]
    refine ⟨h, fun p => ⟨.inl, ?_⟩⟩
    rintro (hp | rfl)
    · exact hp
    · exact (h.seen _).mp hseen
  · rw [if_neg hseen]
    have hnew : pos ∉ seq.positions := fun hmem => hseen ((h.seen pos).mpr hmem)
    refine ⟨⟨?_, fun p => ?_⟩, fun p => ?_⟩
    · exact List.nodup_append.mpr ⟨h.nodup, List.nodup_singleton _, fun a ha b hb heq =>
        hnew (List.mem_singleton.mp hb ▸ heq ▸ ha)⟩
    · rw [List.mem_cons, List.mem_append, List.mem_singleton, h.seen, or_comm]
    · rw [List.mem_append, List.mem_singleton]

/-- **Matches are put in once each.** -/
theorem Pushed.pushAll (h : seq.Pushed) (records : List KeyRecord) :
    (seq.pushAll records).Pushed
      ∧ ∀ p, p ∈ (seq.pushAll records).positions
        ↔ p ∈ seq.positions ∨ ∃ r ∈ records, r.position = p := by
  induction records generalizing seq with
  | nil => exact ⟨h, fun p => by simp [KeySeq.pushAll]⟩
  | cons r rs ih =>
    obtain ⟨hpushed, hmem⟩ := h.pushMatch r.position
    obtain ⟨hall, hmem'⟩ := ih hpushed
    refine ⟨hall, fun p => (hmem' p).trans ?_⟩
    rw [hmem, List.exists_mem_cons_iff, or_assoc, eq_comm (a := p)]

end KeySeq

namespace KeyedSnapshot

variable {k : KeyedSnapshot} {seq : KeySeq}

theorem takeMatches_snd (lo hi : Nat) (rs : List KeyRecord) (k : KeyedSnapshot) (seq : KeySeq) :
    (takeMatches lo hi rs (k, seq)).2 = seq.pushAll rs := by
  induction rs generalizing k seq with
  | nil => rfl
  | cons r rs ih =>
    unfold takeMatches
    dsimp only
    split
    · exact ih _ _
    · exact ih _ _

/-- A report puts its matches in, and says where the search goes on. -/
theorem filtered_applySearch (h : k.filtered = some seq) (host : HostText) (found : List KeyRecord)
    (next : Option Cursor) (unreadable : List Unreadable) (malformed : List Text) :
    (k.applySearch host (.page found next unreadable malformed)).filtered
      = some { seq.pushAll found with next := next } := by
  have hnoted : (k.notePage unreadable malformed).filtered = some seq := h
  unfold applySearch
  simp only [hnoted, takeMatches_snd]

theorem filtered_scroll (h : k.filtered = some seq) (forward : Bool) (amount : Nat) :
    ∃ offset, (k.scroll forward amount).1.filtered = some { seq with offset := offset } := by
  have hseq : k.seq = seq := by
    unfold KeyedSnapshot.seq
    rw [h]
    rfl
  unfold scroll
  dsimp only
  rw [hseq]
  exact ⟨_, (k.all_setSeq _ h).2⟩

/-- A report that the search failed is the last. -/
theorem filtered_failed (h : k.filtered = some seq) (host : HostText) (e : ReaderError) :
    (k.applySearch host (.failed e)).filtered = some { seq with next := none } := by
  have hnoted : (k.noteError host e).filtered = some seq := h
  unfold applySearch
  simp only [hnoted]

/-- Making sure of the window of a search leaves its sequence alone. -/
theorem filtered_ensureWindow {R : StateReader} {caches : Nat → BlockCache} {turns : Nat}
    {k' : KeyedSnapshot} (h : k.filtered = some seq) (hmatches : seq.isMatches = true)
    (hk' : k.ensureWindow R caches turns = some k') : k'.filtered = some seq := by
  refine ensureWindow_keeps (P := fun k => k.filtered = some seq) ?_ (fun _ _ _ _ h _ => h) h hk'
  intro k call next limit hk hbrowse hnext
  have hseq : k.seq = seq := by
    unfold KeyedSnapshot.seq
    rw [hk]
    rfl
  rw [hseq, hmatches] at hbrowse
  cases hbrowse

/-- ... and always comes to an end. -/
theorem exists_ensureWindow (R : StateReader) (caches : Nat → BlockCache) (turns : Nat)
    (hmatches : k.seq.isMatches = true) : ∃ k', k.ensureWindow R caches turns = some k' := by
  unfold ensureWindow
  by_cases hempty : k.descriptors.isEmpty = true
  · rw [if_pos hempty]
    exact ⟨k, rfl⟩
  · rw [if_neg hempty, if_pos hmatches]
    exact ⟨_, rfl⟩

end KeyedSnapshot

/-! ### What a search shows -/

/-- Where a search is: `next` in its sequence, its messages still to come, and the keys these hold. -/
inductive Awaits : Option Cursor → List KeyRecord → List SearchMsg → Prop
  | reports (c : Cursor) {keys : List KeyRecord} {msgs : List SearchMsg} (h : Reports keys msgs) :
    Awaits (some c) keys msgs
  | failed (c : Cursor) (e : ReaderError) : Awaits (some c) [] [.failed e]
  | ended : Awaits none [] []
  | cancelled (c : Cursor) (keys : List KeyRecord) : Awaits (some c) keys []

section Searched

variable (R : StateReader) (o : OpenOperator) (hits test : KeyRecord → Prop)

/-- What a search has shown: keys that a lookup hit or that its test takes, once each; those that its
    messages hold are all that is missing. -/
structure Searched (k : KeyedSnapshot) (msgs : List SearchMsg) (seq : KeySeq) : Prop where
  filtered : k.filtered = some seq
  isMatches : seq.isMatches = true
  pushed : seq.Pushed
  shown : ∀ pos ∈ seq.positions, ∃ r ∈ R.keysWhere o fun _ => true, r.position = pos ∧ (hits r ∨ test r)
  awaited : ∃ keys, Awaits seq.next keys msgs
    ∧ (∀ r ∈ keys, r ∈ (R.keysWhere o fun _ => true) ∧ test r)
    ∧ ∀ r ∈ R.keysWhere o fun _ => true, test r → r.position ∈ seq.positions ∨ r ∈ keys

variable {R o hits test} {k k' : KeyedSnapshot} {msg : SearchMsg} {msgs : List SearchMsg}
  {seq : KeySeq}

/-- Once a search has ended, nothing is missing. -/
theorem Searched.ended (h : Searched R o hits test k msgs seq) (hnext : seq.next = none)
    {r : KeyRecord} (hr : r ∈ R.keysWhere o fun _ => true) (htest : test r) :
    r.position ∈ seq.positions := by
  obtain ⟨keys, hawaits, -, hmissing⟩ := h.awaited
  rw [hnext] at hawaits
  cases hawaits
  exact (hmissing r hr htest).resolve_right List.not_mem_nil

/-- Where a sequence is scrolled to does not matter. -/
theorem Searched.moved (h : Searched R o hits test k msgs seq) {offset : Nat}
    (hk' : k'.filtered = some { seq with offset := offset }) :
    Searched R o hits test k' msgs { seq with offset := offset } :=
  ⟨hk', h.isMatches, ⟨h.pushed.nodup, h.pushed.seen⟩, h.shown, h.awaited⟩

theorem Searched.same (h : Searched R o hits test k msgs seq) (hk' : k'.filtered = k.filtered) :
    Searched R o hits test k' msgs seq :=
  ⟨hk'.trans h.filtered, h.isMatches, h.pushed, h.shown, h.awaited⟩

/-- A search that is cancelled stays where it is. -/
theorem Searched.cancel (h : Searched R o hits test k msgs seq) :
    Searched R o hits test k [] seq := by
  obtain ⟨keys, hawaits, hkeys, hmissing⟩ := h.awaited
  refine ⟨h.filtered, h.isMatches, h.pushed, h.shown, ?_⟩
  cases hnext : seq.next with
  | none =>
    rw [hnext] at hawaits
    cases hawaits
    exact ⟨[], .ended, hkeys, hmissing⟩
  | some c => exact ⟨keys, .cancelled c keys, hkeys, hmissing⟩

/-- A report of matches: some of the keys missing, and the others are still to come. -/
theorem Searched.found (h : Searched R o hits test k (msg :: msgs) seq) {found rest : List KeyRecord}
    {next : Option Cursor} (hk' : k'.filtered = some { seq.pushAll found with next := next })
    (hrest : Awaits next rest msgs)
    (hkeys : ∀ r ∈ found ++ rest, r ∈ (R.keysWhere o fun _ => true) ∧ test r)
    (hmissing : ∀ r ∈ R.keysWhere o fun _ => true, test r →
      r.position ∈ seq.positions ∨ r ∈ found ++ rest) :
    Searched R o hits test k' msgs { seq.pushAll found with next := next } := by
  obtain ⟨hpushed, hmem⟩ := h.pushed.pushAll found
  refine ⟨hk', ?_, ⟨hpushed.nodup, hpushed.seen⟩, fun pos hpos => ?_, rest, hrest, ?_, ?_⟩
  · obtain ⟨positions, seen, hframe⟩ := seq.pushAll_frame found
    rw [hframe]
    exact h.isMatches
  · rcases (hmem pos).mp hpos with hbefore | ⟨r, hr, rfl⟩
    · exact h.shown pos hbefore
    · obtain ⟨hwhere, htest⟩ := hkeys r (List.mem_append_left _ hr)
      exact ⟨r, hwhere, rfl, .inr htest⟩
  · intro r hr
    exact hkeys r (List.mem_append_right _ hr)
  · intro r hr htest
    rcases hmissing r hr htest with hbefore | hlater
    · exact .inl ((hmem _).mpr (.inl hbefore))
    · rcases List.mem_append.mp hlater with hnow | hlater
      · exact .inl ((hmem _).mpr (.inr ⟨r, hnow, rfl⟩))
      · exact .inr hlater

/-- **A report** of the search is put in. -/
theorem Searched.report (h : Searched R o hits test k (msg :: msgs) seq) (host : HostText) :
    ∃ seq', Searched R o hits test (k.applySearch host msg) msgs seq' := by
  obtain ⟨keys, hawaits, hkeys, hmissing⟩ := h.awaited
  cases hnext : seq.next with
  | none =>
    rw [hnext] at hawaits
    cases hawaits
  | some c =>
    rw [hnext] at hawaits
    cases hawaits with
    | reports _ hreports =>
      cases hreports with
      | last found unreadable malformed =>
        have hfiltered := KeyedSnapshot.filtered_applySearch h.filtered host keys none unreadable
          malformed
        rw [← List.append_nil keys] at hkeys hmissing
        exact ⟨_, h.found hfiltered .ended hkeys hmissing⟩
      | more found next unreadable malformed hrest =>
        have hfiltered := KeyedSnapshot.filtered_applySearch h.filtered host found (some next)
          unreadable malformed
        exact ⟨_, h.found hfiltered (.reports next hrest) hkeys hmissing⟩
    | failed _ e =>
      have hfiltered : _ = some { seq.pushAll [] with next := none } :=
        KeyedSnapshot.filtered_failed h.filtered host e
      exact ⟨_, h.found hfiltered .ended hkeys hmissing⟩

theorem Searched.poll (h : Searched R o hits test k msgs seq) (host : HostText) (n : Nat) :
    ∃ seq', Searched R o hits test
      ((msgs.take n).foldl (fun k msg => k.applySearch host msg) k) (msgs.drop n) seq' := by
  induction n generalizing k msgs seq with
  | zero => exact ⟨seq, h⟩
  | succ n ih =>
    cases msgs with
    | nil => exact ⟨seq, h⟩
    | cons msg msgs =>
      obtain ⟨seq', h'⟩ := h.report host
      exact ih h'

/-! ### Over a run -/

variable {t t' : OperatorTree}

/-- **Whatever happens under a filter** keeps what its search has shown. -/
theorem Searched.effect (h : Searched R o hits test t.keyed t.reports seq) (heffect : t.Effect t') :
    ∃ seq', Searched R o hits test t'.keyed t'.reports seq' := by
  cases heffect with
  | redraw | expand _ => exact ⟨seq, h⟩
  | scroll _ forward amount =>
    obtain ⟨offset, hoffset⟩ := KeyedSnapshot.filtered_scroll h.filtered forward amount
    exact ⟨_, h.moved hoffset⟩
  | poll n => exact h.poll t.reader.host n
  | cancelSearch => exact ⟨seq, h.cancel⟩
  | setReader _ | entriesFailed _ => exact ⟨seq, h.same rfl⟩
  | @count _ _ _ _ _ msg _ =>
    refine ⟨seq, h.same ?_⟩
    cases msg <;> rfl
  | cancelCount =>
    refine ⟨seq, h.same ?_⟩
    show t.keyed.cancelCount.filtered = t.keyed.filtered
    unfold KeyedSnapshot.cancelCount
    split <;> rfl

theorem Searched.rebuilt (h : Searched R o hits test t.keyed t.reports seq) (hrebuilt : t.Rebuilt t') :
    Searched R o hits test t'.keyed t'.reports seq := by
  obtain ⟨caches, turns, -, hrebuild⟩ := hrebuilt
  unfold OperatorTree.rebuild at hrebuild
  by_cases hexpanded : t.expanded = true
  · rw [if_pos hexpanded] at hrebuild
    obtain ⟨k, hk, rfl⟩ := Option.map_eq_some_iff.mp hrebuild
    have hfiltered := KeyedSnapshot.filtered_ensureWindow h.filtered h.isMatches hk
    exact h.same (hfiltered.trans h.filtered.symm)
  · rw [if_neg hexpanded] at hrebuild
    exact Option.some.inj hrebuild ▸ h

/-- The window of a search can always be made sure of. -/
theorem exists_rebuilt (hfiltered : t.keyed.filtered = some seq) (hmatches : seq.isMatches = true)
    {caches : Nat → BlockCache} (hcaches : ∀ i, t.reader.Reached (caches i)) :
    ∃ t', t.Rebuilt t' ∧ t'.keyed.filtered = some seq := by
  have hseq : t.keyed.seq = seq := by
    unfold KeyedSnapshot.seq
    rw [hfiltered]
    rfl
  by_cases hexpanded : t.expanded = true
  · obtain ⟨k, hk⟩ := KeyedSnapshot.exists_ensureWindow t.reader caches 0 (by rw [hseq]; exact hmatches)
    refine ⟨{ t with keyed := k }, ⟨caches, 0, hcaches, ?_⟩,
      KeyedSnapshot.filtered_ensureWindow hfiltered hmatches hk⟩
    unfold OperatorTree.rebuild
    rw [if_pos hexpanded, hk]
    rfl
  · refine ⟨t, ⟨caches, 0, hcaches, ?_⟩, hfiltered⟩
    unfold OperatorTree.rebuild
    exact if_neg hexpanded

theorem Searched.under (h : ∃ seq, Searched R o hits test t.keyed t.reports seq)
    (hrun : Relation.ReflTransGen OperatorTree.StepUnder t t') :
    ∃ seq, Searched R o hits test t'.keyed t'.reports seq := by
  induction hrun with
  | refl => exact h
  | tail _ hstep ih =>
    obtain ⟨seq, hbefore⟩ := ih
    obtain ⟨mid, heffect, hrebuilt⟩ := hstep
    obtain ⟨seq', hmid⟩ := hbefore.effect heffect
    exact ⟨seq', hmid.rebuilt hrebuilt⟩

end Searched

/-! ### A pattern -/

section Pattern

variable (R : StateReader) (o : OpenOperator) (T : CaseTables) (p : Text)

/-- The lookup of a pattern hits a key. -/
def Hits (r : KeyRecord) : Prop := ¬ (p.contains '*' || p.contains '?') = true ∧ R.Names o p r

/-- What a pattern filter should show: keys that the pattern matches, once each; all of them once the
    search has ended. -/
def ShowsMatches (t : OperatorTree) : Prop :=
  ∃ seq, t.keyed.filtered = some seq ∧ seq.positions.Nodup
    ∧ (∀ pos ∈ seq.positions, ∃ r ∈ R.keysWhere o fun _ => true,
      r.position = pos ∧ globMatch T p r.key = true)
    ∧ (seq.next = none → ∀ r ∈ R.keysWhere o fun _ => true, globMatch T p r.key = true →
      r.position ∈ seq.positions)

/-- A key that the pattern names without a wildcard is matched by it; and the search can start, or the
    key so named is the only one there is. -/
structure FilterAgrees : Prop where
  lookup : ∀ r, Hits R o p r → globMatch T p r.key = true
  search : o.checkCursor .start = .ok ()
    ∨ ∀ r ∈ R.keysWhere o fun _ => true, globMatch T p r.key = true → Hits R o p r

variable {R o T p} {op : Text}

/-- A search that is refused says so, and ends. -/
theorem searchJob_refused (hop : R.operator op = .ok o) {e : ReaderError}
    (hcheck : o.checkCursor .start = .error e) {caches : Nat → BlockCache} {test : Text → Bool}
    {stepBytes maxMatches turns : Nat} {msgs : List SearchMsg}
    (hmsgs : R.searchJob caches op test stepBytes maxMatches turns 0 .start .empty = some msgs) :
    msgs = [.failed e] := by
  cases turns with
  | zero => cases hmsgs
  | succ turns =>
    have hpage : (R.scanWith op .start ⟨1, maxMatches, none⟩ (fun t key => (t, test key)) ()
        (caches 0)).1 = .error e := by
      unfold StateReader.scanWith StateReader.page
      rw [hop]
      dsimp only
      rw [hcheck]
    unfold StateReader.searchJob at hmsgs
    rw [hpage] at hmsgs
    exact (Option.some.inj hmsgs).symm

/-- A pattern filter shows what its lookup hits, and is searched. -/
theorem applyFilter_pattern {k : KeyedSnapshot} (hop : R.operator k.opHex = .ok o) (ho : o.Regular)
    (hkeyed : k.descriptors ≠ []) {cache : BlockCache} (hcache : R.Reached cache)
    (maxParallelism parallelism : Int) :
    (k.applyFilter R maxParallelism parallelism (some (.pattern p)) cache).2 = true
      ∧ ∃ seq, (k.applyFilter R maxParallelism parallelism (some (.pattern p)) cache).1.filtered
          = some seq
        ∧ seq.isMatches = true ∧ seq.Pushed ∧ seq.next = some .start
        ∧ ∀ pos, pos ∈ seq.positions ↔ ∃ r, Hits R o p r ∧ r.position = pos := by
  have hsome : ¬ k.descriptors.isEmpty = true := fun h => hkeyed (List.isEmpty_iff.mp h)
  have hstart : ({ KeySeq.browse .start with isMatches := true } : KeySeq).Pushed :=
    ⟨List.nodup_nil, fun _ => Iff.rfl⟩
  unfold KeyedSnapshot.applyFilter
  simp only [if_neg hsome]
  by_cases hwild : (p.contains '*' || p.contains '?') = true
  · rw [if_pos hwild]
    refine ⟨rfl, _, rfl, rfl, hstart, rfl, fun pos => iff_of_false List.not_mem_nil ?_⟩
    rintro ⟨r, hhit, -⟩
    exact hhit.1 hwild
  · rw [if_neg hwild]
    by_cases hnamed : ∃ r, R.Names o p r
    · obtain ⟨r, hr⟩ := hnamed
      obtain ⟨stats, malformed, hget⟩ := get_of_names hop ho hcache hr
      obtain ⟨positions, seen, hframe⟩ :=
        KeySeq.pushMatch_frame { KeySeq.browse .start with isMatches := true } r.position
      obtain ⟨hpushed, hmem⟩ := hstart.pushMatch r.position
      rw [hget]
      refine ⟨rfl, _, rfl, by rw [hframe], hpushed, by rw [hframe]; rfl, fun pos => ?_⟩
      rw [hmem]
      constructor
      · rintro (hpos | rfl)
        · cases hpos
        · exact ⟨r, ⟨hwild, hr⟩, rfl⟩
      · rintro ⟨r', ⟨-, hr'⟩, rfl⟩
        -- The lookup finds one key.
        obtain ⟨stats', malformed', hget'⟩ := get_of_names hop ho hcache hr'
        rw [hget] at hget'
        cases hget'
        exact .inr rfl
    · refine ⟨?_, { KeySeq.browse .start with isMatches := true }, ?_, rfl, hstart, rfl, fun pos => ?_⟩
      · cases hget : (R.get k.opHex p cache).1 with
        | error e => rfl
        | ok found => cases found <;> rfl
      · cases hget : (R.get k.opHex p cache).1 with
        | error e => rfl
        | ok found =>
          cases found with
          | found r stats malformed => exact absurd ⟨r, names_of_get hop hcache hget⟩ hnamed
          | absent _ _ _ | needsScan _ => rfl
      · refine iff_of_false List.not_mem_nil ?_
        rintro ⟨r, ⟨-, hr⟩, -⟩
        exact hnamed ⟨r, hr⟩

variable {t₀ : OperatorTree}

/-- What a search awaits where it starts. -/
theorem searched_filter (hop : t₀.reader.operator t₀.keyed.opHex = .ok o) (ho : o.Regular)
    (hsized : t₀.reader.Sized o) (hkeyed : t₀.keyed.descriptors ≠ []) {cache : BlockCache}
    (hcache : t₀.reader.Reached cache) {caches : Nat → BlockCache}
    (hcaches : ∀ i, t₀.reader.Reached (caches i)) {stepBytes maxMatches turns : Nat}
    {msgs : List SearchMsg}
    (hmsgs : t₀.reader.searchJob caches t₀.keyed.opHex ((AppliedFilter.pattern p).test T) stepBytes maxMatches turns 0
      .start .empty = some msgs)
    (hsearch : o.checkCursor .start = .ok () ∨ ∀ r ∈ t₀.reader.keysWhere o fun _ => true,
      globMatch T p r.key = true → Hits t₀.reader o p r) :
    ∃ seq, Searched t₀.reader o (Hits t₀.reader o p) (fun r => globMatch T p r.key = true)
      (t₀.filter (some (.pattern p)) cache msgs).keyed
      (t₀.filter (some (.pattern p)) cache msgs).reports seq := by
  obtain ⟨hsearched, seq, hfiltered, hmatches, hpushed, hnext, hshown⟩ :=
    applyFilter_pattern (p := p) hop ho hkeyed hcache t₀.maxParallelism t₀.parallelism
  refine ⟨seq, hfiltered, hmatches, hpushed, fun pos hpos => ?_, ?_⟩
  · obtain ⟨r, hhit, hr⟩ := (hshown pos).mp hpos
    exact ⟨r, hhit.2.mem, hr, .inl hhit⟩
  · unfold OperatorTree.filter
    dsimp only
    rw [hsearched, if_pos rfl, hnext]
    cases hcheck : o.checkCursor .start with
    | ok =>
      have hreports := searchJob_reports hop ho hsized hcaches hcheck hmsgs
      rw [keysFrom_start ho] at hreports
      refine ⟨_, .reports _ hreports, fun r hr => List.mem_filter.mp hr, fun r hr htest => ?_⟩
      exact .inr (List.mem_filter.mpr ⟨hr, htest⟩)
    | error e =>
      -- Nothing is searched, so the lookup is all there is.
      have hhits := hsearch.resolve_left (by rw [hcheck]; exact fun h => nomatch h)
      obtain rfl := searchJob_refused hop hcheck hmsgs
      refine ⟨[], .failed _ e, fun r hr => absurd hr List.not_mem_nil, fun r hr htest => .inl ?_⟩
      exact (hshown _).mpr ⟨r, hhits r hr htest, rfl⟩

/-- **A pattern filter shows the keys its pattern matches**, in every state of every run, exactly when
    the pattern matches the key that it names. -/
theorem patternFilter_iff (hop : t₀.reader.operator t₀.keyed.opHex = .ok o) (ho : o.Regular)
    (hsized : t₀.reader.Sized o) (hkeyed : t₀.keyed.descriptors ≠ []) {cache : BlockCache}
    (hcache : t₀.reader.Reached cache) {caches : Nat → BlockCache}
    (hcaches : ∀ i, t₀.reader.Reached (caches i)) {stepBytes maxMatches turns : Nat}
    {msgs : List SearchMsg}
    (hmsgs : t₀.reader.searchJob caches t₀.keyed.opHex ((AppliedFilter.pattern p).test T) stepBytes maxMatches turns 0
      .start .empty = some msgs) :
    (∀ t, Relation.ReflTransGen OperatorTree.StepUnder
        (t₀.filter (some (.pattern p)) cache msgs) t → ShowsMatches t₀.reader o T p t)
      ↔ FilterAgrees t₀.reader o T p := by
  constructor
  · intro hshows
    obtain ⟨hsearched, seq, hfiltered, hmatches, hpushed, hnext, hshown⟩ :=
      applyFilter_pattern (p := p) hop ho hkeyed hcache t₀.maxParallelism t₀.parallelism
    constructor
    · intro r hhit
      obtain ⟨seq', hseq', -, hmatched, -⟩ := hshows _ .refl
      obtain rfl : seq = seq' := Option.some.inj (hfiltered.symm.trans hseq')
      obtain ⟨r', hr', hpos, hglob⟩ := hmatched _ ((hshown _).mpr ⟨r, hhit, rfl⟩)
      exact keysWhere_inj ho hsized hhit.2.mem hr' hpos.symm ▸ hglob
    · by_contra hnot
      rw [not_or] at hnot
      obtain ⟨hrefused, hmissed⟩ := hnot
      refine hmissed fun r hr hglob => ?_
      cases hcheck : o.checkCursor .start with
      | ok => exact absurd hcheck hrefused
      | error e =>
        obtain rfl := searchJob_refused hop hcheck hmsgs
        -- The search fails, and with that it has ended.
        let t := t₀.filter (some (.pattern p)) cache [.failed e]
        have hreports : t.reports = [.failed e] := by
          show (if _ then [SearchMsg.failed e] else []) = _
          rw [hsearched, if_pos rfl]
        have hpolled : (t.poll 1).keyed.filtered = some { seq with next := none } := by
          unfold OperatorTree.poll
          rw [hreports]
          exact KeyedSnapshot.filtered_failed hfiltered _ e
        obtain ⟨t', hrebuilt, hfiltered'⟩ := exists_rebuilt hpolled hmatches hcaches
        obtain ⟨seq', hseq', -, -, hall⟩ := hshows t' (.single ⟨_, .poll 1, hrebuilt⟩)
        obtain rfl := Option.some.inj (hfiltered'.symm.trans hseq')
        obtain ⟨r', hhit, hpos⟩ := (hshown _).mp (hall rfl r hr hglob)
        exact keysWhere_inj ho hsized hhit.2.mem hr hpos ▸ hhit
  · intro hagrees t hrun
    obtain ⟨seq, h⟩ := Searched.under
      (searched_filter hop ho hsized hkeyed hcache hcaches hmsgs hagrees.search) hrun
    refine ⟨seq, h.filtered, h.pushed.nodup, fun pos hpos => ?_, fun hnext r hr hglob => ?_⟩
    · obtain ⟨r, hr, hat, hhit | hglob⟩ := h.shown pos hpos
      · exact ⟨r, hr, hat, hagrees.lookup r hhit⟩
      · exact ⟨r, hr, hat, hglob⟩
    · exact h.ended hnext hr hglob

end Pattern

/-! ### The key 7 -/

section Sole

/-- The messages of a search of the one block. -/
def soleMsgs (p : Text) : Option (List SearchMsg) :=
  (soleReader sampleStream).searchJob (fun _ => .empty 0) "01".toList
    ((AppliedFilter.pattern p).test greekTables) 1 1 3 0 .start .empty

private theorem sole_keys : ∀ r ∈ (soleReader sampleStream).keysWhere (soleOperator sampleStream)
    fun _ => true, r.key = ['7'] := by
  have hkeys : ((soleReader sampleStream).keysWhere (soleOperator sampleStream) fun _ => true).all
      (fun r => decide (r.key = ['7'])) = true := by
    decide +kernel
  intro r hr
  exact of_decide_eq_true (List.all_eq_true.mp hkeys r hr)

/-- The pattern `7`. -/
theorem patternFilter_seven : ∃ msgs, soleMsgs ['7'] = some msgs
    ∧ (∀ t, Relation.ReflTransGen OperatorTree.StepUnder
        ((soleStart sampleStream).filter (some (.pattern ['7'])) (.empty 0) msgs) t →
      ShowsMatches (soleReader sampleStream) (soleOperator sampleStream) greekTables ['7'] t)
    ∧ FilterAgrees (soleReader sampleStream) (soleOperator sampleStream) greekTables ['7'] := by
  obtain ⟨msgs, hmsgs⟩ := Option.isSome_iff_exists.mp
    (show (soleMsgs ['7']).isSome = true by decide +kernel)
  have hagrees : FilterAgrees (soleReader sampleStream) (soleOperator sampleStream) greekTables
      ['7'] := by
    refine ⟨fun r hhit => ?_, .inl rfl⟩
    rw [sole_keys r hhit.2.mem]
    decide
  have hempty : (soleReader sampleStream).Reached (.empty 0) := ⟨0, [], rfl⟩
  refine ⟨msgs, hmsgs, ?_, hagrees⟩
  have hop : (soleStart sampleStream).reader.operator (soleStart sampleStream).keyed.opHex
      = .ok (soleOperator sampleStream) := rfl
  exact (patternFilter_iff hop regular_soleOperator sized_soleReader (List.cons_ne_nil _ _) hempty
    (fun _ => hempty) hmsgs).mpr hagrees

/-- **The pattern `007` shows the key `7`**, which it does not match. -/
theorem not_patternFilter_zeros : ∃ msgs, soleMsgs ['0', '0', '7'] = some msgs
    ∧ ¬ ∀ t, Relation.ReflTransGen OperatorTree.StepUnder
        ((soleStart sampleStream).filter (some (.pattern ['0', '0', '7'])) (.empty 0) msgs) t →
      ShowsMatches (soleReader sampleStream) (soleOperator sampleStream) greekTables ['0', '0', '7']
        t := by
  obtain ⟨msgs, hmsgs⟩ := Option.isSome_iff_exists.mp
    (show (soleMsgs ['0', '0', '7']).isSome = true by decide +kernel)
  refine ⟨msgs, hmsgs, fun hshows => ?_⟩
  obtain ⟨seq, hseq, -, hmatched, -⟩ := hshows _ .refl
  have hshown : (((soleStart sampleStream).keyed.applyFilter (soleReader sampleStream) 1 1
      (some (.pattern ['0', '0', '7'])) (.empty 0)).1.filtered.map (·.positions.length)) = some 1 := by
    decide +kernel
  have hone : seq.positions.length = 1 := by
    have hsome : ((soleStart sampleStream).keyed.applyFilter (soleReader sampleStream) 1 1
        (some (.pattern ['0', '0', '7'])) (.empty 0)).1.filtered = some seq := hseq
    rw [hsome] at hshown
    exact Option.some.inj hshown
  obtain ⟨pos, hpos⟩ := List.exists_mem_of_length_pos (Nat.lt_of_lt_of_eq Nat.one_pos hone.symm)
  obtain ⟨r, hr, -, hglob⟩ := hmatched pos hpos
  rw [sole_keys r hr] at hglob
  exact absurd hglob (by decide)

end Sole

end FlinkExplorer
