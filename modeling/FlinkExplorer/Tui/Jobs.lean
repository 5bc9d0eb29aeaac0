import FlinkExplorer.Glob
import FlinkExplorer.KeyMatcher
import FlinkExplorer.Reader.Onward
import FlinkExplorer.Reader.Scan

namespace FlinkExplorer

open Lib

/-!
# `tui/jobs.rs` — the count and the search of an operator

Both are chains of `scan` calls on a thread of their own, and send what they find as messages.

* `countJob` — the messages of a count: `done` with `complete` only where every page is whole;
* `searchJob` — the messages of a search, each the matches of some calls;
* `countJob_exact` — a complete count is the number of the operator's keys, and all of them are read;
* `exists_searchJob`, `searchJob_reports` — a search ends, and its messages hold the keys that its test
  takes.

A job that is cancelled stops between two calls; `turns` is how many it makes at most.
-/

/-! ### `start_count` -/

/-- What the count reports of an operator. -/
inductive CountMsg
  | progress (keys : Nat) (percent : UInt8)
  | done (keys : Nat) (complete : Bool)
  deriving DecidableEq

/-- The key-groups before a cursor, in percent. -/
def countPercent (maxParallelism : Int) (next : Cursor) : UInt8 :=
  UInt8.ofNat (min ((next.keyGroup.toNat : Int) * 100 / max maxParallelism 1) 99).toNat

section Count

variable (R : StateReader) (caches : Nat → BlockCache) (hex : Text) (maxParallelism : Int)
  (stepBytes maxMatches : Nat)

/-- Count every key of an operator with `scan` and a predicate that takes nothing. -/
def StateReader.countJob : Nat → Nat → Cursor → Nat → Bool → List CountMsg
  | 0, _, _, _, _ => []
  | turns + 1, call, c, keys, complete =>
    match (R.scanWith hex c ⟨stepBytes, maxMatches, none⟩ (fun keys _ => (keys + 1, false)) keys
        (caches call)).1 with
    | .error _ => [.done keys false]
    | .ok page =>
      let keys := page.found.2
      let complete := complete && page.unreadable.isEmpty && page.malformed.isEmpty
      match page.next with
      | none => [.done keys complete]
      | some next =>
        .progress keys (countPercent maxParallelism next)
          :: countJob turns (call + 1) next keys complete

end Count

/-! ### `start_search` -/

/-- `tui/filter.rs`: a filter on keys. -/
inductive AppliedFilter
  | pattern (p : Text)
  | exact (bytes : Bytes)
  | keyGroupRange (start stop : UInt16)

/-- Whether a key's text matches a filter. -/
def AppliedFilter.matchesStr (T : CaseTables) (key : Text) (keyGroup : UInt16) :
    AppliedFilter → Bool
  | .pattern p => globMatch T p key
  | .exact bytes => encodeUtf8 key == bytes
  | .keyGroupRange start stop => decide (start ≤ keyGroup) && decide (keyGroup ≤ stop)

/-- The test of a search: an exact key is compared as text. -/
def AppliedFilter.test (T : CaseTables) (f : AppliedFilter) (key : Text) : Bool :=
  match f with
  | .exact bytes => key == decodeUtf8Lossy bytes
  | f => f.matchesStr T key 0

/-- What the search reports of an operator. -/
inductive SearchMsg
  | page (found : List KeyRecord) (next : Option Cursor) (unreadable : List Unreadable)
    (malformed : List Text)
  | failed (error : ReaderError)

/-- `SEARCH_BATCH_MATCHES`. -/
def searchBatchMatches : Nat := 1000

/-- What was gathered since the last message. -/
structure SearchBatch where
  found : List KeyRecord
  unreadable : List Unreadable
  malformed : List Text
  bytes : Nat

namespace SearchBatch

def empty : SearchBatch := ⟨[], [], [], 0⟩

def add (batch : SearchBatch) (page : Page (List KeyRecord × Unit)) : SearchBatch where
  found := batch.found ++ page.found.1
  unreadable := batch.unreadable ++ page.unreadable
  malformed := batch.malformed ++ page.malformed
  bytes := batch.bytes + max page.stats.blockBytes 1

def msg (batch : SearchBatch) (next : Option Cursor) : SearchMsg :=
  .page batch.found next batch.unreadable batch.malformed

end SearchBatch

section Search

variable (R : StateReader) (caches : Nat → BlockCache) (hex : Text) (test : Text → Bool)
  (stepBytes maxMatches : Nat)

/-- Search the keys of an operator, one block per call; `none` where the turns run out. -/
def StateReader.searchJob : Nat → Nat → Cursor → SearchBatch → Option (List SearchMsg)
  | 0, _, _, _ => none
  | turns + 1, call, c, batch =>
    match (R.scanWith hex c ⟨1, maxMatches, none⟩ (fun t key => (t, test key)) () (caches call)).1 with
    | .error e => some [.failed e]
    | .ok page =>
      let batch := batch.add page
      match page.next with
      | none => some [batch.msg none]
      | some next =>
        if stepBytes ≤ batch.bytes ∨ searchBatchMatches ≤ batch.found.length then
          (searchJob turns (call + 1) next .empty).map (batch.msg (some next) :: ·)
        else searchJob turns (call + 1) next batch

end Search

/-! ### What the count says -/

section Counted

variable {R : StateReader} {o : OpenOperator} {hex : Text} {caches : Nat → BlockCache}

theorem scanKeys_count (rs : List KeyRecord) (found : List KeyRecord) (keys : Nat) :
    scanKeys (fun keys _ => (keys + 1, false)) rs (found, keys) = (found, keys + rs.length) := by
  induction rs generalizing keys with
  | nil => rfl
  | cons r rs ih =>
    rw [scanKeys]
    dsimp only
    rw [if_neg Bool.false_ne_true, ih, List.length_cons, Nat.add_assoc, Nat.add_comm 1]

/-- **A scan from an accepted cursor.** -/
theorem scanWith_onward {τ : Type} (hop : R.operator hex = .ok o) (ho : o.Regular)
    (hsized : R.Sized o) {cache : BlockCache} (hcache : R.Reached cache) {c : Cursor}
    (hcheck : o.checkCursor c = .ok ()) (budget maxMatches : Nat) (test : τ → Text → τ × Bool)
    (t : τ) :
    ∃ page taken, (R.scanWith hex c ⟨budget, maxMatches, none⟩ test t cache).1 = .ok page
      ∧ R.Onward o (R.scanWalk ⟨budget, maxMatches, none⟩ test) c ([], t) page taken
      ∧ page.found = scanKeys test (taken.filterMap R.recordOf) ([], t) := by
  have hfull : ¬ (R.scanWalk ⟨budget, maxMatches, none⟩ test).full ([], t) = true := by
    simp [StateReader.scanWalk]
  obtain ⟨page, taken, hpage, honward⟩ :=
    page_onward hop ho hsized (rfl : (R.scanWalk ⟨budget, maxMatches, none⟩ test).lastKeyGroup = none)
      false hcache.sound hcheck hfull
  exact ⟨page, taken, hpage, honward, honward.found.trans (gather_scan _ _ _)⟩

/-- **A complete count** passed no report and no defect, and counted every key. -/
theorem countJob_complete (hop : R.operator hex = .ok o) (ho : o.Regular) (hsized : R.Sized o)
    (hcaches : ∀ i, R.Reached (caches i)) (maxParallelism : Int) (stepBytes maxMatches : Nat)
    {turns call : Nat} {c : Cursor} (hcheck : o.checkCursor c = .ok ()) {keys n : Nat}
    {complete : Bool}
    (hdone : CountMsg.done n true
      ∈ R.countJob caches hex maxParallelism stepBytes maxMatches turns call c keys complete) :
    complete = true ∧ R.reportsFrom o (some c) = []
      ∧ (∀ s kg, o.BlockFrom s kg (some c) → R.defectOf o s kg = none)
      ∧ n = keys + (R.keysFrom o (some c)).length := by
  induction turns generalizing call c keys complete with
  | zero => cases hdone
  | succ turns ih =>
    obtain ⟨page, taken, hpage, honward, hfound⟩ := scanWith_onward hop ho hsized (hcaches call)
      hcheck stepBytes maxMatches (fun keys _ => (keys + 1, false)) keys
    have hkeys : page.found.2 = keys + (taken.filterMap R.recordOf).length := by
      rw [hfound, scanKeys_count]
    unfold StateReader.countJob at hdone
    rw [hpage] at hdone
    dsimp only at hdone
    -- Where the rest is whole and this page is, so is what lies in front of it.
    have hwhole (hcomplete : (complete && page.unreadable.isEmpty && page.malformed.isEmpty) = true)
        (hreports : R.reportsFrom o page.next = [])
        (hdefects : ∀ s kg, o.BlockFrom s kg page.next → R.defectOf o s kg = none) :
        complete = true ∧ R.reportsFrom o (some c) = []
          ∧ ∀ s kg, o.BlockFrom s kg (some c) → R.defectOf o s kg = none := by
      simp only [Bool.and_eq_true, List.isEmpty_iff] at hcomplete
      obtain ⟨⟨hbefore, hunreadable⟩, hmalformed⟩ := hcomplete
      refine ⟨hbefore, ?_, fun s kg hblock => ?_⟩
      · rw [honward.reports, hunreadable, hreports]
        rfl
      · cases hd : R.defectOf o s kg with
        | none => rfl
        | some d =>
          rcases honward.defects s kg hblock d hd with hnoted | hrest
          · exact absurd hnoted (hmalformed ▸ List.not_mem_nil)
          · exact absurd (hdefects s kg hrest) (hd ▸ Option.some_ne_none d)
    have hlength : (R.keysFrom o (some c)).length
        = (taken.filterMap R.recordOf).length + (R.keysFrom o page.next).length := by
      rw [honward.keys, List.length_append]
    cases hnext : page.next with
    | none =>
      rw [hnext] at hdone hwhole hlength
      obtain ⟨rfl, hcomplete⟩ := CountMsg.done.inj (List.mem_singleton.mp hdone)
      obtain ⟨hbefore, hreports, hdefects⟩ := hwhole hcomplete.symm rfl fun s kg h => by
        obtain ⟨c', hc', -⟩ := h
        cases hc'
      refine ⟨hbefore, hreports, hdefects, ?_⟩
      rw [hkeys, hlength]
      rfl
    | some c' =>
      rw [hnext] at hdone hwhole hlength
      obtain ⟨hcheck', -, -⟩ := honward.next c' hnext
      rcases List.mem_cons.mp hdone with hprogress | hlater
      · cases hprogress
      · obtain ⟨hcomplete, hreports, hdefects, hn⟩ := ih hcheck' hlater
        obtain ⟨hbefore, hreports', hdefects'⟩ := hwhole hcomplete hreports hdefects
        refine ⟨hbefore, hreports', hdefects', ?_⟩
        rw [hn, hkeys, hlength, Nat.add_assoc]

/-- **An exact count is exact.** -/
theorem countJob_exact (hop : R.operator hex = .ok o) (ho : o.Regular) (hsized : R.Sized o)
    (hcaches : ∀ i, R.Reached (caches i)) {maxParallelism : Int} {stepBytes maxMatches turns n : Nat}
    (hdone : CountMsg.done n true
      ∈ R.countJob caches hex maxParallelism stepBytes maxMatches turns 0 .start 0 true) :
    R.ReadWhole o ∧ n = (R.keysWhere o fun _ => true).length := by
  cases hcheck : o.checkCursor .start with
  | error e =>
    -- A refused start is a failed count.
    cases turns with
    | zero => cases hdone
    | succ turns =>
      have hpage : (R.scanWith hex .start ⟨stepBytes, maxMatches, none⟩
          (fun keys _ => (keys + 1, false)) 0 (caches 0)).1 = .error e := by
        unfold StateReader.scanWith StateReader.page
        rw [hop]
        dsimp only
        rw [hcheck]
      unfold StateReader.countJob at hdone
      rw [hpage] at hdone
      cases List.mem_singleton.mp hdone
  | ok =>
    obtain ⟨-, hreports, hdefects, hn⟩ :=
      countJob_complete hop ho hsized hcaches maxParallelism stepBytes maxMatches hcheck hdone
    rw [reportsFrom_start ho] at hreports
    rw [keysFrom_start ho, Nat.zero_add] at hn
    refine ⟨readWhole_of_reports hreports fun s hs kg hkg => ?_, hn⟩
    by_contra hdefect
    obtain ⟨d, hd⟩ := Option.ne_none_iff_exists'.mp hdefect
    exact hdefect (hdefects s kg (blockFrom_start ho hs hkg hd))

end Counted

/-! ### What the search says -/

/-- Messages of a search that goes to its end: together they hold `keys`, in order. -/
inductive Reports : List KeyRecord → List SearchMsg → Prop
  | last (found : List KeyRecord) (unreadable : List Unreadable) (malformed : List Text) :
    Reports found [.page found none unreadable malformed]
  | more (found : List KeyRecord) (next : Cursor) (unreadable : List Unreadable)
    (malformed : List Text) {keys : List KeyRecord} {msgs : List SearchMsg} (h : Reports keys msgs) :
    Reports (found ++ keys) (.page found (some next) unreadable malformed :: msgs)

section Searched

variable {R : StateReader} {o : OpenOperator} {hex : Text} {caches : Nat → BlockCache}
  {test : Text → Bool}

variable (test) in
/-- What a search finds in one call, and what is left. -/
theorem searched_onward (hop : R.operator hex = .ok o) (ho : o.Regular) (hsized : R.Sized o)
    {cache : BlockCache} (hcache : R.Reached cache) {c : Cursor} (hcheck : o.checkCursor c = .ok ())
    (maxMatches : Nat) :
    ∃ page, (R.scanWith hex c ⟨1, maxMatches, none⟩ (fun t key => (t, test key)) () cache).1
        = .ok page
      ∧ (R.keysFrom o (some c)).filter (fun r => test r.key)
        = page.found.1 ++ (R.keysFrom o page.next).filter (fun r => test r.key)
      ∧ ∀ c' ∈ page.next, o.checkCursor c' = .ok () ∧ weight (o.ahead c') < weight (o.ahead c) := by
  obtain ⟨page, taken, hpage, honward, hfound⟩ := scanWith_onward hop ho hsized hcache hcheck 1
    maxMatches (fun (t : Unit) key => (t, test key)) ()
  have hone : page.found.1 = (taken.filterMap R.recordOf).filter fun r => test r.key := by
    have htest : ∀ (t : Unit) key, (t, test key).2 = test key := fun _ _ => rfl
    rw [hfound, scanKeys_filter htest]
    rfl
  refine ⟨page, hpage, ?_, fun c' hc' => ?_⟩
  · rw [honward.keys, List.filter_append, hone]
  · obtain ⟨hcheck', -, hweight⟩ := honward.next c' hc'
    exact ⟨hcheck', hweight⟩

/-- **The messages of a search** hold what was gathered and the keys its test takes. -/
theorem searchJob_reports (hop : R.operator hex = .ok o) (ho : o.Regular) (hsized : R.Sized o)
    (hcaches : ∀ i, R.Reached (caches i)) {stepBytes maxMatches turns call : Nat} {c : Cursor}
    (hcheck : o.checkCursor c = .ok ()) {batch : SearchBatch} {msgs : List SearchMsg}
    (hmsgs : R.searchJob caches hex test stepBytes maxMatches turns call c batch = some msgs) :
    Reports (batch.found ++ (R.keysFrom o (some c)).filter fun r => test r.key) msgs := by
  induction turns generalizing call c batch msgs with
  | zero => cases hmsgs
  | succ turns ih =>
    obtain ⟨page, hpage, hkeys, hnext⟩ :=
      searched_onward test hop ho hsized (hcaches call) hcheck maxMatches
    unfold StateReader.searchJob at hmsgs
    rw [hpage] at hmsgs
    dsimp only at hmsgs
    rw [hkeys]
    cases hlast : page.next with
    | none =>
      rw [hlast] at hmsgs
      obtain rfl := Option.some.inj hmsgs
      have hnil : R.keysFrom o none = [] := rfl
      rw [hnil, List.filter_nil, List.append_nil]
      exact .last _ _ _
    | some c' =>
      rw [hlast] at hmsgs
      obtain ⟨hcheck', -⟩ := hnext c' hlast
      dsimp only at hmsgs
      rw [← List.append_assoc]
      by_cases hsend : stepBytes ≤ (batch.add page).bytes
          ∨ searchBatchMatches ≤ (batch.add page).found.length
      · -- A message is sent, and the search starts gathering anew.
        rw [if_pos hsend] at hmsgs
        obtain ⟨later, hlater, rfl⟩ := Option.map_eq_some_iff.mp hmsgs
        exact .more _ _ _ _ (ih hcheck' hlater)
      · rw [if_neg hsend] at hmsgs
        exact ih hcheck' hmsgs

/-- **Every search ends.** -/
theorem exists_searchJob (hop : R.operator hex = .ok o) (ho : o.Regular) (hsized : R.Sized o)
    (hcaches : ∀ i, R.Reached (caches i)) (stepBytes maxMatches : Nat) {c : Cursor}
    (hcheck : o.checkCursor c = .ok ()) (call : Nat) (batch : SearchBatch) :
    ∃ turns msgs, R.searchJob caches hex test stepBytes maxMatches turns call c batch
      = some msgs := by
  induction hweight : weight (o.ahead c) using Nat.strong_induction_on
    generalizing c call batch with
  | _ n ih =>
    obtain ⟨page, hpage, -, hnext⟩ :=
      searched_onward test hop ho hsized (hcaches call) hcheck maxMatches
    cases hlast : page.next with
    | none =>
      refine ⟨1, [(batch.add page).msg none], ?_⟩
      unfold StateReader.searchJob
      rw [hpage]
      dsimp only
      rw [hlast]
    | some c' =>
      obtain ⟨hcheck', hless⟩ := hnext c' hlast
      by_cases hsend : stepBytes ≤ (batch.add page).bytes
          ∨ searchBatchMatches ≤ (batch.add page).found.length
      · obtain ⟨turns, msgs, hmsgs⟩ := ih _ (hweight ▸ hless) hcheck' (call + 1) .empty rfl
        refine ⟨turns + 1, (batch.add page).msg (some c') :: msgs, ?_⟩
        unfold StateReader.searchJob
        rw [hpage]
        dsimp only
        rw [hlast]
        dsimp only
        rw [if_pos hsend, hmsgs]
        rfl
      · obtain ⟨turns, msgs, hmsgs⟩ := ih _ (hweight ▸ hless) hcheck' (call + 1) (batch.add page) rfl
        refine ⟨turns + 1, msgs, ?_⟩
        unfold StateReader.searchJob
        rw [hpage]
        dsimp only
        rw [hlast]
        dsimp only
        rw [if_neg hsend, hmsgs]

end Searched

end FlinkExplorer
