import FlinkExplorer.Lib.Scroll
import FlinkExplorer.Reader.Consecutive
import FlinkExplorer.Tui.Total

namespace FlinkExplorer

open Lib

/-!
# `tui/tree.rs` — sequences that are paged

The keys of an operator, or those of a key-group range, are paged from front to back, and a range may
be paged from the first key on when its start cannot be sought.

* `StateReader.rangeOrder` — the operator's key order, restricted to a range;
* `KeySeq.Browsed` — a sequence that has come to some place of it; `Browsed.add` — a page takes it
  further;
* `browsed_rangeSeq` — the sequence of a range starts so;
* `Browsed.run` — positions of a sequence that follow each other are keys that do;
* `exists_discover` — paging comes to an end.
-/

/-- Whether a key-group range takes a position. -/
def covers (lo : UInt16) (hi : Option UInt16) (c : Cursor) : Bool :=
  !(hi.any fun s => c.keyGroup > s) && decide (lo ≤ c.keyGroup)

section Browsed

variable (R : StateReader) (o : OpenOperator) (lo : UInt16) (hi : Option UInt16)

/-- The operator's key order, restricted to a key-group range. -/
def StateReader.rangeOrder : List Cursor := (R.keyOrder o).filter (covers lo hi)

/-- **A sequence of the keys of a range**: those it holds and those from `next` on are all. -/
structure KeySeq.Browsed (seq : KeySeq) : Prop where
  isMatches : seq.isMatches = false
  startKg : seq.startKg = lo
  stopKg : seq.stopKg = hi
  keys : R.rangeOrder o lo hi = seq.positions ++ (R.orderFrom o seq.next).filter (covers lo hi)
  rest : R.orderFrom o seq.next <:+ R.keyOrder o
  next : ∀ c ∈ seq.next, o.checkCursor c = .ok ()

end Browsed

variable {R R' : StateReader} {o : OpenOperator} {op : Text} {lo : UInt16} {hi : Option UInt16}
  {seq : KeySeq}

/-! ### Ranges -/

/-- Where a range has ended it has ended for good, and where it has begun it has begun. -/
theorem covers_ascending (lo : UInt16) (hi : Option UInt16) {ps : List Cursor}
    (h : ps.Pairwise fun c d => c.keyGroup ≤ d.keyGroup) :
    (ps.Pairwise fun c d => (!(hi.any fun s => d.keyGroup > s)) = true →
        (!(hi.any fun s => c.keyGroup > s)) = true)
      ∧ ps.Pairwise fun c d => decide (lo ≤ c.keyGroup) = true → decide (lo ≤ d.keyGroup) = true := by
  constructor
  · refine h.imp fun {c d} hle hd => ?_
    cases hi with
    | none => rfl
    | some s =>
      simp only [Option.any_some, Bool.not_eq_true', decide_eq_false_iff_not, UInt16.not_lt] at hd ⊢
      exact UInt16.le_trans hle hd
  · exact h.imp fun hle hc => decide_eq_true (UInt16.le_trans (of_decide_eq_true hc) hle)

/-- The keys of a range lie together in the order of keys. -/
theorem rangeOrder_together (ho : o.Regular) (hsized : R.Sized o) (lo : UInt16) (hi : Option UInt16) :
    R.rangeOrder o lo hi <:+: R.keyOrder o := by
  obtain ⟨hpast, hbefore⟩ := covers_ascending lo hi (keyOrder_ascending ho hsized (R := R))
  exact filter_together hpast hbefore

theorem rangeOrder_all : R.rangeOrder o 0 none = R.keyOrder o := by
  unfold StateReader.rangeOrder
  rw [List.filter_eq_self]
  intro c _
  have hle : (0 : UInt16) ≤ c.keyGroup := UInt16.zero_le
  exact decide_eq_true hle

/-- The keys of a page that are in the range of a sequence, as positions. -/
theorem map_inRange (seq : KeySeq) {rs : List KeyRecord} (hkg : ∀ r ∈ rs, r.keyGroup = r.position.keyGroup)
    (hascending : (rs.map (·.position)).Pairwise fun c d => c.keyGroup ≤ d.keyGroup) :
    (seq.inRange rs).map (·.position)
      = (rs.map (·.position)).filter (covers seq.startKg seq.stopKg) := by
  obtain ⟨hpast, -⟩ := covers_ascending seq.startKg seq.stopKg hascending
  rw [List.pairwise_map] at hpast
  have hsame : ∀ r ∈ rs, (!seq.past r) = !(seq.stopKg.any fun s => r.position.keyGroup > s) := by
    intro r hr
    unfold KeySeq.past
    rw [hkg r hr]
  have hfront : (rs.takeWhile fun r => !seq.past r)
      = rs.filter fun r => !(seq.stopKg.any fun s => r.position.keyGroup > s) := by
    rw [filter_eq_takeWhile hpast]
    clear hpast hascending
    induction rs with
    | nil => rfl
    | cons r rs ih =>
      rw [List.takeWhile_cons, List.takeWhile_cons, hsame r List.mem_cons_self,
        ih (fun r hr => hkg r (List.mem_cons_of_mem _ hr)) fun r hr =>
          hsame r (List.mem_cons_of_mem _ hr)]
  unfold KeySeq.inRange
  rw [hfront, List.filter_filter, List.filter_map]
  congr 1
  refine List.filter_congr fun r hr => ?_
  rw [hkg r hr]
  exact Bool.and_comm _ _

/-! ### Another reader -/

theorem StateReader.SameSavepoint.orderFrom (h : R.SameSavepoint R') (c : Option Cursor) :
    R'.orderFrom o c = R.orderFrom o c := by
  unfold StateReader.orderFrom StateReader.keysFrom
  rw [h.eventsFrom, map_position_records, map_position_records]

theorem StateReader.SameSavepoint.keyOrder (h : R.SameSavepoint R') (ho : o.Regular) :
    R'.keyOrder o = R.keyOrder o := h.positions ho

theorem KeySeq.Browsed.same (ho : o.Regular) (h : seq.Browsed R o lo hi) (hsame : R.SameSavepoint R') :
    seq.Browsed R' o lo hi := by
  have horder := hsame.keyOrder ho
  have hfrom := hsame.orderFrom (o := o) seq.next
  refine ⟨h.isMatches, h.startKg, h.stopKg, ?_, ?_, h.next⟩
  · unfold StateReader.rangeOrder
    rw [horder, hfrom]
    exact h.keys
  · rw [horder, hfrom]
    exact h.rest

/-! ### Pages of a sequence -/

/-- **A page takes a sequence further.** -/
theorem KeySeq.Browsed.add (ho : o.Regular) (hsized : R.Sized o) (h : seq.Browsed R o lo hi)
    {c : Cursor} (hnext : seq.next = some c) {found : List KeyRecord} {next : Option Cursor}
    (hkg : ∀ r ∈ found, r.keyGroup = r.position.keyGroup)
    (hfound : R.orderFrom o (some c) = found.map (·.position) ++ R.orderFrom o next)
    (hcheck : ∀ c' ∈ next, o.checkCursor c' = .ok ()) :
    (seq.add found next).Browsed R o lo hi := by
  have hrest := h.rest
  rw [hnext, hfound] at hrest
  -- key-groups ascend along the order, so the keys of the range are a prefix of what is left of it
  have hascending : (found.map (·.position) ++ R.orderFrom o next).Pairwise
      fun c d => c.keyGroup ≤ d.keyGroup := (keyOrder_ascending ho hsized).sublist hrest.sublist
  obtain ⟨hfirst, -, hacross⟩ := List.pairwise_append.mp hascending
  have htaken := map_inRange seq hkg hfirst
  rw [h.startKg, h.stopKg] at htaken
  have hkeys : R.rangeOrder o lo hi = (seq.add found next).positions
      ++ (R.orderFrom o next).filter (covers lo hi) := by
    have hpositions : (seq.add found next).positions
        = seq.positions ++ (seq.inRange found).map (·.position) := rfl
    rw [h.keys, hnext, hfound, List.filter_append, hpositions, htaken, List.append_assoc]
  by_cases hend : found.any seq.past = true
  · -- The range ended in this page, and what follows is past it too.
    have hnone : (seq.add found next).next = none := if_pos hend
    obtain ⟨r, hr, hpast⟩ := List.any_eq_true.mp hend
    have hover : (R.orderFrom o next).filter (covers lo hi) = [] := by
      rw [List.filter_eq_nil_iff]
      intro d hd hcovers
      have hle := hacross r.position (List.mem_map_of_mem hr) d hd
      unfold KeySeq.past at hpast
      rw [h.stopKg, hkg r hr] at hpast
      unfold covers at hcovers
      cases hi with
      | none => cases hpast
      | some s =>
        simp only [Option.any_some, decide_eq_true_eq, Bool.and_eq_true, Bool.not_eq_true',
          decide_eq_false_iff_not, UInt16.not_lt] at hpast hcovers
        exact absurd (UInt16.le_trans hle hcovers.1) (UInt16.not_le.mpr hpast)
    refine ⟨h.isMatches, h.startKg, h.stopKg, ?_, ?_, ?_⟩
    · rw [hnone, hkeys, hover]
      rfl
    · rw [hnone]
      exact List.nil_suffix
    · rw [hnone]
      intro c' hc'
      cases hc'
  -- The range goes on, and the page's cursor is where the rest starts.
  · have hsome : (seq.add found next).next = next := if_neg hend
    refine ⟨h.isMatches, h.startKg, h.stopKg, ?_, ?_, ?_⟩
    · rw [hsome, hkeys]
    · rw [hsome]
      exact (List.suffix_append _ _).trans hrest
    · rw [hsome]
      exact hcheck

/-- Where a sequence is scrolled to does not matter. -/
theorem KeySeq.Browsed.moved (h : seq.Browsed R o lo hi) (offset : Nat) :
    ({ seq with offset := offset } : KeySeq).Browsed R o lo hi :=
  ⟨h.isMatches, h.startKg, h.stopKg, h.keys, h.rest, h.next⟩

/-- The sequence of all keys, before any is paged. -/
theorem browsed_start (ho : o.Regular) (hcheck : o.checkCursor .start = .ok ()) :
    (KeySeq.browse .start).Browsed R o 0 none where
  isMatches := rfl
  startKg := rfl
  stopKg := rfl
  keys := by
    have hnext : (KeySeq.browse .start).next = some .start := rfl
    rw [hnext, orderFrom_start ho]
    rfl
  rest := by
    have hnext : (KeySeq.browse .start).next = some .start := rfl
    rw [hnext, orderFrom_start ho]
  next := by
    intro c hc
    obtain rfl := Option.some.inj hc
    exact hcheck

/-- **The sequence of a range**, whether its start could be sought or not. -/
theorem browsed_rangeSeq (hop : R.operator op = .ok o) (ho : o.Regular) (hsized : R.Sized o)
    (hcheck : o.checkCursor .start = .ok ()) {k : KeyedSnapshot} (hhex : k.opHex = op)
    (maxParallelism parallelism : Int) (start stop : UInt16) (cache : BlockCache) :
    (k.rangeSeq R maxParallelism parallelism start stop cache).Browsed R o start (some stop) := by
  unfold KeyedSnapshot.rangeSeq
  dsimp only
  -- The first call decides: a cursor at the range's first key-group, or a walk from the start.
  by_cases hsought : (R.keyPage k.opHex
      ⟨subtaskForKeyGroup maxParallelism parallelism start.toNat, start, 0⟩ 1 cache).1.isOk = true
  · rw [if_pos hsought]
    let from' : Cursor := ⟨subtaskForKeyGroup maxParallelism parallelism start.toNat, start, 0⟩
    have hfrom : R.orderFrom o (some from')
        = (R.keyOrder o).filter fun d => decide (start ≤ d.keyGroup) := orderFrom_keyGroup ho rfl
    obtain ⟨-, hbefore⟩ := covers_ascending start none
      (keyOrder_ascending ho hsized (R := R))
    refine ⟨rfl, rfl, rfl, ?_, ?_, ?_⟩
    · show R.rangeOrder o start (some stop)
        = [] ++ (R.orderFrom o (some from')).filter (covers start (some stop))
      rw [hfrom, List.filter_filter, List.nil_append]
      refine List.filter_congr fun c _ => ?_
      unfold covers
      rw [Bool.and_assoc, Bool.and_self]
    · show R.orderFrom o (some from') <:+ R.keyOrder o
      rw [hfrom]
      exact filter_suffix hbefore
    · intro c hc
      obtain rfl := Option.some.inj hc
      rw [hhex] at hsought
      cases hrefused : o.checkCursor from' with
      | ok => rfl
      | error e =>
        -- a cursor the reader refuses would have failed that call
        rw [keyPage_refused hop hrefused] at hsought
        cases hsought
  · rw [if_neg hsought]
    refine ⟨rfl, rfl, rfl, ?_, ?_, ?_⟩
    · show R.rangeOrder o start (some stop)
        = [] ++ (R.orderFrom o (some .start)).filter (covers start (some stop))
      rw [orderFrom_start ho]
      rfl
    · show R.orderFrom o (some .start) <:+ R.keyOrder o
      rw [orderFrom_start ho]
    · intro c hc
      obtain rfl := Option.some.inj hc
      exact hcheck

/-- A page that is asked for where a sequence goes on. -/
theorem browsed_pageIn (hop : R.operator op = .ok o) (ho : o.Regular) (hsized : R.Sized o)
    (hsame : R.SameSavepoint R') {caches : Nat → BlockCache} (hcaches : ∀ i, R'.Reached (caches i))
    {k : KeyedSnapshot} (hhex : k.opHex = op) (h : k.seq.Browsed R o lo hi) (call limit : Nat)
    {c : Cursor} (hnext : k.seq.next = some c) :
    ∃ page, k.pageAt R' caches call c limit = .ok page
      ∧ (∀ r ∈ page.found, r ∈ R'.keysWhere o fun _ => true)
      ∧ (k.pageIn R' (.ok page)).seq.Browsed R o lo hi
      ∧ ∀ c' ∈ (k.pageIn R' (.ok page)).seq.next, weight (o.ahead c') < weight (o.ahead c) := by
  have hop' : R'.operator op = .ok o := hsame.operator ▸ hop
  have hcheck := h.next c hnext
  obtain ⟨page, taken, hpage, honward, -, hkeys⟩ :=
    keyPage_take hop' ho (hsame.sized hsized) (hcaches call) hcheck limit
  have hmem : ∀ r ∈ page.found, r ∈ R'.keysWhere o fun _ => true := by
    intro r hr
    refine mem_of_mem_keysFrom ho (c := c) ?_
    rw [hkeys]
    exact List.mem_append_left _ hr
  -- a record's key-group is that of its position, which is what the range is cut by
  have hkg : ∀ r ∈ page.found, r.keyGroup = r.position.keyGroup := by
    intro r hr
    obtain ⟨u, hu, hr⟩ := List.mem_flatMap.mp (hmem r hr)
    cases u with
    | failed f => cases hr
    | stream s =>
      obtain ⟨kg, -, hr⟩ := List.mem_flatMap.mp hr
      exact (keyGroup_of_mem_keysOf hr).1
  have hfound : R.orderFrom o (some c) = page.found.map (·.position) ++ R.orderFrom o page.next := by
    rw [← hsame.orderFrom, ← hsame.orderFrom]
    unfold StateReader.orderFrom
    rw [hkeys, List.map_append]
  refine ⟨page, ?_, hmem, ?_, ?_⟩
  · unfold KeyedSnapshot.pageAt
    rw [hhex]
    exact hpage
  · rw [KeyedSnapshot.seq_pageIn_ok]
    exact h.add ho hsized hnext hkg hfound fun c' hc' => (honward.next c' hc').1
  · rw [KeyedSnapshot.seq_pageIn_ok]
    intro c' hc'
    unfold KeySeq.add at hc'
    dsimp only at hc'
    split at hc'
    · cases hc'
    · exact (honward.next c' hc').2.2

/-- **Paging comes to an end.** -/
theorem exists_discover (hop : R.operator op = .ok o) (ho : o.Regular) (hsized : R.Sized o)
    (hsame : R.SameSavepoint R') {caches : Nat → BlockCache} (hcaches : ∀ i, R'.Reached (caches i))
    {k : KeyedSnapshot} (hhex : k.opHex = op) (h : k.seq.Browsed R o lo hi) (call : Nat) :
    ∃ turns k', k.discover R' caches turns call = some k' := by
  -- Each page leaves less in front of the sequence.
  induction hn : (k.seq.next.elim 0 fun c => weight (o.ahead c) + 1) using Nat.strong_induction_on
    generalizing k call with
  | _ n ih =>
    cases hnext : k.seq.next with
    | none =>
      refine ⟨0, (k, call), ?_⟩
      unfold KeyedSnapshot.discover
      simp only [hnext]
    | some c =>
      by_cases hwanted : k.wanted ≤ k.seq.positions.length
      · refine ⟨0, (k, call), ?_⟩
        unfold KeyedSnapshot.discover
        simp only [hnext]
        rw [if_pos hwanted]
      · obtain ⟨page, hpage, -, hbrowsed, hless⟩ := browsed_pageIn hop ho hsized hsame hcaches hhex h
          call (max (k.wanted - k.seq.positions.length) partitionPageSize) hnext
        have hhex' : (k.pageIn R' (.ok page)).opHex = op :=
          (k.pageIn_frame R' (.ok page)).1.trans hhex
        have hsmaller : ((k.pageIn R' (.ok page)).seq.next.elim 0 fun c => weight (o.ahead c) + 1) < n := by
          rw [← hn, hnext, Option.elim_some]
          cases hnext' : (k.pageIn R' (.ok page)).seq.next with
          | none => exact Nat.succ_pos _
          | some c' => exact Nat.succ_lt_succ (hless c' hnext')
        obtain ⟨turns, k', hk'⟩ := ih _ hsmaller hhex' hbrowsed (call + 1) rfl
        refine ⟨turns + 1, k', ?_⟩
        unfold KeyedSnapshot.discover
        simp only [hnext]
        rw [if_neg hwanted, hpage]
        exact hk'

end FlinkExplorer
