import FlinkExplorer.Reader.KeyPages
import Mathlib.Algebra.Order.BigOperators.Group.List

namespace FlinkExplorer

open Lib

/-!
# A chain of `scan_with` calls

* `scanKeys` — what testing a list of keys one after the other gives, said without cursors;
* `scanWith_chain_exact` — a chain of `scan_with` calls from `cursor_at`, whatever budgets and match
  caps its calls have, ends and gives that of the keys in its range; its progress never goes back.
-/

/-- Test keys in order: the keys a test takes, and the state it ends in. -/
def scanKeys {τ : Type} (test : τ → Text → τ × Bool) :
    List KeyRecord → List KeyRecord × τ → List KeyRecord × τ
  | [], found => found
  | r :: rs, found =>
    let tested := test found.2 r.key
    scanKeys test rs (if tested.2 then found.1 ++ [r] else found.1, tested.1)

/-- A test that keeps no state takes the keys it holds of. -/
theorem scanKeys_filter {τ : Type} {test : τ → Text → τ × Bool} {holds : Text → Bool}
    (htest : ∀ t key, (test t key).2 = holds key) (rs : List KeyRecord)
    (found : List KeyRecord × τ) :
    (scanKeys test rs found).1 = found.1 ++ rs.filter fun r => holds r.key := by
  induction rs generalizing found with
  | nil => exact (List.append_nil _).symm
  | cons r rs ih =>
    rw [scanKeys, ih, htest]
    by_cases hholds : holds r.key = true
    · rw [List.filter_cons_of_pos (by exact hholds), if_pos hholds, List.append_assoc]
      rfl
    · rw [List.filter_cons_of_neg (by exact hholds), if_neg hholds]

/-- A test that notes what it is asked is asked each key, in order. -/
theorem scanKeys_noted {holds : Text → Bool} (rs : List KeyRecord)
    (found : List KeyRecord × List Text) :
    (scanKeys (fun seen key => (seen ++ [key], holds key)) rs found).2
      = found.2 ++ rs.map (·.key) := by
  induction rs generalizing found with
  | nil => exact (List.append_nil _).symm
  | cons r rs ih => rw [scanKeys, ih, List.map_cons, List.append_assoc, List.singleton_append]

section Scan

variable {R : StateReader} {o : OpenOperator} {τ : Type} {test : τ → Text → τ × Bool}

theorem gather_scan (opts : ScanOptions) (events : List Event) (found : List KeyRecord × τ) :
    events.foldl (R.scanWalk opts test).gather found
      = scanKeys test (events.filterMap R.recordOf) found := by
  induction events generalizing found with
  | nil => rfl
  | cons e events ih =>
    rw [List.foldl_cons, ih]
    cases e with
    | key s header kg ord raw =>
      have hrecord : R.recordOf (.key s header kg ord raw) = some (R.record s header kg ord raw) :=
        rfl
      rw [List.filterMap_cons_some hrecord, scanKeys]
      rfl
    | report why =>
      have hrecord : R.recordOf (.report why) = none := rfl
      rw [List.filterMap_cons_none hrecord]
      rfl

/-- What the pages found, and the state the test is in after them. -/
def scanned (calls : List (Cursor × Page (List KeyRecord × τ))) (t : τ) : List KeyRecord × τ :=
  (calls.flatMap (·.2.found.1), calls.foldl (fun _ call => call.2.found.2) t)

theorem foldl_scanned (calls : List (Cursor × Page (List KeyRecord × τ)))
    (found : List KeyRecord × τ) :
    calls.foldl (fun found call => (found.1 ++ call.2.found.1, call.2.found.2)) found
      = (found.1 ++ (scanned calls found.2).1, (scanned calls found.2).2) := by
  induction calls generalizing found with
  | nil => simp [scanned]
  | cons call calls ih =>
    rw [List.foldl_cons, ih]
    simp [scanned]

/-! ### Where a scan starts and where it is -/

theorem checkCursor_cursorAt {op : Text} (hop : R.operator op = .ok o) {first : UInt16}
    (hfirst : (first.toNat : Int) < o.numKeyGroups) :
    ∃ c, R.cursorAt op first = .ok c ∧ c.keyGroup = first ∧ c.ordinal = 0
      ∧ o.checkCursor c = .ok () := by
  have hbelow : ¬ (first.toNat : Int) ≥ max o.maxParallelism 1 := not_le.mpr hfirst
  unfold StateReader.cursorAt
  rw [hop]
  refine ⟨_, rfl, rfl, rfl, ?_⟩
  unfold OpenOperator.checkCursor
  dsimp only
  rw [if_neg hbelow]
  cases hunit : o.ctx.unitOf first.toNat with
  | none => rfl
  | some u =>
    dsimp only
    rw [if_neg (not_not.mpr rfl)]

theorem bytesIn_mono (s : SubtaskStream) (first : Int) {a b : Int} (hab : a ≤ b) :
    StateReader.bytesIn s first a ≤ StateReader.bytesIn s first b := by
  unfold StateReader.bytesIn
  refine List.sum_le_sum fun i _ => ?_
  dsimp only
  by_cases ha : s.startKeyGroup + (i : Int) < first ∨ s.startKeyGroup + (i : Int) > a
  · rw [if_pos ha]
    exact Nat.zero_le _
  · have hb : ¬ (s.startKeyGroup + (i : Int) < first ∨ s.startKeyGroup + (i : Int) > b) := by omega
    rw [if_neg ha, if_neg hb]

/-- The progress of a scan that has come to a key-group. -/
def progressBelow (o : OpenOperator) (first last doneBelow : Int) : Progress where
  keyGroupsDone := (min doneBelow (last + 1) - first).toNat
  keyGroupsTotal := (last - first + 1).toNat
  bytesDone :=
    (o.ctx.streams.map fun s =>
      StateReader.bytesIn s first (min last (min doneBelow (last + 1) - 1))).sum
  bytesTotal := (o.ctx.streams.map fun s => StateReader.bytesIn s first last).sum

/-- One progress is not behind another. -/
structure Progress.Le (p q : Progress) : Prop where
  keyGroups : p.keyGroupsDone ≤ q.keyGroupsDone
  bytes : p.bytesDone ≤ q.bytesDone
  keyGroupsTotal : p.keyGroupsTotal = q.keyGroupsTotal
  bytesTotal : p.bytesTotal = q.bytesTotal

/-- A progress within its totals. -/
structure Progress.Within (p : Progress) : Prop where
  keyGroups : p.keyGroupsDone ≤ p.keyGroupsTotal
  bytes : p.bytesDone ≤ p.bytesTotal

/-- The progress of a scan that is over. -/
structure Progress.Over (p : Progress) : Prop where
  keyGroups : p.keyGroupsDone = p.keyGroupsTotal
  bytes : p.bytesDone = p.bytesTotal

/-- The last key-group of a range. -/
def OpenOperator.rangeEnd (o : OpenOperator) (last : Option UInt16) : Int :=
  last.elim (max o.maxParallelism 1 - 1) fun l => min (l.toNat : Int) (max o.maxParallelism 1 - 1)

/-- **The progress at a cursor.** -/
theorem progress_eq {op : Text} (hop : R.operator op = .ok o) (at' : Option Cursor) (first : UInt16)
    (last : Option UInt16) :
    R.progress op at' first last
      = .ok (if o.rangeEnd last < first.toNat then ⟨0, 0, 0, 0⟩
        else progressBelow o first.toNat (o.rangeEnd last)
          (at'.elim (o.rangeEnd last + 1) fun c => c.keyGroup.toNat)) := by
  have hstart : R.progress op at' first last
      = if o.rangeEnd last < first.toNat then .ok ⟨0, 0, 0, 0⟩
        else .ok {
          keyGroupsTotal := (o.rangeEnd last - first.toNat + 1).toNat
          keyGroupsDone := (at'.elim (o.rangeEnd last + 1)
            (fun c => min (c.keyGroup.toNat : Int) (o.rangeEnd last + 1)) - first.toNat).toNat
          bytesTotal :=
            (o.ctx.streams.map fun s => StateReader.bytesIn s first.toNat (o.rangeEnd last)).sum
          bytesDone := (o.ctx.streams.map fun s => StateReader.bytesIn s first.toNat
            (min (o.rangeEnd last) (at'.elim (o.rangeEnd last + 1)
              (fun c => min (c.keyGroup.toNat : Int) (o.rangeEnd last + 1)) - 1))).sum } := by
    unfold StateReader.progress
    rw [hop]
    rfl
  rw [hstart]
  by_cases hempty : o.rangeEnd last < first.toNat
  · rw [if_pos hempty, if_pos hempty]
  · rw [if_neg hempty, if_neg hempty]
    cases at' with
    | none => simp [progressBelow]
    | some c => rfl

theorem progressBelow_le {first last a b : Int} (hab : min a (last + 1) ≤ min b (last + 1)) :
    (progressBelow o first last a).Le (progressBelow o first last b) where
  keyGroups := by
    simp only [progressBelow]
    omega
  bytes := List.sum_le_sum fun s _ => bytesIn_mono s first (by omega)
  keyGroupsTotal := rfl
  bytesTotal := rfl

theorem progressBelow_within (first last doneBelow : Int) :
    (progressBelow o first last doneBelow).Within where
  keyGroups := by
    simp only [progressBelow]
    omega
  bytes := List.sum_le_sum fun s _ => bytesIn_mono s first (min_le_left _ _)

theorem progressBelow_over (first last : Int) : (progressBelow o first last (last + 1)).Over where
  keyGroups := by
    simp only [progressBelow, min_self]
    congr 1
    omega
  bytes := by
    simp only [progressBelow, min_self, add_sub_cancel_right]

/-! ### The chain -/

variable {op : Text} {caches : Nat → BlockCache}

/-- The key-groups of a scan. -/
def inScan (first : UInt16) (last : Option UInt16) (kg : Int) : Bool :=
  decide ((first.toNat : Int) ≤ kg) && last.all fun l => decide (kg ≤ l.toNat)

/-- The progress from one cursor of a scan to the next. -/
theorem progress_next (hop : R.operator op = .ok o) (first : UInt16) (last : Option UInt16)
    (c : Cursor) (next : Option Cursor) (hnext : ∀ c' ∈ next, c.Before c') :
    ∃ p q, R.progress op (some c) first last = .ok p ∧ R.progress op next first last = .ok q
      ∧ p.Le q ∧ p.Within ∧ q.Within ∧ (next = none → q.Over) := by
  refine ⟨_, _, progress_eq hop (some c) first last, progress_eq hop next first last, ?_⟩
  by_cases hempty : o.rangeEnd last < first.toNat
  · rw [if_pos hempty, if_pos hempty]
    exact ⟨⟨le_rfl, le_rfl, rfl, rfl⟩, ⟨le_rfl, le_rfl⟩, ⟨le_rfl, le_rfl⟩, fun _ => ⟨rfl, rfl⟩⟩
  · rw [if_neg hempty, if_neg hempty]
    refine ⟨progressBelow_le ?_, progressBelow_within _ _ _, progressBelow_within _ _ _, ?_⟩
    · cases next with
      | none => simp
      | some c' =>
        have hle : c.keyGroup.toNat ≤ c'.keyGroup.toNat := by
          rcases hnext c' rfl with hlt | ⟨heq, -⟩
          · exact hlt.le
          · rw [heq]
        simp only [Option.elim_some]
        omega
    · rintro rfl
      exact progressBelow_over _ _

/-- **A chain of `scan_with` calls is exact.**  From a key-group of the operator, whatever budgets
    and match caps its calls have, and whatever was called between them, it ends; its calls test
    every key of every readable block of the range once, in order, and give those the test takes;
    its progress never goes back, stays within its totals, and ends at them. -/
theorem scanWith_chain_exact (hop : R.operator op = .ok o) (ho : o.Regular) (hsized : R.Sized o)
    (hcaches : ∀ i, R.Reached (caches i)) (budgets caps : Nat → Nat) (first : UInt16)
    (hfirst : (first.toNat : Int) < o.maxParallelism) (last : Option UInt16)
    (test : τ → Text → τ × Bool) (t : τ) :
    ∃ c, R.cursorAt op first = .ok c
      ∧ (∃ calls, Chain (fun i c found =>
        (R.scanWith op c ⟨budgets i, caps i, last⟩ test found.2 (caches i)).1) 0 c ([], t) calls)
      ∧ ∀ calls, Chain (fun i c found =>
        (R.scanWith op c ⟨budgets i, caps i, last⟩ test found.2 (caches i)).1) 0 c ([], t) calls →
        scanned calls t = scanKeys test (R.keysWhere o (inScan first last)) ([], t)
        ∧ (R.keysWhere o (inScan first last)).Pairwise (fun a b => a.position.Before b.position)
        ∧ (∀ holds : Text → Bool, (∀ t key, (test t key).2 = holds key) →
          calls.flatMap (·.2.found.1)
            = (R.keysWhere o (inScan first last)).filter fun r => holds r.key)
        ∧ ∀ call ∈ calls, ∃ p q, R.progress op (some call.1) first last = .ok p
          ∧ R.progress op call.2.next first last = .ok q
          ∧ p.Le q ∧ p.Within ∧ q.Within ∧ (call.2.next = none → q.Over) := by
  have hgroups : (first.toNat : Int) < o.numKeyGroups := lt_of_lt_of_le hfirst (le_max_left _ _)
  obtain ⟨c, hc, hkg, hordinal, hcheck⟩ := checkCursor_cursorAt hop hgroups
  -- Every call is a walk that differs from the first in its budget and cap alone.
  have hcall : ∀ i c (found : List KeyRecord × τ), ∃ w keep cache,
      Walk.Alike w (R.scanWalk ⟨0, 0, last⟩ test) ∧ R.Sound cache
      ∧ ¬ w.full ([], found.2) = true
      ∧ (R.scanWith op c ⟨budgets i, caps i, last⟩ test found.2 (caches i)).1
        = (R.page op c w keep c.ordinal ([], found.2) cache).1 := by
    intro i c found
    refine ⟨R.scanWalk ⟨budgets i, caps i, last⟩ test, false, caches i, ⟨rfl, rfl⟩,
      (hcaches i).sound, ?_, rfl⟩
    simp [StateReader.scanWalk]
  obtain ⟨calls, events, hchain, hchained⟩ :=
    exists_chained hop ho hsized hcall 0 c hcheck ([], t)
  refine ⟨c, hc, ⟨calls, hchain⟩, fun calls' hchain' => ?_⟩
  obtain rfl := hchain.unique hchain'
  have hahead : o.ahead c = positions first.toNat o.ctx.units := by
    unfold OpenOperator.ahead
    rw [hkg, hordinal]
    exact startAt_zero ho.laidOut _
  -- The keys of the events are those of the range asked for.
  have hkeys : events.filterMap R.recordOf = R.keysWhere o (inScan first last) := by
    rw [hchained.events_eq, hahead, keysWhere_eq _ ho]
    congr 1
    funext kg
    unfold inScan Walk.past
    cases last with
    | none => rfl
    | some l =>
      have hnot : (!decide ((l.toNat : Int) < kg)) = decide (kg ≤ l.toNat) := by
        rw [← decide_not]
        exact decide_eq_decide.mpr not_lt
      simp [StateReader.scanWalk, hnot]
  -- The test sees them in that order, its state handed from call to call.
  have hscanned : scanned calls t = scanKeys test (R.keysWhere o (inScan first last)) ([], t) := by
    have hfound := hchained.found_eq (fun a b => (a.1 ++ b.1, b.2)) (fun a => by simp)
      (fun a b e => by
        cases e with
        | key s header kg ord raw =>
          simp only [Walk.gather, StateReader.scanWalk]
          by_cases htaken : (test b.2 raw.key).2 = true
          · rw [if_pos htaken, if_pos htaken, List.append_assoc]
          · rw [if_neg htaken, if_neg htaken]
        | report why => rfl)
      (fun _ _ => rfl) ([], t) rfl
    rw [foldl_scanned, gather_scan, hkeys, List.nil_append] at hfound
    exact hfound
  refine ⟨hscanned, keysWhere_sorted ho hsized _, fun holds hholds => ?_, fun call hmem => ?_⟩
  · have hfound : calls.flatMap (·.2.found.1) = (scanned calls t).1 := rfl
    rw [hfound, hscanned, scanKeys_filter hholds, List.nil_append]
  · exact progress_next hop first last call.1 call.2.next fun c' hc' =>
      (hchained.next call hmem c' hc').1

/-- A scan of the one key, with no budget. -/
theorem scanWith_chain_exact_sample :
    ∃ c calls, (sampleReader 1).cursorAt "01".toList 0 = .ok c
      ∧ Chain (fun _ c found => ((sampleReader 1).scanWith "01".toList c ⟨0, 0, none⟩
        (fun seen key => (seen ++ [key], true)) found.2 (.empty 0)).1) 0 c ([], []) calls
      ∧ (scanned calls []).2 = ["7".toList] := by
  have hop : (sampleReader 1).operator "01".toList = .ok (sampleOperator 1) := rfl
  have hcaches : ∀ i : Nat, (sampleReader 1).Reached ((fun _ => .empty 0) i) := fun _ => ⟨0, [], rfl⟩
  obtain ⟨c, hc, ⟨calls, hchain⟩, hall⟩ := scanWith_chain_exact hop regular_sampleOperator
    sized_sampleReader hcaches (fun _ => 0) (fun _ => 0) 0 (by decide) none
    (fun seen key => (seen ++ [key], true)) []
  refine ⟨c, calls, hc, hchain, ?_⟩
  rw [(hall calls hchain).1, scanKeys_noted, List.nil_append]
  decide +kernel

/-- A scan from a key-group the operator does not have is refused. -/
theorem scanWith_refused :
    ∃ c, (sampleReader 1).cursorAt "01".toList 5 = .ok c
      ∧ ∀ calls, ¬ Chain (fun _ c (found : List KeyRecord × Unit) =>
        ((sampleReader 1).scanWith "01".toList c ⟨0, 0, none⟩ (fun t _ => (t, true)) found.2
          (.empty 0)).1) 0 c ([], ()) calls := by
  refine ⟨_, rfl, fun calls hchain => ?_⟩
  cases hchain with
  | last hcall hnext => cases hcall
  | more hcall hnext hrest => cases hcall

end Scan

end FlinkExplorer
