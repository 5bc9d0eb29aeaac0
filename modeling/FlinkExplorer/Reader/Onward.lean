import FlinkExplorer.Reader.KeyPages
import Mathlib.Data.List.TakeWhile

namespace FlinkExplorer

open Lib

/-!
# One call after another

A caller that follows `next` by itself, asking for other things in between, needs to know what one
call does to what is left.  For calls without a last key-group:

* `Onward` — a call takes a part of the events from its cursor on, and its `next` stands for the
  others;
* `page_onward` — every call from an accepted cursor does;
* `keysFrom_start`, `reportsFrom_start` — the events from the first cursor on are all there are.
-/

section Onward

variable (R : StateReader) (o : OpenOperator)

/-- The events from a cursor on; after the last page there are none. -/
def StateReader.eventsFrom (c : Option Cursor) : List Event :=
  c.elim [] fun c => R.eventsOf o (o.ahead c)

/-- The keys from a cursor on. -/
def StateReader.keysFrom (c : Option Cursor) : List KeyRecord :=
  (R.eventsFrom o c).filterMap R.recordOf

/-- The reports from a cursor on. -/
def StateReader.reportsFrom (c : Option Cursor) : List Unreadable :=
  (R.eventsFrom o c).filterMap Event.reported

/-- Where the key of an event is. -/
def Event.position : Event → Option Cursor
  | .key s _ kg ord _ => some ⟨s.subtaskIndex, UInt16.ofInt kg, UInt32.ofNat ord⟩
  | .report _ => none

/-- A block at or after a cursor. -/
def OpenOperator.BlockFrom (s : SubtaskStream) (kg : Int) (c : Option Cursor) : Prop :=
  ∃ c' ∈ c, ∃ ord, Position.block s kg ord ∈ o.ahead c'

/-- **What a call does**: `taken` are the events it passes. -/
structure StateReader.Onward {α : Type} (w : Walk α) (c : Cursor) (found : α) (page : Page α)
    (taken : List Event) : Prop where
  events : R.eventsFrom o (some c) = taken ++ R.eventsFrom o page.next
  found : page.found = taken.foldl w.gather found
  unreadable : page.unreadable = taken.filterMap Event.reported
  next : ∀ c' ∈ page.next, o.checkCursor c' = .ok () ∧ c.Before c'
    ∧ weight (o.ahead c') < weight (o.ahead c)
  defects : ∀ s kg, o.BlockFrom s kg (some c) → ∀ d ∈ R.defectOf o s kg,
    d ∈ page.malformed ∨ o.BlockFrom s kg page.next

end Onward

variable {R : StateReader} {o : OpenOperator} {op : Text}

theorem Walk.inRange_all {α : Type} {w : Walk α} (hlast : w.lastKeyGroup = none)
    (ps : List Position) : w.inRange ps = ps := by
  unfold Walk.inRange Walk.past
  rw [hlast]
  exact List.takeWhile_eq_self_iff.mpr fun _ _ => rfl

/-- **A call from an accepted cursor** goes on. -/
theorem page_onward (hop : R.operator op = .ok o) (ho : o.Regular) (hsized : R.Sized o) {α : Type}
    {w : Walk α} (hlast : w.lastKeyGroup = none) (keep : Bool) {cache : BlockCache}
    (hcache : R.Sound cache) {c : Cursor} (hcheck : o.checkCursor c = .ok ()) {found : α}
    (hfull : ¬ w.full found = true) :
    ∃ page taken, (R.page op c w keep c.ordinal found cache).1 = .ok page
      ∧ R.Onward o w c found page taken := by
  obtain ⟨page, taken, rest, hpage, hpassed, hline, hless⟩ :=
    page_passed hop ho hsized hcache hcheck w keep found hfull
  have hevents := hpassed.events
  have hvisited := hpassed.visited
  rw [Walk.inRange_all hlast, Walk.inRange_all hlast] at hevents
  rw [Walk.inRange_all hlast, Walk.inRange_all hlast] at hvisited
  refine ⟨page, taken, hpage, ?_⟩
  -- The next cursor, if there is one, is at what the call leaves.
  have hnext : R.eventsFrom o page.next = R.eventsOf o rest
      ∧ (∀ c' ∈ page.next, o.checkCursor c' = .ok () ∧ c.Before c'
        ∧ weight (o.ahead c') < weight (o.ahead c))
      ∧ ∀ s kg ord, Position.block s kg ord ∈ rest → o.BlockFrom s kg page.next := by
    rw [hpassed.next]
    cases rest with
    | nil =>
      refine ⟨rfl, fun c' h => ?_, fun s kg ord h => ?_⟩
      · cases h
      · cases h
    | cons p more =>
      obtain ⟨c', hc', hkg, hordinal, hcheck'⟩ := cursorOf_spec ho hline
      have hahead : o.ahead c' = p :: more := ahead_cursorOf hline hkg hordinal
      obtain ⟨hweight, hlater⟩ := hless p more rfl
      have hsome : (p :: more).head?.bind Position.cursorOf = some c' := hc'
      rw [hsome]
      refine ⟨congrArg (R.eventsOf o) hahead, fun d hd => ?_, fun s kg ord h => ?_⟩
      · obtain rfl := Option.some.inj hd
        refine ⟨hcheck', ?_, hahead ▸ hweight⟩
        rcases hlater with hlt | ⟨heq, hlt⟩
        · exact .inl (by omega)
        · refine .inr ⟨UInt16.toNat_inj.mp (by omega), ?_⟩
          rw [hordinal]
          exact hlt
      · exact ⟨c', rfl, ord, hahead ▸ h⟩
  obtain ⟨heventsFrom, haccepted, hblocks⟩ := hnext
  exact {
    events := by
      rw [heventsFrom]
      exact hevents
    found := hpassed.found
    unreadable := hpassed.unreadable
    next := haccepted
    defects := by
      rintro s kg ⟨c', hc', ord, hmem⟩ d hd
      obtain rfl := Option.some.inj hc'
      rcases hvisited s kg ord hmem d hd with hnoted | ⟨ord', hrest⟩
      · exact .inl hnoted
      · exact .inr (hblocks s kg ord' hrest) }

namespace StateReader.Onward

variable {α : Type} {w : Walk α} {c : Cursor} {found : α} {page : Page α} {taken : List Event}

theorem keys (h : R.Onward o w c found page taken) :
    R.keysFrom o (some c) = taken.filterMap R.recordOf ++ R.keysFrom o page.next := by
  unfold StateReader.keysFrom
  rw [h.events, List.filterMap_append]

theorem reports (h : R.Onward o w c found page taken) :
    R.reportsFrom o (some c) = page.unreadable ++ R.reportsFrom o page.next := by
  unfold StateReader.reportsFrom
  rw [h.events, h.unreadable, List.filterMap_append]

end StateReader.Onward

theorem map_position_records (R : StateReader) (events : List Event) :
    (events.filterMap R.recordOf).map (·.position) = events.filterMap Event.position := by
  rw [List.map_filterMap]
  refine List.filterMap_congr fun e _ => ?_
  cases e <;> rfl

/-! ### From the first cursor on -/

theorem keysFrom_start (ho : o.Regular) :
    R.keysFrom o (some .start) = R.keysWhere o fun _ => true := by
  have hrange : (R.keyWalk 1).inRange (positions 0 o.ctx.units) = positions 0 o.ctx.units :=
    Walk.inRange_all rfl _
  have hkeys := keysWhere_eq (R := R) (R.keyWalk 1) ho 0
  rw [hrange] at hkeys
  unfold StateReader.keysFrom StateReader.eventsFrom
  rw [Option.elim_some, ahead_start ho, hkeys]
  unfold StateReader.keysWhere
  refine List.flatMap_congr fun u hu => ?_
  cases u with
  | failed f => rfl
  | stream s =>
    dsimp only
    congr 1
    refine List.filter_congr fun kg hkg => ?_
    have h0 := (ho.within _ hu kg (mem_keyGroups.mp hkg)).1
    simp [h0, Walk.past, StateReader.keyWalk]

theorem reportsFrom_start (ho : o.Regular) : R.reportsFrom o (some .start) = R.reports o := by
  unfold StateReader.reportsFrom StateReader.eventsFrom
  rw [Option.elim_some, ahead_start ho]
  exact reports_eq ho

/-- Every block with a defect lies at or after the first cursor. -/
theorem blockFrom_start (ho : o.Regular) {s : SubtaskStream} (hs : s ∈ o.ctx.streams) {kg : Int}
    (hkg : (ReadUnit.stream s).Has kg) {d : Text} (hd : d ∈ R.defectOf o s kg) :
    o.BlockFrom s kg (some .start) := by
  refine ⟨.start, rfl, 0, ?_⟩
  rw [ahead_start ho]
  exact block_mem_positions ho hs hkg hd

end FlinkExplorer
