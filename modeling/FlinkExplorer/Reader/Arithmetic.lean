import FlinkExplorer.Parser.KeyGroups
import FlinkExplorer.Reader.Accounted
import FlinkExplorer.Reader.Count

namespace FlinkExplorer

open Lib

/-!
# `reader/mod.rs` — the arithmetic of key-groups

The parallelism, the max parallelism, and the first key-group and the number of key-groups of every
subtask are any `i32` of `_metadata`.  Here the calls of a reader are followed with each sum, product,
quotient and remainder of these checked, and with each key-group that is handed on as `u16`: in a
cursor, in a report, in an answer, and to the parser of a block, whose entries and defects name it.
A call is `none` where one of them goes wrong.

* `Walk.loopChecked`, `StateReader.pageChecked`, `StateReader.getChecked`, `StateReader.cursorAtChecked`
  — the calls;
* `Position.Real`, `seekUnits_later` — the places a walk comes to, and which of them can be named;
* `loopChecked_eq`, `loopChecked_whole` — a walk goes well where every range fits and every place can
  be named; and a walk that goes well to its end shows that they do;
* `loopChecked_next` — the cursor a walk gives lies after its own.
-/

/-! ### Steps -/

/-- A key-group as `u16`, where that is the key-group. -/
def keyGroupU16 (kg : Int) : Option UInt16 :=
  if 0 ≤ kg ∧ kg < 65536 then some (UInt16.ofInt kg) else none

/-- `key_group_for_hash`, its remainder checked. -/
def keyGroupForHashChecked (keyHash : Int32) (maxParallelism : Int) : Option Int :=
  Checked.rem 31 (murmurHash keyHash).toInt maxParallelism

/-- `subtask_for_key_group`, its product and its quotient checked. -/
def subtaskForKeyGroupDiv (maxParallelism parallelism keyGroup : Int) : Option Int := do
  let product ← Checked.signed 31 (keyGroup * parallelism)
  Checked.div 31 product maxParallelism

/-- The first and the last of `num` key-groups. -/
def rangeFrom (first num : Int) : Option (Int × Int) := do
  let stop ← Checked.signed 31 (first + num)
  let last ← Checked.signed 31 (stop - 1)
  pure (first, last)

namespace ReadUnit

/-- `unit_range`. -/
def rangeChecked : ReadUnit → Option (Int × Int)
  | .stream s => rangeFrom s.startKeyGroup s.offsets.length
  | .failed f => rangeFrom f.startKeyGroup f.numKeyGroups

/-- `unreadable`. -/
def unreadableChecked (u : ReadUnit) (from' : Int) : Option Unreadable := do
  let (first, last) ← u.rangeChecked
  let why := u.error.getD ([], [])
  let firstKeyGroup ← keyGroupU16 (max first from')
  let lastKeyGroup ← keyGroupU16 last
  pure ⟨u.subtask, firstKeyGroup, lastKeyGroup, why.1, why.2⟩

end ReadUnit

/-- `unit_of`. -/
def unitOfChecked (keyGroup : Int) : List ReadUnit → Option (Option ReadUnit)
  | [] => some none
  | u :: units => do
    let (first, last) ← u.rangeChecked
    if first ≤ keyGroup ∧ keyGroup ≤ last then pure (some u) else unitOfChecked keyGroup units

/-- `seek`. -/
def seekUnitsChecked (from' : Int) (ordinal : UInt32) : List ReadUnit → Option Position
  | [] => some .ended
  | u :: units => do
    let (first, last) ← u.rangeChecked
    if last < from' then seekUnitsChecked from' ordinal units
    else if u.error.isSome then pure (.unreadable u (max first from'))
    else
      match u with
      | .failed _ => seekUnitsChecked from' ordinal units
      | .stream s =>
        match (keyGroups (max first from') last).find? s.holds with
        | some kg => pure (.block s kg (if kg = from' then ordinal else 0))
        | none => seekUnitsChecked from' ordinal units

/-- `cursor_of`. -/
def Position.cursorOfChecked : Position → Option (Option Cursor)
  | .block s kg ordinal => do
    let kg ← keyGroupU16 kg
    pure (some ⟨s.subtaskIndex, kg, ordinal⟩)
  | .unreadable u from' => do
    let kg ← keyGroupU16 from'
    pure (some ⟨u.subtask, kg, 0⟩)
  | .ended => pure none

/-! ### Calls -/

section Calls

/-- The loop of a page; `none` also where its turns run out. -/
def Walk.loopChecked {α σ : Type} (w : Walk α) (fetch : Fetch σ) (units : List ReadUnit) :
    Nat → Position → Nat → Page α → σ → Option (Page α × σ)
  | 0, _, _, _, _ => none
  | turns + 1, pos, visited, page, st =>
    match w.clip pos with
    | .ended => some (page, st)
    | .unreadable u from' => do
      if w.stops visited page.stats page.found then
        let next ← (Position.unreadable u from').cursorOfChecked
        pure ({ page with next := next }, st)
      else
        let why ← u.unreadableChecked from'
        let (_, last) ← u.rangeChecked
        let after ← Checked.signed 31 (last + 1)
        let later ← seekUnitsChecked after 0 units
        loopChecked w fetch units turns later (visited + 1)
          { page with unreadable := page.unreadable ++ [why] } st
    | .block s kg ordinal => do
      if w.stops visited page.stats page.found then
        let next ← (Position.block s kg ordinal).cursorOfChecked
        pure ({ page with next := next }, st)
      else
        -- A block that was sought is not empty, so it is reported or parsed.
        let keyGroup ← keyGroupU16 kg
        match fetch s kg page.stats st with
        | (.error e, stats, st) =>
          let after ← Checked.signed 31 (kg + 1)
          let later ← seekUnitsChecked after 0 units
          loopChecked w fetch units turns later (visited + 1)
            { page with
              stats := stats
              unreadable := page.unreadable ++ [⟨s.subtaskIndex, keyGroup, keyGroup, s.what, e⟩] } st
        | (.ok none, stats, st) =>
          let after ← Checked.signed 31 (kg + 1)
          let later ← seekUnitsChecked after 0 units
          loopChecked w fetch units turns later (visited + 1) { page with stats := stats } st
        | (.ok (some (header, block)), stats, st) =>
          let page := { page with
            stats := stats, malformed := page.malformed ++ block.defect.toList }
          match w.keys s header kg ordinal.toNat (block.keys.drop ordinal.toNat) page.found with
          | (found, some ord) =>
            pure ({ page with
              found := found
              next := some ⟨s.subtaskIndex, keyGroup, UInt32.ofNat ord⟩ }, st)
          | (found, none) =>
            let after ← Checked.signed 31 (kg + 1)
            let later ← seekUnitsChecked after 0 units
            loopChecked w fetch units turns later (visited + 1) { page with found := found } st

/-- `check_cursor`. -/
def OpenOperator.checkCursorChecked (o : OpenOperator) (cursor : Cursor) :
    Option (Except ReaderError Unit) :=
  if (cursor.keyGroup.toNat : Int) ≥ max o.maxParallelism 1 then pure (o.checkCursor cursor)
  else do
    let _ ← unitOfChecked cursor.keyGroup.toNat o.ctx.units
    pure (o.checkCursor cursor)

namespace StateReader

variable (R : StateReader)

/-- `key_page`, `scan_with` and `count`, with the walk of each. -/
def pageChecked {α : Type} (op : Text) (cursor : Cursor) (w : Walk α) (keep : Bool)
    (ordinal : UInt32) (found : α) (cache : BlockCache) :
    Option (Except ReaderError (Page α) × BlockCache) :=
  match R.operator op with
  | .error e => pure (.error e, cache)
  | .ok o => do
    match ← o.checkCursorChecked cursor with
    | .error e => pure (.error e, cache)
    | .ok () =>
      let from' : Int := cursor.keyGroup.toNat
      let pos ← seekUnitsChecked from' ordinal o.ctx.units
      let (page, cache) ← w.loopChecked (R.grouped o keep) o.ctx.units
        ((Walk.endKeyGroup o.ctx.units - from').toNat + 1) pos 0 ⟨found, none, .zero, [], []⟩ cache
      pure (.ok page, cache)

def keyPageChecked (op : Text) (cursor : Cursor) (limit : Nat) (cache : BlockCache) :
    Option (Except ReaderError (Page (List KeyRecord)) × BlockCache) :=
  R.pageChecked op cursor (R.keyWalk limit) true cursor.ordinal [] cache

def countChecked (op : Text) (cursor : Cursor) (byteBudget : Nat) (cache : BlockCache) :
    Option (Except ReaderError (Page Counts) × BlockCache) :=
  R.pageChecked op cursor (countWalk byteBudget) false 0 ⟨[], 0⟩ cache

def scanWithChecked {τ : Type} (op : Text) (cursor : Cursor) (opts : ScanOptions)
    (test : τ → Text → τ × Bool) (t : τ) (cache : BlockCache) :
    Option (Except ReaderError (Page (List KeyRecord × τ)) × BlockCache) :=
  R.pageChecked op cursor (R.scanWalk opts test) false cursor.ordinal ([], t) cache

/-- `get`: every answer about a key names its key-group. -/
def getChecked (op keyText : Text) (cache : BlockCache) :
    Option (Except ReaderError Lookup × BlockCache) :=
  match R.operator op with
  | .error e => pure (.error e, cache)
  | .ok o =>
    match o.ctx.firstHeader with
    | none =>
      match o.ctx.units.head? with
      | some u => do
        let why ← u.unreadableChecked 0
        pure (.error (.unreadable why), cache)
      | none => pure (.error (.noKeyedState (hexId o.id)), cache)
    | some first =>
      match R.parseLookup first keyText with
      | .error reason => pure (.ok (.needsScan reason), cache)
      | .ok (key, _) => do
        let kg ← keyGroupForHashChecked key.hashCode o.maxParallelism
        let keyGroup ← keyGroupU16 kg
        match ← unitOfChecked kg o.ctx.units with
        | none =>
          let subtask ← subtaskForKeyGroupDiv o.maxParallelism o.parallelism kg
          pure (.ok (.absent keyGroup subtask .zero), cache)
        | some _ => pure (R.get op keyText cache)

/-- `cursor_at`. -/
def cursorAtChecked (op : Text) (keyGroup : UInt16) : Option (Except ReaderError Cursor) :=
  match R.operator op with
  | .error e => pure (.error e)
  | .ok o => do
    match ← unitOfChecked keyGroup.toNat o.ctx.units with
    | some u => pure (.ok ⟨u.subtask, keyGroup, 0⟩)
    | none =>
      let subtask ← subtaskForKeyGroupDiv o.maxParallelism o.parallelism keyGroup.toNat
      pure (.ok ⟨subtask, keyGroup, 0⟩)

end StateReader

end Calls

/-! ### Steps that go well -/

theorem keyGroupU16_eq_some {kg : Int} (h0 : 0 ≤ kg) (h1 : kg < 65536) :
    keyGroupU16 kg = some (UInt16.ofInt kg) := if_pos ⟨h0, h1⟩

theorem of_keyGroupU16 {kg : Int} {k : UInt16} (h : keyGroupU16 kg = some k) :
    0 ≤ kg ∧ kg < 65536 ∧ k = UInt16.ofInt kg := by
  unfold keyGroupU16 at h
  split_ifs at h with hreal
  exact ⟨hreal.1, hreal.2, (Option.some.inj h).symm⟩

theorem rangeFrom_eq {first num : Int} (hlo : -2 ^ 31 < first + num - 1 + 1)
    (hhi : first + num - 1 + 1 < 2 ^ 31) : rangeFrom first num = some (first, first + num - 1) := by
  unfold rangeFrom
  rw [Checked.signed_eq_some (by omega) (by omega), Option.bind_eq_bind, Option.bind_some,
    Checked.signed_eq_some (by omega) (by omega)]
  rfl

theorem of_rangeFrom {first num : Int} {r : Int × Int} (h : rangeFrom first num = some r) :
    (-2 ^ 31 < first + num - 1 + 1 ∧ first + num - 1 + 1 < 2 ^ 31)
      ∧ r = (first, first + num - 1) := by
  obtain ⟨stop, hstop, h⟩ := Option.bind_eq_some_iff.mp h
  obtain ⟨last, hlast, h⟩ := Option.bind_eq_some_iff.mp h
  obtain ⟨rfl, hlo, hhi⟩ := Checked.signed_isSome hstop
  obtain ⟨rfl, hlo', hhi'⟩ := Checked.signed_isSome hlast
  refine ⟨?_, (Option.some.inj h).symm⟩
  omega

namespace ReadUnit

variable {u : ReadUnit}

theorem rangeChecked_eq (h : u.Fits) : u.rangeChecked = some (u.first, u.last) := by
  obtain ⟨hlo, hhi⟩ := h
  cases u with
  | stream s => exact rangeFrom_eq hlo hhi
  | failed f => exact rangeFrom_eq hlo hhi

theorem of_rangeChecked {r : Int × Int} (h : u.rangeChecked = some r) :
    u.Fits ∧ r = (u.first, u.last) := by
  cases u with
  | stream s => exact of_rangeFrom h
  | failed f => exact of_rangeFrom h

theorem unreadableChecked_eq (h : u.Fits) {from' : Int} (h0 : 0 ≤ from')
    (hfirst : max u.first from' < 65536) (hlast0 : 0 ≤ u.last) (hlast : u.last < 65536) :
    u.unreadableChecked from' = some (u.unreadable from') := by
  unfold unreadableChecked
  rw [rangeChecked_eq h, Option.bind_eq_bind, Option.bind_some]
  dsimp only
  rw [keyGroupU16_eq_some (le_max_of_le_right h0) hfirst, Option.bind_eq_bind, Option.bind_some,
    keyGroupU16_eq_some hlast0 hlast]
  rfl

theorem of_unreadableChecked {from' : Int} {why : Unreadable}
    (h : u.unreadableChecked from' = some why) :
    why = u.unreadable from' ∧ max u.first from' < 65536 ∧ 0 ≤ u.last ∧ u.last < 65536 := by
  obtain ⟨r, hr, h⟩ := Option.bind_eq_some_iff.mp h
  obtain ⟨-, rfl⟩ := of_rangeChecked hr
  obtain ⟨first, hfirst, h⟩ := Option.bind_eq_some_iff.mp h
  obtain ⟨last, hlast, h⟩ := Option.bind_eq_some_iff.mp h
  obtain ⟨-, hlt, rfl⟩ := of_keyGroupU16 hfirst
  obtain ⟨h0, hlt', rfl⟩ := of_keyGroupU16 hlast
  exact ⟨(Option.some.inj h).symm, hlt, h0, hlt'⟩

end ReadUnit

theorem unitOfChecked_eq {units : List ReadUnit} (hfits : ∀ u ∈ units, u.Fits) (keyGroup : Int) :
    unitOfChecked keyGroup units
      = some (units.find? fun u => u.first ≤ keyGroup ∧ keyGroup ≤ u.last) := by
  induction units with
  | nil => rfl
  | cons u units ih =>
    unfold unitOfChecked
    rw [ReadUnit.rangeChecked_eq (hfits u List.mem_cons_self), Option.bind_eq_bind, Option.bind_some]
    dsimp only
    by_cases hin : u.first ≤ keyGroup ∧ keyGroup ≤ u.last
    · rw [if_pos hin, List.find?_cons_of_pos (by simpa using hin)]
      rfl
    · rw [if_neg hin, List.find?_cons_of_neg (by simpa using hin)]
      exact ih fun v hv => hfits v (List.mem_cons_of_mem u hv)

theorem seekUnitsChecked_eq {units : List ReadUnit} (hfits : ∀ u ∈ units, u.Fits) (from' : Int)
    (ordinal : UInt32) :
    seekUnitsChecked from' ordinal units = some (seekUnits from' ordinal units) := by
  induction units with
  | nil => rfl
  | cons u units ih =>
    have hrest := ih fun v hv => hfits v (List.mem_cons_of_mem u hv)
    unfold seekUnitsChecked seekUnits
    rw [ReadUnit.rangeChecked_eq (hfits u List.mem_cons_self), Option.bind_eq_bind, Option.bind_some]
    dsimp only
    by_cases hbefore : u.last < from'
    · rw [if_pos hbefore, if_pos hbefore]
      exact hrest
    rw [if_neg hbefore, if_neg hbefore]
    by_cases herror : u.error.isSome = true
    · rw [if_pos herror, if_pos herror]
      rfl
    rw [if_neg herror, if_neg herror]
    cases u with
    | failed f => exact hrest
    | stream s =>
      dsimp only
      cases (keyGroups (max (ReadUnit.stream s).first from') (ReadUnit.stream s).last).find? s.holds
        with
      | none => exact hrest
      | some kg => rfl

/-- A seek that goes well; one that finds nothing has computed every range. -/
theorem of_seekUnitsChecked {units : List ReadUnit} {from' : Int} {ordinal : UInt32} {p : Position}
    (h : seekUnitsChecked from' ordinal units = some p) :
    seekUnits from' ordinal units = p ∧ (p = .ended → ∀ u ∈ units, u.Fits) := by
  induction units with
  | nil => exact ⟨Option.some.inj h, fun _ u hu => absurd hu List.not_mem_nil⟩
  | cons u units ih =>
    obtain ⟨r, hr, h⟩ := Option.bind_eq_some_iff.mp h
    obtain ⟨hfits, rfl⟩ := ReadUnit.of_rangeChecked hr
    have hlater (hrest : seekUnitsChecked from' ordinal units = some p) :
        seekUnits from' ordinal units = p ∧ (p = .ended → ∀ v ∈ u :: units, v.Fits) := by
      obtain ⟨hseek, hall⟩ := ih hrest
      exact ⟨hseek, fun hp => List.forall_mem_cons.mpr ⟨hfits, hall hp⟩⟩
    dsimp only at h
    unfold seekUnits
    by_cases hbefore : u.last < from'
    · rw [if_pos hbefore] at h ⊢
      exact hlater h
    rw [if_neg hbefore] at h ⊢
    by_cases herror : u.error.isSome = true
    · rw [if_pos herror] at h ⊢
      obtain rfl := Option.some.inj h
      exact ⟨rfl, fun hp => by cases hp⟩
    rw [if_neg herror] at h ⊢
    cases u with
    | failed f => exact hlater h
    | stream s =>
      dsimp only at h ⊢
      cases hfind : (keyGroups (max (ReadUnit.stream s).first from')
        (ReadUnit.stream s).last).find? s.holds with
      | none =>
        rw [hfind] at h
        exact hlater h
      | some kg =>
        rw [hfind] at h
        obtain rfl := Option.some.inj h
        exact ⟨rfl, fun hp => by cases hp⟩

/-! ### The places of a walk -/

/-- A place that a seek from a key-group finds. -/
inductive Position.Sought (units : List ReadUnit) (from' : Int) : Position → Prop
  | block {s : SubtaskStream} {kg : Int} (ordinal : UInt32) (hu : ReadUnit.stream s ∈ units)
    (hfrom : from' ≤ kg) (hfirst : (ReadUnit.stream s).first ≤ kg)
    (hlast : kg ≤ (ReadUnit.stream s).last) : Sought units from' (.block s kg ordinal)
  | unreadable {u : ReadUnit} (hu : u ∈ units) (hlast : from' ≤ u.last) :
    Sought units from' (.unreadable u (max u.first from'))
  | ended : Sought units from' .ended

/-- A place whose key-groups are below the end of `u16`. -/
def Position.Real : Position → Prop
  | .block _ kg _ => kg < 65536
  | .unreadable u from' => from' < 65536 ∧ u.last < 65536
  | .ended => True

theorem Position.Sought.cons {units : List ReadUnit} {from' : Int} {p : Position}
    (h : p.Sought units from') (u : ReadUnit) : p.Sought (u :: units) from' := by
  cases h with
  | block ordinal hu hfrom hfirst hlast =>
    exact .block ordinal (List.mem_cons_of_mem u hu) hfrom hfirst hlast
  | unreadable hv hlast => exact .unreadable (List.mem_cons_of_mem u hv) hlast
  | ended => exact .ended

theorem seekUnits_sought (from' : Int) (ordinal : UInt32) (units : List ReadUnit) :
    (seekUnits from' ordinal units).Sought units from' := by
  induction units with
  | nil => exact .ended
  | cons u units ih =>
    unfold seekUnits
    by_cases hbefore : u.last < from'
    · rw [if_pos hbefore]
      exact ih.cons u
    rw [if_neg hbefore]
    by_cases herror : u.error.isSome = true
    · rw [if_pos herror]
      exact .unreadable List.mem_cons_self (not_lt.mp hbefore)
    rw [if_neg herror]
    cases u with
    | failed f => exact ih.cons _
    | stream s =>
      dsimp only
      cases hfind : (keyGroups (max (ReadUnit.stream s).first from')
        (ReadUnit.stream s).last).find? s.holds with
      | none => exact ih.cons _
      | some kg =>
        obtain ⟨hfrom, hlast⟩ := mem_keyGroups.mp (List.mem_of_find?_eq_some hfind)
        exact .block _ List.mem_cons_self ((le_max_right _ _).trans hfrom)
          ((le_max_left _ _).trans hfrom) hlast

/-- The ordinal a seek starts with does not change where it leads. -/
theorem real_seekUnits (from' : Int) (ordinal : UInt32) (units : List ReadUnit) :
    (seekUnits from' ordinal units).Real ↔ (seekUnits from' 0 units).Real := by
  rw [seekUnits_eq, seekUnits_eq]
  cases positions from' units with
  | nil => exact Iff.rfl
  | cons p ps => cases p <;> exact Iff.rfl

theorem real_of_bounded {units : List ReadUnit}
    (hbounded : ∀ u ∈ units, u.first < 65536 ∧ u.last < 65536) (a : Int) :
    (seekUnits a 0 units).Real := by
  generalize hpos : seekUnits a 0 units = pos
  have hsought : pos.Sought units a := hpos ▸ seekUnits_sought a 0 units
  cases hsought with
  | block _ hu _ _ hlast => exact lt_of_le_of_lt hlast (hbounded _ hu).2
  | unreadable hu hlast =>
    obtain ⟨hfirst, hend⟩ := hbounded _ hu
    exact ⟨max_lt hfirst (lt_of_le_of_lt hlast hend), hend⟩
  | ended => trivial

/-- **A seek from a later key-group**, up to the end of what is found, leads to the same place; for
    units that cannot be read, to a later part of the same one. -/
theorem seekUnits_later {units : List ReadUnit} {a b : Int} (hab : a ≤ b)
    (h : seekUnits a 0 units = .ended ∨ b < (seekUnits a 0 units).after)
    (hreal : (seekUnits a 0 units).Real) : (seekUnits b 0 units).Real := by
  induction units with
  | nil => exact trivial
  | cons u units ih =>
    rw [seekUnits_cons] at h hreal ⊢
    by_cases hbefore : u.last < a
    · rw [if_pos hbefore] at h hreal
      rw [if_pos (by omega)]
      exact ih h hreal
    rw [if_neg hbefore] at h hreal
    by_cases herror : u.error.isSome = true
    · rw [if_pos herror] at h hreal ⊢
      obtain ⟨hfrom, hlast⟩ : max u.first a < 65536 ∧ u.last < 65536 := hreal
      have hb : b < u.last + 1 := by
        rcases h with hended | hb
        · cases hended
        · exact hb
      rw [if_neg (by omega)]
      refine ⟨?_, hlast⟩
      omega
    rw [if_neg herror] at h hreal ⊢
    cases u with
    | failed f => exact absurd (error_failed f) herror
    | stream s =>
      dsimp only at h hreal ⊢
      cases hfind : (keyGroups (max (ReadUnit.stream s).first a)
        (ReadUnit.stream s).last).find? s.holds with
      | none =>
        rw [hfind] at h hreal
        have hnone : (keyGroups (max (ReadUnit.stream s).first b)
            (ReadUnit.stream s).last).find? s.holds = none := by
          rw [List.find?_eq_none] at hfind ⊢
          intro kg hkg
          rw [mem_keyGroups] at hkg
          exact hfind kg (mem_keyGroups.mpr (by omega))
        rw [hnone, ite_self]
        exact ih h hreal
      | some kg =>
        rw [hfind] at h hreal
        have hb : b ≤ kg := by
          rcases h with hended | hb
          · cases hended
          · simp only [Position.after] at hb
            omega
        obtain ⟨hfrom, hlast⟩ := mem_keyGroups.mp (List.mem_of_find?_eq_some hfind)
        -- The block is still the first one.
        have hsame : (keyGroups (max (ReadUnit.stream s).first b)
            (ReadUnit.stream s).last).find? s.holds = some kg := by
          rw [← List.head?_filter] at hfind ⊢
          obtain ⟨kgs, hkgs⟩ := List.head?_eq_some_iff.mp hfind
          obtain ⟨-, -, -, hfilter⟩ := filter_keyGroups_cons hkgs
          rw [hfilter _ (by omega) (by omega)]
          rfl
        rw [if_neg (by omega), hsame]
        exact hreal

theorem last_lt_endKeyGroup {units : List ReadUnit} {u : ReadUnit} (hu : u ∈ units) :
    u.last + 1 ≤ Walk.endKeyGroup units := by
  induction units with
  | nil => cases hu
  | cons v units ih =>
    have hend : Walk.endKeyGroup (v :: units) = max (v.last + 1) (Walk.endKeyGroup units) := rfl
    rw [hend]
    rcases List.mem_cons.mp hu with rfl | hu
    · exact le_max_left _ _
    · exact (ih hu).trans (le_max_right _ _)

/-! ### A walk that goes well -/

section Loop

variable {α σ : Type} {w : Walk α} {fetch : Fetch σ} {units : List ReadUnit}

theorem seekUnitsChecked_after (hfits : ∀ u ∈ units, u.Fits) {last : Int} (hlo : -2 ^ 31 ≤ last + 1)
    (hhi : last + 1 < 2 ^ 31) {β : Type} (f : Position → Option β) :
    ((Checked.signed 31 (last + 1)).bind fun after => (seekUnitsChecked after 0 units).bind f)
      = f (seekUnits (last + 1) 0 units) := by
  rw [Checked.signed_eq_some hlo hhi, Option.bind_some, seekUnitsChecked_eq hfits, Option.bind_some]

/-- **A walk goes well** where every range fits and every place can be named. -/
theorem loopChecked_eq (hfits : ∀ u ∈ units, u.Fits)
    (hreal : ∀ a, 0 ≤ a → (seekUnits a 0 units).Real) {turns : Nat} {a : Int} {pos : Position}
    (ha : 0 ≤ a) (hpos : pos.Sought units a) (hposreal : pos.Real)
    (hturns : Walk.endKeyGroup units - a < turns) (hsome : 0 < turns) (visited : Nat) (page : Page α)
    (st : σ) :
    w.loopChecked fetch units turns pos visited page st
      = some (w.loop fetch units turns pos visited page st) := by
  induction turns generalizing a pos visited page st with
  | zero => omega
  | succ turns ih =>
    -- What follows a place goes well, as it starts later.
    have hlater (b : Int) (hb : a < b) (hend : b ≤ Walk.endKeyGroup units) (visited : Nat)
        (page : Page α) (st : σ) :
        w.loopChecked fetch units turns (seekUnits b 0 units) visited page st
          = some (w.loop fetch units turns (seekUnits b 0 units) visited page st) :=
      ih (by omega) (seekUnits_sought b 0 units) (hreal b (by omega)) (by omega) (by omega) _ _ _
    cases hpos with
    | ended => rfl
    | @unreadable u hu hlast =>
      have hend := last_lt_endKeyGroup hu
      have hfit := hfits u hu
      unfold Walk.loopChecked Walk.loop
      rw [w.clip_eq _ (by simp)]
      by_cases hpast : w.past (Position.unreadable u (max u.first a)).keyGroup = true
      · rw [if_pos hpast]
      rw [if_neg hpast]
      dsimp only
      by_cases hstop : w.stops visited page.stats page.found = true
      · rw [if_pos hstop, if_pos hstop]
        unfold Position.cursorOfChecked
        dsimp only
        rw [keyGroupU16_eq_some (le_max_of_le_right ha) hposreal.1]
        rfl
      · rw [if_neg hstop, if_neg hstop,
          ReadUnit.unreadableChecked_eq hfit (le_max_of_le_right ha) ?_ (by omega) hposreal.2]
        · simp only [Option.bind_eq_bind, Option.bind_some, ReadUnit.rangeChecked_eq hfit]
          rw [seekUnitsChecked_after hfits (by have := hfit.1; omega) hfit.2]
          exact hlater _ (by omega) hend _ _ _
        · exact lt_of_eq_of_lt (max_eq_right (le_max_left _ _)) hposreal.1
    | @block s kg ordinal hu hfrom _ hlast =>
      have hend := last_lt_endKeyGroup hu
      have hfit := hfits _ hu
      have hhi : kg + 1 < 2 ^ 31 := lt_of_le_of_lt (by omega) hfit.2
      unfold Walk.loopChecked Walk.loop
      rw [w.clip_eq _ (by simp)]
      by_cases hpast : w.past (Position.block s kg ordinal).keyGroup = true
      · rw [if_pos hpast]
      rw [if_neg hpast]
      dsimp only
      by_cases hstop : w.stops visited page.stats page.found = true
      · rw [if_pos hstop, if_pos hstop]
        unfold Position.cursorOfChecked
        dsimp only
        rw [keyGroupU16_eq_some (by omega) hposreal]
        rfl
      rw [if_neg hstop, if_neg hstop, keyGroupU16_eq_some (by omega) hposreal, Option.bind_eq_bind,
        Option.bind_some]
      rcases fetch s kg page.stats st with ⟨e | _ | ⟨header, block⟩, stats, st'⟩
      · exact (seekUnitsChecked_after hfits (by omega) hhi _).trans
          (hlater _ (by omega) (by omega) _ _ _)
      · exact (seekUnitsChecked_after hfits (by omega) hhi _).trans
          (hlater _ (by omega) (by omega) _ _ _)
      · dsimp only
        rcases w.keys s header kg ordinal.toNat (block.keys.drop ordinal.toNat) page.found
          with ⟨found, _ | ord⟩
        · exact (seekUnitsChecked_after hfits (by omega) hhi _).trans
            (hlater _ (by omega) (by omega) _ _ _)
        · rfl

/-! ### A turn of a walk -/

/-- What was read, after a place. -/
def Position.read (fetch : Fetch σ) (pos : Position) (stats : ReadStats) (st : σ) : ReadStats × σ :=
  match pos with
  | .block s kg _ => (fetch s kg stats st).2
  | _ => (stats, st)

/-- A walk that stops at a key of a block it is in. -/
structure StopsInside (w : Walk α) (fetch : Fetch σ) (pos : Position) (page : Page α) (st : σ)
    (next : Cursor) : Prop where
  exists_block : ∃ s kg ordinal header block read ord, pos = .block s kg ordinal
    ∧ fetch s kg page.stats st = (.ok (some (header, block)), read)
    ∧ (w.keys s header kg ordinal.toNat (block.keys.drop ordinal.toNat) page.found).2 = some ord
    ∧ 0 ≤ kg ∧ next = ⟨s.subtaskIndex, UInt16.ofInt kg, UInt32.ofNat ord⟩

/-- **What a turn that goes well does**: it ends the walk past the range, stops before its place or
    inside of it, or goes on after it. -/
theorem loopChecked_cases {turns : Nat} {pos : Position} {visited : Nat} {page : Page α} {st : σ}
    {r : Page α × σ} (hne : pos ≠ .ended)
    (h : w.loopChecked fetch units (turns + 1) pos visited page st = some r) :
    (w.past pos.keyGroup = true ∧ r.1.next = page.next)
      ∨ (w.stops visited page.stats page.found = true ∧ pos.cursorOfChecked = some r.1.next)
      ∨ pos.Real ∧ ((∃ next, r.1.next = some next ∧ StopsInside w fetch pos page st next)
        ∨ ∃ page' later, page'.next = page.next ∧ seekUnitsChecked pos.after 0 units = some later
          ∧ page'.stats = (pos.read fetch page.stats st).1
          ∧ w.loopChecked fetch units turns later (visited + 1) page' (pos.read fetch page.stats st).2
            = some r) := by
  unfold Walk.loopChecked at h
  rw [w.clip_eq _ hne] at h
  by_cases hpast : w.past pos.keyGroup = true
  · rw [if_pos hpast] at h
    obtain rfl := Option.some.inj h
    exact .inl ⟨hpast, rfl⟩
  rw [if_neg hpast] at h
  right
  cases pos with
  | ended => exact absurd rfl hne
  | unreadable u from' =>
    dsimp only at h
    by_cases hstop : w.stops visited page.stats page.found = true
    · rw [if_pos hstop] at h
      obtain ⟨next, hnext, h⟩ := Option.bind_eq_some_iff.mp h
      obtain rfl := Option.some.inj h
      exact .inl ⟨hstop, hnext⟩
    rw [if_neg hstop] at h
    obtain ⟨why, hwhy, h⟩ := Option.bind_eq_some_iff.mp h
    obtain ⟨range, hrange, h⟩ := Option.bind_eq_some_iff.mp h
    obtain ⟨-, hfirst, -, hlast⟩ := ReadUnit.of_unreadableChecked hwhy
    obtain ⟨-, rfl⟩ := ReadUnit.of_rangeChecked hrange
    dsimp only at h
    obtain ⟨after, hafter, h⟩ := Option.bind_eq_some_iff.mp h
    obtain ⟨rfl, -, -⟩ := Checked.signed_isSome hafter
    obtain ⟨later, hlater, h⟩ := Option.bind_eq_some_iff.mp h
    refine .inr ⟨⟨lt_of_le_of_lt (le_max_right _ _) hfirst, hlast⟩, .inr ⟨_, later, ?_, hlater, ?_, h⟩⟩
    · rfl
    · rfl
  | block s kg ordinal =>
    dsimp only at h
    by_cases hstop : w.stops visited page.stats page.found = true
    · rw [if_pos hstop] at h
      obtain ⟨next, hnext, h⟩ := Option.bind_eq_some_iff.mp h
      obtain rfl := Option.some.inj h
      exact .inl ⟨hstop, hnext⟩
    rw [if_neg hstop] at h
    obtain ⟨keyGroup, hkeyGroup, h⟩ := Option.bind_eq_some_iff.mp h
    obtain ⟨h0, hreal, rfl⟩ := of_keyGroupU16 hkeyGroup
    refine .inr ⟨hreal, ?_⟩
    -- Where the walk goes on, it does so from the next key-group.
    have hon (page' : Page α) (st' : σ) (hnext : page'.next = page.next)
        (hread : (page'.stats, st') = (fetch s kg page.stats st).2)
        (h : ((Checked.signed 31 (kg + 1)).bind fun after =>
          (seekUnitsChecked after 0 units).bind fun later =>
            w.loopChecked fetch units turns later (visited + 1) page' st') = some r) :
        ∃ page' later, page'.next = page.next ∧ seekUnitsChecked (kg + 1) 0 units = some later
          ∧ page'.stats = (fetch s kg page.stats st).2.1
          ∧ w.loopChecked fetch units turns later (visited + 1) page' (fetch s kg page.stats st).2.2
            = some r := by
      obtain ⟨after, hafter, h⟩ := Option.bind_eq_some_iff.mp h
      obtain ⟨rfl, -, -⟩ := Checked.signed_isSome hafter
      obtain ⟨later, hlater, h⟩ := Option.bind_eq_some_iff.mp h
      rw [← hread]
      exact ⟨page', later, hnext, hlater, rfl, h⟩
    rcases hfetch : fetch s kg page.stats st with ⟨e | _ | ⟨header, block⟩, stats, st'⟩
    · rw [hfetch] at h
      dsimp only at h
      refine .inr (hon _ st' ?_ ?_ h)
      · rfl
      · rw [hfetch]
    · rw [hfetch] at h
      dsimp only at h
      refine .inr (hon _ st' ?_ ?_ h)
      · rfl
      · rw [hfetch]
    · rw [hfetch] at h
      dsimp only at h
      rcases hkeys : w.keys s header kg ordinal.toNat (block.keys.drop ordinal.toNat) page.found
        with ⟨found, _ | ord⟩
      · rw [hkeys] at h
        dsimp only at h
        refine .inr (hon _ st' ?_ ?_ h)
        · rfl
        · rw [hfetch]
      · rw [hkeys] at h
        obtain rfl := Option.some.inj h
        refine .inl ⟨_, rfl, ⟨s, kg, ordinal, header, block, _, ord, rfl, hfetch, ?_, h0, rfl⟩⟩
        rw [hkeys]

theorem Position.Sought.bounds {a : Int} {pos : Position} (h : pos.Sought units a)
    (hne : pos ≠ .ended) : a ≤ pos.keyGroup ∧ a < pos.after := by
  cases h with
  | block ordinal hu hfrom _ hlast => exact ⟨hfrom, by simp only [Position.after]; omega⟩
  | unreadable hu hlast => exact ⟨le_max_right _ _, by simp only [Position.after]; omega⟩
  | ended => exact absurd rfl hne

theorem keyGroup_cursorOfChecked {pos : Position} {c : Cursor}
    (h : pos.cursorOfChecked = some (some c)) : (c.keyGroup.toNat : Int) = pos.keyGroup := by
  cases pos with
  | ended => cases h
  | block s kg ordinal =>
    obtain ⟨k, hk, h⟩ := Option.bind_eq_some_iff.mp h
    obtain ⟨h0, hlt, rfl⟩ := of_keyGroupU16 hk
    obtain rfl := Option.some.inj (Option.some.inj h)
    exact toNat_ofInt_keyGroup h0 hlt
  | unreadable u from' =>
    obtain ⟨k, hk, h⟩ := Option.bind_eq_some_iff.mp h
    obtain ⟨h0, hlt, rfl⟩ := of_keyGroupU16 hk
    obtain rfl := Option.some.inj (Option.some.inj h)
    exact toNat_ofInt_keyGroup h0 hlt

theorem StopsInside.keyGroup {pos : Position} {page : Page α} {st : σ} {c : Cursor}
    (h : StopsInside w fetch pos page st c) (hreal : pos.Real) :
    (c.keyGroup.toNat : Int) = pos.keyGroup := by
  obtain ⟨s, kg, ordinal, header, block, read, ord, rfl, -, -, h0, rfl⟩ := h.exists_block
  exact toNat_ofInt_keyGroup h0 hreal

/-- **The cursor a walk gives** lies where the walk starts, or later. -/
theorem loopChecked_next {turns : Nat} {a : Int} {pos : Position} {visited : Nat} {page : Page α}
    {st : σ} {r : Page α × σ} (hpos : pos.Sought units a) (hnext : page.next = none)
    (h : w.loopChecked fetch units turns pos visited page st = some r) :
    ∀ c ∈ r.1.next, a ≤ c.keyGroup.toNat := by
  induction turns generalizing a pos visited page st with
  | zero => cases h
  | succ turns ih =>
    intro c hc
    by_cases hended : pos = .ended
    · subst hended
      obtain rfl := Option.some.inj h
      rw [hnext] at hc
      cases hc
    obtain ⟨hfrom, hafter⟩ := hpos.bounds hended
    rcases loopChecked_cases hended h with ⟨-, hover⟩ | ⟨-, hstop⟩ | ⟨hreal, hgoes⟩
    · rw [hover, hnext] at hc
      cases hc
    · rw [Option.mem_def.mp hc] at hstop
      exact keyGroup_cursorOfChecked hstop ▸ hfrom
    · rcases hgoes with ⟨c', hc', hinside⟩ | ⟨page', later, hpage', hlater, -, hrest⟩
      · obtain rfl := Option.some.inj (hc'.symm.trans hc)
        exact hinside.keyGroup hreal ▸ hfrom
      · have hsought : later.Sought units pos.after :=
          (of_seekUnitsChecked hlater).1 ▸ seekUnits_sought pos.after 0 units
        exact hafter.le.trans (ih hsought (hpage'.trans hnext) hrest c hc)

/-- ... and after it, but for a later key of its first block. -/
theorem loopChecked_first {turns : Nat} {a : Int} {pos : Position} {page : Page α} {st : σ}
    {r : Page α × σ} (hpos : pos.Sought units a) (hfull : ¬ w.full page.found = true)
    (hnext : page.next = none) (h : w.loopChecked fetch units (turns + 1) pos 0 page st = some r)
    {c : Cursor} (hc : r.1.next = some c) :
    a < c.keyGroup.toNat
      ∨ (c.keyGroup.toNat = a ∧ pos.keyGroup = a ∧ StopsInside w fetch pos page st c) := by
  by_cases hended : pos = .ended
  · subst hended
    obtain rfl := Option.some.inj h
    rw [hnext] at hc
    cases hc
  obtain ⟨hfrom, hafter⟩ := hpos.bounds hended
  rcases loopChecked_cases hended h with ⟨-, hover⟩ | ⟨hstop, -⟩ | ⟨hreal, hgoes⟩
  · rw [hover, hnext] at hc
    cases hc
  · simp [Walk.stops, hfull] at hstop
  · rcases hgoes with ⟨c', hc', hinside⟩ | ⟨page', later, hpage', hlater, -, hrest⟩
    · obtain rfl := Option.some.inj (hc'.symm.trans hc)
      have hat := hinside.keyGroup hreal
      rcases hfrom.lt_or_eq with hlt | heq
      · exact .inl (hat ▸ hlt)
      · exact .inr ⟨hat.trans heq.symm, heq.symm, hinside⟩
    · have hsought : later.Sought units pos.after :=
        (of_seekUnitsChecked hlater).1 ▸ seekUnits_sought pos.after 0 units
      exact .inl (hafter.trans_le (loopChecked_next hsought (hpage'.trans hnext) hrest c hc))

/-! ### What a walk shows -/

theorem exists_full_of_keys {s : SubtaskStream} {header : SubtaskHeader} {kg : Int} {ord ord' : Nat}
    {raws : List RawKey} {found : α} (h : (w.keys s header kg ord raws found).2 = some ord') :
    ∃ found, w.full found = true := by
  induction raws generalizing ord found with
  | nil => cases h
  | cons raw raws ih =>
    by_cases hfull : w.full found = true
    · exact ⟨found, hfull⟩
    · unfold Walk.keys at h
      rw [if_neg hfull] at h
      exact ih h

/-- The ranges fit, and every place from a key-group on can be named. -/
def WalkedFrom (units : List ReadUnit) (a : Int) : Prop :=
  (∀ u ∈ units, u.Fits) ∧ ∀ b, a ≤ b → (seekUnits b 0 units).Real

theorem WalkedFrom.cons {a : Int} {pos : Position} (hpos : seekUnits a 0 units = pos)
    (hreal : pos.Real) (h : WalkedFrom units pos.after) : WalkedFrom units a := by
  refine ⟨h.1, fun b hb => ?_⟩
  by_cases hafter : pos.after ≤ b
  · exact h.2 b hafter
  · exact seekUnits_later hb (.inr (by rw [hpos]; omega)) (by rw [hpos]; exact hreal)

/-- **A count that goes well** and has budget enough has come to the end: it shows that every range
    fits, and that every place from its start on can be named. -/
theorem loopChecked_whole (fetch : Fetch σ) (units : List ReadUnit) (turns : Nat) (a : Int)
    (visited : Nat) (stats : ReadStats) (st : σ) :
    ∃ least, ∀ budget, least ≤ budget → ∀ page pos r, page.stats = stats →
      seekUnitsChecked a 0 units = some pos →
      (StateReader.countWalk budget).loopChecked fetch units turns pos visited page st = some r →
      WalkedFrom units a := by
  induction turns generalizing a visited stats st with
  | zero =>
    refine ⟨0, fun budget _ page pos r _ _ h => ?_⟩
    cases h
  | succ turns ih =>
    let pos := seekUnits a 0 units
    obtain ⟨least, hleast⟩ := ih pos.after (visited + 1) (pos.read fetch stats st).1
      (pos.read fetch stats st).2
    refine ⟨max least (stats.blockBytes + 1), fun budget hbudget page pos' r hstats hseek h => ?_⟩
    obtain ⟨hpos, hfits⟩ := of_seekUnitsChecked hseek
    obtain rfl : pos = pos' := hpos
    by_cases hended : pos = .ended
    · refine ⟨hfits hended, fun b hb => ?_⟩
      exact seekUnits_later hb (.inl hended) (by rw [show seekUnits a 0 units = .ended from hended]; trivial)
    subst hstats
    rcases loopChecked_cases hended h with ⟨hpast, -⟩ | ⟨hstop, -⟩ | ⟨hreal, hgoes⟩
    · cases hpast
    · -- The budget is not used up.
      have hbelow : ¬ page.stats.blockBytes ≥ budget := by omega
      simp [Walk.stops, StateReader.countWalk, hbelow] at hstop
    · rcases hgoes with ⟨c, -, hinside⟩ | ⟨page', later, -, hlater, hread, hrest⟩
      · obtain ⟨_, _, _, _, _, _, _, -, -, hkeys, -, -⟩ := hinside.exists_block
        obtain ⟨found, hfull⟩ := exists_full_of_keys hkeys
        cases hfull
      · exact .cons rfl hreal (hleast budget (by omega) page' later r hread hlater hrest)

end Loop

end FlinkExplorer
