import FlinkExplorer.Reader.StateReader

namespace FlinkExplorer

open Lib

/-!
# The positions of a walk as a list

`seek` finds one position after the other.  Here they are laid out at once, and `seek` is shown to
walk along the list:

* `positions` — every position from a key-group on, unit by unit;
* `LaidOut` — units in order whose ranges do not meet;
* `seekUnits_eq` — `seek` finds the head of the list;
* `OnLine.tail` — from just after a position there are the later ones;
* `OnLine.seek` — a cursor that names a position finds it again;
* `length_positions_le` — there are no more positions than key-groups.
-/

/-! ### Ranges of key-groups -/

theorem mem_keyGroups {a b kg : Int} : kg ∈ keyGroups a b ↔ a ≤ kg ∧ kg ≤ b := by
  unfold keyGroups
  rw [List.mem_map]
  constructor
  · rintro ⟨i, hi, rfl⟩
    rw [List.mem_range] at hi
    omega
  · rintro ⟨ha, hb⟩
    exact ⟨(kg - a).toNat, List.mem_range.mpr (by omega), by omega⟩

theorem keyGroups_nil {a b : Int} (h : b < a) : keyGroups a b = [] := by
  unfold keyGroups
  rw [show (b + 1 - a).toNat = 0 by omega]
  rfl

theorem keyGroups_cons {a b : Int} (h : a ≤ b) : keyGroups a b = a :: keyGroups (a + 1) b := by
  unfold keyGroups
  rw [show (b + 1 - a).toNat = (b + 1 - (a + 1)).toNat + 1 by omega, List.range_succ_eq_map,
    List.map_cons, List.map_map]
  congr 1
  · simp
  · refine List.map_congr_left fun i _ => ?_
    simp only [Function.comp_apply, Nat.succ_eq_add_one, Int.natCast_add, Int.cast_ofNat_Int]
    omega

/-- Key-groups that pass a test: the first one, and then those after it. -/
theorem filter_keyGroups_cons {p : Int → Bool} {a b kg : Int} {rest : List Int}
    (h : (keyGroups a b).filter p = kg :: rest) :
    rest = (keyGroups (kg + 1) b).filter p ∧ a ≤ kg ∧ kg ≤ b
      ∧ ∀ a', a ≤ a' → a' ≤ kg → (keyGroups a' b).filter p = kg :: rest := by
  induction hn : (b + 1 - a).toNat generalizing a with
  | zero =>
    rw [keyGroups_nil (by omega)] at h
    cases h
  | succ n ih =>
    have hab : a ≤ b := by omega
    have hcons := keyGroups_cons hab
    by_cases hp : p a = true
    · rw [hcons, List.filter_cons_of_pos hp] at h
      obtain ⟨rfl, rfl⟩ := List.cons.inj h
      refine ⟨rfl, le_rfl, hab, fun a' ha ha' => ?_⟩
      rw [le_antisymm ha' ha, hcons, List.filter_cons_of_pos hp]
    · have hskip : (keyGroups (a + 1) b).filter p = kg :: rest := by
        rw [← h, hcons, List.filter_cons_of_neg hp]
      obtain ⟨hrest, hle, hkb, hfrom⟩ := ih hskip (by omega)
      refine ⟨hrest, by omega, hkb, fun a' ha ha' => ?_⟩
      rcases eq_or_lt_of_le ha with rfl | hlt
      · exact h
      · exact hfrom a' (by omega) ha'

/-! ### Positions -/

/-- The positions of a unit from a key-group on. -/
def positionsOf (from' : Int) (u : ReadUnit) : List Position :=
  if u.last < from' then []
  else if u.error.isSome then [.unreadable u (max u.first from')]
  else
    match u with
    | .failed _ => []
    | .stream s =>
      ((keyGroups (max u.first from') u.last).filter s.holds).map fun kg => .block s kg 0

/-- The positions of units from a key-group on. -/
def positions (from' : Int) (units : List ReadUnit) : List Position :=
  units.flatMap (positionsOf from')

namespace Position

/-- The key-group a position is at. -/
def keyGroup : Position → Int
  | .block _ kg _ => kg
  | .unreadable _ from' => from'
  | .ended => 0

/-- The key-group to seek from after a position. -/
def after : Position → Int
  | .block _ kg _ => kg + 1
  | .unreadable u _ => u.last + 1
  | .ended => 0

/-- The ordinal a position starts at. -/
def ordinal : Position → UInt32
  | .block _ _ ordinal => ordinal
  | _ => 0

end Position

/-- The first position with another ordinal, when it is at key-group `from'`. -/
def startAt (from' : Int) (ordinal : UInt32) : List Position → List Position
  | .block s kg o :: rest => .block s kg (if kg = from' then ordinal else o) :: rest
  | ps => ps

/-- The position a list starts with. -/
def headPosition (ps : List Position) : Position := ps.headD .ended

theorem positionsOf_past {from' : Int} {u : ReadUnit} (hlast : u.last < from') :
    positionsOf from' u = [] := by
  unfold positionsOf
  rw [if_pos hlast]

theorem positionsOf_error {from' : Int} {u : ReadUnit} (hlast : ¬ u.last < from')
    (h : u.error.isSome = true) : positionsOf from' u = [.unreadable u (max u.first from')] := by
  unfold positionsOf
  rw [if_neg hlast, if_pos h]

theorem positionsOf_stream (from' : Int) {s : SubtaskStream}
    (h : ¬ (ReadUnit.stream s).error.isSome = true) :
    positionsOf from' (.stream s)
      = ((keyGroups (max (ReadUnit.stream s).first from') (ReadUnit.stream s).last).filter
          s.holds).map fun kg => .block s kg 0 := by
  unfold positionsOf
  by_cases hlast : (ReadUnit.stream s).last < from'
  · rw [if_pos hlast, keyGroups_nil (by omega)]
    rfl
  · rw [if_neg hlast, if_neg h]

theorem error_failed (f : FailedSubtask) : (ReadUnit.failed f).error.isSome = true := rfl

/-- **What a position of a unit is.** -/
theorem positionsOf_cases {from' : Int} {u : ReadUnit} {p : Position} {rest : List Position}
    (h : positionsOf from' u = p :: rest) :
    (u.error.isSome = true ∧ from' ≤ u.last ∧ p = .unreadable u (max u.first from') ∧ rest = [])
    ∨ ∃ s kg, u = .stream s ∧ ¬ u.error.isSome = true ∧ p = .block s kg 0
      ∧ s.holds kg = true ∧ max u.first from' ≤ kg ∧ kg ≤ u.last
      ∧ rest = positionsOf (kg + 1) u
      ∧ ∀ a, max u.first from' ≤ max u.first a → a ≤ kg → positionsOf a u = p :: rest := by
  by_cases hlast : u.last < from'
  · rw [positionsOf_past hlast] at h
    cases h
  by_cases herror : u.error.isSome = true
  · rw [positionsOf_error hlast herror] at h
    obtain ⟨rfl, rfl⟩ := List.cons.inj h
    exact .inl ⟨herror, by omega, rfl, rfl⟩
  · cases u with
    | failed f => exact absurd (error_failed f) herror
    | stream s =>
      rw [positionsOf_stream _ herror] at h
      obtain ⟨kg, kgs, hfilter, rfl, rfl⟩ := List.map_eq_cons_iff.mp h
      have hholds : s.holds kg = true :=
        (List.mem_filter.mp (hfilter ▸ List.mem_cons_self)).2
      obtain ⟨rfl, hle, hkl, hfrom⟩ := filter_keyGroups_cons hfilter
      refine .inr ⟨s, kg, rfl, herror, rfl, hholds, hle, hkl, ?_, fun a ha hak => ?_⟩
      · rw [positionsOf_stream _ herror, max_eq_right (by omega)]
      · rw [positionsOf_stream _ herror, hfrom _ ha (by omega)]
        rfl

/-! ### `seek` -/

/-- **`seek` finds the first position.** -/
theorem seekUnits_eq (from' : Int) (ordinal : UInt32) (units : List ReadUnit) :
    seekUnits from' ordinal units
      = headPosition (startAt from' ordinal (positions from' units)) := by
  induction units with
  | nil => rfl
  | cons u units ih =>
    have hcons : positions from' (u :: units) = positionsOf from' u ++ positions from' units := rfl
    unfold seekUnits
    by_cases hlast : u.last < from'
    · rw [if_pos hlast, ih, hcons, positionsOf_past hlast, List.nil_append]
    · rw [if_neg hlast]
      by_cases herror : u.error.isSome = true
      · rw [if_pos herror, hcons, positionsOf_error hlast herror]
        rfl
      · rw [if_neg herror]
        cases u with
        | failed f => exact absurd (error_failed f) herror
        | stream s =>
          dsimp only
          rw [hcons, positionsOf_stream _ herror, ← List.head?_filter]
          cases (keyGroups (max (ReadUnit.stream s).first from') (ReadUnit.stream s).last).filter
              s.holds with
          | nil => exact ih
          | cons kg kgs => rfl

/-! ### Units in order -/

/-- Whether a key-group is in the range of a unit. -/
def ReadUnit.Has (u : ReadUnit) (kg : Int) : Prop := u.first ≤ kg ∧ kg ≤ u.last

/-- Units in order whose ranges do not meet; a unit that cannot be read has a key-group. -/
structure LaidOut (units : List ReadUnit) : Prop where
  ordered : units.Pairwise fun u v => u.first ≤ u.last → v.first ≤ v.last → u.last < v.first
  reported : ∀ u ∈ units, u.error.isSome = true → u.first ≤ u.last

theorem LaidOut.tail {u : ReadUnit} {units : List ReadUnit} (h : LaidOut (u :: units)) :
    LaidOut units :=
  ⟨(List.pairwise_cons.mp h.ordered).2, fun v hv => h.reported v (List.mem_cons_of_mem _ hv)⟩

/-- A unit after a key-group has the same positions from there and from before it on. -/
theorem positionsOf_later {a b : Int} {v : ReadUnit}
    (hreported : v.error.isSome = true → v.first ≤ v.last)
    (hlater : v.first ≤ v.last → a ≤ v.first ∧ b ≤ v.first) :
    positionsOf a v = positionsOf b v := by
  by_cases hempty : v.first ≤ v.last
  · obtain ⟨ha, hb⟩ := hlater hempty
    unfold positionsOf
    have ha' : ¬ v.last < a := by omega
    have hb' : ¬ v.last < b := by omega
    rw [if_neg ha', if_neg hb', max_eq_left ha, max_eq_left hb]
  · have herror : ¬ v.error.isSome = true := fun h => hempty (hreported h)
    cases v with
    | failed f => exact absurd (error_failed f) herror
    | stream s =>
      rw [positionsOf_stream _ herror, positionsOf_stream _ herror, keyGroups_nil (by omega),
        keyGroups_nil (by omega)]

theorem positions_later {a b : Int} {units : List ReadUnit} (h : LaidOut units)
    (hlater : ∀ v ∈ units, v.first ≤ v.last → a ≤ v.first ∧ b ≤ v.first) :
    positions a units = positions b units := by
  unfold positions
  exact List.flatMap_congr fun v hv => positionsOf_later (h.reported v hv) (hlater v hv)

/-- A unit none of whose positions is left has none left later on either. -/
theorem positionsOf_nil_mono {a b : Int} (hab : a ≤ b) {u : ReadUnit}
    (h : positionsOf a u = []) : positionsOf b u = [] := by
  unfold positionsOf at h ⊢
  by_cases hlast : u.last < b
  · rw [if_pos hlast]
  · rw [if_neg (by omega)] at h
    rw [if_neg hlast]
    by_cases herror : u.error.isSome = true
    · rw [if_pos herror] at h
      cases h
    · rw [if_neg herror] at h ⊢
      cases u with
      | failed f => rfl
      | stream s =>
        dsimp only at h ⊢
        rw [List.map_eq_nil_iff, List.filter_eq_nil_iff] at h ⊢
        intro kg hkg
        rw [mem_keyGroups] at hkg
        exact h kg (mem_keyGroups.mpr (by omega))

/-- **The head and the tail of the positions.** -/
theorem positions_cons {from' : Int} {units : List ReadUnit} (h : LaidOut units) {p : Position}
    {rest : List Position} (hps : positions from' units = p :: rest) :
    from' ≤ p.keyGroup ∧ p.keyGroup < p.after ∧ p.ordinal = 0 ∧ p ≠ .ended
      ∧ positions p.after units = rest
      ∧ ∀ a, from' ≤ a → a ≤ p.keyGroup → positions a units = p :: rest := by
  induction units with
  | nil => cases hps
  | cons u units ih =>
    have hcons (a : Int) : positions a (u :: units) = positionsOf a u ++ positions a units := rfl
    rw [hcons] at hps
    rcases hu : positionsOf from' u with _ | ⟨q, qs⟩
    · -- Nothing is left of the first unit.
      rw [hu, List.nil_append] at hps
      obtain ⟨hle, hlt, hord, hne, hafter, hfrom⟩ := ih h.tail hps
      refine ⟨hle, hlt, hord, hne, ?_, fun a ha hap => ?_⟩
      · rw [hcons, positionsOf_nil_mono (by omega) hu, hafter]
        rfl
      · rw [hcons, positionsOf_nil_mono ha hu, hfrom a ha hap]
        rfl
    · rw [hu, List.cons_append] at hps
      obtain ⟨rfl, rfl⟩ := List.cons.inj hps
      -- later units start past this one, so it is the same to them where the walk comes from
      have hlater (a b : Int) (hr : u.first ≤ u.last) (ha : a ≤ u.last + 1) (hb : b ≤ u.last + 1) :
          positions a units = positions b units := by
        refine positions_later h.tail fun v hv hv' => ?_
        have := (List.pairwise_cons.mp h.ordered).1 v hv hr hv'
        omega
      -- The first position of the unit: its error, or its first block.
      rcases positionsOf_cases hu with ⟨herror, hlast, rfl, rfl⟩ |
        ⟨s, kg, rfl, herror, rfl, hholds, hmax, hkl, rfl, hfrom⟩
      · have hr := h.reported u List.mem_cons_self herror
        refine ⟨le_max_right _ _, ?_, rfl, by simp, ?_, fun a ha hap => ?_⟩
        · simp only [Position.keyGroup, Position.after]
          omega
        · simp only [Position.after]
          rw [hcons, positionsOf_past (by omega), hlater (u.last + 1) from' hr le_rfl (by omega)]
        · simp only [Position.keyGroup] at hap
          rw [hcons, positionsOf_error (by omega) herror, hlater a from' hr (by omega) (by omega),
            show max u.first a = max u.first from' by omega]
          rfl
      · have hr : (ReadUnit.stream s).first ≤ (ReadUnit.stream s).last := by omega
        refine ⟨?_, ?_, rfl, by simp, ?_, fun a ha hap => ?_⟩
        · simp only [Position.keyGroup]
          omega
        · simp only [Position.keyGroup, Position.after]
          omega
        · simp only [Position.after]
          rw [hcons, hlater (kg + 1) from' hr (by omega) (by omega)]
        · simp only [Position.keyGroup] at hap
          rw [hcons, hfrom a (by omega) hap, hlater a from' hr (by omega) (by omega)]
          rfl

/-- The positions of a unit. -/
theorem mem_positionsOf {from' : Int} {u : ReadUnit} {p : Position} :
    p ∈ positionsOf from' u
      ↔ (u.error.isSome = true ∧ from' ≤ u.last ∧ p = .unreadable u (max u.first from'))
        ∨ (¬ u.error.isSome = true ∧ ∃ s kg, u = .stream s ∧ max u.first from' ≤ kg ∧ kg ≤ u.last
          ∧ s.holds kg = true ∧ p = .block s kg 0) := by
  by_cases herror : u.error.isSome = true
  · by_cases hlast : u.last < from'
    · rw [positionsOf_past hlast]
      simp only [List.not_mem_nil, herror, not_true_eq_false, false_and, or_false, true_and,
        false_iff, not_and]
      omega
    · rw [positionsOf_error hlast herror, List.mem_singleton]
      simp only [herror, not_true_eq_false, false_and, or_false, true_and, iff_and_self]
      omega
  · cases u with
    | failed f => exact absurd (error_failed f) herror
    | stream s =>
      rw [positionsOf_stream _ herror, List.mem_map]
      simp only [List.mem_filter, mem_keyGroups, herror, Bool.false_eq_true, false_and,
        not_false_eq_true, true_and, false_or]
      constructor
      · rintro ⟨kg, ⟨⟨hle, hkl⟩, hholds⟩, rfl⟩
        exact ⟨s, kg, rfl, hle, hkl, hholds, rfl⟩
      · rintro ⟨s', kg, heq, hle, hkl, hholds, rfl⟩
        cases heq
        exact ⟨kg, ⟨⟨hle, hkl⟩, hholds⟩, rfl⟩

theorem le_endKeyGroup {units : List ReadUnit} {u : ReadUnit} (hu : u ∈ units) :
    u.last + 1 ≤ Walk.endKeyGroup units := by
  induction units with
  | nil => cases hu
  | cons v units ih =>
    have hcons : Walk.endKeyGroup (v :: units) = max (v.last + 1) (Walk.endKeyGroup units) := rfl
    rw [hcons]
    rcases List.mem_cons.mp hu with rfl | hu
    · exact le_max_left _ _
    · exact le_trans (ih hu) (le_max_right _ _)

theorem after_le_endKeyGroup {from' : Int} {units : List ReadUnit} {p : Position}
    (hp : p ∈ positions from' units) : p.after ≤ Walk.endKeyGroup units := by
  obtain ⟨u, hu, hp⟩ := List.mem_flatMap.mp hp
  have hend := le_endKeyGroup hu
  rcases mem_positionsOf.mp hp with ⟨-, -, rfl⟩ | ⟨-, s, kg, rfl, -, hkl, -, rfl⟩
  · exact hend
  · simp only [Position.after]
    omega

/-- There are no more positions than key-groups. -/
theorem length_positions_le {units : List ReadUnit} (h : LaidOut units) (from' : Int) :
    (positions from' units).length ≤ (Walk.endKeyGroup units - from').toNat := by
  induction hps : positions from' units generalizing from' with
  | nil => exact Nat.zero_le _
  | cons p rest ih =>
    obtain ⟨hle, hlt, -, -, hafter, -⟩ := positions_cons h hps
    have hend := after_le_endKeyGroup (hps ▸ List.mem_cons_self : p ∈ positions from' units)
    have hrest := ih p.after hafter
    rw [List.length_cons]
    omega

/-! ### Where a walk can be -/

/-- What is left of a walk: the positions from the first of them on, at any ordinal of it. -/
inductive OnLine (units : List ReadUnit) : List Position → Prop
  | nil : OnLine units []
  | block {s : SubtaskStream} {kg : Int} {rest : List Position}
    (h : positions kg units = .block s kg 0 :: rest) (ordinal : UInt32) :
    OnLine units (.block s kg ordinal :: rest)
  | unreadable {u : ReadUnit} {kg : Int} {rest : List Position}
    (h : positions kg units = .unreadable u kg :: rest) : OnLine units (.unreadable u kg :: rest)

theorem OnLine.ne_ended {units : List ReadUnit} {p : Position} {rest : List Position}
    (h : OnLine units (p :: rest)) : p ≠ .ended := by
  cases h with
  | block h o => simp
  | unreadable h => simp

theorem onLine_positions {units : List ReadUnit} (h : LaidOut units) (from' : Int) :
    OnLine units (positions from' units) := by
  cases hps : positions from' units with
  | nil => exact .nil
  | cons p rest =>
    obtain ⟨hle, -, hord, hne, -, hfrom⟩ := positions_cons h hps
    have hat := hfrom p.keyGroup hle le_rfl
    cases p with
    | block s kg ordinal =>
      obtain rfl : ordinal = 0 := hord
      exact .block hat 0
    | unreadable u kg => exact .unreadable hat
    | ended => exact absurd rfl hne

theorem OnLine.startAt {units : List ReadUnit} {ps : List Position} (h : OnLine units ps)
    (from' : Int) (ordinal : UInt32) : OnLine units (startAt from' ordinal ps) := by
  cases h with
  | nil => exact .nil
  | block h o => exact .block h _
  | unreadable h => exact .unreadable h

/-- After the first position there are the others. -/
theorem OnLine.tail {units : List ReadUnit} (hunits : LaidOut units) {p : Position}
    {rest : List Position} (h : OnLine units (p :: rest)) :
    positions p.after units = rest ∧ OnLine units rest := by
  have hafter : positions p.after units = rest := by
    cases h with
    | block h o => exact (positions_cons hunits h).2.2.2.2.1
    | unreadable h => exact (positions_cons hunits h).2.2.2.2.1
  exact ⟨hafter, hafter ▸ onLine_positions hunits p.after⟩

/-- The first position is found again. -/
theorem OnLine.seek {units : List ReadUnit} {p : Position} {rest : List Position}
    (h : OnLine units (p :: rest)) :
    FlinkExplorer.startAt p.keyGroup p.ordinal (positions p.keyGroup units) = p :: rest := by
  cases h with
  | block h o =>
    simp only [Position.keyGroup, Position.ordinal]
    rw [h, FlinkExplorer.startAt, if_pos rfl]
  | unreadable h =>
    simp only [Position.keyGroup, Position.ordinal]
    rw [h]
    rfl

theorem startAt_zero {units : List ReadUnit} (hunits : LaidOut units) (from' : Int) :
    startAt from' 0 (positions from' units) = positions from' units := by
  cases hps : positions from' units with
  | nil => rfl
  | cons p rest =>
    obtain ⟨-, -, hord, -⟩ := positions_cons hunits hps
    cases p with
    | block s kg ordinal =>
      obtain rfl : ordinal = 0 := hord
      simp [startAt]
    | unreadable u kg => rfl
    | ended => rfl

end FlinkExplorer
