import FlinkExplorer.Reader.Chain

namespace FlinkExplorer

open Lib

/-!
# Whole blocks, one call after the other

A count takes whole blocks and forgets the ordinal of its cursor.  Its calls go along one list of
positions (`trail`), whatever the ranges of the units are:

* `loop_eq_trail` — the loop of a walk goes along the trail;
* `trailFrom_cursorOf` — a cursor written at a position of the trail finds the trail from there on,
  when its key-group fits (`OpenOperator.Bounded`);
* `trailFrom_positions` — where subtasks share no key-group the trail is every position, in order;
* `Walk.Went`, `count_went` — what a count takes is a first part of the trail;
* `Counts.merge` — counts put together, as one count would have them.
-/

/-! ### The trail -/

/-- The positions of a walk, each found by a seek from after the one before it. -/
def trail (units : List ReadUnit) : Nat → Int → List Position
  | 0, _ => []
  | turns + 1, from' =>
    match seekUnits from' 0 units with
    | .ended => []
    | p => p :: trail units turns p.after

/-- An operator whose key-groups fit `u16`. -/
def OpenOperator.Bounded (o : OpenOperator) : Prop :=
  ∀ u ∈ o.ctx.units, u.first < 65536 ∧ u.last < 65536

/-- A position with a key-group to it: a unit that cannot be read may have none. -/
def Position.lasting : Position → Bool
  | .unreadable u _ => u.first ≤ u.last
  | _ => true

/-- A unit that is not passed over for having no key-group. -/
def ReadUnit.lasting (u : ReadUnit) : Bool := u.error.isNone || u.first ≤ u.last

theorem trail_ended {units : List ReadUnit} {turns : Nat} {from' : Int}
    (h : seekUnits from' 0 units = .ended) : trail units turns from' = [] := by
  cases turns with
  | zero => rfl
  | succ turns => rw [trail, h]

theorem trail_cons {units : List ReadUnit} {turns : Nat} {from' : Int} {p : Position}
    (h : seekUnits from' 0 units = p) (hne : p ≠ .ended) :
    trail units (turns + 1) from' = p :: trail units turns p.after := by
  rw [trail, h]
  cases p with
  | ended => exact absurd rfl hne
  | block s kg ordinal => rfl
  | unreadable u from' => rfl

theorem seekUnits_cons (u : ReadUnit) (units : List ReadUnit) (kg : Int) :
    seekUnits kg 0 (u :: units)
      = if u.last < kg then seekUnits kg 0 units
        else if u.error.isSome then .unreadable u (max u.first kg)
        else match u with
          | .failed _ => seekUnits kg 0 units
          | .stream s =>
            match (keyGroups (max u.first kg) u.last).find? s.holds with
            | some found => .block s found 0
            | none => seekUnits kg 0 units := by
  have hordinal (found : Int) : (if found = kg then (0 : UInt32) else 0) = 0 := ite_self 0
  cases u with
  | failed f => rfl
  | stream s =>
    have hcons := seekUnits.eq_def kg 0 (.stream s :: units)
    simp only [hordinal] at hcons
    exact hcons

/-- **What a seek finds** ends after the key-group it starts from; with a key-group to it, it lies
    there or later and is found again. -/
theorem seekUnits_spec {units : List ReadUnit} {from' : Int} {p : Position}
    (h : seekUnits from' 0 units = p) (hne : p ≠ .ended) :
    from' < p.after ∧ p.after ≤ Walk.endKeyGroup units ∧ from' ≤ p.keyGroup
      ∧ (∃ u ∈ units, p.keyGroup ≤ max u.first u.last)
      ∧ (p.lasting = true → p.keyGroup < p.after ∧ seekUnits p.keyGroup 0 units = p) := by
  induction units with
  | nil => exact absurd h.symm hne
  | cons u units ih =>
    have hend : Walk.endKeyGroup (u :: units) = max (u.last + 1) (Walk.endKeyGroup units) := rfl
    -- A first unit that is passed over changes none of it.
    have hskip (hseek : seekUnits from' 0 units = p)
        (hagain : ∀ kg, from' ≤ kg → seekUnits kg 0 (u :: units) = seekUnits kg 0 units) :
        from' < p.after ∧ p.after ≤ Walk.endKeyGroup (u :: units) ∧ from' ≤ p.keyGroup
          ∧ (∃ v ∈ u :: units, p.keyGroup ≤ max v.first v.last)
          ∧ (p.lasting = true → p.keyGroup < p.after ∧ seekUnits p.keyGroup 0 (u :: units) = p) := by
      obtain ⟨hlt, hafter, hle, ⟨v, hv, hlast⟩, hseek'⟩ := ih hseek
      refine ⟨hlt, hafter.trans (hend ▸ le_max_right _ _), hle,
        ⟨v, List.mem_cons_of_mem u hv, hlast⟩, fun hp => ⟨(hseek' hp).1, ?_⟩⟩
      rw [hagain _ hle, (hseek' hp).2]
    rw [seekUnits_cons] at h
    by_cases hlast : u.last < from'
    · rw [if_pos hlast] at h
      refine hskip h fun kg hkg => ?_
      rw [seekUnits_cons, if_pos (by omega)]
    · rw [if_neg hlast] at h
      by_cases herror : u.error.isSome = true
      · rw [if_pos herror] at h
        subst h
        simp only [Position.keyGroup, Position.after, Position.lasting, decide_eq_true_eq]
        refine ⟨by omega, hend ▸ le_max_left _ _, le_max_right _ _,
          ⟨u, List.mem_cons_self, by omega⟩, fun hr => ⟨by omega, ?_⟩⟩
        rw [seekUnits_cons, if_neg (by omega), if_pos herror, max_eq_right (le_max_left _ _)]
      · rw [if_neg herror] at h
        cases u with
        | failed f => exact absurd (error_failed f) herror
        | stream s =>
          dsimp only at h
          -- the first key-group from here on that the stream holds, if it holds one
          rcases hfind : (keyGroups (max (ReadUnit.stream s).first from')
            (ReadUnit.stream s).last).find? s.holds with _ | kg
          · rw [hfind] at h
            refine hskip h fun kg hkg => ?_
            rw [seekUnits_cons, if_neg herror]
            dsimp only
            by_cases hpast : (ReadUnit.stream s).last < kg
            · rw [if_pos hpast]
            · have hnone : (keyGroups (max (ReadUnit.stream s).first kg)
                  (ReadUnit.stream s).last).find? s.holds = none := by
                rw [List.find?_eq_none] at hfind ⊢
                intro x hx
                rw [mem_keyGroups] at hx
                exact hfind x (mem_keyGroups.mpr (by omega))
              rw [if_neg hpast, hnone]
          · rw [hfind] at h
            subst h
            have hholds : s.holds kg = true := List.find?_some hfind
            have hmem := mem_keyGroups.mp (List.mem_of_find?_eq_some hfind)
            simp only [Position.keyGroup, Position.after]
            refine ⟨by omega, by omega, by omega, ⟨_, List.mem_cons_self, by omega⟩,
              fun _ => ⟨by omega, ?_⟩⟩
            rw [seekUnits_cons, if_neg (by omega), if_neg herror]
            dsimp only
            rw [max_eq_right (by omega), keyGroups_cons hmem.2, List.find?_cons_of_pos hholds]

/-- Units that start late enough are sought from any earlier key-group alike. -/
theorem seekUnits_before {units : List ReadUnit} {b k k' : Int} (hb : ∀ u ∈ units, b ≤ u.first)
    (hlasting : ∀ u ∈ units, u.lasting = true) (hk : k ≤ b) (hk' : k' ≤ b) :
    seekUnits k 0 units = seekUnits k' 0 units := by
  induction units with
  | nil => rfl
  | cons u units ih =>
    have hrest : seekUnits k 0 units = seekUnits k' 0 units :=
      ih (fun v hv => hb v (List.mem_cons_of_mem u hv))
        (fun v hv => hlasting v (List.mem_cons_of_mem u hv))
    have hfirst : b ≤ u.first := hb u List.mem_cons_self
    have hu : u.lasting = true := hlasting u List.mem_cons_self
    have hmax : max u.first k = u.first := max_eq_left (by omega)
    have hmax' : max u.first k' = u.first := max_eq_left (by omega)
    rw [seekUnits_cons, seekUnits_cons, hrest, hmax, hmax']
    by_cases hempty : u.first ≤ u.last
    · have hpast : ¬ u.last < k := by omega
      have hpast' : ¬ u.last < k' := by omega
      rw [if_neg hpast, if_neg hpast']
    · -- a unit without key-groups is passed over, wherever the search starts
      cases u with
      | failed f =>
        unfold ReadUnit.lasting at hu
        simp [ReadUnit.error, hempty] at hu
      | stream s =>
        have herror : ¬ (ReadUnit.stream s).error.isSome = true := by
          unfold ReadUnit.lasting at hu
          intro h
          simp [Option.isNone_eq_false_iff.mpr h, hempty] at hu
        have hnone : keyGroups (ReadUnit.stream s).first (ReadUnit.stream s).last = [] := by
          rw [List.eq_nil_iff_forall_not_mem]
          intro kg hkg
          have hmem := mem_keyGroups.mp hkg
          omega
        simp only [if_neg herror, hnone, List.find?_nil, ite_self]

/-- A seek without the units that have no key-group finds what it would with them, but for these. -/
theorem seekUnits_lasting {units : List ReadUnit} (hsorted : units.Pairwise (·.first ≤ ·.first))
    (from' : Int) :
    ((seekUnits from' 0 units).lasting = true
        ∧ seekUnits from' 0 (units.filter ReadUnit.lasting) = seekUnits from' 0 units)
      ∨ ∃ u ∈ units, seekUnits from' 0 units = .unreadable u u.first ∧ u.last < u.first
        ∧ from' ≤ u.last ∧ ∀ k, from' ≤ k → k ≤ u.first →
          seekUnits k 0 (units.filter ReadUnit.lasting)
            = seekUnits from' 0 (units.filter ReadUnit.lasting) := by
  induction units with
  | nil => exact .inl ⟨rfl, rfl⟩
  | cons u units ih =>
    obtain ⟨hfirst, hsorted⟩ := List.pairwise_cons.mp hsorted
    -- A first unit that is passed over, with and without the units that have no key-group.
    have hskip (hseek : seekUnits from' 0 (u :: units) = seekUnits from' 0 units)
        (hagain : ∀ k, from' ≤ k → seekUnits k 0 ((u :: units).filter ReadUnit.lasting)
          = seekUnits k 0 (units.filter ReadUnit.lasting)) :
        ((seekUnits from' 0 (u :: units)).lasting = true
            ∧ seekUnits from' 0 ((u :: units).filter ReadUnit.lasting)
              = seekUnits from' 0 (u :: units))
          ∨ ∃ v ∈ u :: units, seekUnits from' 0 (u :: units) = .unreadable v v.first
            ∧ v.last < v.first ∧ from' ≤ v.last ∧ ∀ k, from' ≤ k → k ≤ v.first →
              seekUnits k 0 ((u :: units).filter ReadUnit.lasting)
                = seekUnits from' 0 ((u :: units).filter ReadUnit.lasting) := by
      rw [hseek, hagain from' le_rfl]
      rcases ih hsorted with h | ⟨v, hv, hempty, hlt, hle, hseek'⟩
      · exact .inl h
      · refine .inr ⟨v, List.mem_cons_of_mem u hv, hempty, hlt, hle, fun k hk hk' => ?_⟩
        rw [hagain k hk, hseek' k hk hk']
    by_cases hlast : u.last < from'
    · refine hskip ?_ fun k hk => ?_
      · rw [seekUnits_cons, if_pos hlast]
      · by_cases hu : u.lasting = true
        · rw [List.filter_cons_of_pos hu, seekUnits_cons, if_pos (by omega)]
        · rw [List.filter_cons_of_neg hu]
    · by_cases herror : u.error.isSome = true
      · have hfound : seekUnits from' 0 (u :: units) = .unreadable u (max u.first from') := by
          rw [seekUnits_cons, if_neg hlast, if_pos herror]
        -- a unit with an error is found whatever its range; an empty range is the second case
        by_cases hempty : u.first ≤ u.last
        · have hu : u.lasting = true := by
            unfold ReadUnit.lasting
            simp [hempty]
          refine .inl ⟨?_, ?_⟩
          · rw [hfound]
            exact decide_eq_true hempty
          · rw [hfound, List.filter_cons_of_pos hu, seekUnits_cons, if_neg hlast, if_pos herror]
        · have hu : ¬ u.lasting = true := by
            unfold ReadUnit.lasting
            simp [Option.isNone_eq_false_iff.mpr herror, hempty]
          rw [max_eq_left (by omega)] at hfound
          refine .inr ⟨u, List.mem_cons_self, hfound, by omega, by omega, fun k hk hk' => ?_⟩
          rw [List.filter_cons_of_neg hu]
          refine seekUnits_before (b := u.first) ?_ ?_ hk' (by omega)
          · intro v hv
            exact hfirst v (List.mem_of_mem_filter hv)
          · intro v hv
            exact (List.mem_filter.mp hv).2
      · cases u with
        | failed f => exact absurd (error_failed f) herror
        | stream s =>
          have hu : (ReadUnit.stream s).lasting = true := by
            unfold ReadUnit.lasting
            simp [Option.not_isSome_iff_eq_none.mp herror]
          -- a stream is found at the first key-group it holds, or passed over
          rcases hfind : (keyGroups (max (ReadUnit.stream s).first from')
            (ReadUnit.stream s).last).find? s.holds with _ | kg
          · have hpass (k : Int) (hk : from' ≤ k) (more : List ReadUnit) :
                seekUnits k 0 (.stream s :: more) = seekUnits k 0 more := by
              rw [seekUnits_cons, if_neg herror]
              dsimp only
              have hnone : (keyGroups (max (ReadUnit.stream s).first k)
                  (ReadUnit.stream s).last).find? s.holds = none := by
                rw [List.find?_eq_none] at hfind ⊢
                intro x hx
                rw [mem_keyGroups] at hx
                exact hfind x (mem_keyGroups.mpr (by omega))
              rw [hnone, ite_self]
            refine hskip (hpass from' le_rfl units) fun k hk => ?_
            rw [List.filter_cons_of_pos hu, hpass k hk]
          · have hfound (more : List ReadUnit) :
                seekUnits from' 0 (.stream s :: more) = .block s kg 0 := by
              rw [seekUnits_cons, if_neg hlast, if_neg herror]
              simp only [hfind]
            refine .inl ⟨?_, ?_⟩
            · rw [hfound]
              rfl
            · rw [List.filter_cons_of_pos hu, hfound, hfound]

/-- With turns enough, the trail does not depend on how many there are. -/
theorem trail_stable {units : List ReadUnit} {turns turns' : Nat} {from' : Int}
    (h : Walk.endKeyGroup units - from' < turns) (h' : Walk.endKeyGroup units - from' < turns') :
    trail units turns from' = trail units turns' from' := by
  induction turns generalizing turns' from' with
  | zero =>
    by_cases hended : seekUnits from' 0 units = .ended
    · rw [trail_ended hended, trail_ended hended]
    · obtain ⟨hlt, hend, -⟩ := seekUnits_spec rfl hended
      omega
  | succ turns ih =>
    by_cases hended : seekUnits from' 0 units = .ended
    · rw [trail_ended hended, trail_ended hended]
    · obtain ⟨hlt, hend, -⟩ := seekUnits_spec rfl hended
      obtain ⟨turns', rfl⟩ : ∃ n, turns' = n + 1 := ⟨turns' - 1, by omega⟩
      have hrest : trail units turns (seekUnits from' 0 units).after
          = trail units turns' (seekUnits from' 0 units).after := ih (by omega) (by omega)
      rw [trail_cons rfl hended, trail_cons rfl hended, hrest]

theorem endKeyGroup_filter (units : List ReadUnit) :
    Walk.endKeyGroup (units.filter ReadUnit.lasting) ≤ Walk.endKeyGroup units := by
  induction units with
  | nil => exact le_rfl
  | cons u units ih =>
    have hend : Walk.endKeyGroup (u :: units) = max (u.last + 1) (Walk.endKeyGroup units) := rfl
    by_cases hu : u.lasting = true
    · have hend' : Walk.endKeyGroup (u :: units.filter ReadUnit.lasting)
          = max (u.last + 1) (Walk.endKeyGroup (units.filter ReadUnit.lasting)) := rfl
      rw [List.filter_cons_of_pos hu, hend, hend']
      omega
    · rw [List.filter_cons_of_neg hu]
      omega

/-- The trail without the units that have no key-group. -/
theorem trail_lasting {units : List ReadUnit} (hsorted : units.Pairwise (·.first ≤ ·.first))
    {turns : Nat} {from' : Int} (h : Walk.endKeyGroup units - from' < turns) :
    (trail units turns from').filter Position.lasting
      = trail (units.filter ReadUnit.lasting) turns from' := by
  induction turns generalizing from' with
  | zero => rfl
  | succ turns ih =>
    by_cases hended : seekUnits from' 0 units = .ended
    · rcases seekUnits_lasting hsorted from' with ⟨-, hseek⟩ | ⟨u, -, hfound, -⟩
      · rw [trail_ended hended, trail_ended (hseek.trans hended)]
        rfl
      · rw [hended] at hfound
        cases hfound
    · obtain ⟨hlt, hend, -⟩ := seekUnits_spec rfl hended
      rcases seekUnits_lasting hsorted from' with ⟨hp, hseek⟩ | ⟨u, hu, hfound, hempty, hle, hagain⟩
      · rw [trail_cons rfl hended, List.filter_cons_of_pos hp, trail_cons hseek hended,
          ih (by omega)]
      · -- the unit is dropped, and nothing lies between its end and its start
        have hdrop : ¬ Position.lasting (.unreadable u u.first) = true := by
          simp only [Position.lasting, decide_eq_true_eq]
          omega
        have hsame : seekUnits (u.last + 1) 0 (units.filter ReadUnit.lasting)
            = seekUnits from' 0 (units.filter ReadUnit.lasting) := hagain _ (by omega) (by omega)
        have hshorter : Walk.endKeyGroup units - (u.last + 1) < turns := by
          rw [hfound] at hlt hend
          simp only [Position.after] at hlt hend
          omega
        rw [trail_cons hfound (by simp), List.filter_cons_of_neg hdrop]
        refine (ih hshorter).trans ?_
        have hturns : Walk.endKeyGroup (units.filter ReadUnit.lasting) ≤ Walk.endKeyGroup units :=
          endKeyGroup_filter units
        have hmore : trail (units.filter ReadUnit.lasting) turns (u.last + 1)
            = trail (units.filter ReadUnit.lasting) (turns + 1) (u.last + 1) :=
          trail_stable (by omega) (by omega)
        rw [hmore, trail, trail, hsame]

/-- **A later part of the trail** is what a seek finds from its first position on, but for the
    units that have no key-group. -/
theorem trail_later {units : List ReadUnit} (hsorted : units.Pairwise (·.first ≤ ·.first))
    {turns : Nat} {from' : Int} (h : Walk.endKeyGroup units - from' < turns)
    {gone more : List Position} {p : Position}
    (hsplit : trail units turns from' = gone ++ p :: more) :
    from' ≤ p.keyGroup ∧ (∃ u ∈ units, p.keyGroup ≤ max u.first u.last) ∧ p ≠ .ended
      ∧ ∀ turns' : Nat, Walk.endKeyGroup units - p.keyGroup < turns' →
        (trail units turns' p.keyGroup).filter Position.lasting
          = (p :: more).filter Position.lasting := by
  induction gone generalizing turns from' with
  | nil =>
    by_cases hended : seekUnits from' 0 units = .ended
    · rw [trail_ended hended] at hsplit
      cases hsplit
    · obtain ⟨hlt, hend, hle, hlast, hagain⟩ := seekUnits_spec rfl hended
      obtain ⟨turns, rfl⟩ : ∃ n, turns = n + 1 := ⟨turns - 1, by omega⟩
      rw [trail_cons rfl hended, List.nil_append] at hsplit
      obtain ⟨rfl, rfl⟩ := List.cons.inj hsplit
      refine ⟨hle, hlast, hended, fun turns' h' => ?_⟩
      -- The position has a key-group, so a walk from there finds it again; or it has none.
      rcases seekUnits_lasting hsorted from' with ⟨hp, -⟩ | ⟨u, hu, hfound, hempty, hle', hseek⟩
      · obtain ⟨hafter, hfound⟩ := hagain hp
        obtain ⟨turns', rfl⟩ : ∃ n, turns' = n + 1 := ⟨turns' - 1, by omega⟩
        have hrest : trail units turns' (seekUnits from' 0 units).after
            = trail units turns (seekUnits from' 0 units).after :=
          trail_stable (by omega) (by omega)
        rw [trail_cons hfound hended, hrest]
      -- without a key-group a walk from its cursor goes on to what is behind it
      · have hdrop : ¬ Position.lasting (.unreadable u u.first) = true := by
          simp only [Position.lasting, decide_eq_true_eq]
          omega
        rw [hfound] at hlt hend h' ⊢
        simp only [Position.after, Position.keyGroup] at hlt hend h' ⊢
        have hturns := endKeyGroup_filter units
        have hsame : seekUnits u.first 0 (units.filter ReadUnit.lasting)
            = seekUnits (u.last + 1) 0 (units.filter ReadUnit.lasting) :=
          (hseek _ (by omega) le_rfl).trans (hseek _ (by omega) (by omega)).symm
        have hstart : trail (units.filter ReadUnit.lasting) turns' u.first
            = trail (units.filter ReadUnit.lasting) (turns + turns' + 1) u.first :=
          trail_stable (by omega) (by omega)
        have hpast : trail (units.filter ReadUnit.lasting) turns (u.last + 1)
            = trail (units.filter ReadUnit.lasting) (turns + turns' + 1) (u.last + 1) :=
          trail_stable (by omega) (by omega)
        rw [List.filter_cons_of_neg hdrop, trail_lasting hsorted h',
          trail_lasting hsorted (by omega), hstart, hpast, trail, trail, hsame]
  | cons q gone ih =>
    by_cases hended : seekUnits from' 0 units = .ended
    · rw [trail_ended hended] at hsplit
      cases hsplit
    · obtain ⟨hlt, hend, -⟩ := seekUnits_spec rfl hended
      obtain ⟨turns, rfl⟩ : ∃ n, turns = n + 1 := ⟨turns - 1, by omega⟩
      rw [trail_cons rfl hended, List.cons_append] at hsplit
      obtain ⟨hle', hrest⟩ := ih (by omega) (List.cons.inj hsplit).2
      exact ⟨by omega, hrest⟩

section Trail

variable {α : Type} (w : Walk α)

/-- **The loop goes along the trail.** -/
theorem Walk.loop_eq_trail (units : List ReadUnit) (fetch : Fetch Unit) (turns : Nat) (from' : Int)
    (visited : Nat) (page : Page α) :
    (w.loop fetch units turns (seekUnits from' 0 units) visited page ()).1
      = (w.pass fetch (trail units turns from') visited page).1 := by
  induction turns generalizing from' visited page with
  | zero => rfl
  | succ turns ih =>
    by_cases hended : seekUnits from' 0 units = .ended
    · rw [trail_ended hended, hended]
      rfl
    · rw [trail_cons rfl hended]
      unfold Walk.loop Walk.pass
      rw [w.clip_eq _ hended]
      generalize hp : seekUnits from' 0 units = p at hended ⊢
      by_cases hpast : w.past p.keyGroup = true
      · rw [if_pos hpast, if_pos hpast]
      · rw [if_neg hpast, if_neg hpast]
        cases p with
        | ended => exact absurd rfl hended
        | unreadable u kg =>
          dsimp only
          by_cases hstop : w.stops visited page.stats page.found = true
          · rw [if_pos hstop, if_pos hstop]
          · rw [if_neg hstop, if_neg hstop]
            exact ih (u.last + 1) _ _
        | block s kg ordinal =>
          dsimp only
          by_cases hstop : w.stops visited page.stats page.found = true
          · rw [if_pos hstop, if_pos hstop]
          · rw [if_neg hstop, if_neg hstop]
            unfold Walk.visit
            dsimp only
            rcases fetch s kg page.stats () with ⟨e | _ | ⟨header, block⟩, stats, -⟩
            · exact ih (kg + 1) _ _
            · exact ih (kg + 1) _ _
            · dsimp only
              rcases w.keys s header kg ordinal.toNat (block.keys.drop ordinal.toNat) page.found
                with ⟨found, _ | ord⟩
              · exact ih (kg + 1) _ _
              · rfl

/-! ### Whole blocks -/

/-- A walk that takes whole blocks, up to its budget. -/
structure Walk.Whole : Prop where
  unlimited : w.lastKeyGroup = none
  never : ∀ found, w.full found = false

variable (R : StateReader) (o : OpenOperator)

/-- The defect of the block of a position, if it has one. -/
def StateReader.defectsAt : Position → List Text
  | .block s kg _ => (R.defectOf o s kg).toList
  | _ => []

/-- What one call of such a walk does, from the page `before` it to the page `after` it: it takes the
    positions `gone` and leaves `rest`. -/
structure Walk.Went (before : Page α) (gone : List Position) (after : Page α)
    (rest : List Position) : Prop where
  found : after.found = (R.eventsOf o gone).foldl w.gather before.found
  unreadable : after.unreadable = before.unreadable ++ (R.eventsOf o gone).filterMap Event.reported
  malformed : after.malformed = before.malformed ++ gone.flatMap (R.defectsAt o)
  next : after.next = rest.head?.bind Position.cursorOf

variable {w R o}

/-- All keys of a block are taken. -/
theorem Walk.Whole.keys (hw : w.Whole) (s : SubtaskStream) (header : SubtaskHeader) (kg : Int)
    (ord : Nat) (raws : List RawKey) (found : α) :
    w.keys s header kg ord raws found
      = ((keyEvents s header kg ord raws).foldl w.gather found, none) := by
  induction raws generalizing ord found with
  | nil => rfl
  | cons raw raws ih =>
    have hnever : ¬ w.full found = true := by
      rw [hw.never]
      simp
    rw [Walk.keys, if_neg hnever, ih]
    rfl

/-- One position is taken whole. -/
theorem Walk.Whole.visit (hw : w.Whole) (pos : Position) (page : Page α) :
    ∃ after, w.visit (R.readBlock o) pos page = (after, none)
      ∧ after.malformed = page.malformed ++ R.defectsAt o pos := by
  cases pos with
  | ended => exact ⟨page, rfl, (List.append_nil _).symm⟩
  | unreadable u from' => exact ⟨_, rfl, (List.append_nil _).symm⟩
  | block s kg ordinal =>
    unfold Walk.visit StateReader.defectsAt StateReader.defectOf
    rcases hread : R.readBlock o s kg page.stats () with ⟨e | _ | ⟨header, block⟩, stats, u⟩
    · simp only [hread, Walk.readBlock_eq hread]
      exact ⟨_, rfl, (List.append_nil _).symm⟩
    · simp only [hread, Walk.readBlock_eq hread]
      exact ⟨_, rfl, (List.append_nil _).symm⟩
    · simp only [hread, Walk.readBlock_eq hread, hw.keys]
      exact ⟨_, rfl, rfl⟩

/-- **One call takes a first part of what is in front of it.** -/
theorem Walk.Whole.pass (hw : w.Whole) (ps : List Position) (visited : Nat) (page : Page α)
    (hpage : page.next = none) :
    ∃ gone rest, ps = gone ++ rest
      ∧ w.Went R o page gone (w.pass (R.readBlock o) ps visited page).1 rest := by
  induction ps generalizing visited page with
  | nil => exact ⟨[], [], rfl, ⟨rfl, (List.append_nil _).symm, (List.append_nil _).symm, hpage⟩⟩
  | cons pos ps ih =>
    unfold Walk.pass
    have hpast : ¬ w.past pos.keyGroup = true := by
      unfold Walk.past
      rw [hw.unlimited]
      simp
    rw [if_neg hpast]
    by_cases hstop : w.stops visited page.stats page.found = true
    · rw [if_pos hstop]
      exact ⟨[], pos :: ps, rfl, ⟨rfl, (List.append_nil _).symm, (List.append_nil _).symm, rfl⟩⟩
    · rw [if_neg hstop]
      obtain ⟨middle, hvisit, hmalformed⟩ := hw.visit pos page
      obtain ⟨hfound, hunreadable, hnext, -⟩ := Walk.visit_none hvisit
      rw [hvisit]
      obtain ⟨gone, rest, rfl, h⟩ := ih (visited + 1) middle (hnext.trans hpage)
      refine ⟨pos :: gone, rest, rfl, ?_, ?_, ?_, h.next⟩
      · rw [h.found, hfound, StateReader.eventsOf, StateReader.eventsOf, List.flatMap_cons,
          List.foldl_append]
      · rw [h.unreadable, hunreadable, StateReader.eventsOf, StateReader.eventsOf,
          List.flatMap_cons, List.filterMap_append, List.append_assoc]
      · rw [h.malformed, hmalformed, List.flatMap_cons, List.append_assoc]

end Trail

/-! ### Counts -/

/-- The positions from a key-group on. -/
def OpenOperator.trailFrom (o : OpenOperator) (from' : Int) : List Position :=
  trail o.ctx.units ((Walk.endKeyGroup o.ctx.units - from').toNat + 1) from'

section Counts

variable {R : StateReader} {o : OpenOperator} {op : Text}

theorem whole_countWalk (byteBudget : Nat) : (StateReader.countWalk byteBudget).Whole :=
  ⟨rfl, fun _ => rfl⟩

/-- What counting does with an event, whatever the budget is. -/
def Counts.gather : Counts → Event → Counts := (StateReader.countWalk 0).gather

/-- A count goes along the trail, whatever is cached. -/
theorem count_eq_pass (hop : R.operator op = .ok o) {cache : BlockCache} (hcache : R.Sound cache)
    {c : Cursor} (hcheck : o.checkCursor c = .ok ()) (byteBudget : Nat) :
    ∃ page, (R.count op c byteBudget cache).1 = .ok page
      ∧ page.visited = ((StateReader.countWalk byteBudget).pass (R.readBlock o)
          (o.trailFrom c.keyGroup.toNat) 0 ⟨⟨[], 0⟩, none, .zero, [], []⟩).1 := by
  obtain ⟨hrun, -⟩ := StateReader.run_grouped hop (StateReader.countWalk byteBudget) false
    c.keyGroup.toNat 0 ⟨[], 0⟩ hcache
  have hloop : ((StateReader.countWalk byteBudget).run (R.readBlock o) o.ctx c.keyGroup.toNat 0
      ⟨[], 0⟩ ()).1 = ((StateReader.countWalk byteBudget).pass (R.readBlock o)
        (o.trailFrom c.keyGroup.toNat) 0 ⟨⟨[], 0⟩, none, .zero, [], []⟩).1 :=
    Walk.loop_eq_trail _ _ _ _ _ _ _
  unfold StateReader.count StateReader.page
  simp only [hop, hcheck]
  exact ⟨_, rfl, hrun.trans hloop⟩

/-- **One count takes a first part of the trail.** -/
theorem count_went (hop : R.operator op = .ok o) {cache : BlockCache} (hcache : R.Sound cache)
    {c : Cursor} {byteBudget : Nat} {page : Page Counts}
    (hcount : (R.count op c byteBudget cache).1 = .ok page) :
    ∃ gone rest, o.trailFrom c.keyGroup.toNat = gone ++ rest
      ∧ page.found = (R.eventsOf o gone).foldl Counts.gather ⟨[], 0⟩
      ∧ page.unreadable = (R.eventsOf o gone).filterMap Event.reported
      ∧ page.malformed = gone.flatMap (R.defectsAt o)
      ∧ page.next = rest.head?.bind Position.cursorOf := by
  have hcheck : o.checkCursor c = .ok () := by
    rcases hcheck : o.checkCursor c with e | ⟨⟩
    · unfold StateReader.count StateReader.page at hcount
      simp only [hop, hcheck] at hcount
      cases hcount
    · rfl
  obtain ⟨page', hpage, hpass⟩ := count_eq_pass hop hcache hcheck byteBudget
  obtain rfl := Except.ok.inj (hpage.symm.trans hcount)
  obtain ⟨gone, rest, hsplit, h⟩ := (whole_countWalk byteBudget).pass (R := R) (o := o)
    (o.trailFrom c.keyGroup.toNat) 0 ⟨⟨[], 0⟩, none, .zero, [], []⟩ rfl
  rw [← hpass] at h
  exact ⟨gone, rest, hsplit, h.found, h.unreadable, h.malformed, h.next⟩

/-- **A cursor on the trail finds the rest of it**, but for the units that have no key-group. -/
theorem trailFrom_cursorOf (ho : o.Bounded) {from' : Int} (hfrom : 0 ≤ from')
    {gone more : List Position} {p : Position} (hsplit : o.trailFrom from' = gone ++ p :: more) :
    ∃ c, p.cursorOf = some c
      ∧ (o.trailFrom c.keyGroup.toNat).filter Position.lasting
        = (p :: more).filter Position.lasting := by
  obtain ⟨hle, ⟨u, hu, hlast⟩, hne, hlater⟩ :=
    trail_later (units_sorted o.ctx) (by omega) hsplit
  have hfits := ho u hu
  have hround : ((UInt16.ofInt p.keyGroup).toNat : Int) = p.keyGroup :=
    toNat_ofInt_keyGroup (by omega) (by omega)
  have hrest := hlater ((Walk.endKeyGroup o.ctx.units - p.keyGroup).toNat + 1) (by omega)
  cases p with
  | ended => exact absurd rfl hne
  | block s kg ordinal =>
    refine ⟨_, rfl, ?_⟩
    unfold OpenOperator.trailFrom
    rw [show ((UInt16.ofInt kg).toNat : Int) = kg from hround]
    exact hrest
  | unreadable u kg =>
    refine ⟨_, rfl, ?_⟩
    unfold OpenOperator.trailFrom
    rw [show ((UInt16.ofInt kg).toNat : Int) = kg from hround]
    exact hrest

end Counts

/-! ### Counts put together -/

/-- The counts of a state, added to those there are. -/
def mergeState : List StateCount → StateCount → List StateCount
  | [], c => [c]
  | x :: states, c =>
    if x.state = c.state then ⟨x.state, x.keys + c.keys, x.entries + c.entries⟩ :: states
    else x :: mergeState states c

/-- The counts of a page, added to those there are. -/
def Counts.merge (a b : Counts) : Counts := ⟨b.states.foldl mergeState a.states, a.keys + b.keys⟩

theorem addCount_eq (label : Text) (n : Nat) (states : List StateCount) :
    addCount label n states = mergeState states ⟨label, 1, n⟩ := by
  induction states with
  | nil => rfl
  | cons x states ih =>
    unfold addCount mergeState
    rw [ih]

theorem mem_mergeState (states : List StateCount) (c : StateCount) :
    ∃ x ∈ mergeState states c, x.state = c.state := by
  induction states with
  | nil => exact ⟨c, List.mem_cons_self, rfl⟩
  | cons x states ih =>
    unfold mergeState
    by_cases hx : x.state = c.state
    · rw [if_pos hx]
      exact ⟨_, List.mem_cons_self, hx⟩
    · rw [if_neg hx]
      obtain ⟨y, hy, hstate⟩ := ih
      exact ⟨y, List.mem_cons_of_mem x hy, hstate⟩

theorem mem_mergeState_of_mem {states : List StateCount} {label : Text}
    (h : ∃ x ∈ states, x.state = label) (d : StateCount) :
    ∃ x ∈ mergeState states d, x.state = label := by
  induction states with
  | nil =>
    obtain ⟨x, hx, -⟩ := h
    cases hx
  | cons y states ih =>
    obtain ⟨x, hx, hstate⟩ := h
    unfold mergeState
    by_cases hy : y.state = d.state
    · rw [if_pos hy]
      rcases List.mem_cons.mp hx with rfl | hx
      · exact ⟨_, List.mem_cons_self, hstate⟩
      · exact ⟨x, List.mem_cons_of_mem _ hx, hstate⟩
    · rw [if_neg hy]
      rcases List.mem_cons.mp hx with rfl | hx
      · exact ⟨x, List.mem_cons_self, hstate⟩
      · obtain ⟨z, hz, hlabel⟩ := ih ⟨x, hx, hstate⟩
        exact ⟨z, List.mem_cons_of_mem _ hz, hlabel⟩

/-- Two counts of one state are added at once or one after the other. -/
theorem mergeState_same (states : List StateCount) {c d : StateCount} (h : c.state = d.state) :
    mergeState (mergeState states c) d
      = mergeState states ⟨c.state, c.keys + d.keys, c.entries + d.entries⟩ := by
  induction states with
  | nil => simp [mergeState, h]
  | cons x states ih =>
    by_cases hx : x.state = c.state
    · have hd : x.state = d.state := hx.trans h
      simp [mergeState, hx, h, Nat.add_assoc]
    · have hd : ¬ x.state = d.state := fun hd => hx (hd.trans h.symm)
      simp only [mergeState, if_neg hx, if_neg hd, ih]

/-- A state that is there keeps its place. -/
theorem mergeState_comm {states : List StateCount} {c : StateCount}
    (h : ∃ x ∈ states, x.state = c.state) (d : StateCount) :
    mergeState (mergeState states c) d = mergeState (mergeState states d) c := by
  induction states with
  | nil =>
    obtain ⟨x, hx, -⟩ := h
    cases hx
  | cons x states ih =>
    by_cases hc : x.state = c.state
    · by_cases hd : x.state = d.state
      · simp only [mergeState, if_pos hc, if_pos hd]
        rw [Nat.add_right_comm, Nat.add_right_comm x.entries]
      · simp only [mergeState, if_pos hc, if_neg hd]
    · have hrest : ∃ y ∈ states, y.state = c.state := by
        obtain ⟨y, hy, hstate⟩ := h
        rcases List.mem_cons.mp hy with rfl | hy
        · exact absurd hstate hc
        · exact ⟨y, hy, hstate⟩
      by_cases hd : x.state = d.state
      · simp only [mergeState, if_neg hc, if_pos hd]
      · simp only [mergeState, if_neg hc, if_neg hd, ih hrest]

theorem foldl_mergeState_comm {states : List StateCount} {c : StateCount}
    (h : ∃ x ∈ states, x.state = c.state) (ds : List StateCount) :
    ds.foldl mergeState (mergeState states c) = mergeState (ds.foldl mergeState states) c := by
  induction ds generalizing states with
  | nil => rfl
  | cons d ds ih =>
    have hrest : ∃ x ∈ mergeState states d, x.state = c.state := mem_mergeState_of_mem h d
    rw [List.foldl_cons, List.foldl_cons, mergeState_comm h, ih hrest]

/-- **One more count of a state**, before or after others are put in front of it. -/
theorem foldl_mergeState (states ds : List StateCount) (c : StateCount) :
    (mergeState ds c).foldl mergeState states = mergeState (ds.foldl mergeState states) c := by
  induction ds generalizing states with
  | nil => rfl
  | cons d ds ih =>
    by_cases hd : d.state = c.state
    · have hcons : mergeState (d :: ds) c
          = ⟨d.state, d.keys + c.keys, d.entries + c.entries⟩ :: ds := by
        rw [mergeState, if_pos hd]
      obtain ⟨x, hx, hstate⟩ := mem_mergeState states d
      rw [hcons, List.foldl_cons, List.foldl_cons, ← mergeState_same states hd,
        foldl_mergeState_comm ⟨x, hx, hstate.trans hd⟩]
    · have hcons : mergeState (d :: ds) c = d :: mergeState ds c := by
        rw [mergeState, if_neg hd]
      rw [hcons, List.foldl_cons, List.foldl_cons, ih]

theorem Counts.merge_gather (a b : Counts) (e : Event) :
    (a.merge b).gather e = a.merge (b.gather e) := by
  cases e with
  | report why => rfl
  | key s header kg ord raw =>
    have hadd (perKey : List (UInt16 × Nat)) (states : List StateCount) :
        perKey.foldl (fun states c => addCount (header.stateLabel c.1) c.2 states)
            (states.foldl mergeState a.states)
          = (perKey.foldl (fun states c => addCount (header.stateLabel c.1) c.2 states)
            states).foldl mergeState a.states := by
      induction perKey generalizing states with
      | nil => rfl
      | cons c perKey ih =>
        rw [List.foldl_cons, List.foldl_cons, ← ih, addCount_eq, addCount_eq, foldl_mergeState]
    unfold Counts.gather Walk.gather StateReader.countWalk StateReader.countKey Counts.merge
    dsimp only
    rw [hadd, Nat.add_assoc]

/-- **The counts of a part, put behind what was counted before it.** -/
theorem Counts.merge_foldl (a : Counts) (events : List Event) :
    a.merge (events.foldl Counts.gather ⟨[], 0⟩) = events.foldl Counts.gather a := by
  have hfold (b : Counts) :
      a.merge (events.foldl Counts.gather b) = events.foldl Counts.gather (a.merge b) := by
    induction events generalizing b with
    | nil => rfl
    | cons e events ih => rw [List.foldl_cons, List.foldl_cons, ih, Counts.merge_gather]
  exact hfold ⟨[], 0⟩

section Positions

variable {units : List ReadUnit} {o : OpenOperator}

theorem trail_positions (h : LaidOut units) (turns : Nat) (from' : Int)
    (hturns : Walk.endKeyGroup units - from' < turns) :
    trail units turns from' = positions from' units := by
  have hhead (from' : Int) : seekUnits from' 0 units = headPosition (positions from' units) := by
    rw [seekUnits_eq, startAt_zero h]
  induction turns generalizing from' with
  | zero =>
    cases hps : positions from' units with
    | nil => rfl
    | cons p rest =>
      -- a position lies before the end
      have hseek : seekUnits from' 0 units = p := by rw [hhead, hps]; rfl
      obtain ⟨-, -, -, hne, -⟩ := positions_cons h hps
      obtain ⟨hlt, hend, -⟩ := seekUnits_spec hseek hne
      omega
  | succ turns ih =>
    cases hps : positions from' units with
    | nil =>
      have hseek : seekUnits from' 0 units = .ended := by rw [hhead, hps]; rfl
      exact trail_ended hseek
    | cons p rest =>
      have hseek : seekUnits from' 0 units = p := by rw [hhead, hps]; rfl
      obtain ⟨-, -, -, hne, hafter, -⟩ := positions_cons h hps
      obtain ⟨hlt, hend, -⟩ := seekUnits_spec hseek hne
      have hrest : trail units turns p.after = rest := by
        rw [ih p.after (by omega), hafter]
      rw [trail_cons hseek hne, hrest]

/-- A count goes through the positions of an operator. -/
theorem trailFrom_positions (ho : o.Regular) : o.trailFrom 0 = positions 0 o.ctx.units :=
  trail_positions ho.laidOut _ _ (by omega)

end Positions

end FlinkExplorer
