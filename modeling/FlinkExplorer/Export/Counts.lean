import FlinkExplorer.Export.Agree
import FlinkExplorer.Web.JobTotals

namespace FlinkExplorer

open Lib

/-!
# The same entries by rows and by counts

* `entriesCounted_gather`, `keysCounted_gather` — what it counts for a state are the entries of the
  state at them, and the keys that have one;
* `exportStateRows_counted` — so an export writes as many rows as a count that is done says.
-/

/-! ### What is counted for a state -/

section Counted

variable {R : StateReader} {o : OpenOperator} {C : CharText} {stateName : Text}

/-- The entries counted for a state. -/
def entriesCounted (stateName : Text) (states : List StateCount) : Nat :=
  ((states.filter (·.state = stateName)).map (·.entries)).sum

theorem entriesCounted_addCount (label : Text) (n : Nat) (states : List StateCount) :
    entriesCounted stateName (addCount label n states)
      = entriesCounted stateName states + if label = stateName then n else 0 := by
  induction states with
  | nil => by_cases h : label = stateName <;> simp [entriesCounted, addCount, h]
  | cons c states ih =>
    unfold addCount
    by_cases hc : c.state = label
    · rw [if_pos hc]
      subst hc
      by_cases h : c.state = stateName
      · simp [entriesCounted, h]
        omega
      · simp [entriesCounted, h]
    · rw [if_neg hc]
      unfold entriesCounted at ih ⊢
      by_cases h : c.state = stateName
      · simp [h] at ih ⊢
        omega
      · simp [h] at ih ⊢
        exact ih

/-- Entries tallied for a state, by a test of its id. -/
def tallied (p : UInt16 → Bool) (counts : List (UInt16 × Nat)) : Nat :=
  (counts.map fun c => if p c.1 then c.2 else 0).sum

theorem tallied_tally (p : UInt16 → Bool) (id : UInt16) (counts : List (UInt16 × Nat)) :
    tallied p (tally id counts) = tallied p counts + if p id then 1 else 0 := by
  induction counts with
  | nil => by_cases h : p id <;> simp [tallied, tally, h]
  | cons c counts ih =>
    obtain ⟨id', n⟩ := c
    unfold tally
    by_cases hid : id' = id
    · rw [if_pos hid]
      subst hid
      by_cases h : p id' <;> simp [tallied, h]
      omega
    · rw [if_neg hid]
      unfold tallied at ih ⊢
      rw [List.map_cons, List.sum_cons, ih, List.map_cons, List.sum_cons, Nat.add_assoc]

theorem tallied_entries (p : UInt16 → Bool) (es : List KeyedEntry) (counts : List (UInt16 × Nat)) :
    tallied p (es.foldl (fun counts e => tally e.stateId counts) counts)
      = tallied p counts + es.countP fun e => p e.stateId := by
  induction es generalizing counts with
  | nil => rfl
  | cons e es ih =>
    rw [List.foldl_cons, ih, tallied_tally, List.countP_cons]
    omega

/-- What a key adds to the entries counted for a state. -/
theorem entriesCounted_countKey (header : SubtaskHeader) (raw : RawKey) (counts : Counts) :
    entriesCounted stateName (StateReader.countKey header raw counts).states
      = entriesCounted stateName counts.states
        + raw.entries.countP fun e => header.stateLabel e.stateId = stateName := by
  have hfold (perKey : List (UInt16 × Nat)) (states : List StateCount) :
      entriesCounted stateName (perKey.foldl (fun states c =>
          addCount (header.stateLabel c.1) c.2 states) states)
        = entriesCounted stateName states
          + tallied (fun id => header.stateLabel id = stateName) perKey := by
    induction perKey generalizing states with
    | nil => rfl
    | cons c perKey ih =>
      rw [List.foldl_cons, ih, entriesCounted_addCount]
      unfold tallied
      rw [List.map_cons, List.sum_cons]
      simp only [decide_eq_true_eq]
      omega
  show entriesCounted stateName (List.foldl _ counts.states _) = _
  rw [hfold, tallied_entries]
  exact congrArg (entriesCounted stateName counts.states + ·) (Nat.zero_add _)

/-- The keys counted for a state. -/
def keysCounted (stateName : Text) (states : List StateCount) : Nat :=
  ((states.filter (·.state = stateName)).map (·.keys)).sum

theorem keysCounted_addCount (label : Text) (n : Nat) (states : List StateCount) :
    keysCounted stateName (addCount label n states)
      = keysCounted stateName states + if label = stateName then 1 else 0 := by
  induction states with
  | nil => by_cases h : label = stateName <;> simp [keysCounted, addCount, h]
  | cons c states ih =>
    unfold addCount
    by_cases hc : c.state = label
    · rw [if_pos hc]
      subst hc
      by_cases h : c.state = stateName
      · simp [keysCounted, h]
        omega
      · simp [keysCounted, h]
    · rw [if_neg hc]
      unfold keysCounted at ih ⊢
      by_cases h : c.state = stateName
      · simp [h] at ih ⊢
        omega
      · simp [h] at ih ⊢
        exact ih

theorem mem_map_tally {id id' : UInt16} {counts : List (UInt16 × Nat)} :
    id' ∈ (tally id counts).map (·.1) ↔ id' = id ∨ id' ∈ counts.map (·.1) := by
  induction counts with
  | nil => simp [tally]
  | cons c counts ih =>
    obtain ⟨first, n⟩ := c
    unfold tally
    by_cases hfirst : first = id
    · subst hfirst
      simp
    · rw [if_neg hfirst, List.map_cons, List.mem_cons, ih, List.map_cons, List.mem_cons]
      exact or_left_comm

/-- The states that a key is counted for: those of its entries, each once. -/
theorem tally_entries (es : List KeyedEntry) {counts : List (UInt16 × Nat)}
    (hnodup : (counts.map (·.1)).Nodup) :
    ((es.foldl (fun counts e => tally e.stateId counts) counts).map (·.1)).Nodup
      ∧ ∀ id, id ∈ (es.foldl (fun counts e => tally e.stateId counts) counts).map (·.1)
        ↔ id ∈ counts.map (·.1) ∨ ∃ e ∈ es, e.stateId = id := by
  induction es generalizing counts with
  | nil => exact ⟨hnodup, fun id => by simp⟩
  | cons e es ih =>
    have hnext : ((tally e.stateId counts).map (·.1)).Nodup := nodup_tally hnodup
    obtain ⟨hfold, hmem⟩ := ih hnext
    refine ⟨hfold, fun id => ?_⟩
    rw [List.foldl_cons, hmem, mem_map_tally]
    simp only [List.mem_cons, exists_eq_or_imp]
    tauto

/-- What a key adds to the keys counted for a state. -/
theorem keysCounted_countKey {header : SubtaskHeader}
    (hlabel : ∀ id id', header.stateLabel id = stateName → header.stateLabel id' = stateName →
      id = id') (raw : RawKey) (counts : Counts) :
    keysCounted stateName (StateReader.countKey header raw counts).states
      = keysCounted stateName counts.states
        + if ∃ e ∈ raw.entries, header.stateLabel e.stateId = stateName then 1 else 0 := by
  have hfold (perKey : List (UInt16 × Nat)) (states : List StateCount) :
      keysCounted stateName (perKey.foldl (fun states c =>
          addCount (header.stateLabel c.1) c.2 states) states)
        = keysCounted stateName states
          + (perKey.map (·.1)).countP fun id => header.stateLabel id = stateName := by
    induction perKey generalizing states with
    | nil => rfl
    | cons c perKey ih =>
      rw [List.foldl_cons, ih, keysCounted_addCount, List.map_cons, List.countP_cons]
      simp only [decide_eq_true_eq]
      omega
  have hnone : (([] : List (UInt16 × Nat)).map (·.1)).Nodup := List.nodup_nil
  obtain ⟨hnodup, hmem⟩ := tally_entries raw.entries hnone
  refine (hfold _ _).trans (congrArg (keysCounted stateName counts.states + ·) ?_)
  by_cases hthere : ∃ e ∈ raw.entries, header.stateLabel e.stateId = stateName
  · obtain ⟨e, he, hname⟩ := hthere
    have hin := (hmem e.stateId).mpr (.inr ⟨e, he, rfl⟩)
    rw [if_pos ⟨e, he, hname⟩]
    calc _ = List.count e.stateId _ := List.countP_congr fun id _ => by
          simp only [decide_eq_true_eq, beq_iff_eq]
          exact ⟨fun h => hlabel _ _ h hname, fun h => h ▸ hname⟩
      _ = 1 := List.count_eq_one_of_mem hnodup hin
  · rw [if_neg hthere]
    refine List.countP_eq_zero.mpr fun id hid hname => hthere ?_
    rcases (hmem id).mp hid with h | ⟨e, he, rfl⟩
    · cases h
    · exact ⟨e, he, by simpa using hname⟩

/-- Headers whose states have names of their own, each with an id. -/
structure SubtaskHeader.WellNamed (C : CharText) (header : SubtaskHeader) : Prop where
  names : NamesOk C (header.states.map (·.name))
  ids : header.states.length ≤ 65536

variable {header : SubtaskHeader}

/-- A state that is registered under a name of its own has no number for a name. -/
theorem ne_hash_of_stateId (hwell : header.WellNamed C)
    (hid : (header.stateId stateName).isSome = true) : ∀ rest, stateName ≠ '#' :: rest := by
  intro rest
  obtain ⟨id, hid⟩ := Option.isSome_iff_exists.mp hid
  obtain ⟨k, hk, -⟩ := Option.map_eq_some_iff.mp hid
  obtain ⟨hlt, hname, -⟩ := List.findIdx?_eq_some_iff_getElem.mp hk
  have hmem : stateName ∈ header.states.map (·.name) :=
    List.mem_map.mpr ⟨_, List.getElem_mem hlt, eq_of_beq hname⟩
  exact not_hash (hwell.names.valid _ hmem) rest

/-- A state that is registered has its name as a label, and no other state has. -/
theorem stateLabel_eq_iff (h : header.WellNamed C) {found : UInt16 × ResolvedState}
    (hresolved : header.resolved stateName = some found) (id : UInt16) :
    header.stateLabel id = stateName ↔ id = found.1 := by
  obtain ⟨i, hi, hsub⟩ := Option.bind_eq_some_iff.mp hresolved
  obtain ⟨sub, hsub, rfl⟩ := Option.map_eq_some_iff.mp hsub
  obtain ⟨k, hk, rfl⟩ := Option.map_eq_some_iff.mp hi
  obtain ⟨hlt, hname, -⟩ := List.findIdx?_eq_some_iff_getElem.mp hk
  have hround : (UInt16.ofNat k).toNat = k :=
    UInt16.toNat_ofNat_of_lt' (hlt.trans_le h.ids)
  have hlabel : header.stateLabel (UInt16.ofNat k) = stateName := by
    rw [stateLabel_of_lt (by rw [hround]; exact hlt)]
    simp only [hround]
    exact eq_of_beq hname
  exact ⟨fun hid => stateLabel_inj h.names (hid.trans hlabel.symm), fun hid => hid ▸ hlabel⟩

/-- A name that is not registered is no label, unless it is a number. -/
theorem stateLabel_ne_of_unresolved (h : header.WellNamed C)
    (hresolved : header.resolved stateName = none) (hhash : ∀ rest, stateName ≠ '#' :: rest)
    (id : UInt16) : header.stateLabel id ≠ stateName := by
  intro hlabel
  by_cases hid : id.toNat < header.states.length
  · have hstate := stateId_stateLabel h.names hid
    rw [hlabel] at hstate
    unfold SubtaskHeader.resolved at hresolved
    rw [hstate, Option.bind_some, List.getElem?_eq_getElem hid] at hresolved
    cases hresolved
  · rw [stateLabel_of_not_lt hid] at hlabel
    exact hhash _ hlabel.symm

/-- What a count takes from an event is what an export does. -/
theorem entriesCounted_gather_event (hhash : ∀ rest, stateName ≠ '#' :: rest) {e : Event}
    (he : ∀ s header kg ord raw, e = .key s header kg ord raw → header.WellNamed C)
    (counts : Counts) :
    entriesCounted stateName (counts.gather e).states
      = entriesCounted stateName counts.states + (e.storedFor stateName).length := by
  cases e with
  | report why => rfl
  | key s header kg ord raw =>
    have hwell := he s header kg ord raw rfl
    refine (entriesCounted_countKey header raw counts).trans (congrArg (_ + ·) ?_)
    rw [storedFor_key]
    cases hresolved : header.resolved stateName with
    | none =>
      refine List.countP_eq_zero.mpr fun e _ => ?_
      simpa using stateLabel_ne_of_unresolved hwell hresolved hhash e.stateId
    | some found =>
      show _ = (List.map _ (raw.entries.filter (·.stateId == found.1))).length
      rw [List.length_map, ← List.countP_eq_length_filter]
      refine List.countP_congr fun e _ => ?_
      simpa using stateLabel_eq_iff hwell hresolved e.stateId

/-- **What is counted for a state** are the entries that an export writes. -/
theorem entriesCounted_gather (hhash : ∀ rest, stateName ≠ '#' :: rest) {events : List Event}
    (hevents : ∀ s header kg ord raw, Event.key s header kg ord raw ∈ events → header.WellNamed C)
    (counts : Counts) :
    entriesCounted stateName (events.foldl Counts.gather counts).states
      = entriesCounted stateName counts.states
        + (events.flatMap (Event.storedFor stateName)).length := by
  induction events generalizing counts with
  | nil => rfl
  | cons e events ih =>
    have hfirst : ∀ s header kg ord raw, e = .key s header kg ord raw → header.WellNamed C := by
      rintro s header kg ord raw rfl
      exact hevents s header kg ord raw List.mem_cons_self
    rw [List.foldl_cons, ih fun s header kg ord raw h =>
        hevents s header kg ord raw (List.mem_cons_of_mem e h),
      entriesCounted_gather_event hhash hfirst, List.flatMap_cons, List.length_append, Nat.add_assoc]

/-- **The keys counted for a state** are those that have an entry of it. -/
theorem keysCounted_gather (hhash : ∀ rest, stateName ≠ '#' :: rest) {events : List Event}
    (hevents : ∀ s header kg ord raw, Event.key s header kg ord raw ∈ events → header.WellNamed C)
    (counts : Counts) :
    keysCounted stateName (events.foldl Counts.gather counts).states
      = keysCounted stateName counts.states
        + events.countP fun e => !(e.storedFor stateName).isEmpty := by
  induction events generalizing counts with
  | nil => rfl
  | cons e events ih =>
    rw [List.foldl_cons, ih fun s header kg ord raw h =>
        hevents s header kg ord raw (List.mem_cons_of_mem e h), List.countP_cons]
    cases e with
    | report why => rfl
    | key s header kg ord raw =>
      have hwell := hevents s header kg ord raw List.mem_cons_self
      have hkey : keysCounted stateName (counts.gather (.key s header kg ord raw)).states
          = _ := keysCounted_countKey (fun id id' h h' =>
            stateLabel_inj hwell.names (h.trans h'.symm)) raw counts
      have hthere : (∃ e ∈ raw.entries, header.stateLabel e.stateId = stateName)
          ↔ (!((Event.key s header kg ord raw).storedFor stateName).isEmpty) = true := by
        rw [storedFor_key]
        cases hresolved : header.resolved stateName with
        | none =>
          have hne := stateLabel_ne_of_unresolved hwell hresolved hhash
          simp [hne]
        | some found =>
          simp [stateLabel_eq_iff hwell hresolved]
      rw [hkey]
      by_cases h : ∃ e ∈ raw.entries, header.stateLabel e.stateId = stateName
      · rw [if_pos h, if_pos (hthere.mp h)]
        omega
      · rw [if_neg h, if_neg fun h' => h (hthere.mpr h')]
        omega

end Counted

section Agree

open Web

variable {R : StateReader} {o : OpenOperator} {C : CharText} {stateName : Text} {σ : Type}
  {sink : RowSink σ} {stepBytes maxRunning : Nat} {s : CountJobs} {j : Job}

/-- **Export and counts agree.**  Whatever requests and workers did meanwhile, a count job that is
    done says of a state as many entries as a successful export of it writes rows. -/
theorem exportStateRows_counted {acts : List Act} {i : Nat} {operator : Option Text} {t t' : σ}
    {stats : ExportStats} (hacts : ∀ act ∈ acts, act.Finds R.Sound)
    (hrun : CountJobs.run R stepBytes maxRunning .start acts = some s) (hj : s.jobs[i]? = some j)
    (hdone : j.state.status = .done) (hop : R.operator j.op = .ok o)
    (hbounded : o.Bounded) (hregular : o.Regular)
    (hnamed : ∀ s ∈ o.ctx.streams, ∀ header, s.header = .ok header → header.WellNamed C)
    (htarget : exportTarget R operator stateName = .ok o)
    (h : exportStateRows R sink operator stateName t = .ok (stats, t')) :
    entriesCounted stateName j.state.states = stats.rows := by
  obtain ⟨o', htarget', -, hrows, -⟩ := exportStateRows_ok h
  obtain rfl : o = o' := Except.ok.inj (htarget.symm.trans htarget')
  obtain ⟨-, -, ⟨s₀, hs₀, header₀, hheader₀, hfound⟩, -⟩ := exportTarget_eq_ok htarget
  have hhash := ne_hash_of_stateId (hnamed s₀ hs₀ header₀ hheader₀) hfound
  have hcovers := CountJobs.covers_done hacts hrun hj hdone hop hbounded
  have hcounts : (⟨j.state.states, j.state.keys⟩ : Counts)
      = (R.eventsOf o (positions 0 o.ctx.units)).foldl Counts.gather ⟨[], 0⟩ := by
    rw [hcovers.counts, placesFrom_positions hregular]
  have hevents : ∀ s header kg ord raw,
      Event.key s header kg ord raw ∈ R.eventsOf o (positions 0 o.ctx.units) →
        header.WellNamed C := by
    intro s header kg ord raw he
    obtain ⟨p, hp, he⟩ := List.mem_flatMap.mp he
    cases p with
    | ended => cases he
    | unreadable u from' => simp [StateReader.eventsAt] at he
    | block s' kg' ordinal =>
      obtain ⟨u, hu, hunit, -⟩ := positions_unit hregular.laidOut hp
      obtain rfl : u = .stream s' := by
        cases hunit
        rfl
      have hs' : s' ∈ o.ctx.streams := by
        rcases o.ctx.mem_units.mp hu with ⟨s'', hs'', heq⟩ | ⟨f, -, heq⟩
        · cases heq
          exact hs''
        · cases heq
      exact hnamed s' hs' header (header_of_mem_eventsAt he)
  calc entriesCounted stateName j.state.states
      = entriesCounted stateName ((R.eventsOf o (positions 0 o.ctx.units)).foldl Counts.gather
          ⟨[], 0⟩).states := by rw [← hcounts]
    _ = ((R.eventsOf o (positions 0 o.ctx.units)).flatMap (Event.storedFor stateName)).length := by
        rw [entriesCounted_gather hhash hevents]
        exact Nat.zero_add _
    _ = (R.storedOf o stateName).length := (storedOf_perm hregular).length_eq.symm
    _ = stats.rows := hrows.symm

/-- A key with two entries of a state: a count to its end, and an export. -/
theorem exportStateRows_counted_two :
    ∃ s j stats rows, CountJobs.run (cutReader 0) 1 1 .start countsOne = some s
      ∧ s.jobs[0]? = some j
      ∧ exportStateRows (cutReader 0) listSink none "n".toList [] = .ok (stats, rows)
      ∧ entriesCounted "n".toList j.state.states = stats.rows ∧ stats.rows = 2 := by
  have hruns : (CountJobs.run (cutReader 0) 1 1 .start countsOne).any (fun s =>
      (s.jobs[0]?).any fun j => j.state.status = .done ∧ j.op = "01".toList) = true := by
    decide +kernel
  obtain ⟨s, hs, hjob⟩ := (Option.any_eq_true _ _).mp hruns
  obtain ⟨j, hj, hall⟩ := (Option.any_eq_true _ _).mp hjob
  obtain ⟨hdone, hop⟩ := of_decide_eq_true hall
  have hexports : (exportStateRows (cutReader 0) listSink none "n".toList []).toOption.any
      (fun r => r.1.rows = 2) = true := by
    decide +kernel
  obtain ⟨⟨stats, rows⟩, hok, htwo⟩ := (Option.any_eq_true _ _).mp hexports
  have hexport := eq_ok_of_toOption hok
  have hopened : (cutReader 0).operator j.op = .ok (cutOperator 0) := by
    rw [hop]
    rfl
  have hbounded : (cutOperator 0).Bounded := by
    unfold OpenOperator.Bounded
    decide
  have hnamed : ∀ s ∈ (cutOperator 0).ctx.streams, ∀ header, s.header = .ok header →
      header.WellNamed asciiText := by
    intro s hs header hheader
    obtain rfl := List.mem_singleton.mp hs
    obtain rfl : cutHeader = header := Except.ok.inj hheader
    exact ⟨resolved_cutHeader.namesOk, by decide⟩
  have htarget : exportTarget (cutReader 0) none "n".toList = .ok (cutOperator 0) := rfl
  exact ⟨s, j, stats, rows, hs, hj, hexport, exportStateRows_counted (finds_countsOne _) hs hj hdone
    hopened hbounded (regular_cutOperator 0) hnamed htarget hexport, of_decide_eq_true htwo⟩

end Agree

end FlinkExplorer
