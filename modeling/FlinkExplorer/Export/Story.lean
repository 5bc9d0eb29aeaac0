import FlinkExplorer.Export.Pages

namespace FlinkExplorer

open Lib

/-!
# Export, pages and counts tell the same story

Three traversals of an operator: the rows of an export, the pages of keys with the entry pages that
complete them, and a chain of counts under budgets.

* `exists_countChain`, `Chained.countedFor` — a chain of counts ends, and counts every entry and every
  key of a state;
* `events_apart` — no two keys of a walk are the same key of the same key-group;
* `export_pages_counts` — rows, pages and counts hold the same entries of a state.
-/

/-! ### Chains of counts -/

section CountChains

variable {C : CharText} {R : StateReader} {o : OpenOperator} {op : Text} {stateName : Text}
  {budgets : Nat → Nat} {caches : Nat → BlockCache}

/-- A count goes on at the first key of a block. -/
theorem ordinal_of_count (hop : R.operator op = .ok o) (ho : o.Regular) {cache : BlockCache}
    (hcache : R.Sound cache) {c c' : Cursor} {byteBudget : Nat} {page : Page Counts}
    (hcount : (R.count op c byteBudget cache).1 = .ok page) (hnext : page.next = some c') :
    c'.ordinal = 0 := by
  obtain ⟨gone, rest, hsplit, -, -, -, hpage⟩ := count_went hop hcache hcount
  have htrail : o.trailFrom c.keyGroup.toNat = positions c.keyGroup.toNat o.ctx.units :=
    trail_positions ho.laidOut _ _ (by omega)
  rw [hpage] at hnext
  obtain ⟨p, hp, hcursor⟩ := Option.bind_eq_some_iff.mp hnext
  have hmem : p ∈ positions c.keyGroup.toNat o.ctx.units := by
    rw [← htrail, hsplit]
    exact List.mem_append_right _ (List.mem_of_mem_head? hp)
  obtain ⟨u, -, hu⟩ := List.mem_flatMap.mp hmem
  rcases mem_positionsOf.mp hu with ⟨-, -, rfl⟩ | ⟨-, s, kg, rfl, -, -, -, rfl⟩
  · obtain rfl := Option.some.inj hcursor
    rfl
  · obtain rfl := Option.some.inj hcursor
    rfl

/-- **Every chain of counts ends**, and passes every key once. -/
theorem exists_countChain (hop : R.operator op = .ok o) (ho : o.Regular) (hsized : R.Sized o)
    (hzero : ∀ u, o.ctx.unitOf 0 = some u → u.subtask = 0) (budgets : Nat → Nat)
    (hcaches : ∀ i, R.Reached (caches i)) :
    ∃ calls, Chain (fun i c _ => (R.count op c (budgets i) (caches i)).1) 0 Cursor.start ⟨[], 0⟩ calls
      ∧ Chained R o (StateReader.countWalk 0) (fun _ => ⟨[], 0⟩) Cursor.start ⟨[], 0⟩ calls
        (R.eventsOf o (positions 0 o.ctx.units)) := by
  let atKey (i : Nat) (c : Cursor) (_ : Counts) : Except ReaderError (Page Counts) :=
    (R.page op c (StateReader.countWalk (budgets i)) false c.ordinal ⟨[], 0⟩ (caches i)).1
  have hcall : ∀ i c found, ∃ w keep cache, Walk.Alike w (StateReader.countWalk 0) ∧ R.Sound cache
      ∧ ¬ w.full ⟨[], 0⟩ = true
      ∧ atKey i c found = (R.page op c w keep c.ordinal ⟨[], 0⟩ cache).1 := fun i c _ =>
    ⟨StateReader.countWalk (budgets i), false, caches i, ⟨rfl, rfl⟩, (hcaches i).sound,
      Bool.false_ne_true, rfl⟩
  obtain ⟨calls, events, hchain, hchained⟩ :=
    exists_chained hop ho hsized hcall 0 Cursor.start (checkCursor_start hzero) ⟨[], 0⟩
  have hevents : events = R.eventsOf o (positions 0 o.ctx.units) := by
    rw [hchained.events_eq, ahead_start ho,
      inRange_eq_filter _ (positions_sorted ho.laidOut 0)]
    exact congrArg (R.eventsOf o) (List.filter_eq_self.mpr fun p _ => rfl)
  refine ⟨calls, ?_, hevents ▸ hchained⟩
  have hsame (i : Nat) (c : Cursor) (found : Counts) (hord : c.ordinal = 0) :
      (R.count op c (budgets i) (caches i)).1 = atKey i c found := by
    show (R.page op c (StateReader.countWalk (budgets i)) false 0 ⟨[], 0⟩ (caches i)).1
      = (R.page op c (StateReader.countWalk (budgets i)) false c.ordinal ⟨[], 0⟩ (caches i)).1
    rw [hord]
  -- no count stops inside a block, so each starts at a first key
  have hfirst : ∀ {i : Nat} {c : Cursor} {found : Counts} {calls : List (Cursor × Page Counts)},
      Chain atKey i c found calls → c.ordinal = 0 →
        Chain (fun i c _ => (R.count op c (budgets i) (caches i)).1) i c found calls := by
    intro i c found calls h
    induction h with
    | @last i c found page hpage hnext =>
      intro hord
      exact .last ((hsame i c found hord).trans hpage) hnext
    | @more i c c' found page calls hpage hnext hrest ih =>
      intro hord
      have hcount := (hsame i c found hord).trans hpage
      exact .more hcount hnext (ih (ordinal_of_count hop ho (hcaches i).sound hcount hnext))
  exact hfirst hchain rfl

/-- The pages of counts together: the entries of a state, and the keys that have one. -/
theorem Chained.countedFor {c : Cursor} {found : Counts} {calls : List (Cursor × Page Counts)}
    {events : List Event} (hhash : ∀ rest, stateName ≠ '#' :: rest)
    (h : Chained R o (StateReader.countWalk 0) (fun _ => ⟨[], 0⟩) c found calls events)
    (hevents : ∀ s header kg ord raw, Event.key s header kg ord raw ∈ events → header.WellNamed C) :
    entriesCounted stateName (calls.flatMap (·.2.found.states))
        = (events.flatMap (Event.storedFor stateName)).length
      ∧ keysCounted stateName (calls.flatMap (·.2.found.states))
        = events.countP fun e => !(e.storedFor stateName).isEmpty := by
  have hpage {page : Page Counts} {taken : List Event}
      (hfound : page.found = taken.foldl Counts.gather ⟨[], 0⟩)
      (htaken : ∀ s header kg ord raw, Event.key s header kg ord raw ∈ taken →
        header.WellNamed C) :
      entriesCounted stateName page.found.states
          = (taken.flatMap (Event.storedFor stateName)).length
        ∧ keysCounted stateName page.found.states
          = taken.countP fun e => !(e.storedFor stateName).isEmpty := by
    rw [hfound, entriesCounted_gather hhash htaken, keysCounted_gather hhash htaken]
    exact ⟨Nat.zero_add _, Nat.zero_add _⟩
  induction h with
  | last hpassed =>
    obtain ⟨hentries, hkeys⟩ := hpage hpassed.found hevents
    rw [List.flatMap_cons, List.flatMap_nil, List.append_nil]
    exact ⟨hentries, hkeys⟩
  | more hpassed hnext hbefore hcheck hrest ih =>
    obtain ⟨hentries, hkeys⟩ := hpage hpassed.found fun s header kg ord raw h =>
      hevents s header kg ord raw (List.mem_append_left _ h)
    obtain ⟨hmore, hmoreKeys⟩ := ih fun s header kg ord raw h =>
      hevents s header kg ord raw (List.mem_append_right _ h)
    constructor
    · rw [List.flatMap_cons, List.flatMap_append, List.length_append, ← hentries, ← hmore]
      simp only [entriesCounted, List.filter_append, List.map_append, List.sum_append]
    · rw [List.flatMap_cons, List.countP_append, ← hkeys, ← hmoreKeys]
      simp only [keysCounted, List.filter_append, List.map_append, List.sum_append]

end CountChains

/-! ### One story -/

/-- The key-group and the text of the key of an event. -/
def Event.keyOf : Event → UInt16 × Text
  | .key _ _ kg _ raw => (UInt16.ofInt kg, raw.key)
  | .report _ => (0, [])

section Story

variable {C : CharText} {R : StateReader} {o : OpenOperator} {op : Text} {stateName : Text}
  {s : SubtaskStream} {kg : Int} {header : SubtaskHeader} {block : GroupedBlock}

/-- The keys of a block are apart. -/
theorem keys_nodup (hcontent : R.contentOf o s kg = .ok (some (header, block)))
    (hkg : (ReadUnit.stream s).Has kg) : (block.keys.map (·.key)).Nodup := by
  have hfirst : s.startKeyGroup ≤ kg := hkg.1
  obtain ⟨i, rfl⟩ : ∃ i : Nat, kg = s.startKeyGroup + i :=
    ⟨(kg - s.startKeyGroup).toNat, by omega⟩
  rcases contentOf_at (R := R) (o := o) (header_of_contentOf hcontent) i with
    ⟨e', herror, -⟩ | ⟨hnone, -⟩ | ⟨block', hblock, hkeys, -⟩
  · rw [hcontent] at herror
    cases herror
  · rw [hcontent] at hnone
    cases hnone
  · rw [hcontent] at hblock
    obtain rfl : block = block' := by cases hblock; rfl
    rw [hkeys, groupEntries_eq, recordsOf, List.map_map]
    have hid : ((fun raw : RawKey => raw.key) ∘ recordOf (R.parsedAt o s header i).1) = id := rfl
    rw [hid, List.map_id]
    exact (keysOf_spec _).1

theorem keyEvents_apart (s : SubtaskStream) (header : SubtaskHeader) (kg : Int) (ord : Nat)
    {raws : List RawKey} (hnodup : (raws.map (·.key)).Nodup) :
    (keyEvents s header kg ord raws).Pairwise fun a b => a.keyOf ≠ b.keyOf := by
  induction raws generalizing ord with
  | nil => exact .nil
  | cons raw raws ih =>
    obtain ⟨hnew, hrest⟩ := List.nodup_cons.mp hnodup
    refine List.pairwise_cons.mpr ⟨fun e he heq => ?_, ih (ord + 1) hrest⟩
    cases e with
    | report why =>
      have hnone := List.filterMap_eq_nil_iff.mp
        (Walk.reported_keyEvents s header kg (ord + 1) raws) _ he
      cases hnone
    | key s' header' kg' ord' raw' =>
      obtain ⟨-, -, -, -, hraw⟩ := mem_keyEvents he
      have hsame : raw.key = raw'.key := congrArg Prod.snd heq
      have hmem : raw.key ∈ raws.map (·.key) := by
        rw [hsame]
        exact List.mem_map_of_mem (List.mem_of_getElem? hraw)
      exact hnew hmem

/-- The keys of an operator with an entry of a state are apart. -/
theorem events_apart (ho : o.Regular) :
    (R.eventsOf o (positions 0 o.ctx.units)).Pairwise fun a b =>
      a.storedFor stateName ≠ [] → b.storedFor stateName ≠ [] → a.keyOf ≠ b.keyOf := by
  -- within a position the keys of a block are distinct; across positions the key-groups are
  refine List.pairwise_flatMap.mpr ⟨fun p hp => ?_, ?_⟩
  · cases p with
    | ended => exact .nil
    | unreadable u from' => exact List.pairwise_singleton _ _
    | block s kg ordinal =>
      obtain ⟨u, hu, hunit, hkg⟩ := positions_unit ho.laidOut hp
      obtain rfl : u = .stream s := by
        cases hunit
        rfl
      unfold StateReader.eventsAt
      rcases hcontent : R.contentOf o s kg with e | _ | ⟨header, block⟩
      · simp only [hcontent]
        exact List.pairwise_singleton _ _
      · simp only [hcontent]
        exact .nil
      · simp only [hcontent]
        have hnodup : ((block.keys.drop ordinal.toNat).map (·.key)).Nodup :=
          ((List.drop_sublist _ _).map _).nodup (keys_nodup hcontent hkg)
        refine (keyEvents_apart s header kg ordinal.toNat hnodup).imp ?_
        exact fun hne _ _ => hne
  · refine List.Pairwise.imp_of_mem (fun {p q} hp hq hlt a ha b hb hsome hsome' heq => ?_)
      (positions_sorted ho.laidOut 0)
    have hplace {p : Position} (hp : p ∈ positions 0 o.ctx.units) {e : Event}
        (he : e ∈ R.eventsAt o p) (hne : e.storedFor stateName ≠ []) :
        ∃ text, e.keyOf = (UInt16.ofInt p.keyGroup, text) ∧ 0 ≤ p.keyGroup ∧ p.keyGroup < 65536 := by
      obtain ⟨u, hu, -, hkg⟩ := positions_unit ho.laidOut hp
      obtain ⟨h0, -, h2⟩ := ho.within u hu _ hkg
      cases e with
      | report why => exact absurd rfl hne
      | key s header kg ord raw =>
        refine ⟨raw.key, ?_, h0, h2⟩
        cases p with
        | ended => cases he
        | unreadable u' from' => simp [StateReader.eventsAt] at he
        | block s' kg' ordinal =>
          obtain ⟨-, rfl⟩ := mem_eventsAt_block he
          rfl
    obtain ⟨text, hkey, h0, h1⟩ := hplace hp ha hsome
    obtain ⟨text', hkey', h0', h1'⟩ := hplace hq hb hsome'
    rw [hkey, hkey'] at heq
    have hround := congrArg (fun k : UInt16 × Text => (k.1.toNat : Int)) heq
    simp only [toNat_ofInt_keyGroup h0 h1, toNat_ofInt_keyGroup h0' h1'] at hround
    omega

/-- What goes along with each key of a walk goes along with all of its records. -/
theorem forall₂_records {β : Type} {P : Stored → β → Prop} {shown : KeyRecord → List β}
    {events : List Event}
    (h : ∀ s header kg ord raw, Event.key s header kg ord raw ∈ events →
      List.Forall₂ P ((Event.key s header kg ord raw).storedFor stateName)
        (shown (R.record s header kg ord raw))) :
    List.Forall₂ P (events.flatMap (Event.storedFor stateName))
      ((events.filterMap R.recordOf).flatMap shown) := by
  induction events with
  | nil => exact .nil
  | cons e events ih =>
    have hrest := ih fun s header kg ord raw he =>
      h s header kg ord raw (List.mem_cons_of_mem e he)
    cases e with
    | report why =>
      have hnone : R.recordOf (.report why) = none := rfl
      rw [List.filterMap_cons_none hnone]
      exact hrest
    | key s header kg ord raw =>
      have hsome : R.recordOf (.key s header kg ord raw) = some (R.record s header kg ord raw) := rfl
      rw [List.filterMap_cons_some hsome, List.flatMap_cons, List.flatMap_cons]
      exact List.rel_append (h s header kg ord raw List.mem_cons_self) hrest

/-- The rows of a state say, up to order, what the records say that are completed as the block has
    it. -/
theorem rows_say (ho : o.Regular) {entriesOf : KeyRecord → List StateEntry}
    (hentriesOf : ∀ s header kg ord raw,
      Event.key s header kg ord raw ∈ R.eventsOf o (positions 0 o.ctx.units) →
        entriesOf (R.record s header kg ord raw) = R.shownAt stateName (.key s header kg ord raw)) :
    ∃ rows', (R.rowsOf o stateName).Perm rows'
      ∧ List.Forall₂ (fun row shown => row.Says R shown.1 shown.2) rows'
        ((R.keysWhere o fun _ => true).flatMap fun r => (entriesOf r).map (r, ·)) := by
  have hsays : List.Forall₂ (fun (x : Stored) (shown : KeyRecord × StateEntry) =>
        ∀ n, (R.storedRow o n x).Says R shown.1 shown.2)
      ((R.eventsOf o (positions 0 o.ctx.units)).flatMap (Event.storedFor stateName))
      ((R.keysWhere o fun _ => true).flatMap fun r => (entriesOf r).map (r, ·)) := by
    rw [keysWhere_events ho]
    refine forall₂_records fun s header kg ord raw he => ?_
    obtain ⟨-, hkg, block, hcontent, hraw⟩ := key_of_mem_events he
    rw [hentriesOf s header kg ord raw he]
    exact says_key (keyGroup_of_contentOf hcontent hkg hraw)
  -- the rows are numbered in the order of the streams, the records come by key-group
  obtain ⟨rows', hrows', hperm⟩ := List.perm_comp_forall₂ (storedOf_perm ho).symm
    (forall₂_mapIdx (R.storedRow o) (R.storedOf o stateName))
  refine ⟨rows', hperm.symm, forall₂_along ?_ hrows' hsays⟩
  rintro x row shown ⟨n, rfl⟩ hall
  exact hall n

/-- The rows of a state have as many keys as the operator has with an entry of it. -/
theorem distinct_rows (ho : o.Regular) :
    ((R.rowsOf o stateName).map fun row => (row.keyGroup, row.key)).dedup.length
      = (R.eventsOf o (positions 0 o.ctx.units)).countP fun e => !(e.storedFor stateName).isEmpty := by
  have hpairs : (R.rowsOf o stateName).map (fun row => (row.keyGroup, row.key))
      = (R.storedOf o stateName).map fun x => (x.entry.keyGroup, x.entry.key) := by
    unfold StateReader.rowsOf
    refine List.ext_getElem (by simp only [List.length_map, List.length_mapIdx]) fun i _ _ => ?_
    rw [List.getElem_map, List.getElem_mapIdx, List.getElem_map]
    rfl
  have hpart : ∀ e ∈ R.eventsOf o (positions 0 o.ctx.units), ∀ x ∈ e.storedFor stateName,
      (x.entry.keyGroup, x.entry.key) = e.keyOf := by
    intro e he x hx
    cases e with
    | report why => cases hx
    | key s header kg ord raw =>
      obtain ⟨-, hkg, block, hcontent, hraw⟩ := key_of_mem_events he
      rw [storedFor_key] at hx
      cases hresolved : header.resolved stateName with
      | none =>
        rw [hresolved] at hx
        cases hx
      | some found =>
        rw [hresolved] at hx
        obtain ⟨e', he', rfl⟩ := List.mem_map.mp hx
        exact Prod.ext (keyGroup_of_contentOf hcontent hkg hraw e' (List.mem_filter.mp he').1) rfl
  rw [hpairs, ((storedOf_perm ho).map _).dedup.length_eq,
    length_dedup_flatMap hpart (events_apart ho)]

/-- **Export, pages and counts tell the same story.**  Where every keyed file can be read and one
    operator holds the state, the export goes through and the chains of pages and of counts end,
    whatever their limits and budgets are.  Each record is completed by `entries` in one way, and the
    rows are, up to order, the entries of the records so completed; the counts add up to as many
    entries as there are rows, and to as many keys as the rows have. -/
theorem export_pages_counts {operator : Option Text} (hop : R.operator op = .ok o) (ho : o.Regular)
    (hsized : R.Sized o) (hzero : ∀ u, o.ctx.unitOf 0 = some u → u.subtask = 0)
    (hnamed : ∀ s ∈ o.ctx.streams, ∀ header, s.header = .ok header → header.WellNamed C)
    (hreadable : ∀ o' ∈ R.operators, R.FilesReadable o') (honly : R.OnlyIn o stateName)
    (hasked : (operator.all fun want => want.isPrefixOf (hexId o.id)) = true)
    (limits budgets : Nat → Nat) (entryLimits : KeyRecord → Nat → Nat)
    {caches countCaches : Nat → BlockCache} {entryCaches : KeyRecord → Nat → BlockCache}
    (hcaches : ∀ i, R.Reached (caches i)) (hcountCaches : ∀ i, R.Reached (countCaches i))
    (hentryCaches : ∀ r i, R.Reached (entryCaches r i)) :
    ∃ stats rows pages counts, ∃ entriesOf : KeyRecord → List StateEntry,
      exportStateRows R listSink operator stateName [] = .ok (stats, rows)
      ∧ Chain (fun i c _ => (R.keyPage op c (limits i) (caches i)).1) 0 Cursor.start [] pages
      ∧ (∀ r ∈ pages.flatMap (·.2.found), ∀ es,
        R.Completes op (entryLimits r) (entryCaches r) stateName r es ↔ es = entriesOf r)
      ∧ (∃ rows', rows.Perm rows' ∧ List.Forall₂ (fun row shown => row.Says R shown.1 shown.2) rows'
          ((pages.flatMap (·.2.found)).flatMap fun r => (entriesOf r).map (r, ·)))
      ∧ Chain (fun i c _ => (R.count op c (budgets i) (countCaches i)).1) 0 Cursor.start ⟨[], 0⟩ counts
      ∧ entriesCounted stateName (counts.flatMap (·.2.found.states)) = rows.length
      ∧ keysCounted stateName (counts.flatMap (·.2.found.states))
        = (rows.map fun row => (row.keyGroup, row.key)).dedup.length := by
  have hmem : o ∈ R.operators := by
    obtain ⟨before, after, hoperators, -⟩ := honly.others
    rw [hoperators]
    exact List.mem_append_right _ List.mem_cons_self
  obtain ⟨stats, hexport, -⟩ := exportStateRows_readable
    (exportTarget_only hreadable honly hasked) (hreadable o hmem)
  obtain ⟨s₀, hs₀, header₀, hheader₀, hfound₀⟩ := honly.registered
  have hhash := ne_hash_of_stateId (hnamed s₀ hs₀ header₀ hheader₀) hfound₀
  have hevents : ∀ s header kg ord raw,
      Event.key s header kg ord raw ∈ R.eventsOf o (positions 0 o.ctx.units) →
        header.WellNamed C := by
    intro s header kg ord raw he
    obtain ⟨hs, -, block, hcontent, -⟩ := key_of_mem_events he
    exact hnamed s hs header (header_of_contentOf hcontent)
  obtain ⟨⟨pages, hpages⟩, hcomplete⟩ := keyPage_chain_complete hop ho hsized hzero hcaches limits
  obtain ⟨hfound, -⟩ := hcomplete pages hpages
  obtain ⟨counts, hcounts, hcounted⟩ := exists_countChain hop ho hsized hzero budgets hcountCaches
  obtain ⟨hentries, hkeys⟩ := hcounted.countedFor hhash hevents
  -- what a key's record and its entry pages hold
  have hcompletes : ∀ s header kg ord raw,
      Event.key s header kg ord raw ∈ R.eventsOf o (positions 0 o.ctx.units) → ∀ es,
      R.Completes op (entryLimits (R.record s header kg ord raw))
          (entryCaches (R.record s header kg ord raw)) stateName (R.record s header kg ord raw) es
        ↔ es = R.shownAt stateName (.key s header kg ord raw) := by
    intro s header kg ord raw he es
    obtain ⟨hs, hkg, block, hcontent, hraw⟩ := key_of_mem_events he
    have hord : ord < 2 ^ 32 := by
      obtain ⟨hlt, -⟩ := List.getElem?_eq_some_iff.mp hraw
      exact hlt.trans_le (hsized s hs kg hkg header block hcontent)
    exact completes_iff hop ho hs hkg hcontent (hevents _ _ _ _ _ he) hraw hord hhash
      (hentryCaches _)
  have hrecord : ∀ r ∈ R.keysWhere o (fun _ => true), ∃ s header kg ord raw,
      Event.key s header kg ord raw ∈ R.eventsOf o (positions 0 o.ctx.units)
        ∧ R.record s header kg ord raw = r := by
    intro r hr
    rw [keysWhere_events ho] at hr
    obtain ⟨e, he, hrecord⟩ := List.mem_filterMap.mp hr
    cases e with
    | report why => cases hrecord
    | key s header kg ord raw => exact ⟨s, header, kg, ord, raw, he, Option.some.inj hrecord⟩
  have hexists : ∀ r, ∃ all, r ∈ R.keysWhere o (fun _ => true) → ∀ es,
      R.Completes op (entryLimits r) (entryCaches r) stateName r es ↔ es = all := by
    intro r
    by_cases hr : r ∈ R.keysWhere o fun _ => true
    · obtain ⟨s, header, kg, ord, raw, he, rfl⟩ := hrecord r hr
      exact ⟨_, fun _ => hcompletes s header kg ord raw he⟩
    · exact ⟨[], fun h => absurd h hr⟩
  choose entriesOf hentriesOf using hexists
  have hshown : ∀ s header kg ord raw,
      Event.key s header kg ord raw ∈ R.eventsOf o (positions 0 o.ctx.units) →
        entriesOf (R.record s header kg ord raw) = R.shownAt stateName (.key s header kg ord raw) := by
    intro s header kg ord raw he
    have hr : R.record s header kg ord raw ∈ R.keysWhere o fun _ => true := by
      rw [keysWhere_events ho]
      exact List.mem_filterMap.mpr ⟨_, he, rfl⟩
    exact ((hentriesOf _ hr _).mp ((hcompletes s header kg ord raw he _).mpr rfl)).symm
  refine ⟨stats, R.rowsOf o stateName, pages, counts, entriesOf, hexport, hpages, ?_, ?_, hcounts,
    ?_, ?_⟩
  · rw [hfound]
    exact hentriesOf
  · rw [hfound]
    exact rows_say ho hshown
  · rw [hentries, ← (storedOf_perm ho).length_eq, StateReader.rowsOf, List.length_mapIdx]
  · rw [hkeys, distinct_rows ho]

end Story

/-! ### Small savepoints -/

theorem blockRange_cutStream {i start last : Nat}
    (h : (cutStream 0).blockRange i = some (start, last)) : start = 317 ∧ last = 365 := by
  cases i with
  | zero =>
    have hrange : (cutStream 0).blockRange 0 = some (317, 365) := by decide +kernel
    rw [hrange] at h
    cases h
    exact ⟨rfl, rfl⟩
  | succ i => cases h

theorem filesReadable_cutReader : (cutReader 0).FilesReadable (cutOperator 0) where
  opened := rfl
  headers s hs := by
    obtain rfl := List.mem_singleton.mp hs
    exact ⟨cutHeader, rfl⟩
  blocks s hs header hheader i start last hrange := by
    obtain rfl := List.mem_singleton.mp hs
    obtain rfl : cutHeader = header := Except.ok.inj hheader
    obtain ⟨rfl, rfl⟩ := blockRange_cutStream hrange
    have hread : (cutStream 0).src.read (cutReader 0).files 317 365 = .ok (cutBlock 0) := by
      decide +kernel
    exact ⟨_, _, hread, rfl⟩

theorem sized_cutReader : (cutReader 0).Sized (cutOperator 0) := by
  intro s hs kg hkg header block hcontent
  obtain rfl : s = cutStream 0 := List.mem_singleton.mp hs
  have h0 : (0 : Int) ≤ kg := hkg.1
  have h1 : kg ≤ 0 := hkg.2
  obtain rfl : kg = 0 := le_antisymm h1 h0
  rw [content_cutReader] at hcontent
  cases hcontent
  exact Nat.le_of_ble_eq_true rfl

theorem onlyIn_cutReader : (cutReader 0).OnlyIn (cutOperator 0) "n".toList where
  registered := ⟨cutStream 0, List.mem_singleton_self _, cutHeader, rfl, rfl⟩
  others := ⟨[], [], rfl, nofun⟩

/-- One key with two entries of a state, of which its record holds the first. -/
theorem export_pages_counts_two :
    ∃ stats rows counts, exportStateRows (cutReader 0) listSink none "n".toList [] = .ok (stats, rows)
      ∧ Chain (fun _ c _ => ((cutReader 0).count "01".toList c 1 (.empty 0)).1) 0 Cursor.start ⟨[], 0⟩
        counts
      ∧ rows.length = 2 ∧ entriesCounted "n".toList (counts.flatMap (·.2.found.states)) = 2
      ∧ keysCounted "n".toList (counts.flatMap (·.2.found.states)) = 1 := by
  have hop : (cutReader 0).operator "01".toList = .ok (cutOperator 0) := rfl
  have hzero : ∀ u, (cutOperator 0).ctx.unitOf 0 = some u → u.subtask = 0 := by
    intro u hu
    cases hu
    rfl
  have hnamed : ∀ s ∈ (cutOperator 0).ctx.streams, ∀ header, s.header = .ok header →
      header.WellNamed asciiText := by
    intro s hs header hheader
    obtain rfl := List.mem_singleton.mp hs
    obtain rfl : cutHeader = header := Except.ok.inj hheader
    exact ⟨resolved_cutHeader.namesOk, by decide⟩
  have hreadable : ∀ o ∈ (cutReader 0).operators, (cutReader 0).FilesReadable o := by
    intro o ho
    obtain rfl := List.mem_singleton.mp ho
    exact filesReadable_cutReader
  have hcaches : ∀ i : Nat, (cutReader 0).Reached ((fun _ => .empty 0) i) := fun _ => ⟨0, [], rfl⟩
  have hentryCaches : ∀ (r : KeyRecord) (i : Nat), (cutReader 0).Reached ((fun _ _ => .empty 0) r i) :=
    fun _ _ => ⟨0, [], rfl⟩
  have hasked : ((none : Option Text).all fun want => want.isPrefixOf (hexId (cutOperator 0).id))
      = true := rfl
  obtain ⟨stats, rows, pages, counts, entriesOf, hexport, -, -, -, hcounts, hentries, hkeys⟩ :=
    export_pages_counts hop (regular_cutOperator 0) sized_cutReader hzero hnamed hreadable
      onlyIn_cutReader hasked (fun _ => 1) (fun _ => 1) (fun _ _ => 1) hcaches hcaches hentryCaches
  have hruns : (exportStateRows (cutReader 0) listSink none "n".toList []).toOption.any (fun r =>
      r.2.length = 2 ∧ (r.2.map fun row => (row.keyGroup, row.key)).dedup.length = 1) = true := by
    decide +kernel
  rw [hexport] at hruns
  obtain ⟨htwo, hone⟩ := of_decide_eq_true hruns
  exact ⟨stats, rows, counts, hexport, hcounts, htwo, hentries.trans htwo, hkeys.trans hone⟩

/-- A second subtask with the same block. -/
def twinStream : SubtaskStream := { sampleStream with subtaskIndex := 1, statePos := 1 }

theorem statePos_twin : ([sampleStream, twinStream].map (·.statePos)).Nodup := by decide

/-- Both subtasks have the key-group 0, and both blocks can be read. -/
def twinOperator : OpenOperator := ⟨[1], 2, 1, ⟨0, [sampleStream, twinStream], [], statePos_twin⟩⟩

def twinReader : StateReader :=
  { sampleReader 1 with
    operators := [twinOperator]
    opIndex_eq := by
      intro i o h
      rcases i with _ | i
      · cases h
        rfl
      · cases h }

theorem filesReadable_twinReader : twinReader.FilesReadable twinOperator where
  opened := rfl
  headers s hs := by
    rcases List.mem_pair.mp hs with rfl | rfl
    · exact ⟨sampleHeader, rfl⟩
    · exact ⟨sampleHeader, rfl⟩
  blocks s hs header hheader i start last hrange := by
    have hparts : s.blockRange i = sampleStream.blockRange i ∧ s.src = sampleStream.src
        ∧ header = sampleHeader := by
      rcases List.mem_pair.mp hs with rfl | rfl
      · exact ⟨rfl, rfl, (Except.ok.inj hheader).symm⟩
      · exact ⟨rfl, rfl, (Except.ok.inj hheader).symm⟩
    obtain ⟨hblocks, hsrc, rfl⟩ := hparts
    rw [hblocks] at hrange
    cases i with
    | zero =>
      have hone : sampleStream.blockRange 0 = some (1, 23) := by decide +kernel
      rw [hone] at hrange
      cases hrange
      rw [hsrc]
      exact ⟨_, _, rfl, rfl⟩
    | succ i => cases hrange

theorem onlyIn_twinReader : twinReader.OnlyIn twinOperator "n".toList where
  registered := ⟨sampleStream, List.mem_cons_self, sampleHeader, rfl, rfl⟩
  others := ⟨[], [], rfl, nofun⟩

/-- Two subtasks that share a key-group: an export writes the entry of each, and the pages and the
    counts come to the first one's alone. -/
theorem not_export_pages_shared :
    (∀ o ∈ twinReader.operators, twinReader.FilesReadable o) ∧ twinReader.OnlyIn twinOperator "n".toList
    ∧ ∃ stats rows page count, exportStateRows twinReader listSink none "n".toList [] = .ok (stats, rows)
      ∧ (twinReader.keyPage "01".toList Cursor.start 10 (.empty 0)).1 = .ok page ∧ page.next = none
      ∧ (twinReader.count "01".toList Cursor.start 100 (.empty 0)).1 = .ok count ∧ count.next = none
      ∧ rows.length = 2 ∧ page.found.map (·.entries.length) = [1]
      ∧ (∀ r ∈ page.found, r.truncated = [])
      ∧ entriesCounted "n".toList count.found.states = 1 := by
  refine ⟨?_, onlyIn_twinReader, ?_⟩
  · intro o ho
    obtain rfl := List.mem_singleton.mp ho
    exact filesReadable_twinReader
  · have hrows : (exportStateRows twinReader listSink none "n".toList []).toOption.any
        (fun r => r.2.length = 2) = true := by decide +kernel
    have hpage : (twinReader.keyPage "01".toList Cursor.start 10 (.empty 0)).1.toOption.any
        (fun page => page.next = none ∧ page.found.map (·.entries.length) = [1]
          ∧ page.found.map (·.truncated) = [[]]) = true := by decide +kernel
    have hcount : (twinReader.count "01".toList Cursor.start 100 (.empty 0)).1.toOption.any
        (fun page => page.next = none ∧ entriesCounted "n".toList page.found.states = 1) = true := by
      decide +kernel
    obtain ⟨⟨stats, rows⟩, hexport, htwo⟩ := (Option.any_eq_true _ _).mp hrows
    obtain ⟨page, hpage, hall⟩ := (Option.any_eq_true _ _).mp hpage
    obtain ⟨count, hcount, hboth⟩ := (Option.any_eq_true _ _).mp hcount
    obtain ⟨hnext, hentries, htruncated⟩ := of_decide_eq_true hall
    obtain ⟨hend, hone⟩ := of_decide_eq_true hboth
    refine ⟨stats, rows, page, count, eq_ok_of_toOption hexport, eq_ok_of_toOption hpage, hnext,
      eq_ok_of_toOption hcount, hend, of_decide_eq_true htwo, hentries, fun r hr => ?_, hone⟩
    have hmem : r.truncated ∈ page.found.map (·.truncated) := List.mem_map_of_mem hr
    rw [htruncated] at hmem
    exact List.mem_singleton.mp hmem

end FlinkExplorer
