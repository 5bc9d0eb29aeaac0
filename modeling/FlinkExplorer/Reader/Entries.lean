import FlinkExplorer.Flink.KeyedHeader
import FlinkExplorer.Reader.KeyPages

namespace FlinkExplorer

open Lib

/-!
# A record and its entry pages

A record holds the first entries of each state, and `entries` pages through a state by its label.

* `pageEntries_eq` — a page is a part of the state's entries (`stateEntries`);
* `filter_recordEntries`, `mem_truncated` — a record holds the first entries of each state, and
  lists the states that have more;
* `stateId_stateLabel` — a label leads back to its stateId when the header describes the state;
* `exists_entryChain` — then a chain of `entries` calls ends, and holds what is left;
* `record_continues_iff` — so a record and its pages are every entry exactly when each state cut is
  one the header describes.
-/

/-- A header whose states are those that scanning some bytes gives. -/
def SubtaskHeader.Resolved (C : CharText) (header : SubtaskHeader) : Prop :=
  ∃ data keyType,
    header.states.map (·.name) = (extractStateMetadata C data keyType).map (·.name)

section Spec

variable (R : StateReader) (header : SubtaskHeader)

/-- The entries of a state among those of a key from the `i`-th on. -/
def StateReader.stateEntriesFrom (id : UInt16) : Nat → List KeyedEntry → List StateEntry
  | _, [] => []
  | i, e :: es =>
    if e.stateId = id then
      entryOf R.host.floats R.proto header i e :: stateEntriesFrom id (i + 1) es
    else stateEntriesFrom id (i + 1) es

/-- The entries of a state of a key, in on-disk order. -/
def StateReader.stateEntries (id : UInt16) (raw : RawKey) : List StateEntry :=
  R.stateEntriesFrom header id 0 raw.entries

end Spec

/-- Calls of `entries`, the `i`-th from `offset` on: each but the last goes on where the one before
    it ended. -/
inductive EntryChain (call : Nat → Nat → Except ReaderError EntryPage) :
    Nat → Nat → List EntryPage → Prop
  | last {i offset : Nat} {page : EntryPage} (hcall : call i offset = .ok page)
    (hnext : page.next = none) : EntryChain call i offset [page]
  | more {i offset offset' : Nat} {page : EntryPage} {pages : List EntryPage}
    (hcall : call i offset = .ok page) (hnext : page.next = some offset')
    (hpages : EntryChain call (i + 1) offset' pages) : EntryChain call i offset (page :: pages)

/-- The entries of a record, and the pages that a state it cut goes on with, are all of the
    state's. -/
def StateReader.Continues (R : StateReader) (op : Text) (limits : Nat → Nat)
    (caches : Nat → BlockCache) (record : KeyRecord) (cut : Truncated) (all : List StateEntry) :
    Prop :=
  ∃ pages, EntryChain (fun i offset =>
      (R.entries op record.position cut.state offset (limits i) (caches i)).1) 0 cut.returned pages
    ∧ (record.entries.filter fun e => e.state == cut.state) ++ pages.flatMap (·.entries) = all

/-! ### Tallies -/

@[simp] theorem seen_nil (id : UInt16) : seen id [] = 0 := rfl

theorem seen_cons (id id' : UInt16) (n : Nat) (counts : List (UInt16 × Nat)) :
    seen id ((id', n) :: counts) = if id' = id then n else seen id counts := by
  unfold seen
  by_cases h : id' = id
  · rw [List.find?_cons_of_pos (by simpa using h), if_pos h]
    rfl
  · rw [List.find?_cons_of_neg (by simpa using h), if_neg h]

theorem seen_tally (id id' : UInt16) (counts : List (UInt16 × Nat)) :
    seen id (tally id' counts) = seen id counts + if id' = id then 1 else 0 := by
  induction counts with
  | nil =>
    rw [tally, seen_cons, seen_nil, Nat.zero_add]
  | cons c counts ih =>
    obtain ⟨first, n⟩ := c
    rw [tally]
    by_cases hfirst : first = id'
    · subst hfirst
      rw [if_pos rfl, seen_cons, seen_cons]
      by_cases hid : first = id
      · rw [if_pos hid, if_pos hid, if_pos hid]
      · rw [if_neg hid, if_neg hid, if_neg hid, Nat.add_zero]
    · rw [if_neg hfirst, seen_cons, seen_cons, ih]
      by_cases hid : first = id
      · have hother : ¬ id' = id := fun h => hfirst (hid.trans h.symm)
        rw [if_pos hid, if_pos hid, if_neg hother, Nat.add_zero]
      · rw [if_neg hid, if_neg hid]

theorem mem_tally {id : UInt16} {counts : List (UInt16 × Nat)} {c : UInt16 × Nat}
    (h : c ∈ tally id counts) : c.1 = id ∨ c ∈ counts := by
  induction counts with
  | nil => exact .inl (congrArg Prod.fst (List.mem_singleton.mp h))
  | cons c' counts ih =>
    obtain ⟨id', n⟩ := c'
    rw [tally] at h
    by_cases hid : id' = id
    · rw [if_pos hid] at h
      rcases List.mem_cons.mp h with rfl | h
      · exact .inl hid
      · exact .inr (List.mem_cons_of_mem _ h)
    · rw [if_neg hid] at h
      rcases List.mem_cons.mp h with rfl | h
      · exact .inr List.mem_cons_self
      · exact (ih h).imp_right (List.mem_cons_of_mem _)

theorem nodup_tally {id : UInt16} {counts : List (UInt16 × Nat)} (h : (counts.map (·.1)).Nodup) :
    ((tally id counts).map (·.1)).Nodup := by
  induction counts with
  | nil => exact List.pairwise_singleton _ _
  | cons c counts ih =>
    obtain ⟨id', n⟩ := c
    obtain ⟨hnew, hrest⟩ := List.nodup_cons.mp h
    rw [tally]
    by_cases hid : id' = id
    · rw [if_pos hid]
      exact h
    · rw [if_neg hid, List.map_cons, List.nodup_cons]
      refine ⟨fun hmem => ?_, ih hrest⟩
      obtain ⟨c, hc, hfst⟩ := List.mem_map.mp hmem
      rcases mem_tally hc with heq | hc
      · exact hid (hfst.symm.trans heq)
      · exact hnew (List.mem_map.mpr ⟨c, hc, hfst⟩)

/-- A state is counted once, so what was seen of it is its count. -/
theorem mem_counts_iff {id : UInt16} {n : Nat} {counts : List (UInt16 × Nat)}
    (h : (counts.map (·.1)).Nodup) (hn : 0 < n) : (id, n) ∈ counts ↔ seen id counts = n := by
  induction counts with
  | nil =>
    rw [seen_nil]
    exact ⟨fun h => absurd h List.not_mem_nil, fun h => absurd hn (by omega)⟩
  | cons c counts ih =>
    obtain ⟨id', n'⟩ := c
    obtain ⟨hnew, hrest⟩ := List.nodup_cons.mp h
    rw [seen_cons, List.mem_cons]
    by_cases hid : id' = id
    · subst hid
      rw [if_pos rfl]
      refine ⟨fun hmem => ?_, fun heq => .inl (by rw [heq])⟩
      rcases hmem with heq | hmem
      · exact (congrArg Prod.snd heq).symm
      · exact absurd (List.mem_map.mpr ⟨_, hmem, rfl⟩) hnew
    · rw [if_neg hid, ← ih hrest]
      refine ⟨fun hmem => hmem.resolve_left fun heq => ?_, .inr⟩
      exact hid (congrArg Prod.fst heq).symm

/-! ### Labels -/

section Labels

variable {C : CharText} {header : SubtaskHeader}

theorem SubtaskHeader.Resolved.namesOk (h : header.Resolved C) :
    NamesOk C (header.states.map (·.name)) := by
  obtain ⟨data, keyType, hnames⟩ := h
  rw [hnames]
  exact extractStateMetadata_named C data keyType

/-- A label of a state the header describes is its name. -/
theorem stateLabel_of_lt {id : UInt16} (h : id.toNat < header.states.length) :
    header.stateLabel id = header.states[id.toNat].name := by
  unfold SubtaskHeader.stateLabel
  rw [List.getElem?_eq_getElem h]

theorem stateLabel_of_not_lt {id : UInt16} (h : ¬ id.toNat < header.states.length) :
    header.stateLabel id = '#' :: natText id.toNat := by
  unfold SubtaskHeader.stateLabel
  rw [List.getElem?_eq_none (not_lt.mp h)]

theorem stateLabel_ne_hash (hnames : NamesOk C (header.states.map (·.name))) {id : UInt16}
    (h : id.toNat < header.states.length) (rest : Text) : header.stateLabel id ≠ '#' :: rest := by
  rw [stateLabel_of_lt h]
  exact not_hash (hnames.valid _ (List.mem_map_of_mem (List.getElem_mem h))) rest

/-- No two states have one name. -/
theorem stateName_inj (hnames : NamesOk C (header.states.map (·.name))) {i j : Nat}
    (hi : i < header.states.length) (hj : j < header.states.length)
    (h : header.states[i].name = header.states[j].name) : i = j := by
  have hi' : i < (header.states.map (·.name)).length := by rwa [List.length_map]
  have hj' : j < (header.states.map (·.name)).length := by rwa [List.length_map]
  have hname : (header.states.map (·.name))[i] = (header.states.map (·.name))[j] := by
    rw [List.getElem_map, List.getElem_map]
    exact h
  exact hnames.nodup.getElem_inj_iff.mp hname

/-- No two states have one label. -/
theorem stateLabel_inj (hnames : NamesOk C (header.states.map (·.name))) {id id' : UInt16}
    (h : header.stateLabel id = header.stateLabel id') : id = id' := by
  apply UInt16.toNat_inj.mp
  by_cases hid : id.toNat < header.states.length
  · by_cases hid' : id'.toNat < header.states.length
    · rw [stateLabel_of_lt hid, stateLabel_of_lt hid'] at h
      exact stateName_inj hnames hid hid' h
    · rw [stateLabel_of_not_lt hid'] at h
      exact absurd h (stateLabel_ne_hash hnames hid _)
  · by_cases hid' : id'.toNat < header.states.length
    · rw [stateLabel_of_not_lt hid] at h
      exact absurd h.symm (stateLabel_ne_hash hnames hid' _)
    · rw [stateLabel_of_not_lt hid, stateLabel_of_not_lt hid'] at h
      exact natText_inj (List.cons.inj h).2

/-- **The name of a state leads back to it.** -/
theorem stateId_stateLabel (hnames : NamesOk C (header.states.map (·.name))) {id : UInt16}
    (h : id.toNat < header.states.length) : header.stateId (header.stateLabel id) = some id := by
  have hlabel : header.stateLabel id = header.states[id.toNat].name := stateLabel_of_lt h
  have hfind : (header.states.findIdx? fun s => s.name == header.stateLabel id)
      = some id.toNat := by
    refine List.findIdx?_eq_some_iff_getElem.mpr ⟨h, by simp [hlabel], fun j hj => ?_⟩
    intro heq
    have hjlt : j < header.states.length := hj.trans h
    have hname : header.states[j].name = header.states[id.toNat].name := by
      rw [← hlabel]
      exact eq_of_beq heq
    exact absurd (stateName_inj hnames hjlt h hname) (Nat.ne_of_lt hj)
  unfold SubtaskHeader.stateId
  rw [hfind, Option.map_some, UInt16.ofNat_toNat]

/-- The number of a state is no name of the header's. -/
theorem stateId_number (hnames : NamesOk C (header.states.map (·.name))) {id : UInt16}
    (h : ¬ id.toNat < header.states.length) : header.stateId (header.stateLabel id) = none := by
  unfold SubtaskHeader.stateId
  rw [Option.map_eq_none_iff, List.findIdx?_eq_none_iff]
  intro s hs
  have hmem : s.name ∈ header.states.map (·.name) := List.mem_map.mpr ⟨s, hs, rfl⟩
  rw [stateLabel_of_not_lt h]
  exact beq_eq_false_iff_ne.mpr (not_hash (hnames.valid _ hmem) _)

end Labels

section Pages

variable {R : StateReader} {header : SubtaskHeader}

/-! ### Pages -/

/-- **A page of entries** is a part of the state's. -/
theorem pageEntries_eq (id : UInt16) (offset limit i total : Nat) (es : List KeyedEntry) :
    R.pageEntries header id offset limit i total es
      = (((R.stateEntriesFrom header id i es).drop (offset - total)).take
          (offset + limit - max offset total), total + (R.stateEntriesFrom header id i es).length) := by
  induction es generalizing i total with
  | nil => simp [StateReader.pageEntries, StateReader.stateEntriesFrom]
  | cons e es ih =>
    rw [StateReader.pageEntries, StateReader.stateEntriesFrom]
    by_cases hid : e.stateId = id
    · have hnot : ¬ e.stateId ≠ id := not_not.mpr hid
      rw [if_neg hnot, if_pos hid, ih]
      dsimp only
      have hlength : total + 1 + (R.stateEntriesFrom header id (i + 1) es).length
          = total + ((R.stateEntriesFrom header id (i + 1) es).length + 1) := by omega
      rw [List.length_cons, hlength]
      by_cases hbefore : total < offset
      · -- not yet in the page
        obtain ⟨k, hk⟩ : ∃ k, offset - total = k + 1 := ⟨offset - total - 1, by omega⟩
        have hk' : offset - (total + 1) = k := by omega
        have hout : ¬ (offset ≤ total ∧ total < offset + limit) := by omega
        rw [if_neg hout, hk, hk', List.drop_succ_cons, max_eq_left (by omega : total + 1 ≤ offset),
          max_eq_left (by omega : total ≤ offset)]
      · have hzero : offset - total = 0 := by omega
        have hzero' : offset - (total + 1) = 0 := by omega
        rw [hzero, hzero', List.drop_zero, List.drop_zero,
          max_eq_right (by omega : offset ≤ total), max_eq_right (by omega : offset ≤ total + 1)]
        by_cases hin : total < offset + limit
        · obtain ⟨k, hk⟩ : ∃ k, offset + limit - total = k + 1 :=
            ⟨offset + limit - total - 1, by omega⟩
          have hk' : offset + limit - (total + 1) = k := by omega
          rw [if_pos ⟨not_lt.mp hbefore, hin⟩, hk, hk', List.take_succ_cons]
        · have hfull : offset + limit - total = 0 := by omega
          have hfull' : offset + limit - (total + 1) = 0 := by omega
          rw [if_neg fun h => hin h.2, hfull, hfull', List.take_zero, List.take_zero]
    · rw [if_pos hid, if_neg hid, ih]

/-! ### Records -/

theorem state_entryOf (i : Nat) (e : KeyedEntry) :
    (entryOf R.host.floats R.proto header i e).state = header.stateLabel e.stateId := by
  unfold entryOf SubtaskHeader.stateLabel
  cases header.states[e.stateId.toNat]? with
  | none => rfl
  | some st => rfl

theorem seen_recordEntries (id : UInt16) (i : Nat) (counts : List (UInt16 × Nat))
    (es : List KeyedEntry) : seen id (R.recordEntries header i counts es).2
      = seen id counts + (R.stateEntriesFrom header id i es).length := by
  induction es generalizing i counts with
  | nil => rfl
  | cons e es ih =>
    have hrest : (R.recordEntries header i counts (e :: es)).2
        = (R.recordEntries header (i + 1) (tally e.stateId counts) es).2 := by
      rw [StateReader.recordEntries]
      split
      · rfl
      · rfl
    rw [hrest, ih, seen_tally, StateReader.stateEntriesFrom]
    by_cases hid : e.stateId = id
    · rw [if_pos hid, if_pos hid, List.length_cons]
      omega
    · rw [if_neg hid, if_neg hid, Nat.add_zero]

theorem nodup_recordEntries (i : Nat) {counts : List (UInt16 × Nat)} (es : List KeyedEntry)
    (h : (counts.map (·.1)).Nodup) : ((R.recordEntries header i counts es).2.map (·.1)).Nodup := by
  induction es generalizing i counts with
  | nil => exact h
  | cons e es ih =>
    rw [StateReader.recordEntries]
    split
    · exact ih (i + 1) (nodup_tally h)
    · exact ih (i + 1) (nodup_tally h)

/-- **What a record keeps of a state** are its first entries. -/
theorem filter_recordEntries {id : UInt16}
    (hlabel : ∀ id', header.stateLabel id' = header.stateLabel id → id' = id) (i : Nat)
    (counts : List (UInt16 × Nat)) (es : List KeyedEntry) :
    ((R.recordEntries header i counts es).1.filter fun e => e.state == header.stateLabel id)
      = (R.stateEntriesFrom header id i es).take (R.entryLimit - seen id counts) := by
  induction es generalizing i counts with
  | nil => simp [StateReader.recordEntries, StateReader.stateEntriesFrom]
  | cons e es ih =>
    have ih := ih (i + 1) (tally e.stateId counts)
    rw [seen_tally] at ih
    rw [StateReader.recordEntries, StateReader.stateEntriesFrom]
    -- An entry of this state uses up one of its places; any other leaves them as they are.
    by_cases hid : e.stateId = id
    · have hseen : seen e.stateId (tally e.stateId counts) = seen id counts + 1 := by
        rw [seen_tally, if_pos rfl, hid]
      rw [if_pos hid] at ih
      rw [if_pos hid, hseen]
      by_cases hroom : seen id counts + 1 ≤ R.entryLimit
      · obtain ⟨k, hk⟩ : ∃ k, R.entryLimit - seen id counts = k + 1 :=
          ⟨R.entryLimit - seen id counts - 1, by omega⟩
        have hk' : R.entryLimit - (seen id counts + 1) = k := by omega
        have hstate : ((entryOf R.host.floats R.proto header i e).state == header.stateLabel id)
            = true := by
          rw [state_entryOf, hid]
          exact beq_self_eq_true _
        rw [if_pos hroom]
        dsimp only
        rw [List.filter_cons_of_pos (p := fun e : StateEntry => e.state == header.stateLabel id)
          hstate, ih, hk, hk', List.take_succ_cons]
      · have hfull : R.entryLimit - seen id counts = 0 := by omega
        have hfull' : R.entryLimit - (seen id counts + 1) = 0 := by omega
        rw [if_neg hroom, ih, hfull, hfull', List.take_zero, List.take_zero]
    · have hnone : seen id counts + (if e.stateId = id then 1 else 0) = seen id counts := by
        rw [if_neg hid, Nat.add_zero]
      rw [hnone] at ih
      rw [if_neg hid]
      split
      · have hstate : ¬ ((entryOf R.host.floats R.proto header i e).state
            == header.stateLabel id) = true := by
          rw [state_entryOf]
          exact fun h => hid (hlabel _ (eq_of_beq h))
        dsimp only
        rw [List.filter_cons_of_neg (p := fun e : StateEntry => e.state == header.stateLabel id)
          hstate, ih]
      · exact ih

theorem entries_record (s : SubtaskStream) (kg : Int) (ord : Nat) (raw : RawKey) :
    (R.record s header kg ord raw).entries = (R.recordEntries header 0 [] raw.entries).1 := rfl

/-- **The states a record cuts** are those with more entries than its limit. -/
theorem mem_truncated {s : SubtaskStream} {kg : Int} {ord : Nat} {raw : RawKey} {cut : Truncated} :
    cut ∈ (R.record s header kg ord raw).truncated
      ↔ ∃ id, R.entryLimit < (R.stateEntries header id raw).length
        ∧ cut = ⟨header.stateLabel id, (R.stateEntries header id raw).length, R.entryLimit⟩ := by
  have hseen (id : UInt16) : seen id (R.recordEntries header 0 [] raw.entries).2
      = (R.stateEntries header id raw).length := by
    rw [seen_recordEntries, seen_nil, Nat.zero_add]
    rfl
  have hnodup : ((R.recordEntries header 0 [] raw.entries).2.map (·.1)).Nodup :=
    nodup_recordEntries 0 raw.entries List.nodup_nil
  have htruncated : (R.record s header kg ord raw).truncated
      = ((R.recordEntries header 0 [] raw.entries).2.filter fun c => c.2 > R.entryLimit).map
        fun c => ⟨header.stateLabel c.1, c.2, R.entryLimit⟩ := rfl
  rw [htruncated, List.mem_map]
  constructor
  · rintro ⟨⟨id, n⟩, hmem, rfl⟩
    obtain ⟨hmem, hover⟩ := List.mem_filter.mp hmem
    have hover : R.entryLimit < n := of_decide_eq_true hover
    have hn := (mem_counts_iff hnodup (by omega)).mp hmem
    rw [hseen] at hn
    exact ⟨id, by omega, by rw [hn]⟩
  · rintro ⟨id, hover, rfl⟩
    refine ⟨(id, (R.stateEntries header id raw).length), List.mem_filter.mpr ⟨?_, ?_⟩, rfl⟩
    · exact (mem_counts_iff hnodup (by omega)).mpr (hseen id)
    · exact decide_eq_true hover

end Pages

/-! ### Calls -/

section Calls

variable {R : StateReader} {o : OpenOperator} {op : Text} {s : SubtaskStream} {kg : Int}
  {header : SubtaskHeader} {block : GroupedBlock}

/-- The content of a key-group whose block has a range. -/
theorem contentOf_eq_readGrouped {start last : Nat}
    (hrange : s.blockRange (kg - s.startKeyGroup).toNat = some (start, last))
    (hheader : s.header = .ok header) : R.contentOf o s kg
      = (R.readGrouped o s header kg start last).map fun b => some (header, b) := by
  unfold StateReader.contentOf StateReader.readBlock
  rw [hrange, hheader]
  dsimp only
  cases R.readGrouped o s header kg start last <;> rfl

/-- The block of a unit that can be read, whatever is cached. -/
theorem blockOf_of_content (hop : R.operator op = .ok o) (hs : s ∈ o.ctx.streams)
    (hcontent : R.contentOf o s kg = .ok (some (header, block))) {cache : BlockCache}
    (hcache : R.Reached cache) :
    (R.blockOf o (.stream s) kg cache).1 = .ok (some (s, header, block)) := by
  obtain ⟨i, hi⟩ := StateReader.operator_eq_ok hop
  have hu : ReadUnit.stream s ∈ o.ctx.units := o.ctx.mem_units.mpr (.inl ⟨s, hs, rfl⟩)
  have herror : ¬ (ReadUnit.stream s).error.isSome = true := by
    intro herror
    unfold StateReader.contentOf StateReader.readBlock at hcontent
    unfold ReadUnit.error at herror
    cases hrange : s.blockRange (kg - s.startKeyGroup).toNat with
    | none => simp [hrange] at hcontent
    | some r =>
      cases hheader : s.header with
      | error e => simp [hrange, hheader] at hcontent
      | ok h => simp [hheader] at herror
  have hgrouped := (grouped_agrees hi true s hu kg .zero cache hcache.sound).1
  have hread : (R.readBlock o s kg ReadStats.zero.visited ()).1 = .ok (some (header, block)) :=
    hcontent
  rw [hread] at hgrouped
  unfold StateReader.blockOf
  dsimp only
  rw [if_neg herror]
  rcases hcall : R.grouped o true s kg .zero cache with ⟨result, stats, cache'⟩
  rw [hcall] at hgrouped
  dsimp only at hgrouped
  subst hgrouped
  rfl

/-- The cursor of a key is accepted. -/
theorem checkCursor_key (ho : o.Regular) (hs : s ∈ o.ctx.streams)
    (hkg : (ReadUnit.stream s).Has kg) (ordinal : UInt32) :
    o.checkCursor ⟨s.subtaskIndex, UInt16.ofInt kg, ordinal⟩ = .ok () := by
  have hu : ReadUnit.stream s ∈ o.ctx.units := o.ctx.mem_units.mpr (.inl ⟨s, hs, rfl⟩)
  obtain ⟨h0, h1, h2⟩ := ho.within _ hu kg hkg
  unfold OpenOperator.checkCursor
  dsimp only
  have hbelow : ¬ kg ≥ max o.maxParallelism 1 := not_le.mpr h1
  rw [toNat_ofInt_keyGroup h0 h2, if_neg hbelow, ho.unitOf hu hkg]
  exact if_neg (not_not.mpr rfl)

/-- **One call of `entries`** with the position of a key. -/
theorem entries_eq (hop : R.operator op = .ok o) (ho : o.Regular) (hs : s ∈ o.ctx.streams)
    (hkg : (ReadUnit.stream s).Has kg)
    (hcontent : R.contentOf o s kg = .ok (some (header, block))) {ord : Nat} {raw : RawKey}
    (hraw : block.keys[ord]? = some raw) (hord : ord < 2 ^ 32) {cache : BlockCache}
    (hcache : R.Reached cache) (state : Text) (offset limit : Nat) :
    ∃ stats, (R.entries op ⟨s.subtaskIndex, UInt16.ofInt kg, UInt32.ofNat ord⟩ state offset limit
        cache).1
      = (R.entriesOf o header raw state offset (max limit 1)).map fun found =>
          let last := offset + found.2.1.length
          { key := raw.key, state := found.1, entries := found.2.1, offset := offset
            total := found.2.2, next := if last < found.2.2 then some last else none
            stats := stats, malformed := block.defect.toList } := by
  have hu : ReadUnit.stream s ∈ o.ctx.units := o.ctx.mem_units.mpr (.inl ⟨s, hs, rfl⟩)
  obtain ⟨h0, -, h2⟩ := ho.within _ hu kg hkg
  have hblock := blockOf_of_content hop hs hcontent hcache
  unfold StateReader.entries
  rw [hop]
  dsimp only
  rw [checkCursor_key ho hs hkg]
  dsimp only
  rw [toNat_ofInt_keyGroup h0 h2, ho.unitOf hu hkg]
  dsimp only
  rcases hcall : R.blockOf o (.stream s) kg cache with ⟨result, stats, cache'⟩
  rw [hcall] at hblock
  dsimp only at hblock
  subst hblock
  dsimp only
  rw [UInt32.toNat_ofNat', Nat.mod_eq_of_lt hord, hraw]
  dsimp only
  refine ⟨stats, ?_⟩
  rcases R.entriesOf o header raw state offset (max limit 1) with e | ⟨label, found, total⟩
  · rfl
  · rfl

end Calls

/-! ### Chains -/

/-- Calls that answer with pages of a list. -/
def PagesOf (call : Nat → Nat → Except ReaderError EntryPage) (all : List StateEntry) : Prop :=
  ∀ i offset, ∃ page limit, call i offset = .ok page ∧ 0 < limit
    ∧ page.entries = (all.drop offset).take limit ∧ page.total = all.length
    ∧ page.next = if offset + page.entries.length < all.length
        then some (offset + page.entries.length) else none

/-- **A chain of pages ends**, and holds what there is from its offset on. -/
theorem PagesOf.exists_entryChain {call : Nat → Nat → Except ReaderError EntryPage}
    {all : List StateEntry} (h : PagesOf call all) (i offset : Nat) :
    ∃ pages, EntryChain call i offset pages ∧ pages.flatMap (·.entries) = all.drop offset := by
  induction hleft : all.length - offset using Nat.strong_induction_on generalizing i offset with
  | _ left ih =>
    obtain ⟨page, limit, hcall, hlimit, hentries, -, hnext⟩ := h i offset
    have hlength : page.entries.length = min limit (all.length - offset) := by
      rw [hentries, List.length_take, List.length_drop]
    by_cases hmore : offset + page.entries.length < all.length
    · rw [if_pos hmore] at hnext
      obtain ⟨pages, hchain, hpages⟩ :=
        ih (all.length - (offset + page.entries.length)) (by omega) (i + 1) _ rfl
      refine ⟨page :: pages, .more hcall hnext hchain, ?_⟩
      have htake : page.entries.length = limit := by omega
      rw [List.flatMap_cons, hpages, htake, hentries, ← List.drop_drop, List.take_append_drop]
    · rw [if_neg hmore] at hnext
      refine ⟨[page], .last hcall hnext, ?_⟩
      rw [List.flatMap_cons, List.flatMap_nil, List.append_nil, hentries, List.take_of_length_le]
      rw [List.length_drop]
      omega

section Continues

variable {C : CharText} {R : StateReader} {o : OpenOperator} {op : Text} {s : SubtaskStream}
  {kg : Int} {header : SubtaskHeader} {block : GroupedBlock} {ord : Nat} {raw : RawKey}
  {limits : Nat → Nat} {caches : Nat → BlockCache}

/-- The pages of a state that the header describes. -/
theorem pagesOf_entries (limits : Nat → Nat) (hop : R.operator op = .ok o) (ho : o.Regular) (hs : s ∈ o.ctx.streams)
    (hkg : (ReadUnit.stream s).Has kg)
    (hcontent : R.contentOf o s kg = .ok (some (header, block)))
    (hraw : block.keys[ord]? = some raw) (hord : ord < 2 ^ 32)
    (hcaches : ∀ i, R.Reached (caches i)) {state : Text} {id : UInt16}
    (hid : header.stateId state = some id) :
    PagesOf (fun i offset => (R.entries op ⟨s.subtaskIndex, UInt16.ofInt kg, UInt32.ofNat ord⟩ state
      offset (limits i) (caches i)).1) (R.stateEntries header id raw) := by
  intro i offset
  obtain ⟨stats, hcall⟩ := entries_eq hop ho hs hkg hcontent hraw hord (hcaches i) state offset
    (limits i)
  have hfound : R.entriesOf o header raw state offset (max (limits i) 1)
      = .ok (header.stateLabel id, ((R.stateEntries header id raw).drop offset).take
          (max (limits i) 1), (R.stateEntries header id raw).length) := by
    unfold StateReader.entriesOf
    rw [hid]
    dsimp only
    have hlimit : offset + max (limits i) 1 - max offset 0 = max (limits i) 1 := by omega
    rw [pageEntries_eq, Nat.sub_zero, hlimit, Nat.zero_add]
    rfl
  rw [hfound] at hcall
  exact ⟨_, max (limits i) 1, hcall, by omega, rfl, rfl, rfl⟩

/-- A chain for a state that the header does not describe holds none of its entries. -/
theorem entryChain_unnamed (hop : R.operator op = .ok o) (ho : o.Regular) (hs : s ∈ o.ctx.streams)
    (hkg : (ReadUnit.stream s).Has kg)
    (hcontent : R.contentOf o s kg = .ok (some (header, block)))
    (hraw : block.keys[ord]? = some raw) (hord : ord < 2 ^ 32)
    (hcaches : ∀ i, R.Reached (caches i)) {state : Text} (hid : header.stateId state = none)
    {i offset : Nat} {pages : List EntryPage}
    (h : EntryChain (fun i offset => (R.entries op
      ⟨s.subtaskIndex, UInt16.ofInt kg, UInt32.ofNat ord⟩ state offset (limits i) (caches i)).1)
      i offset pages) : pages.flatMap (·.entries) = [] := by
  have hcall (i offset : Nat) (page : EntryPage) (hpage : (R.entries op
      ⟨s.subtaskIndex, UInt16.ofInt kg, UInt32.ofNat ord⟩ state offset (limits i) (caches i)).1
      = .ok page) : page.entries = [] ∧ page.next = none := by
    obtain ⟨stats, hentries⟩ := entries_eq hop ho hs hkg hcontent hraw hord (hcaches i) state offset
      (limits i)
    rw [hpage] at hentries
    unfold StateReader.entriesOf at hentries
    rw [hid] at hentries
    dsimp only at hentries
    split at hentries
    · obtain rfl := Except.ok.inj hentries
      exact ⟨rfl, by simp⟩
    · cases hentries
  cases h with
  | last hpage hnext =>
    rw [List.flatMap_cons, (hcall _ _ _ hpage).1]
    rfl
  | more hpage hnext hpages =>
    rw [(hcall _ _ _ hpage).2] at hnext
    cases hnext

/-- **A record and its entry pages are every entry of a state** exactly when the header describes
    the state, for each state the record cuts. -/
theorem record_continues_iff (hop : R.operator op = .ok o) (ho : o.Regular)
    (hs : s ∈ o.ctx.streams) (hkg : (ReadUnit.stream s).Has kg)
    (hcontent : R.contentOf o s kg = .ok (some (header, block))) (hresolved : header.Resolved C)
    (hraw : block.keys[ord]? = some raw) (hord : ord < 2 ^ 32) (limits : Nat → Nat)
    (hcaches : ∀ i, R.Reached (caches i)) :
    (∀ cut ∈ (R.record s header kg ord raw).truncated, ∃ id,
      cut = ⟨header.stateLabel id, (R.stateEntries header id raw).length, R.entryLimit⟩
        ∧ R.Continues op limits caches (R.record s header kg ord raw) cut
          (R.stateEntries header id raw))
    ↔ ∀ id, R.entryLimit < (R.stateEntries header id raw).length →
        id.toNat < header.states.length := by
  have hnames := hresolved.namesOk
  have hkept (id : UInt16) : ((R.record s header kg ord raw).entries.filter fun e =>
      e.state == header.stateLabel id) = (R.stateEntries header id raw).take R.entryLimit := by
    rw [entries_record, filter_recordEntries fun id' h => stateLabel_inj hnames h, seen_nil,
      Nat.sub_zero]
    rfl
  constructor
  · intro hall id hover
    obtain ⟨id', hcut, pages, hchain, hpages⟩ := hall _ (mem_truncated.mpr ⟨id, hover, rfl⟩)
    obtain rfl := stateLabel_inj hnames (congrArg Truncated.state hcut)
    by_contra hunnamed
    have hnone := entryChain_unnamed hop ho hs hkg hcontent hraw hord hcaches
      (stateId_number hnames hunnamed) hchain
    rw [hnone, List.append_nil, hkept] at hpages
    have hlength := congrArg List.length hpages
    rw [List.length_take] at hlength
    omega
  · intro hnamed cut hcut
    obtain ⟨id, hover, rfl⟩ := mem_truncated.mp hcut
    refine ⟨id, rfl, ?_⟩
    obtain ⟨pages, hchain, hpages⟩ := (pagesOf_entries limits hop ho hs hkg hcontent hraw
      hord hcaches (stateId_stateLabel hnames (hnamed id hover))).exists_entryChain 0 R.entryLimit
    refine ⟨pages, hchain, ?_⟩
    rw [hkept, hpages, List.take_append_drop]

end Continues

/-! ### A state that the header does not describe -/

/-- A state of ints under a namespace with its own serializer. -/
def intState (name : Text) : StateMetaInfo where
  name := encodeUtf8 name
  backendStateType := .keyValue
  options := [(keyedStateType, encodeUtf8 "VALUE".toList)]
  serializers := [
    (encodeUtf8 "VALUE_SERIALIZER".toList, encodeUtf8 "job.V".toList, 1, []),
    (encodeUtf8 "NAMESPACE_SERIALIZER".toList, encodeUtf8 "job.N".toList, 1, [])]

/-- The header of two states, `n` and `a:b`, under keys that are ints. -/
def twoStates : KeyedHeader where
  usingKeyGroupCompression := false
  keyClass := encodeUtf8
    "org.apache.flink.api.common.typeutils.base.IntSerializer$IntSerializerSnapshot".toList
  keyVersion := 3
  keyPayload := []
  states := ["n".toList, "a:b".toList].map intState
  states_le := by decide

/-- What is made of it: two states are counted, and one is described. -/
def cutHeader : SubtaskHeader := { sampleHeader with layouts := [], numStates := 2 }

/-- The name `a:b` is no name the scan accepts; the number is read in front of the first record. -/
theorem cutHeader_written :
    cutHeader.states.map (·.name) = (twoStates.metas asciiText "Int".toList).map (·.name)
    ∧ cutHeader.stateTypes = (twoStates.metas asciiText "Int".toList).map (·.stateType)
    ∧ cutHeader.numStates = twoStates.stateCount asciiText "Int".toList := by decide +kernel

theorem resolved_cutHeader : cutHeader.Resolved asciiText :=
  ⟨twoStates.write, "Int".toList, cutHeader_written.1⟩

/-- The key-group 0, with two entries of the key 7 for one state. -/
def cutBlock (stateId : UInt8) : Bytes :=
  [0, stateId, 0, 0, 0, 10, 0, 0, 0, 0, 7, 0, 0, 0, 0, 1, 0, 0, 0, 4, 0, 0, 0, 9,
    0, 0, 0, 10, 0x80, 0, 0, 0, 7, 0, 0, 0, 0, 2, 0, 0, 0, 4, 0, 0, 0, 8, 0xFF, 0xFF]

/-- The header and the key-group. -/
def cutStream (stateId : UInt8) : SubtaskStream where
  subtaskIndex := 0
  statePos := 0
  startKeyGroup := 0
  offsets := [317]
  src := .inline (twoStates.write ++ cutBlock stateId)
  what := "subtask 0 (inline)".toList
  headerLen := 317
  header := .ok cutHeader

def cutOperator (stateId : UInt8) : OpenOperator :=
  ⟨[1], 2, 1, ⟨0, [cutStream stateId], [], List.nodup_singleton _⟩⟩

/-- A reader whose records hold one entry of a state. -/
def cutReader (stateId : UInt8) : StateReader where
  operators := [cutOperator stateId]
  host := ⟨⟨fun _ => none, fun _ => none⟩, fun _ => none, fun _ => none, fun _ => none, id⟩
  proto := none
  files _ _ _ := .error []
  inflate := .ok
  entryLimit := 1
  entryLimit_pos := Nat.one_pos
  keyedEntrySize := 1
  rawKeySize := 1
  opIndex_eq := by
    intro i o h
    rcases i with _ | i
    · cases h
      rfl
    · cases h

/-- The key 7, with an entry for each of two map keys. -/
def cutKey (stateId : UInt8) : RawKey :=
  ⟨"7".toList, [⟨stateId.toUInt16, [], 0, [0, 0, 0, 0, 1], [0, 0, 0, 9]⟩,
    ⟨stateId.toUInt16, [], 0, [0, 0, 0, 0, 2], [0, 0, 0, 8]⟩]⟩

theorem content_cutReader : ((cutReader 0).contentOf (cutOperator 0) (cutStream 0) 0)
    = .ok (some (cutHeader, ⟨[cutKey 0], none, 48, 71⟩)) := by
  have hrange : (cutStream 0).blockRange (0 - (cutStream 0).startKeyGroup).toNat
      = some (317, 365) := by decide +kernel
  have hread : (cutStream 0).src.read (cutReader 0).files 317 365 = .ok (cutBlock 0) := by
    decide +kernel
  rw [contentOf_eq_readGrouped hrange rfl, StateReader.readGrouped, hread]
  rfl

theorem regular_cutOperator (stateId : UInt8) : (cutOperator stateId).Regular where
  disjoint := List.pairwise_singleton _ _
  reported := by
    intro u hu herror
    obtain rfl := List.mem_singleton.mp hu
    cases herror
  within := by
    intro u hu kg ⟨hfirst, hlast⟩
    obtain rfl := List.mem_singleton.mp hu
    have h0 : (0 : Int) ≤ kg := hfirst
    have h1 : kg ≤ 0 := hlast
    have hgroups : (0 : Int) < (cutOperator stateId).numKeyGroups := lt_max_of_lt_right Int.one_pos
    exact ⟨h0, lt_of_le_of_lt h1 hgroups, by omega⟩

/-- The state `n`, cut after its first entry. -/
theorem record_continues_iff_sample :
    (∀ cut ∈ ((cutReader 0).record (cutStream 0) cutHeader 0 0 (cutKey 0)).truncated, ∃ id,
      cut = ⟨cutHeader.stateLabel id, ((cutReader 0).stateEntries cutHeader id (cutKey 0)).length, 1⟩
        ∧ (cutReader 0).Continues "01".toList (fun _ => 1) (fun _ => .empty 0)
          ((cutReader 0).record (cutStream 0) cutHeader 0 0 (cutKey 0)) cut
          ((cutReader 0).stateEntries cutHeader id (cutKey 0)))
      ↔ ∀ id, 1 < ((cutReader 0).stateEntries cutHeader id (cutKey 0)).length → id.toNat < 1 := by
  have hop : (cutReader 0).operator "01".toList = .ok (cutOperator 0) := rfl
  exact record_continues_iff hop (regular_cutOperator 0) List.mem_cons_self ⟨le_rfl, le_rfl⟩
    content_cutReader resolved_cutHeader rfl (by decide) (fun _ => 1) fun _ => ⟨0, [], rfl⟩

/-- A header that registers two states counts both and describes one; the record names the other by
    its number, and `entries` knows no such name. -/
theorem record_cut_unreachable :
    (cutHeader.states.map (·.name) = (twoStates.metas asciiText "Int".toList).map (·.name)
      ∧ cutHeader.numStates = twoStates.stateCount asciiText "Int".toList)
    ∧ (((cutReader 1).keyPage "01".toList Cursor.start 1 (.empty 0)).1.map fun page =>
      page.found.map fun r => (r.key, r.position, r.truncated))
      = .ok [("7".toList, ⟨0, 0, 0⟩, [⟨"#1".toList, 2, 1⟩])]
    ∧ ((cutReader 1).entries "01".toList ⟨0, 0, 0⟩ "#1".toList 1 1 (.empty 0)).1.map (·.total)
      = .error (.notFound "operator 01 has no keyed state #1".toList) :=
  ⟨⟨cutHeader_written.1, cutHeader_written.2.2⟩, by decide +kernel⟩

end FlinkExplorer
