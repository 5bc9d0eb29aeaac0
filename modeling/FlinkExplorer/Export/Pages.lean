import FlinkExplorer.Export.Counts

namespace FlinkExplorer

open Lib

/-!
# The same entries by rows and by pages, one by one

The pages of keys group entries and cut what they show; an export streams the blocks of one state.

* `completes_iff` — a key's record and its entry pages are its entries of a state;
* `says_key` — a row says of each what the pages do;
* `exportTarget_only`, `exportStateRows_readable` — an export of files that can be read goes through.
-/

/-! ### A key's entries of a state -/

/-- The entries of a state of a key, as its record and the pages of `entries` after it give them. -/
inductive StateReader.Completes (R : StateReader) (op : Text) (limits : Nat → Nat)
    (caches : Nat → BlockCache) (stateName : Text) (record : KeyRecord) : List StateEntry → Prop
  | whole (hwhole : ∀ cut ∈ record.truncated, cut.state ≠ stateName) :
    Completes R op limits caches stateName record
      (record.entries.filter fun e => e.state == stateName)
  | more {cut : Truncated} {all : List StateEntry} (hcut : cut ∈ record.truncated)
    (hstate : cut.state = stateName) (hmore : R.Continues op limits caches record cut all) :
    Completes R op limits caches stateName record all

/-- The entries of a state of the key of an event, as pages show them. -/
def StateReader.shownAt (R : StateReader) (stateName : Text) : Event → List StateEntry
  | .key _ header _ _ raw =>
    (header.resolved stateName).elim [] fun found => R.stateEntries header found.1 raw
  | .report _ => []

@[simp] theorem shownAt_key (R : StateReader) (stateName : Text) (s : SubtaskStream)
    (header : SubtaskHeader) (kg : Int) (ord : Nat) (raw : RawKey) :
    R.shownAt stateName (.key s header kg ord raw)
      = (header.resolved stateName).elim [] fun found => R.stateEntries header found.1 raw := rfl

/-- Every chain of pages of a list holds what there is from its offset on. -/
theorem PagesOf.flatMap_eq {call : Nat → Nat → Except ReaderError EntryPage} {all : List StateEntry}
    (h : PagesOf call all) {i offset : Nat} {pages : List EntryPage}
    (hchain : EntryChain call i offset pages) : pages.flatMap (·.entries) = all.drop offset := by
  induction hchain with
  | @last i offset page hcall hnone =>
    obtain ⟨page', limit, hcall', -, hentries, -, hnext⟩ := h i offset
    obtain rfl := Except.ok.inj (hcall.symm.trans hcall')
    have hend : ¬ offset + page.entries.length < all.length := by
      intro hmore
      rw [if_pos hmore, hnone] at hnext
      cases hnext
    have hlength := congrArg List.length hentries
    rw [List.length_take, List.length_drop] at hlength
    rw [List.flatMap_cons, List.flatMap_nil, List.append_nil, hentries, List.take_of_length_le]
    rw [List.length_drop]
    omega
  | @more i offset offset' page pages hcall hsome hpages ih =>
    obtain ⟨page', limit, hcall', -, hentries, -, hnext⟩ := h i offset
    obtain rfl := Except.ok.inj (hcall.symm.trans hcall')
    have hlength := congrArg List.length hentries
    rw [List.length_take, List.length_drop] at hlength
    by_cases hmore : offset + page.entries.length < all.length
    · rw [if_pos hmore, hsome] at hnext
      obtain rfl := Option.some.inj hnext
      have htake : page.entries.length = limit := by omega
      rw [List.flatMap_cons, ih, htake, hentries, ← List.drop_drop, List.take_append_drop]
    · rw [if_neg hmore, hsome] at hnext
      cases hnext

section Entries

variable {C : CharText} {R : StateReader} {o : OpenOperator} {op : Text} {stateName : Text}
  {s : SubtaskStream} {kg : Int} {header : SubtaskHeader} {block : GroupedBlock} {ord : Nat}
  {raw : RawKey}

/-- A key that a walk meets is one of a block. -/
theorem key_of_mem_events
    (h : Event.key s header kg ord raw ∈ R.eventsOf o (positions 0 o.ctx.units)) :
    s ∈ o.ctx.streams ∧ (ReadUnit.stream s).Has kg
      ∧ ∃ block, R.contentOf o s kg = .ok (some (header, block)) ∧ block.keys[ord]? = some raw := by
  obtain ⟨p, hp, he⟩ := List.mem_flatMap.mp h
  obtain ⟨u, hu, hp⟩ := List.mem_flatMap.mp hp
  rcases mem_positionsOf.mp hp with ⟨-, -, rfl⟩ | ⟨-, s', kg', rfl, hle, hlast, -, rfl⟩
  · simp [StateReader.eventsAt] at he
  · unfold StateReader.eventsAt at he
    rcases hcontent : R.contentOf o s' kg' with e | _ | ⟨header', block⟩
    · simp [hcontent] at he
    · simp [hcontent] at he
    · simp only [hcontent] at he
      obtain ⟨rfl, rfl, rfl, -, hraw⟩ := mem_keyEvents he
      have hs : s ∈ o.ctx.streams := by
        rcases o.ctx.mem_units.mp hu with ⟨s'', hs'', heq⟩ | ⟨f, -, heq⟩
        · cases heq
          exact hs''
        · cases heq
      exact ⟨hs, ⟨(le_max_left _ _).trans hle, hlast⟩, block, hcontent, hraw⟩

/-- An entry of a record has the label of a state. -/
theorem label_of_mem_recordEntries {i : Nat} {counts : List (UInt16 × Nat)} {es : List KeyedEntry}
    {e : StateEntry} (h : e ∈ (R.recordEntries header i counts es).1) :
    ∃ id, e.state = header.stateLabel id := by
  induction es generalizing i counts with
  | nil => cases h
  | cons e' es ih =>
    rw [StateReader.recordEntries] at h
    split at h
    · rcases List.mem_cons.mp h with rfl | h
      · exact ⟨_, state_entryOf i e'⟩
      · exact ih h
    · exact ih h

/-- A record that does not cut a state has all of its entries there is. -/
theorem completes_of_whole {record : KeyRecord}
    (hwhole : ∀ cut ∈ record.truncated, cut.state ≠ stateName) {limits : Nat → Nat}
    {caches : Nat → BlockCache} {es : List StateEntry} :
    R.Completes op limits caches stateName record es
      ↔ es = record.entries.filter fun e => e.state == stateName := by
  constructor
  · intro h
    cases h with
    | whole => rfl
    | more hcut hstate => exact absurd hstate (hwhole _ hcut)
  · rintro rfl
    exact .whole hwhole

/-- A state that the header does not resolve is in no record, and no record cuts it. -/
theorem record_of_unresolved (R : StateReader) (s : SubtaskStream) (kg : Int) (ord : Nat)
    (raw : RawKey) (hwell : header.WellNamed C)
    (hresolved : header.resolved stateName = none) (hhash : ∀ rest, stateName ≠ '#' :: rest) :
    (∀ cut ∈ (R.record s header kg ord raw).truncated, cut.state ≠ stateName)
      ∧ ((R.record s header kg ord raw).entries.filter fun e => e.state == stateName) = [] := by
  have hlabel := stateLabel_ne_of_unresolved hwell hresolved hhash
  constructor
  · intro cut hcut
    obtain ⟨id, -, rfl⟩ := mem_truncated.mp hcut
    exact hlabel id
  · refine List.filter_eq_nil_iff.mpr fun e he hstate => ?_
    obtain ⟨id, hid⟩ := label_of_mem_recordEntries he
    exact hlabel id (hid.symm.trans (eq_of_beq hstate))

/-- What a record has of a state that the header resolves: its first entries, up to the limit. -/
theorem record_of_resolved (R : StateReader) (s : SubtaskStream) (kg : Int) (ord : Nat)
    (raw : RawKey) {found : UInt16 × ResolvedState} (hwell : header.WellNamed C)
    (hresolved : header.resolved stateName = some found) :
    ((R.record s header kg ord raw).entries.filter fun e => e.state == stateName)
      = (R.stateEntries header found.1 raw).take R.entryLimit := by
  have hname : header.stateLabel found.1 = stateName :=
    (stateLabel_eq_iff hwell hresolved found.1).mpr rfl
  rw [← hname, entries_record, filter_recordEntries fun id' h => stateLabel_inj hwell.names h,
    seen_nil, Nat.sub_zero]
  rfl

/-- The cut of a record that names a state is that state's. -/
theorem cut_of_resolved {found : UInt16 × ResolvedState} (hwell : header.WellNamed C)
    (hresolved : header.resolved stateName = some found) {cut : Truncated}
    (hcut : cut ∈ (R.record s header kg ord raw).truncated) (hstate : cut.state = stateName) :
    R.entryLimit < (R.stateEntries header found.1 raw).length
      ∧ cut = ⟨stateName, (R.stateEntries header found.1 raw).length, R.entryLimit⟩ := by
  obtain ⟨id, hlong, rfl⟩ := mem_truncated.mp hcut
  obtain rfl := (stateLabel_eq_iff hwell hresolved id).mp hstate
  exact ⟨hlong, by rw [← hstate]⟩

/-- **A key's record and its entry pages** give the entries of a state in its block, and nothing
    else. -/
theorem completes_iff (hop : R.operator op = .ok o) (ho : o.Regular) (hs : s ∈ o.ctx.streams)
    (hkg : (ReadUnit.stream s).Has kg)
    (hcontent : R.contentOf o s kg = .ok (some (header, block))) (hwell : header.WellNamed C)
    (hraw : block.keys[ord]? = some raw) (hord : ord < 2 ^ 32)
    (hhash : ∀ rest, stateName ≠ '#' :: rest) {limits : Nat → Nat} {caches : Nat → BlockCache}
    (hcaches : ∀ i, R.Reached (caches i)) {es : List StateEntry} :
    R.Completes op limits caches stateName (R.record s header kg ord raw) es
      ↔ es = R.shownAt stateName (.key s header kg ord raw) := by
  cases hresolved : header.resolved stateName with
  | none =>
    obtain ⟨hwhole, hnil⟩ := record_of_unresolved R s kg ord raw hwell hresolved hhash
    rw [completes_of_whole hwhole, hnil, shownAt_key, hresolved]
    rfl
  | some found =>
    have hshown : R.shownAt stateName (.key s header kg ord raw)
        = R.stateEntries header found.1 raw := by
      rw [shownAt_key, hresolved]
      rfl
    have hkept := record_of_resolved R s kg ord raw hwell hresolved
    rw [hshown]
    by_cases hover : R.entryLimit < (R.stateEntries header found.1 raw).length
    · -- the record cuts the state, and its pages go on from there
      have hname : header.stateLabel found.1 = stateName :=
        (stateLabel_eq_iff hwell hresolved found.1).mpr rfl
      have hmem : (⟨stateName, (R.stateEntries header found.1 raw).length, R.entryLimit⟩ : Truncated)
          ∈ (R.record s header kg ord raw).truncated :=
        mem_truncated.mpr ⟨found.1, hover, by rw [hname]⟩
      have hstate : header.stateId stateName = some found.1 := by
        obtain ⟨i, hi, hsub⟩ := Option.bind_eq_some_iff.mp hresolved
        obtain ⟨sub, -, rfl⟩ := Option.map_eq_some_iff.mp hsub
        exact hi
      have hpages := pagesOf_entries limits hop ho hs hkg hcontent hraw hord hcaches hstate
      constructor
      · intro h
        cases h with
        | whole hwhole => exact absurd rfl (hwhole _ hmem)
        | more hcut hcutName hmore =>
          obtain ⟨-, rfl⟩ := cut_of_resolved hwell hresolved hcut hcutName
          obtain ⟨pages, hchain, rfl⟩ := hmore
          rw [hkept, hpages.flatMap_eq hchain, List.take_append_drop]
      · rintro rfl
        obtain ⟨pages, hchain, hrest⟩ := hpages.exists_entryChain 0 R.entryLimit
        refine .more hmem rfl ⟨pages, hchain, ?_⟩
        dsimp only
        rw [hkept, hrest, List.take_append_drop]
    · -- the record has the whole state
      rw [completes_of_whole fun cut hcut hcutName =>
          hover (cut_of_resolved hwell hresolved hcut hcutName).1,
        hkept, List.take_of_length_le (not_lt.mp hover)]

end Entries

section Says

variable {C : CharText} {R : StateReader} {o : OpenOperator} {stateName : Text}
  {s : SubtaskStream} {kg : Int} {header : SubtaskHeader} {ord : Nat} {raw : RawKey}

/-- A row says of an entry what the record of its key does: all but the index that is put after a map
    key which does not decode. -/
structure StateRow.Says (R : StateReader) (row : StateRow) (record : KeyRecord) (e : StateEntry) :
    Prop where
  key : row.key = record.key
  keyGroup : row.keyGroup = record.keyGroup
  subtask : row.subtask = record.subtask
  state : row.state = e.state
  mapKey : row.mapKey = e.mapKey ∨ ∃ keyType failed i j,
    (decodeField R.host.floats R.proto keyType none (JavaReader.new e.namespaceBytes.tail)).1
        = .error failed
      ∧ row.mapKey = some (valueToDisplay failed ++ " #".toList ++ natText i)
      ∧ e.mapKey = some (valueToDisplay failed ++ " #".toList ++ natText j)
  namespaceHex : row.namespaceHex = FlinkExplorer.namespaceHex e.namespaceBytes e.mapKey.isSome
  value : row.value = e.value

/-- Decoding an entry at two indexes differs in the index after a map key that does not decode. -/
theorem decodeEntryValue_index (F : FloatText) (proto : Option ProtoContext) (sub : ResolvedState)
    (ns value : Bytes) (i j : Nat) :
    (decodeEntryValue F proto sub ns value i).2 = (decodeEntryValue F proto sub ns value j).2
      ∧ (decodeEntryValue F proto sub ns value i).1.isSome
        = (decodeEntryValue F proto sub ns value j).1.isSome
      ∧ ((decodeEntryValue F proto sub ns value i).1 = (decodeEntryValue F proto sub ns value j).1
        ∨ ∃ keyType failed, (decodeField F proto keyType none (JavaReader.new ns.tail)).1
            = .error failed
          ∧ (decodeEntryValue F proto sub ns value i).1
            = some (valueToDisplay failed ++ " #".toList ++ natText i)
          ∧ (decodeEntryValue F proto sub ns value j).1
            = some (valueToDisplay failed ++ " #".toList ++ natText j)) := by
  unfold decodeEntryValue
  by_cases hmap : sub.stateType = "MAP".toList
  · simp only [if_pos hmap]
    refine ⟨rfl, rfl, ?_⟩
    show some (mapKeyText F proto ns sub.mapKeyType i) = some (mapKeyText F proto ns sub.mapKeyType j)
      ∨ ∃ keyType failed, _ ∧ some (mapKeyText F proto ns sub.mapKeyType i) = _
        ∧ some (mapKeyText F proto ns sub.mapKeyType j) = _
    unfold mapKeyText
    cases hkey : (decodeField F proto sub.mapKeyType none (JavaReader.new ns.tail)).1 with
    | ok v => cases v <;> exact .inl rfl
    | error failed => exact .inr ⟨_, failed, hkey, rfl, rfl⟩
  · simp only [if_neg hmap]
    exact ⟨trivial, trivial, .inl trivial⟩

/-- The row of an entry of a state says what the pages do. -/
theorem says_entry {id : UInt16} {sub : ResolvedState} (hsub : header.states[id.toNat]? = some sub)
    {e : KeyedEntry} (hid : e.stateId = id) (hkg : e.keyGroup = UInt16.ofInt kg) (i n : Nat) :
    (R.storedRow o n ⟨s.subtaskIndex, sub, { e with key := raw.key }⟩).Says R
      (R.record s header kg ord raw) (entryOf R.host.floats R.proto header i e) := by
  have hentry : entryOf R.host.floats R.proto header i e
      = ⟨sub.name, sub.stateType, sub.valueType,
          (decodeEntryValue R.host.floats R.proto sub e.namespaceBytes e.value i).1,
          e.namespaceBytes, e.value,
          (decodeEntryValue R.host.floats R.proto sub e.namespaceBytes e.value i).2⟩ := by
    unfold entryOf
    rw [hid, hsub]
  obtain ⟨hvalue, hsome, hmapKey⟩ :=
    decodeEntryValue_index R.host.floats R.proto sub e.namespaceBytes e.value n i
  rw [hentry]
  refine ⟨rfl, hkg, rfl, rfl, ?_, ?_, hvalue⟩
  · rcases hmapKey with heq | ⟨keyType, failed, hfailed, hrow, hpage⟩
    · exact .inl heq
    · exact .inr ⟨keyType, failed, n, i, hfailed, hrow, hpage⟩
  · exact congrArg (namespaceHex e.namespaceBytes) hsome

/-- What the rows of a key say, entry by entry. -/
theorem says_key (hentries : ∀ e ∈ raw.entries, e.keyGroup = UInt16.ofInt kg) :
    List.Forall₂ (fun (x : Stored) (shown : KeyRecord × StateEntry) =>
        ∀ n, (R.storedRow o n x).Says R shown.1 shown.2)
      ((Event.key s header kg ord raw).storedFor stateName)
      ((R.shownAt stateName (.key s header kg ord raw)).map
        (R.record s header kg ord raw, ·)) := by
  rw [storedFor_key, shownAt_key]
  cases hresolved : header.resolved stateName with
  | none => exact .nil
  | some found =>
    obtain ⟨id, sub⟩ := found
    have hsub : header.states[id.toNat]? = some sub := by
      obtain ⟨i, -, hi⟩ := Option.bind_eq_some_iff.mp hresolved
      obtain ⟨sub', hsub', heq⟩ := Option.map_eq_some_iff.mp hi
      cases heq
      exact hsub'
    dsimp only [Option.elim]
    unfold StateReader.stateEntries
    have hall : ∀ (es : List KeyedEntry) (i : Nat), (∀ e ∈ es, e.keyGroup = UInt16.ofInt kg) →
        List.Forall₂ (fun (x : Stored) (shown : KeyRecord × StateEntry) =>
            ∀ n, (R.storedRow o n x).Says R shown.1 shown.2)
          ((es.filter (·.stateId == id)).map fun e =>
            ⟨s.subtaskIndex, sub, { e with key := raw.key }⟩)
          ((R.stateEntriesFrom header id i es).map (R.record s header kg ord raw, ·)) := by
      intro es
      induction es with
      | nil => exact fun _ _ => .nil
      | cons e es ih =>
        intro i hes
        have hrest := ih (i + 1) fun e' he' => hes e' (List.mem_cons_of_mem e he')
        rw [StateReader.stateEntriesFrom]
        by_cases hid : e.stateId = id
        · rw [if_pos hid, List.filter_cons_of_pos (by simpa using hid), List.map_cons,
            List.map_cons]
          exact .cons (says_entry hsub hid (hes e List.mem_cons_self) i) hrest
        · rw [if_neg hid, List.filter_cons_of_neg (by simpa using hid)]
          exact hrest
    exact hall raw.entries 0 hentries

/-- The entries of a key of a block are in the block's key-group. -/
theorem keyGroup_of_contentOf {block : GroupedBlock}
    (hcontent : R.contentOf o s kg = .ok (some (header, block))) (hkg : (ReadUnit.stream s).Has kg)
    (hraw : block.keys[ord]? = some raw) : ∀ e ∈ raw.entries, e.keyGroup = UInt16.ofInt kg := by
  intro e he
  have hheader := header_of_contentOf hcontent
  have hfirst : s.startKeyGroup ≤ kg := hkg.1
  obtain ⟨i, rfl⟩ : ∃ i : Nat, kg = s.startKeyGroup + i :=
    ⟨(kg - s.startKeyGroup).toNat, by omega⟩
  rcases contentOf_at (R := R) (o := o) hheader i with
    ⟨e', herror, -⟩ | ⟨hnone, -⟩ | ⟨block', hblock, hkeys, -⟩
  · rw [hcontent] at herror
    cases herror
  · rw [hcontent] at hnone
    cases hnone
  · rw [hcontent] at hblock
    obtain rfl : block = block' := by cases hblock; rfl
    rw [hkeys, groupEntries_eq] at hraw
    obtain ⟨key, -, rfl⟩ := List.mem_map.mp (List.mem_of_getElem? hraw)
    obtain ⟨e', he', rfl⟩ := List.mem_map.mp he
    have hmem := (List.mem_filter.mp he').1
    unfold StateReader.parsedAt at hmem
    cases hbytes : R.blockAt s header i with
    | none =>
      rw [hbytes] at hmem
      cases hmem
    | some bytes =>
      rw [hbytes] at hmem
      obtain ⟨frame, -, rfl⟩ := List.mem_map.mp hmem
      show (frameEntry _ _ _ _ _).keyGroup = _
      unfold frameEntry
      dsimp only
      split <;> rfl

end Says

/-! ### Exports that go through -/

/-- Every keyed file of an operator can be read: each stream is open, its header is understood, and
    each block of it is read and inflated. -/
structure StateReader.FilesReadable (R : StateReader) (o : OpenOperator) : Prop where
  opened : o.ctx.failed = []
  headers : ∀ s ∈ o.ctx.streams, ∃ header, s.header = .ok header
  blocks : ∀ s ∈ o.ctx.streams, ∀ header, s.header = .ok header → ∀ i start last,
    s.blockRange i = some (start, last) → ∃ bytes block,
      s.src.read R.files start last = .ok bytes
        ∧ R.keyGroupBlock bytes header.compressed = .ok block

/-- A state of one operator: a header of it registers the state, and no other operator's does. -/
structure StateReader.OnlyIn (R : StateReader) (o : OpenOperator) (stateName : Text) : Prop where
  registered : ∃ s ∈ o.ctx.streams, ∃ header, s.header = .ok header
    ∧ (header.stateId stateName).isSome = true
  others : ∃ before after, R.operators = before ++ o :: after ∧ ∀ o' ∈ before ++ after,
    ∀ s ∈ o'.ctx.streams, ∀ header, s.header = .ok header → header.stateId stateName = none

section Success

variable {R : StateReader} {o : OpenOperator} {operator : Option Text} {stateName : Text}

/-- Headers that can all be read leave no error. -/
theorem resolveState_readable {streams : List SubtaskStream}
    (h : ∀ s ∈ streams, ∃ header, s.header = .ok header) :
    (resolveState stateName streams).2 = []
      ∧ ((resolveState stateName streams).1 = true
        ↔ ∃ s ∈ streams, ∃ header, s.header = .ok header
          ∧ (header.stateId stateName).isSome = true) := by
  have herrors : (resolveState stateName streams).2 = [] := by
    induction streams with
    | nil => rfl
    | cons s streams ih =>
      obtain ⟨header, hheader⟩ := h s List.mem_cons_self
      unfold resolveState
      rw [hheader]
      dsimp only
      split
      · rfl
      · exact ih fun s' hs' => h s' (List.mem_cons_of_mem s hs')
  obtain ⟨hfound, hnone⟩ := resolveState_spec stateName streams
  refine ⟨herrors, hfound, ?_⟩
  rintro ⟨s, hs, header, hheader, hid⟩
  by_contra hmissed
  obtain ⟨header', hheader', hlacks⟩ := hnone (by simpa using hmissed) herrors s hs
  obtain rfl := Except.ok.inj (hheader.symm.trans hheader')
  rw [hlacks] at hid
  cases hid

/-- **The operator of a state is found** where everything can be read and no other operator has a
    state of that name. -/
theorem exportTarget_only (hreadable : ∀ o' ∈ R.operators, R.FilesReadable o')
    (honly : R.OnlyIn o stateName)
    (hasked : (operator.all fun want => want.isPrefixOf (hexId o.id)) = true) :
    exportTarget R operator stateName = .ok o := by
  obtain ⟨before, after, hoperators, hothers⟩ := honly.others
  have hmem : o ∈ R.operators := by
    rw [hoperators]
    exact List.mem_append_right _ List.mem_cons_self
  have hin {o' : OpenOperator} (h : o' ∈ before ++ after) : o' ∈ R.operators := by
    rw [hoperators]
    rcases List.mem_append.mp h with h | h
    · exact List.mem_append_left _ h
    · exact List.mem_append_right _ (List.mem_cons_of_mem o h)
  have herrors {o' : OpenOperator} (h : o' ∈ R.operators) :
      (Candidate.of stateName o').errors = [] := by
    show o'.ctx.openErrors ++ (resolveState stateName o'.ctx.streams).2 = []
    unfold OpContext.openErrors
    rw [(hreadable o' h).opened, (resolveState_readable (hreadable o' h).headers).1]
    rfl
  have hhas : (Candidate.of stateName o).resolved = true :=
    (resolveState_readable (hreadable o hmem).headers).2.mpr honly.registered
  have hlacks {o' : OpenOperator} (h : o' ∈ before ++ after) :
      (Candidate.of stateName o').resolved = false := by
    rw [Bool.eq_false_iff]
    intro hfound
    obtain ⟨s, hs, header, hheader, hid⟩ :=
      (resolveState_readable (hreadable o' (hin h)).headers).2.mp hfound
    rw [hothers o' h s hs header hheader] at hid
    cases hid
  -- among those asked for, it is the only one that has the state
  have hnone {os : List OpenOperator} (hsub : ∀ o' ∈ os, o' ∈ before ++ after) :
      ((os.filter fun o' => operator.all fun want => want.isPrefixOf (hexId o'.id)).map
        (Candidate.of stateName)).filter (·.resolved) = [] := by
    refine List.filter_eq_nil_iff.mpr fun c hc => ?_
    obtain ⟨o', ho', rfl⟩ := List.mem_map.mp hc
    rw [hlacks (hsub o' (List.mem_filter.mp ho').1)]
    exact Bool.false_ne_true
  have htargets : ((R.operators.filter fun o' =>
      operator.all fun want => want.isPrefixOf (hexId o'.id)).map (Candidate.of stateName)).filter
        (·.resolved) = [Candidate.of stateName o] := by
    have hkeeps : ((o :: after).filter fun o' =>
          operator.all fun want => want.isPrefixOf (hexId o'.id))
        = o :: after.filter fun o' => operator.all fun want => want.isPrefixOf (hexId o'.id) :=
      List.filter_cons_of_pos hasked
    rw [hoperators, List.filter_append, hkeeps, List.map_append, List.filter_append, List.map_cons,
      List.filter_cons_of_pos hhas,
      hnone fun o' h => List.mem_append_left _ h, hnone fun o' h => List.mem_append_right _ h]
    rfl
  have hread : ((R.operators.filter fun o' =>
      operator.all fun want => want.isPrefixOf (hexId o'.id)).map (Candidate.of stateName)).filter
        (fun c => !c.resolved && !c.errors.isEmpty) = [] := by
    refine List.filter_eq_nil_iff.mpr fun c hc => ?_
    obtain ⟨o', ho', rfl⟩ := List.mem_map.mp hc
    rw [herrors (List.mem_filter.mp ho').1]
    simp
  have hsome : ¬ (R.operators.filter fun o' =>
      operator.all fun want => want.isPrefixOf (hexId o'.id)).isEmpty = true := by
    rw [List.isEmpty_iff]
    exact List.ne_nil_of_mem (List.mem_filter.mpr ⟨hmem, hasked⟩)
  unfold exportTarget
  dsimp only
  rw [if_neg hsome, htargets, hread]
  dsimp only
  rw [herrors hmem]
  rfl

/-- Rows that are put in a list. -/
theorem feed_listSink (rows fed : List StateRow) : listSink.feed rows fed = .ok (fed ++ rows) := by
  induction rows generalizing fed with
  | nil => exact congrArg Except.ok (List.append_nil fed).symm
  | cons row rows ih =>
    have hrest := ih (fed ++ [row])
    rw [List.append_assoc] at hrest
    exact hrest

/-- A block that can be read is exported. -/
theorem exportBlock_readable (hreadable : R.FilesReadable o) {s : SubtaskStream}
    (hs : s ∈ o.ctx.streams) {header : SubtaskHeader} (hheader : s.header = .ok header)
    (stateId : UInt16) (sub : ResolvedState) (st : ExportStats × List StateRow) (i : Nat) :
    ∃ st', exportBlock R listSink o s header stateId sub st i = .ok st' := by
  unfold exportBlock
  cases hrange : s.blockRange i with
  | none => exact ⟨st, rfl⟩
  | some range =>
    obtain ⟨start, last⟩ := range
    obtain ⟨bytes, block, hread, hinflate⟩ :=
      hreadable.blocks s hs header hheader i start last hrange
    dsimp only
    rw [hread]
    dsimp only [bind, Except.bind]
    rw [hinflate]
    dsimp only
    -- a list takes every row
    obtain ⟨fed, hfed⟩ : ∃ st', (parseKeyGroupBlock
          (header.parseCtx (kgPrefixLen o.maxParallelism) (some stateId)) R.host.floats block
          (UInt16.ofInt (s.startKeyGroup + i))).1.foldlM
            (exportEntry R listSink (hexId o.id) s.subtaskIndex sub) (st.1.rows, st.2)
        = .ok st' := exists_foldlM_ok (fun _ _ _ => ⟨_, rfl⟩) _
    rw [hfed]
    dsimp only
    split <;> exact ⟨_, rfl⟩

variable (stateName) in
/-- A stream whose blocks can be read is exported. -/
theorem exportStream_readable (hreadable : R.FilesReadable o) {s : SubtaskStream}
    (hs : s ∈ o.ctx.streams) (st : ExportStats × List StateRow) :
    ∃ st', exportStream R listSink o stateName st s = .ok st' := by
  obtain ⟨header, hheader⟩ := hreadable.headers s hs
  unfold exportStream
  split
  · exact ⟨st, rfl⟩
  · rw [hheader]
    dsimp only [bind, Except.bind]
    cases header.resolved stateName with
    | none => exact ⟨_, rfl⟩
    | some found =>
      exact exists_foldlM_ok
        (fun i _ st => exportBlock_readable hreadable hs hheader found.1 found.2 st i) _

/-- **An export of what can be read goes through**, and its rows are those of the state's entries. -/
theorem exportStateRows_readable (htarget : exportTarget R operator stateName = .ok o)
    (hreadable : R.FilesReadable o) :
    ∃ stats, exportStateRows R listSink operator stateName [] = .ok (stats, R.rowsOf o stateName)
      ∧ stats.rows = (R.storedOf o stateName).length := by
  obtain ⟨st, hloop⟩ := exists_foldlM_ok
    (fun s hs st => exportStream_readable stateName hreadable hs st)
    (ExportStats.zero, [])
  have hexport : exportStateRows R listSink operator stateName [] = .ok (st.1, st.2) := by
    unfold exportStateRows
    rw [htarget]
    dsimp only [bind, Except.bind]
    rw [hloop]
    rfl
  obtain ⟨o', htarget', ⟨fed, hfeed, hfinish⟩, hrows, -⟩ := exportStateRows_ok hexport
  obtain rfl := Except.ok.inj (htarget.symm.trans htarget')
  rw [feed_listSink, List.nil_append] at hfeed
  obtain rfl := Except.ok.inj hfeed
  have hfed : R.rowsOf o stateName = st.2 := Except.ok.inj hfinish
  refine ⟨st.1, ?_, hrows⟩
  rw [hfed]
  exact hexport

end Success

end FlinkExplorer
