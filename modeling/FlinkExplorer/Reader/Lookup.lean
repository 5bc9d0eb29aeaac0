import FlinkExplorer.Reader.Entries

namespace FlinkExplorer

open Lib

/-!
# What a lookup finds

`get` parses a text as a key, computes the key's key-group, and looks for the key's canonical text in
the block of that key-group.

* `Names` — the key a text names: the first one of the block with its canonical text;
* `names_of_get`, `get_of_names` — a lookup finds that key, whatever is cached;
* `keysWhere_inj` — the keys of an operator have a position each.
-/

section Lookup

variable (R : StateReader) (o : OpenOperator)

/-- A text names a key of the operator. -/
def StateReader.Names (keyText : Text) (r : KeyRecord) : Prop :=
  ∃ first key canonical, o.ctx.firstHeader = some first
    ∧ R.parseLookup first keyText = .ok (key, canonical)
    ∧ ∃ s ∈ o.ctx.streams, (ReadUnit.stream s).Has (keyGroupForHash key.hashCode o.maxParallelism)
      ∧ (R.keysOf o s (keyGroupForHash key.hashCode o.maxParallelism)).find?
        (fun r => r.key == canonical) = some r

end Lookup

variable {R : StateReader} {o : OpenOperator} {op : Text}

/-- A block that is read for a lookup is the one of the unit's stream. -/
theorem content_of_blockOf (hop : R.operator op = .ok o) {u : ReadUnit} (hu : u ∈ o.ctx.units)
    {kg : Int} {cache : BlockCache} (hcache : R.Reached cache) {s : SubtaskStream}
    {header : SubtaskHeader} {block : GroupedBlock}
    (h : (R.blockOf o u kg cache).1 = .ok (some (s, header, block))) :
    u = .stream s ∧ R.contentOf o s kg = .ok (some (header, block)) := by
  obtain ⟨i, hi⟩ := StateReader.operator_eq_ok hop
  unfold StateReader.blockOf at h
  cases u with
  | failed f => cases h
  | stream s' =>
    dsimp only at h
    by_cases herror : (ReadUnit.stream s').error.isSome = true
    · rw [if_pos herror] at h
      cases h
    · rw [if_neg herror] at h
      obtain ⟨hread, -, -⟩ := grouped_agrees hi true s' hu kg .zero cache hcache.sound
      rcases hg : R.grouped o true s' kg .zero cache with ⟨e | _ | ⟨header', block'⟩, stats, d⟩
      · rw [hg] at h
        cases h
      · rw [hg] at h
        cases h
      · rw [hg] at h hread
        cases h
        exact ⟨rfl, hread.symm⟩

theorem find?_mapIdx {α β : Type} {f : Nat → α → β} {p : α → Bool} {q : β → Bool}
    (h : ∀ i a, q (f i a) = p a) (l : List α) (d : α) :
    (l.mapIdx f).find? q = (l.findIdx? p).map fun i => f i (l.getD i d) := by
  induction l generalizing f with
  | nil => rfl
  | cons a l ih =>
    rw [List.mapIdx_cons, List.find?_cons, List.findIdx?_cons, h]
    cases hp : p a with
    | true => rfl
    | false =>
      rw [ih fun i b => h (i + 1) b]
      simp only [Bool.false_eq_true, if_false, Option.map_map]
      rfl

/-- The first key of a block with a text. -/
theorem find?_keysOf {s : SubtaskStream} {kg : Int} {header : SubtaskHeader} {block : GroupedBlock}
    (hcontent : R.contentOf o s kg = .ok (some (header, block))) (canonical : Text) :
    (R.keysOf o s kg).find? (fun r => r.key == canonical)
      = (block.keys.findIdx? fun k => k.key == canonical).map fun ord =>
        R.record s header kg ord (block.keys.getD ord ⟨[], []⟩) := by
  unfold StateReader.keysOf
  rw [hcontent]
  have htext (ord : Nat) (raw : RawKey) :
      ((R.record s header kg ord raw).key == canonical) = (raw.key == canonical) := rfl
  exact find?_mapIdx htext block.keys ⟨[], []⟩

/-- **What a lookup finds** is the key its text names. -/
theorem names_of_get (hop : R.operator op = .ok o) {keyText : Text} {cache : BlockCache}
    (hcache : R.Reached cache) {r : KeyRecord} {stats : ReadStats} {malformed : List Text}
    (h : (R.get op keyText cache).1 = .ok (.found r stats malformed)) : R.Names o keyText r := by
  unfold StateReader.get at h
  rw [hop] at h
  dsimp only at h
  -- `get` branch by branch; a record is found at the end of one of them only.
  cases hfirst : o.ctx.firstHeader with
  | none =>
    rw [hfirst] at h
    cases hhead : o.ctx.units.head? with
    | none => simp [hhead] at h
    | some u => simp [hhead] at h
  | some first =>
    rw [hfirst] at h
    dsimp only at h
    rcases hparse : R.parseLookup first keyText with reason | ⟨key, canonical⟩
    · simp [hparse] at h
    · rw [hparse] at h
      dsimp only at h
      cases hunit : o.ctx.unitOf (keyGroupForHash key.hashCode o.maxParallelism) with
      | none => simp [hunit] at h
      | some u =>
        rw [hunit] at h
        dsimp only at h
        rcases hblock : R.blockOf o u (keyGroupForHash key.hashCode o.maxParallelism) cache
          with ⟨why | _ | ⟨s, header, block⟩, stats', d⟩
        · simp [hblock] at h
        · simp [hblock] at h
        · rw [hblock] at h
          dsimp only at h
          have hu := StateReader.mem_units_of_unitOf hunit
          obtain ⟨rfl, hcontent⟩ := content_of_blockOf hop hu hcache (by rw [hblock])
          have hhas : (ReadUnit.stream s).Has (keyGroupForHash key.hashCode o.maxParallelism) := by
            simpa [ReadUnit.Has] using List.find?_some hunit
          -- the unit of that key-group is a stream, since a failed one has no block
          have hs : s ∈ o.ctx.streams := by
            rcases o.ctx.mem_units.mp hu with ⟨s', hs', heq⟩ | ⟨f, -, heq⟩
            · cases heq
              exact hs'
            · cases heq
          cases hfind : block.keys.findIdx? fun k => k.key == canonical with
          | none =>
            rw [hfind] at h
            cases hdefect : block.defect <;> simp [hdefect] at h
          | some ord =>
            rw [hfind] at h
            cases h
            refine ⟨first, key, canonical, hfirst, hparse, s, hs, hhas, ?_⟩
            rw [find?_keysOf hcontent, hfind]
            rfl

/-- **A lookup finds** the key its text names. -/
theorem get_of_names (hop : R.operator op = .ok o) (ho : o.Regular) {keyText : Text}
    {cache : BlockCache} (hcache : R.Reached cache) {r : KeyRecord} (h : R.Names o keyText r) :
    ∃ stats malformed, (R.get op keyText cache).1 = .ok (.found r stats malformed) := by
  obtain ⟨first, key, canonical, hfirst, hparse, s, hs, hhas, hfind⟩ := h
  obtain ⟨header, block, ord, raw, hcontent, -, -⟩ := mem_keysOf (List.mem_of_find?_eq_some hfind)
  rw [find?_keysOf hcontent] at hfind
  obtain ⟨ord, hord, rfl⟩ := Option.map_eq_some_iff.mp hfind
  have hu : ReadUnit.stream s ∈ o.ctx.units := o.ctx.mem_units.mpr (.inl ⟨s, hs, rfl⟩)
  have hblock := blockOf_of_content hop hs hcontent hcache
  unfold StateReader.get
  rw [hop]
  dsimp only
  rw [hfirst]
  dsimp only
  rw [hparse]
  dsimp only
  rw [ho.unitOf hu hhas]
  dsimp only
  rcases hcall : R.blockOf o (.stream s) (keyGroupForHash key.hashCode o.maxParallelism) cache
    with ⟨result, stats, cache'⟩
  rw [hcall] at hblock
  dsimp only at hblock
  subst hblock
  dsimp only
  rw [hord]
  exact ⟨_, _, rfl⟩

/-- The keys of a block are among the operator's. -/
theorem mem_keysWhere {s : SubtaskStream} (hs : s ∈ o.ctx.streams) {kg : Int}
    (hhas : (ReadUnit.stream s).Has kg) {r : KeyRecord} (hr : r ∈ R.keysOf o s kg) :
    r ∈ R.keysWhere o fun _ => true := by
  have hu : ReadUnit.stream s ∈ o.ctx.units := o.ctx.mem_units.mpr (.inl ⟨s, hs, rfl⟩)
  refine List.mem_flatMap.mpr ⟨_, hu, List.mem_flatMap.mpr ⟨kg, ?_, hr⟩⟩
  exact List.mem_filter.mpr ⟨mem_keyGroups.mpr hhas, rfl⟩

/-- A key that a text names is one of the operator's. -/
theorem StateReader.Names.mem {keyText : Text} {r : KeyRecord} (h : R.Names o keyText r) :
    r ∈ R.keysWhere o fun _ => true := by
  obtain ⟨_, _, _, _, _, s, hs, hhas, hfind⟩ := h
  exact mem_keysWhere hs hhas (List.mem_of_find?_eq_some hfind)

theorem Cursor.Before.ne {c d : Cursor} (h : c.Before d) : c ≠ d := by
  rintro rfl
  rcases h with hlt | ⟨-, hlt⟩
  · exact Nat.lt_irrefl _ hlt
  · exact UInt32.lt_irrefl _ hlt

/-- The positions of the operator's keys are different. -/
theorem nodup_positions (ho : o.Regular) (hsized : R.Sized o) :
    ((R.keysWhere o fun _ => true).map (·.position)).Nodup := by
  rw [List.nodup_iff_pairwise_ne, List.pairwise_map]
  exact (keysWhere_sorted ho hsized _).imp Cursor.Before.ne

/-- **A position names one key.** -/
theorem keysWhere_inj (ho : o.Regular) (hsized : R.Sized o) {r r' : KeyRecord}
    (hr : r ∈ R.keysWhere o fun _ => true) (hr' : r' ∈ R.keysWhere o fun _ => true)
    (heq : r.position = r'.position) : r = r' :=
  List.inj_on_of_nodup_map (nodup_positions ho hsized) hr hr' heq

end FlinkExplorer
