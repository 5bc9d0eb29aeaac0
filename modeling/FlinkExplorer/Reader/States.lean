import FlinkExplorer.Reader.Entries

namespace FlinkExplorer

open Lib

/-!
# `reader/mod.rs` — the states of an operator

`StateReader.states` lists the states that the headers of an operator's subtasks register, in the
order in which they are met.

* `registerAll_spec` — each name is listed once, as the first header that has it describes it, and
  with the number of times it is met;
* `states_eq` — what is listed for an operator: the states its headers register.
-/

/-- A keyed state of an operator. -/
structure StateInfo where
  name : Text
  stateType : Text
  valueType : Text
  valueClass : Option Text
  subtasks : Nat
  deriving DecidableEq

/-- What the headers of an operator say. -/
structure KeyedStates where
  keyType : Text
  states : List StateInfo
  errors : List Text

/-- `open_errors`. -/
def OpContext.openErrors (ctx : OpContext) : List Text := ctx.failed.map (·.error)

namespace SubtaskStream

/-- The header, if it could be read. -/
def header? (s : SubtaskStream) : Option SubtaskHeader := s.header.toOption

/-- Why the header could not be read. -/
def headerError (s : SubtaskStream) : Option Text :=
  match s.header with
  | .ok _ => none
  | .error e => some e

end SubtaskStream

/-- `key_type`, from the first header that could be read. -/
def OpContext.keyType (ctx : OpContext) : Text :=
  ((ctx.streams.findSome? SubtaskStream.header?).map (·.keyType)).getD []

/-- A state of a header: one more subtask of a state that is listed, or a state of its own. -/
def registerState (st : ResolvedState) : List StateInfo → List StateInfo
  | [] => [⟨st.name, st.stateType, st.valueType, st.valueClass, 1⟩]
  | info :: infos =>
    if info.name = st.name then { info with subtasks := info.subtasks + 1 } :: infos
    else info :: registerState st infos

/-- The states of some headers, one after the other. -/
def registerAll (sts : List ResolvedState) : List StateInfo :=
  sts.foldl (fun infos st => registerState st infos) []

/-- The states that the headers of an operator register. -/
def OpContext.registered (ctx : OpContext) : List ResolvedState :=
  (ctx.streams.filterMap SubtaskStream.header?).flatMap (·.states)

/-- `states`. -/
def StateReader.states (R : StateReader) (op : Text) : Except ReaderError KeyedStates := do
  let o ← R.operator op
  pure {
    keyType := o.ctx.keyType
    states := registerAll o.ctx.registered
    errors := o.ctx.openErrors ++ o.ctx.streams.filterMap SubtaskStream.headerError }

section Headers

variable {R : StateReader} {o : OpenOperator} {s : SubtaskStream} {header : SubtaskHeader} {kg : Int}

/-- A block is read with the header of its stream. -/
theorem header_of_contentOf {block : GroupedBlock}
    (h : R.contentOf o s kg = .ok (some (header, block))) : s.header = .ok header := by
  unfold StateReader.contentOf StateReader.readBlock at h
  cases hrange : s.blockRange (kg - s.startKeyGroup).toNat with
  | none => simp [hrange] at h
  | some range =>
    cases hheader : s.header with
    | error e => simp [hrange, hheader] at h
    | ok header' =>
      cases hread : R.readGrouped o s header' kg range.1 range.2 with
      | error e => simp [hrange, hheader, hread] at h
      | ok b =>
        simp only [hrange, hheader, hread, Except.ok.injEq, Option.some.injEq,
          Prod.mk.injEq] at h
        rw [h.1]

/-- A key is read with the header of its stream. -/
theorem header_of_mem_eventsAt {s' : SubtaskStream} {kg' : Int} {ord : Nat} {raw : RawKey}
    {ordinal : UInt32} (h : Event.key s header kg ord raw ∈ R.eventsAt o (.block s' kg' ordinal)) :
    s'.header = .ok header := by
  unfold StateReader.eventsAt at h
  dsimp only at h
  cases hcontent : R.contentOf o s' kg' with
  | error e => simp [hcontent] at h
  | ok content =>
    cases content with
    | none => simp [hcontent] at h
    | some found =>
      obtain ⟨header', block⟩ := found
      simp only [hcontent] at h
      obtain ⟨-, rfl, -⟩ := mem_keyEvents h
      exact header_of_contentOf hcontent

end Headers

/-! ### What is listed -/

/-- What some states list: each name once, as the first of them with that name describes it. -/
structure Listed (sts : List ResolvedState) (infos : List StateInfo) : Prop where
  nodup : (infos.map (·.name)).Nodup
  first : ∀ info ∈ infos, ∃ st, sts.find? (fun st => st.name == info.name) = some st
    ∧ info = ⟨st.name, st.stateType, st.valueType, st.valueClass,
        sts.countP fun st => st.name == info.name⟩
  all : ∀ st ∈ sts, ∃ info ∈ infos, info.name = st.name

theorem map_name_registerState (st : ResolvedState) (infos : List StateInfo) :
    (registerState st infos).map (·.name)
      = if st.name ∈ infos.map (·.name) then infos.map (·.name)
        else infos.map (·.name) ++ [st.name] := by
  induction infos with
  | nil => rfl
  | cons info infos ih =>
    rw [registerState]
    by_cases hname : info.name = st.name
    · rw [if_pos hname, if_pos (by rw [List.map_cons, hname]; exact List.mem_cons_self)]
      rfl
    · rw [if_neg hname, List.map_cons, ih, List.map_cons]
      by_cases hmem : st.name ∈ infos.map (·.name)
      · rw [if_pos hmem, if_pos (List.mem_cons_of_mem _ hmem)]
      · rw [if_neg hmem, if_neg]
        · rfl
        · rw [List.mem_cons, not_or]
          exact ⟨fun h => hname h.symm, hmem⟩

theorem mem_registerState {st : ResolvedState} {infos : List StateInfo} {info : StateInfo}
    (hnodup : (infos.map (·.name)).Nodup) (h : info ∈ registerState st infos) :
    (info ∈ infos ∧ info.name ≠ st.name)
      ∨ (∃ old ∈ infos, old.name = st.name ∧ info = { old with subtasks := old.subtasks + 1 })
      ∨ (st.name ∉ infos.map (·.name)
          ∧ info = ⟨st.name, st.stateType, st.valueType, st.valueClass, 1⟩) := by
  induction infos with
  | nil => exact .inr (.inr ⟨List.not_mem_nil, List.mem_singleton.mp h⟩)
  | cons old infos ih =>
    rw [List.map_cons, List.nodup_cons] at hnodup
    rw [registerState] at h
    by_cases hname : old.name = st.name
    · rw [if_pos hname] at h
      rcases List.mem_cons.mp h with rfl | h
      · exact .inr (.inl ⟨old, List.mem_cons_self, hname, rfl⟩)
      · refine .inl ⟨List.mem_cons_of_mem _ h, fun heq => hnodup.1 ?_⟩
        rw [hname, ← heq]
        exact List.mem_map_of_mem h
    · rw [if_neg hname] at h
      rcases List.mem_cons.mp h with rfl | h
      · exact .inl ⟨List.mem_cons_self, hname⟩
      · rcases ih hnodup.2 h with ⟨hold, hne⟩ | ⟨old', hold, heq⟩ | ⟨hnew, heq⟩
        · exact .inl ⟨List.mem_cons_of_mem _ hold, hne⟩
        · exact .inr (.inl ⟨old', List.mem_cons_of_mem _ hold, heq⟩)
        · refine .inr (.inr ⟨?_, heq⟩)
          rw [List.map_cons, List.mem_cons, not_or]
          exact ⟨fun h => hname h.symm, hnew⟩

/-- One more state. -/
theorem Listed.register {sts : List ResolvedState} {infos : List StateInfo} (h : Listed sts infos)
    (st : ResolvedState) : Listed (sts ++ [st]) (registerState st infos) where
  nodup := by
    rw [map_name_registerState]
    split
    · exact h.nodup
    · rename_i hnew
      have hlast := h.nodup.concat hnew
      rwa [List.concat_eq_append] at hlast
  first := by
    intro info hinfo
    -- A state registered before under another name, under this one, or this one for the first time.
    rcases mem_registerState h.nodup hinfo with ⟨hold, hne⟩ | ⟨old, hold, hname, rfl⟩ | ⟨hnew, rfl⟩
    · -- a state of another name
      obtain ⟨st', hfind, heq⟩ := h.first info hold
      refine ⟨st', by rw [List.find?_append, hfind, Option.some_or], ?_⟩
      rw [List.countP_append, List.countP_singleton, if_neg (by simpa using hne.symm), Nat.add_zero]
      exact heq
    · obtain ⟨st', hfind, heq⟩ := h.first old hold
      refine ⟨st', by rw [List.find?_append, hfind, Option.some_or], ?_⟩
      rw [List.countP_append, List.countP_singleton, if_pos (by simpa using hname.symm)]
      obtain ⟨hn, ht, hv, hc, hs⟩ := StateInfo.mk.inj heq
      rw [← hn, ← ht, ← hv, ← hc, ← hs]
    · -- the first of its name
      have hnone : sts.find? (fun st' => st'.name == st.name) = none := by
        refine List.find?_eq_none.mpr fun st' hst' hname => hnew ?_
        obtain ⟨info, hinfo, heq⟩ := h.all st' hst'
        rw [← eq_of_beq hname, ← heq]
        exact List.mem_map_of_mem hinfo
      have hcount : sts.countP (fun st' => st'.name == st.name) = 0 :=
        List.countP_eq_zero.mpr (List.find?_eq_none.mp hnone)
      refine ⟨st, by rw [List.find?_append, hnone, Option.none_or]; simp, ?_⟩
      rw [List.countP_append, hcount, List.countP_singleton, if_pos (beq_self_eq_true _)]
  all := by
    intro st' hst'
    have hnames : st'.name ∈ (registerState st infos).map (·.name) := by
      rw [map_name_registerState]
      rcases List.mem_append.mp hst' with hold | hnew
      · obtain ⟨info, hinfo, heq⟩ := h.all st' hold
        have hmem : st'.name ∈ infos.map (·.name) := heq ▸ List.mem_map_of_mem hinfo
        split
        · exact hmem
        · exact List.mem_append_left _ hmem
      · obtain rfl := List.mem_singleton.mp hnew
        split
        · assumption
        · exact List.mem_append_right _ (List.mem_singleton_self _)
    exact List.mem_map.mp hnames

/-- **Each name is listed once**, as the first header that has it describes it. -/
theorem registerAll_spec (sts : List ResolvedState) : Listed sts (registerAll sts) := by
  unfold registerAll
  induction sts using List.reverseRecOn with
  | nil => exact ⟨List.nodup_nil, nofun, nofun⟩
  | append_singleton sts st ih =>
    rw [List.foldl_append]
    exact ih.register st

section States

variable {R : StateReader} {C : CharText} {op : Text} {o : OpenOperator}

theorem states_eq (hop : R.operator op = .ok o) :
    R.states op = .ok ⟨o.ctx.keyType, registerAll o.ctx.registered,
      o.ctx.openErrors ++ o.ctx.streams.filterMap SubtaskStream.headerError⟩ := by
  unfold StateReader.states
  rw [hop]
  rfl

theorem mem_registered {st : ResolvedState} :
    st ∈ o.ctx.registered ↔ ∃ s ∈ o.ctx.streams, ∃ header, s.header = .ok header
      ∧ st ∈ header.states := by
  unfold OpContext.registered
  rw [List.mem_flatMap]
  constructor
  · rintro ⟨header, hheader, hst⟩
    obtain ⟨s, hs, hsome⟩ := List.mem_filterMap.mp hheader
    unfold SubtaskStream.header? at hsome
    cases hok : s.header with
    | error e =>
      rw [hok] at hsome
      cases hsome
    | ok header' =>
      rw [hok] at hsome
      obtain rfl := Option.some.inj hsome
      exact ⟨s, hs, _, hok, hst⟩
  · rintro ⟨s, hs, header, hok, hst⟩
    refine ⟨header, List.mem_filterMap.mpr ⟨s, hs, ?_⟩, hst⟩
    unfold SubtaskStream.header?
    rw [hok]
    rfl

/-- No state that is listed has a name that stands for a state without one. -/
theorem not_hash_registerAll
    (hresolved : ∀ s ∈ o.ctx.streams, ∀ header, s.header = .ok header → header.Resolved C)
    {info : StateInfo} (h : info ∈ registerAll o.ctx.registered) : info.name.head? ≠ some '#' := by
  obtain ⟨st, hfind, heq⟩ := (registerAll_spec _).first info h
  obtain ⟨s, hs, header, hok, hst⟩ := mem_registered.mp (List.mem_of_find?_eq_some hfind)
  have hvalid := (hresolved s hs header hok).namesOk.valid st.name (List.mem_map_of_mem hst)
  have hname : info.name = st.name := congrArg StateInfo.name heq
  rw [hname]
  intro hhead
  cases hst' : st.name with
  | nil =>
    rw [hst'] at hhead
    cases hhead
  | cons c rest =>
    rw [hst'] at hhead hvalid
    obtain rfl := Option.some.inj hhead
    exact not_hash hvalid rest rfl

end States

end FlinkExplorer
