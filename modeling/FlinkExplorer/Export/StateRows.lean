import FlinkExplorer.Lib.Loop
import FlinkExplorer.Parser.BlockFilter
import FlinkExplorer.Reader.States

namespace FlinkExplorer

open Lib

/-!
# `export_state.rs` — one state, row by row

`exportStateRows` finds the one operator that holds a state, and hands every entry of it to a sink,
a key-group at a time, parsing each block for this state alone.

* `exportTarget_eq_ok` — an operator is found only if all that may hold the state could be read;
* `Stored`, `StateReader.storedOf` — the entries of a state, by parsing everything;
* `exportStateRows_ok` — a successful export fed its sink one row for each of them, in order.

The streams of an operator are opened before anything is read here: `operators` holds them.
-/

/-- What an export read. -/
structure ExportStats where
  rows : Nat
  subtasks : Nat
  keyGroups : Nat
  maxBlockBytes : Nat
  compressed : Bool
  malformedKeyGroups : Nat
  firstMalformed : Option Text

def ExportStats.zero : ExportStats := ⟨0, 0, 0, 0, false, 0, none⟩

/-- One exported entry. -/
structure StateRow where
  operator : Text
  subtask : Int
  state : Text
  stateType : Text
  valueType : Text
  key : Text
  keyGroup : UInt16
  mapKey : Option Text
  namespaceHex : Option Text
  value : Json

/-- Where rows go: a sink has a state of its own. -/
structure RowSink (σ : Type) where
  row : StateRow → σ → Except Text σ
  finish : σ → Except Text σ

/-- The JSON object of a row. -/
def rowJson (row : StateRow) : Json :=
  let obj := [
    ("operator".toList, .string row.operator),
    ("subtask".toList, .int row.subtask),
    ("state".toList, .string row.state),
    ("state_type".toList, .string row.stateType),
    ("key".toList, .string row.key),
    ("key_group".toList, .int row.keyGroup.toNat),
    ("value".toList, row.value)].foldl (fun obj m => objInsert m.1 m.2 obj) []
  match row.mapKey, row.namespaceHex with
  | some mk, _ => .object (objInsert "map_key".toList (.string mk) obj)
  | none, some ns => .object (objInsert "namespace_hex".toList (.string ns) obj)
  | none, none => .object obj

/-- A namespace as a row shows it: `none` for an entry of a map, whose namespace holds its key. -/
def namespaceHex (namespaceBytes : Bytes) (isMapEntry : Bool) : Option Text :=
  if !isMapEntry && namespaceBytes.length > 1 then some (namespaceBytes.flatMap hexByte) else none

/-! ### The operator -/

/-- `state_file::summarize`. -/
def summarize (errors : List Text) (max : Nat) : Text :=
  ((errors.take max).intersperse "; ".toList).flatten
    ++ if errors.length > max then
        "; … and ".toList ++ natText (errors.length - max) ++ " more".toList
      else []

/-- `export_state::unreadable`. -/
def unreadableFiles (errors : List Text) : Text :=
  natText errors.length ++ " state file(s) could not be read: ".toList ++ summarize errors 5

/-- Whether one of the headers registers a state, and the headers before it that could not be
    read. -/
def resolveState (stateName : Text) : List SubtaskStream → Bool × List Text
  | [] => (false, [])
  | s :: streams =>
    match s.header with
    | .ok header =>
      if (header.stateId stateName).isSome then (true, []) else resolveState stateName streams
    | .error e =>
      let rest := resolveState stateName streams
      (rest.1, e :: rest.2)

/-- An operator, whether it holds a state, and what could not be read of it. -/
structure Candidate where
  operator : OpenOperator
  resolved : Bool
  errors : List Text

def Candidate.of (stateName : Text) (o : OpenOperator) : Candidate :=
  let found := resolveState stateName o.ctx.streams
  ⟨o, found.1, o.ctx.openErrors ++ found.2⟩

section Export

variable (R : StateReader)

/-- The one operator, among those asked for, whose headers register a state. -/
def exportTarget (operator : Option Text) (stateName : Text) : Except Text OpenOperator :=
  let candidates := R.operators.filter fun o =>
    operator.all fun want => want.isPrefixOf (hexId o.id)
  if candidates.isEmpty then
    .error ("no operator matches ".toList ++ R.host.debugText (operator.getD []))
  else
    let found := candidates.map (Candidate.of stateName)
    let targets := found.filter (·.resolved)
    let unreadElsewhere := found.filter fun c => !c.resolved && !c.errors.isEmpty
    let state := R.host.debugText stateName
    let elsewhere := (unreadElsewhere.map (·.errors)).flatten
    match targets with
    | [] =>
      if !unreadElsewhere.isEmpty then
        .error ("state ".toList ++ state
          ++ " not found in the keyed state that could be read; ".toList
          ++ unreadableFiles elsewhere)
      else .error ("state ".toList ++ state ++ " not found in any keyed operator".toList)
    | [c] =>
      let op := hexId c.operator.id
      if !c.errors.isEmpty then
        .error ("operator ".toList ++ op ++ " holds ".toList ++ state ++ ", but ".toList
          ++ unreadableFiles c.errors
          ++ "; the export would miss those subtasks' rows".toList)
      else if !unreadElsewhere.isEmpty then
        .error ("state ".toList ++ state ++ " is in operator ".toList ++ op
          ++ ", but operator(s) ".toList
          ++ ((unreadElsewhere.map fun c => hexId c.operator.id).intersperse ", ".toList).flatten
          ++ " may hold it too: ".toList ++ unreadableFiles elsewhere
          ++ "; pass --operator ".toList ++ op ++ " to export it from ".toList ++ op
          ++ " alone".toList)
      else .ok c.operator
    | _ =>
      let ops := targets.map fun c => hexId c.operator.id
      .error ("state ".toList ++ state ++ " exists in ".toList ++ natText ops.length
        ++ " operators (".toList ++ (ops.intersperse ", ".toList).flatten
        ++ "); narrow it with --operator <hex prefix>".toList)

/-! ### Its rows -/

variable {σ : Type} (sink : RowSink σ)

/-- The row of an entry, the `n`-th of the export. -/
def rowOf (op : Text) (subtask : Int) (sub : ResolvedState) (n : Nat) (e : KeyedEntry) : StateRow :=
  let decoded := decodeEntryValue R.host.floats R.proto sub e.namespaceBytes e.value n
  { operator := op
    subtask := subtask
    state := sub.name
    stateType := sub.stateType
    valueType := sub.valueType
    key := e.key
    keyGroup := e.keyGroup
    mapKey := decoded.1
    namespaceHex := namespaceHex e.namespaceBytes decoded.1.isSome
    value := decoded.2 }

/-- One entry: its row goes to the sink. -/
def exportEntry (op : Text) (subtask : Int) (sub : ResolvedState) (st : Nat × σ) (e : KeyedEntry) :
    Except Text (Nat × σ) := do
  let t ← sink.row (rowOf R op subtask sub st.1 e) st.2
  pure (st.1 + 1, t)

/-- The `i`-th key-group of a stream, if it is not empty. -/
def exportBlock (o : OpenOperator) (s : SubtaskStream) (header : SubtaskHeader) (stateId : UInt16)
    (sub : ResolvedState) (st : ExportStats × σ) (i : Nat) : Except Text (ExportStats × σ) :=
  match s.blockRange i with
  | none => pure st
  | some (start, last) => do
    let bytes ← s.src.read R.files start last
    match R.keyGroupBlock bytes header.compressed with
    | .error e => throw ("key-group ".toList ++ natText i ++ " snappy decode: ".toList ++ e)
    | .ok block =>
      let keyGroup := UInt16.ofInt (s.startKeyGroup + i)
      let parsed := parseKeyGroupBlock
        (header.parseCtx (kgPrefixLen o.maxParallelism) (some stateId)) R.host.floats block keyGroup
      let (rows, t) ← parsed.1.foldlM (exportEntry R sink (hexId o.id) s.subtaskIndex sub)
        (st.1.rows, st.2)
      let stats := { st.1 with
        rows := rows
        keyGroups := st.1.keyGroups + 1
        maxBlockBytes := max st.1.maxBlockBytes block.length }
      match parsed.2 with
      | none => pure (stats, t)
      | some defect =>
        let note := "subtask ".toList ++ intText s.subtaskIndex ++ ", key-group ".toList
          ++ natText keyGroup.toNat ++ ": ".toList ++ defect.text
        pure ({ stats with
          malformedKeyGroups := stats.malformedKeyGroups + 1
          firstMalformed := some (stats.firstMalformed.getD note) }, t)

/-- The id of a state in a header, and what it is there. -/
def SubtaskHeader.resolved (header : SubtaskHeader) (stateName : Text) :
    Option (UInt16 × ResolvedState) :=
  (header.stateId stateName).bind fun id => (header.states[id.toNat]?).map (id, ·)

/-- One stream. -/
def exportStream (o : OpenOperator) (stateName : Text) (st : ExportStats × σ) (s : SubtaskStream) :
    Except Text (ExportStats × σ) :=
  if s.src.len = 0 then pure st
  else do
    let header ← s.header
    let stats := { st.1 with
      subtasks := st.1.subtasks + 1, compressed := st.1.compressed || header.compressed }
    match header.resolved stateName with
    | none => pure (stats, st.2)
    | some (stateId, sub) =>
      (List.range s.offsets.length).foldlM (exportBlock R sink o s header stateId sub) (stats, st.2)

/-- `export_state_rows`. -/
def exportStateRows (operator : Option Text) (stateName : Text) (t : σ) :
    Except Text (ExportStats × σ) := do
  let o ← exportTarget R operator stateName
  let st ← o.ctx.streams.foldlM (exportStream R sink o stateName) (.zero, t)
  let t ← sink.finish st.2
  pure (st.1, t)

end Export

/-! ### What an export needs -/

section Target

variable {R : StateReader} {operator : Option Text} {stateName : Text}

/-- No file of an operator is in the way, and none of its headers registers a state. -/
structure OpenOperator.Lacks (o : OpenOperator) (stateName : Text) : Prop where
  opened : o.ctx.failed = []
  headers : ∀ s ∈ o.ctx.streams, ∃ header, s.header = .ok header ∧ header.stateId stateName = none

theorem resolveState_spec (stateName : Text) (streams : List SubtaskStream) :
    ((resolveState stateName streams).1 = true →
        ∃ s ∈ streams, ∃ header, s.header = .ok header ∧ (header.stateId stateName).isSome = true)
      ∧ ((resolveState stateName streams).1 = false → (resolveState stateName streams).2 = [] →
        ∀ s ∈ streams, ∃ header, s.header = .ok header ∧ header.stateId stateName = none) := by
  induction streams with
  | nil => exact ⟨nofun, fun _ _ => nofun⟩
  | cons s streams ih =>
    unfold resolveState
    cases hheader : s.header with
    | error e =>
      refine ⟨fun h => ?_, nofun⟩
      obtain ⟨s', hs', hfound⟩ := ih.1 h
      exact ⟨s', List.mem_cons_of_mem s hs', hfound⟩
    | ok header =>
      dsimp only
      by_cases hid : (header.stateId stateName).isSome = true
      · rw [if_pos hid]
        exact ⟨fun _ => ⟨s, List.mem_cons_self, header, hheader, hid⟩, nofun⟩
      · rw [if_neg hid]
        refine ⟨fun h => ?_, fun h hnone s' hs' => ?_⟩
        · obtain ⟨s', hs', hfound⟩ := ih.1 h
          exact ⟨s', List.mem_cons_of_mem s hs', hfound⟩
        · rcases List.mem_cons.mp hs' with rfl | hs'
          · exact ⟨header, hheader, by simpa using hid⟩
          · exact ih.2 h hnone s' hs'

/-- **An operator is found** only when no file is in the way: its own were all opened, it registers
    the state, and every other operator asked for was read and does not. -/
theorem exportTarget_eq_ok {o : OpenOperator} (h : exportTarget R operator stateName = .ok o) :
    o ∈ R.operators ∧ o.ctx.failed = []
      ∧ (∃ s ∈ o.ctx.streams, ∃ header, s.header = .ok header
          ∧ (header.stateId stateName).isSome = true)
      ∧ ∀ o' ∈ R.operators, (operator.all fun want => want.isPrefixOf (hexId o'.id)) = true →
          o' = o ∨ o'.Lacks stateName := by
  unfold exportTarget at h
  dsimp only at h
  split at h
  · cases h
  · split at h
    · split at h <;> cases h
    · rename_i c htargets
      split at h
      · cases h
      · rename_i herrors
        split at h
        · cases h
        · rename_i helsewhere
          obtain rfl := Except.ok.inj h
          have hc := List.mem_filter.mp (htargets ▸ List.mem_singleton_self c)
          obtain ⟨o, ho, rfl⟩ := List.mem_map.mp hc.1
          have hnone : (Candidate.of stateName o).errors = [] := by simpa using herrors
          obtain ⟨hopened, -⟩ := List.append_eq_nil_iff.mp hnone
          refine ⟨(List.mem_filter.mp ho).1, List.map_eq_nil_iff.mp hopened,
            (resolveState_spec stateName _).1 hc.2, fun o' ho' hmatch => ?_⟩
          have hmem : Candidate.of stateName o' ∈ (R.operators.filter fun o =>
              operator.all fun want => want.isPrefixOf (hexId o.id)).map (Candidate.of stateName) :=
            List.mem_map_of_mem (List.mem_filter.mpr ⟨ho', hmatch⟩)
          cases hresolved : (Candidate.of stateName o').resolved with
          | true =>
            -- it is the only one
            have hone := List.mem_filter.mpr ⟨hmem, hresolved⟩
            rw [htargets] at hone
            exact .inl (congrArg Candidate.operator (List.mem_singleton.mp hone))
          | false =>
            have hread : (Candidate.of stateName o').errors = [] := by
              by_contra herror
              have hunread := helsewhere
              rw [Bool.not_eq_true', Bool.not_eq_false, List.isEmpty_iff,
                List.filter_eq_nil_iff] at hunread
              exact hunread _ hmem (by simp [hresolved, herror])
            obtain ⟨hopened', hheaders⟩ := List.append_eq_nil_iff.mp hread
            exact .inr ⟨List.map_eq_nil_iff.mp hopened',
              (resolveState_spec stateName _).2 hresolved hheaders⟩
    · cases h

end Target

/-! ### The entries of a state -/

/-- An entry of a state, with the subtask it is in and what the state is there. -/
structure Stored where
  subtask : Int
  sub : ResolvedState
  entry : KeyedEntry

section Stored

variable (R : StateReader) (o : OpenOperator)

/-- The block of a key-group of a stream, as far as it can be read. -/
def StateReader.blockAt (s : SubtaskStream) (header : SubtaskHeader) (i : Nat) : Option Bytes := do
  let (start, last) ← s.blockRange i
  let bytes ← (s.src.read R.files start last).toOption
  (R.keyGroupBlock bytes header.compressed).toOption

/-- The `i`-th key-group of a stream, parsed whole. -/
def StateReader.parsedAt (s : SubtaskStream) (header : SubtaskHeader) (i : Nat) :
    List KeyedEntry × Option BlockDefect :=
  (R.blockAt s header i).elim ([], none) fun block =>
    parseKeyGroupBlock (header.parseCtx (kgPrefixLen o.maxParallelism) none) R.host.floats block
      (UInt16.ofInt (s.startKeyGroup + i))

/-- The entries of a state in a stream, by ascending key-group. -/
def StateReader.storedIn (stateName : Text) (s : SubtaskStream) : List Stored :=
  match s.header with
  | .error _ => []
  | .ok header =>
    match header.resolved stateName with
    | none => []
    | some (stateId, sub) =>
      (List.range s.offsets.length).flatMap fun i =>
        ((R.parsedAt o s header i).1.filter (·.stateId == stateId)).map (⟨s.subtaskIndex, sub, ·⟩)

/-- The entries of a state of an operator. -/
def StateReader.storedOf (stateName : Text) : List Stored :=
  o.ctx.streams.flatMap (R.storedIn o stateName)

/-- The key-groups of a stream that end in a defect, if it registers a state. -/
def StateReader.defectsIn (stateName : Text) (s : SubtaskStream) : Nat :=
  match s.header with
  | .error _ => 0
  | .ok header =>
    if (header.resolved stateName).isSome then
      ((List.range s.offsets.length).map fun i =>
        if (R.parsedAt o s header i).2.isSome then 1 else 0).sum
    else 0

/-- The row of an entry, the `n`-th of the export. -/
def StateReader.storedRow (n : Nat) (x : Stored) : StateRow :=
  rowOf R (hexId o.id) x.subtask x.sub n x.entry

/-- The rows of a state. -/
def StateReader.rowsOf (stateName : Text) : List StateRow :=
  (R.storedOf o stateName).mapIdx (R.storedRow o)

variable {σ : Type} (sink : RowSink σ)

/-- An entry goes to the sink. -/
def exportStored (st : Nat × σ) (x : Stored) : Except Text (Nat × σ) :=
  exportEntry R sink (hexId o.id) x.subtask x.sub st x.entry

/-- Rows go to the sink, one after the other. -/
def RowSink.feed (rows : List StateRow) (t : σ) : Except Text σ :=
  rows.foldlM (fun t row => sink.row row t) t

end Stored

/-- Parsing a block for one state gives its entries of the full parse, and the same defect. -/
theorem parse_onlyState (F : FloatText) (ctx : KeyGroupParse) (kgIndex : UInt16) (data : Bytes)
    (stateId : UInt16) :
    parseKeyGroupBlock { ctx with onlyState := some stateId } F data kgIndex
      = ((parseKeyGroupBlock { ctx with onlyState := none } F data kgIndex).1.filter
          (·.stateId == stateId),
        (parseKeyGroupBlock { ctx with onlyState := none } F data kgIndex).2) := by
  have hentry (f : UInt16 × Frame) :
      frameEntry { ctx with onlyState := some stateId } F kgIndex f.1 f.2
        = frameEntry { ctx with onlyState := none } F kgIndex f.1 f.2 := rfl
  unfold parseKeyGroupBlock
  simp only [blockFrames_onlyState, hentry, List.filter_map, List.filter_filter, isWanted_only,
    Function.comp_def, stateId_frameEntry, Bool.and_comm]

section Rows

variable {R : StateReader} {o : OpenOperator} {σ : Type} {sink : RowSink σ} {stateName : Text}

/-- Entries go to the sink as rows, numbered from where the export is. -/
theorem foldlM_exportStored (xs : List Stored) (n m : Nat) (t t' : σ)
    (h : xs.foldlM (exportStored R o sink) (n, t) = .ok (m, t')) :
    m = n + xs.length
      ∧ sink.feed (xs.mapIdx fun i x => R.storedRow o (n + i) x) t = .ok t' := by
  induction xs generalizing n t with
  | nil =>
    obtain ⟨rfl, rfl⟩ := Prod.mk.inj (Except.ok.inj h)
    exact ⟨rfl, rfl⟩
  | cons x xs ih =>
    rw [List.foldlM_cons] at h
    unfold exportStored exportEntry at h
    cases hrow : sink.row (rowOf R (hexId o.id) x.subtask x.sub n x.entry) t with
    | error e =>
      simp only [hrow] at h
      cases h
    | ok mid =>
      simp only [hrow] at h
      obtain ⟨hlen, hfeed⟩ := ih (n + 1) mid h
      refine ⟨by rw [hlen, List.length_cons]; omega, ?_⟩
      rw [List.mapIdx_cons]
      unfold RowSink.feed
      rw [List.foldlM_cons]
      show (sink.row (rowOf R (hexId o.id) x.subtask x.sub n x.entry) t >>= _) = _
      rw [hrow]
      refine Eq.trans ?_ hfeed
      unfold RowSink.feed
      refine congrArg (List.foldlM _ mid) ?_
      refine List.mapIdx_eq_mapIdx_iff.mpr fun i hi => ?_
      have hnumber : n + (i + 1) = n + 1 + i := by omega
      rw [hnumber]

/-- What a key-group does to an export: its entries of the state go to the sink. -/
structure BlockDone (R : StateReader) (o : OpenOperator) (sink : RowSink σ) (s : SubtaskStream)
    (header : SubtaskHeader) (stateId : UInt16) (sub : ResolvedState) (i : Nat)
    (st st' : ExportStats × σ) : Prop where
  fed : (((R.parsedAt o s header i).1.filter (·.stateId == stateId)).map
      (⟨s.subtaskIndex, sub, ·⟩ : KeyedEntry → Stored)).foldlM (exportStored R o sink)
        (st.1.rows, st.2) = .ok (st'.1.rows, st'.2)
  read : (s.blockRange i).isSome = true → (R.blockAt s header i).isSome = true
  malformed : st'.1.malformedKeyGroups
    = st.1.malformedKeyGroups + if (R.parsedAt o s header i).2.isSome then 1 else 0

theorem exportBlock_ok {s : SubtaskStream} {header : SubtaskHeader} {stateId : UInt16}
    {sub : ResolvedState} {st st' : ExportStats × σ} {i : Nat}
    (h : exportBlock R sink o s header stateId sub st i = .ok st') :
    BlockDone R o sink s header stateId sub i st st' := by
  unfold exportBlock at h
  cases hrange : s.blockRange i with
  | none =>
    have hnone : R.blockAt s header i = none := by
      unfold StateReader.blockAt
      rw [hrange]
      rfl
    have hparsed : R.parsedAt o s header i = ([], none) := by
      unfold StateReader.parsedAt
      rw [hnone]
      rfl
    rw [hrange] at h
    obtain rfl := Except.ok.inj h
    refine ⟨?_, fun hsome => by simp [hrange] at hsome, ?_⟩
    · rw [hparsed]
      rfl
    · rw [hparsed]
      rfl
  | some range =>
    obtain ⟨start, last⟩ := range
    simp only [hrange] at h
    cases hread : s.src.read R.files start last with
    | error e =>
      rw [hread] at h
      cases h
    | ok bytes =>
      rw [hread] at h
      dsimp only [bind, Except.bind] at h
      cases hinflate : R.keyGroupBlock bytes header.compressed with
      | error e =>
        rw [hinflate] at h
        cases h
      | ok block =>
        have hblock : R.blockAt s header i = some block := by
          unfold StateReader.blockAt
          rw [hrange]
          show ((s.src.read R.files start last).toOption.bind fun bytes =>
            (R.keyGroupBlock bytes header.compressed).toOption) = some block
          rw [hread]
          show (R.keyGroupBlock bytes header.compressed).toOption = some block
          rw [hinflate]
          rfl
        -- the block is parsed for this state, and would be parsed whole
        have hparsed : parseKeyGroupBlock
            (header.parseCtx (kgPrefixLen o.maxParallelism) (some stateId)) R.host.floats block
              (UInt16.ofInt (s.startKeyGroup + i))
            = ((R.parsedAt o s header i).1.filter (·.stateId == stateId),
              (R.parsedAt o s header i).2) := by
          unfold StateReader.parsedAt
          rw [hblock]
          exact parse_onlyState R.host.floats
            (header.parseCtx (kgPrefixLen o.maxParallelism) none) _ block stateId
        rw [hinflate] at h
        simp only [hparsed] at h
        split at h
        · cases h
        · rename_i fed hfed
          refine ⟨?_, fun _ => by rw [hblock]; rfl, ?_⟩
          · rw [List.foldlM_map]
            cases hdefect : (R.parsedAt o s header i).2 with
            | none =>
              rw [hdefect] at h
              obtain rfl := Except.ok.inj h
              exact hfed
            | some defect =>
              rw [hdefect] at h
              obtain rfl := Except.ok.inj h
              exact hfed
          · cases hdefect : (R.parsedAt o s header i).2 with
            | none =>
              rw [hdefect] at h
              obtain rfl := Except.ok.inj h
              rfl
            | some defect =>
              rw [hdefect] at h
              obtain rfl := Except.ok.inj h
              rfl

/-- What a stream does to an export. -/
structure StreamDone (R : StateReader) (o : OpenOperator) (sink : RowSink σ) (stateName : Text)
    (s : SubtaskStream) (st st' : ExportStats × σ) : Prop where
  fed : (R.storedIn o stateName s).foldlM (exportStored R o sink) (st.1.rows, st.2)
    = .ok (st'.1.rows, st'.2)
  read : s.src.len ≠ 0 → ∃ header, s.header = .ok header ∧
    ((header.resolved stateName).isSome = true → ∀ i < s.offsets.length,
      (s.blockRange i).isSome = true → (R.blockAt s header i).isSome = true)
  malformed : st'.1.malformedKeyGroups = st.1.malformedKeyGroups + R.defectsIn o stateName s

theorem storedIn_eq {s : SubtaskStream} {header : SubtaskHeader} (h : s.header = .ok header) :
    R.storedIn o stateName s
      = (header.resolved stateName).elim [] fun found =>
        (List.range s.offsets.length).flatMap fun i =>
          ((R.parsedAt o s header i).1.filter (·.stateId == found.1)).map
            (⟨s.subtaskIndex, found.2, ·⟩) := by
  unfold StateReader.storedIn
  rw [h]
  dsimp only
  cases header.resolved stateName <;> rfl

theorem defectsIn_eq {s : SubtaskStream} {header : SubtaskHeader} (h : s.header = .ok header) :
    R.defectsIn o stateName s
      = if (header.resolved stateName).isSome then
          ((List.range s.offsets.length).map fun i =>
            if (R.parsedAt o s header i).2.isSome then 1 else 0).sum
        else 0 := by
  unfold StateReader.defectsIn
  rw [h]

/-- A stream without bytes has no block. -/
theorem blockRange_of_empty {s : SubtaskStream} (hempty : s.src.len = 0) (i : Nat) :
    s.blockRange i = none := by
  unfold SubtaskStream.blockRange
  cases s.offsets[i]? with
  | none => rfl
  | some start =>
    show (if _ then none else _) = none
    rw [if_pos (.inr (.inr (by omega)))]

theorem parsedAt_of_empty {s : SubtaskStream} (hempty : s.src.len = 0) (header : SubtaskHeader)
    (i : Nat) : R.parsedAt o s header i = ([], none) := by
  unfold StateReader.parsedAt StateReader.blockAt
  rw [blockRange_of_empty hempty]
  rfl

theorem exportStream_ok {s : SubtaskStream} {st st' : ExportStats × σ}
    (h : exportStream R sink o stateName st s = .ok st') :
    StreamDone R o sink stateName s st st' := by
  unfold exportStream at h
  split at h
  · rename_i hempty
    obtain rfl := Except.ok.inj h
    have hstored : R.storedIn o stateName s = [] := by
      unfold StateReader.storedIn
      cases s.header with
      | error e => rfl
      | ok header =>
        dsimp only
        cases header.resolved stateName with
        | none => rfl
        | some found => simp [parsedAt_of_empty hempty]
    refine ⟨by rw [hstored]; rfl, fun hne => absurd hempty hne, ?_⟩
    have hdefects : R.defectsIn o stateName s = 0 := by
      unfold StateReader.defectsIn
      cases s.header with
      | error e => rfl
      | ok header => simp [parsedAt_of_empty hempty]
    rw [hdefects]
    rfl
  · cases hheader : s.header with
    | error e =>
      rw [hheader] at h
      cases h
    | ok header =>
      rw [hheader] at h
      dsimp only [bind, Except.bind] at h
      cases hresolved : header.resolved stateName with
      | none =>
        rw [hresolved] at h
        obtain rfl := Except.ok.inj h
        refine ⟨?_, fun _ => ⟨header, hheader, fun hsome => ?_⟩, ?_⟩
        · rw [storedIn_eq hheader, hresolved]
          rfl
        · rw [hresolved] at hsome
          cases hsome
        · rw [defectsIn_eq hheader, hresolved]
          rfl
      | some found =>
        obtain ⟨stateId, sub⟩ := found
        rw [hresolved] at h
        dsimp only at h
        have hdone (st : ExportStats × σ) (i : Nat) (st' : ExportStats × σ)
            (hturn : exportBlock R sink o s header stateId sub st i = .ok st') :
            BlockDone R o sink s header stateId sub i st st' := exportBlock_ok hturn
        refine ⟨?_, fun _ => ⟨header, hheader, fun _ i hi => ?_⟩, ?_⟩
        · rw [storedIn_eq hheader, hresolved]
          have hfed := foldlM_flatMap (v := fun st => (st.1.rows, st.2))
            (fun st i st' hturn => (hdone st i st' hturn).fed) h
          exact hfed
        · exact foldlM_forall (fun st i st' hturn => (hdone st i st' hturn).read) h i
            (List.mem_range.mpr hi)
        · rw [defectsIn_eq hheader, hresolved]
          have hsum := foldlM_sum (m := fun st => st.1.malformedKeyGroups)
            (fun st i st' hturn => (hdone st i st' hturn).malformed) h
          exact hsum

/-- **What a successful export fed its sink**: one row for each entry of the state, in order; every
    block of it could be read. -/
theorem exportStateRows_ok {operator : Option Text} {t t' : σ} {stats : ExportStats}
    (h : exportStateRows R sink operator stateName t = .ok (stats, t')) :
    ∃ o, exportTarget R operator stateName = .ok o
      ∧ (∃ fed, sink.feed (R.rowsOf o stateName) t = .ok fed ∧ sink.finish fed = .ok t')
      ∧ stats.rows = (R.storedOf o stateName).length
      ∧ stats.malformedKeyGroups = (o.ctx.streams.map (R.defectsIn o stateName)).sum
      ∧ ∀ s ∈ o.ctx.streams, s.src.len ≠ 0 → ∃ header, s.header = .ok header ∧
          ((header.resolved stateName).isSome = true → ∀ i < s.offsets.length,
            (s.blockRange i).isSome = true → (R.blockAt s header i).isSome = true) := by
  unfold exportStateRows at h
  cases htarget : exportTarget R operator stateName with
  | error e =>
    rw [htarget] at h
    cases h
  | ok o =>
    rw [htarget] at h
    dsimp only [bind, Except.bind] at h
    split at h
    · cases h
    · rename_i st hloop
      split at h
      · cases h
      · rename_i last hfinish
        obtain ⟨rfl, rfl⟩ := Prod.mk.inj (Except.ok.inj h)
        have hturn (st : ExportStats × σ) (s : SubtaskStream) (st' : ExportStats × σ)
            (hs : exportStream R sink o stateName st s = .ok st') :
            StreamDone R o sink stateName s st st' := exportStream_ok hs
        -- what each stream feeds is fed in turn, and the rows are numbered across them
        have hfed := foldlM_flatMap (v := fun st => (st.1.rows, st.2))
          (fun st s st' hs => (hturn st s st' hs).fed) hloop
        have hsum := foldlM_sum (m := fun st => st.1.malformedKeyGroups)
          (fun st s st' hs => (hturn st s st' hs).malformed) hloop
        obtain ⟨hrows, hfeed⟩ := foldlM_exportStored _ _ _ _ _ hfed
        refine ⟨o, rfl, ⟨st.2, ?_, hfinish⟩, ?_, ?_, ?_⟩
        · have hnumber : (fun i x => R.storedRow o (ExportStats.zero.rows + i) x)
              = R.storedRow o := by
            funext i x
            rw [show ExportStats.zero.rows + i = i from Nat.zero_add i]
          rw [hnumber] at hfeed
          exact hfeed
        · exact hrows.trans (Nat.zero_add _)
        · exact hsum.trans (Nat.zero_add _)
        · exact foldlM_forall (fun st s st' hs => (hturn st s st' hs).read) hloop

end Rows

end FlinkExplorer
