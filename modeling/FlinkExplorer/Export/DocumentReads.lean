import FlinkExplorer.Export.Document

namespace FlinkExplorer

open Lib

/-!
# The document is read back

* `keyJson`, `operatorJson` — what the document says of a key and of an operator;
* `readsAs_keyText`, `readsAs_operatorText` — what is written of them is read so;
* `writeJson_reads` — the document is read as what the savepoint holds.
-/

/-! ### What the document says -/

/-- A key, as the document shows it: the value of each state. -/
def StateReader.keyJson (R : StateReader) (ds : List StateInfo) (header : SubtaskHeader) (kg : Int)
    (raw : RawKey) : Json :=
  jsonObject [("key".toList, .string raw.key),
    ("key_group".toList, .int (UInt16.ofInt kg).toNat),
    ("states".toList, jsonObject (ds.map fun d =>
      (d.name, (stateValue d.stateType (R.entriesNamed header raw d.name)).getD .null)))]

/-- The key of an event, as the document shows it. -/
def StateReader.jsonOf (R : StateReader) (ds : List StateInfo) : Event → Option Json
  | .key _ header kg _ raw => some (R.keyJson ds header kg raw)
  | .report _ => none

/-- An operator, as the document shows it. -/
def StateReader.operatorJson (R : StateReader) (o : OpenOperator) (op : OperatorSummary)
    (keyed : KeyedStates) (malformed : List Text) : Json :=
  let keys := (R.exported o keyed).filterMap (R.jsonOf (byName keyed.states))
  let errors := R.loadErrors o keyed
  jsonObject [("name".toList, .string op.displayName), ("parallelism".toList, .int op.parallelism),
    ("truncated".toList, .bool false),
    ("operator_states".toList, .array (op.states.map operatorStateJson)),
    ("state_descriptors".toList, .array (keyed.states.map descriptorJson)),
    ("keys".toList, .array keys), ("total_keys".toList, .int keys.length),
    ("load_errors".toList, jsonTexts errors), ("malformed_key_groups".toList, jsonTexts malformed),
    ("info".toList, infoJson op keyed keys.length errors malformed)]

theorem canonical_jsonObject {members : List (Text × Json)} (h : ∀ m ∈ members, m.2.Canonical) :
    (jsonObject members).Canonical :=
  (GoodMembers.nil.membersInto h).canonical

theorem canonical_jsonTexts (texts : List Text) : (jsonTexts texts).Canonical := by
  refine canonical_array fun v hv => ?_
  obtain ⟨t, -, rfl⟩ := List.mem_map.mp hv
  exact canonical_string t

theorem canonical_operatorStates (states : List OperatorState) :
    (Json.array (states.map operatorStateJson)).Canonical := by
  refine canonical_array fun v hv => ?_
  obtain ⟨s, -, rfl⟩ := List.mem_map.mp hv
  refine canonical_jsonObject ?_
  simp [canonical_string, canonical_jsonTexts]

theorem canonical_descriptors (states : List StateInfo) :
    (Json.array (states.map descriptorJson)).Canonical := by
  refine canonical_array fun v hv => ?_
  obtain ⟨d, -, rfl⟩ := List.mem_map.mp hv
  refine canonical_jsonObject ?_
  simp [canonical_string, canonical_textOrNull]

theorem canonical_infoJson (op : OperatorSummary) (keyed : KeyedStates) (total : Nat)
    (errors malformed : List Text) : (infoJson op keyed total errors malformed).Canonical := by
  refine canonical_jsonObject fun m hm => ?_
  obtain ⟨line, -, rfl⟩ := List.mem_map.mp hm
  exact canonical_string line.2

theorem readsAs_int (v : Int) : ReadsAs (intText v) (.int v) := .of_canonical (canonical_int v)

theorem readsAs_nat (n : Nat) : ReadsAs (natText n) (.int n) := by
  have hread := readsAs_int n
  unfold intText at hread
  rw [if_neg (by omega), Int.natAbs_natCast] at hread
  exact hread

/-- What each member of an operator starts with. -/
def memberLine : Text := "\n      ".toList

/-- The keys of an operator, as they are laid out. -/
def laidKeys (items : List Text) : Text :=
  '[' :: (commaSeparated items ++ ((if items.length > 0 then memberLine else []) ++ [']']))

/-- The members of an operator, as they are laid out. -/
def operatorMembers (op : OperatorSummary) (keyed : KeyedStates) (items : List (Text × Json))
    (errors malformed : List Text) : List LaidMember :=
  [⟨memberLine, "name".toList, [' '] ++ jsonText (.string op.displayName), .string op.displayName⟩,
    ⟨memberLine, "parallelism".toList, [' '] ++ intText op.parallelism, .int op.parallelism⟩,
    ⟨memberLine, "truncated".toList, [' '] ++ jsonText (.bool false), .bool false⟩,
    ⟨memberLine, "operator_states".toList,
      [' '] ++ jsonText (.array (op.states.map operatorStateJson)),
      .array (op.states.map operatorStateJson)⟩,
    ⟨memberLine, "state_descriptors".toList,
      [' '] ++ jsonText (.array (keyed.states.map descriptorJson)),
      .array (keyed.states.map descriptorJson)⟩,
    ⟨memberLine, "keys".toList, [' '] ++ laidKeys (items.map Prod.fst),
      .array (items.map Prod.snd)⟩,
    ⟨memberLine, "total_keys".toList, [' '] ++ natText items.length, .int items.length⟩,
    ⟨memberLine, "load_errors".toList, [' '] ++ jsonText (jsonTexts errors), jsonTexts errors⟩,
    ⟨memberLine, "malformed_key_groups".toList, [' '] ++ jsonText (jsonTexts malformed),
      jsonTexts malformed⟩,
    ⟨memberLine, "info".toList, [' '] ++ jsonText (infoJson op keyed items.length errors malformed),
      infoJson op keyed items.length errors malformed⟩]

/-- What is written of an operator is an object of its members. -/
theorem operatorText_members (op : OperatorSummary) (keyed : KeyedStates)
    (items : List (Text × Json)) (errors malformed : List Text) :
    operatorHead op keyed ++ commaSeparated (items.map Prod.fst)
        ++ operatorTail op keyed items.length errors malformed
      = "\n    ".toList ++ '{' :: (commaSeparated
          ((operatorMembers op keyed items errors malformed).map LaidMember.written)
          ++ ("\n    ".toList ++ ['}'])) := by
  have hname : "\n    \x7b\n      \"name\": ".toList
      = "\n    ".toList ++ '{' :: (memberLine ++ (quoted "name".toList ++ [':', ' '])) := rfl
  have hparallelism : ",\n      \"parallelism\": ".toList
      = ',' :: (memberLine ++ (quoted "parallelism".toList ++ [':', ' '])) := rfl
  have hstates : ",\n      \"truncated\": false,\n      \"operator_states\": ".toList
      = ',' :: (memberLine ++ (quoted "truncated".toList ++ ':' :: ' '
          :: (jsonText (.bool false) ++ ',' :: (memberLine
            ++ (quoted "operator_states".toList ++ [':', ' ']))))) := rfl
  have hdescriptors : ",\n      \"state_descriptors\": ".toList
      = ',' :: (memberLine ++ (quoted "state_descriptors".toList ++ [':', ' '])) := rfl
  have hopens : ",\n      \"keys\": [".toList
      = ',' :: (memberLine ++ (quoted "keys".toList ++ [':', ' ', '['])) := rfl
  have htotal : "],\n      \"total_keys\": ".toList
      = ']' :: ',' :: (memberLine ++ (quoted "total_keys".toList ++ [':', ' '])) := rfl
  have herrors : ",\n      \"load_errors\": ".toList
      = ',' :: (memberLine ++ (quoted "load_errors".toList ++ [':', ' '])) := rfl
  have hmalformed : ",\n      \"malformed_key_groups\": ".toList
      = ',' :: (memberLine ++ (quoted "malformed_key_groups".toList ++ [':', ' '])) := rfl
  have hinfo : ",\n      \"info\": ".toList
      = ',' :: (memberLine ++ (quoted "info".toList ++ [':', ' '])) := rfl
  have hclose : "\n    \x7d".toList = "\n    ".toList ++ ['}'] := rfl
  have hline : "\n      ".toList = memberLine := rfl
  unfold operatorHead operatorTail
  rw [hname, hparallelism, hstates, hdescriptors, hopens, htotal, herrors, hmalformed, hinfo, hclose,
    hline]
  simp only [operatorMembers, laidKeys, List.map_cons, List.map_nil, List.length_map,
    commaSeparated, LaidMember.written, List.append_assoc, List.cons_append, List.nil_append]

section Reads

variable {R : StateReader} {C : CharText} (hF : R.host.floats.Readable)

include hF

/-- The states of a key are an object. -/
theorem readsAs_states (ds : List StateInfo) (header : SubtaskHeader) (raw : RawKey) :
    ReadsAs ('{' :: (joinFrom 0 (R.statesTexts header raw ds) ++ ['}']))
      (jsonObject (ds.map fun d =>
        (d.name, (stateValue d.stateType (R.entriesNamed header raw d.name)).getD .null))) := by
  let member (d : StateInfo) : LaidMember :=
    ⟨[], d.name, stateText d.stateType (R.entriesNamed header raw d.name),
      (stateValue d.stateType (R.entriesNamed header raw d.name)).getD .null⟩
  have hmembers : ∀ m ∈ ds.map member, m.Reads := by
    intro m hm
    obtain ⟨d, -, rfl⟩ := List.mem_map.mp hm
    exact ⟨nofun, readsAs_stateText d.stateType fun e he => canonical_entriesNamed hF he⟩
  have hread := readsAs_object hmembers (nofun : Blank [])
  rw [List.map_map, List.map_map, List.nil_append] at hread
  rw [joinFrom_zero]
  exact hread

/-- **A key** is read as it was laid out. -/
theorem readsAs_keyText (ds : List StateInfo) (header : SubtaskHeader) (kg : Int) (raw : RawKey) :
    ReadsAs (R.keyText ds header kg raw) (R.keyJson ds header kg raw) := by
  obtain ⟨states, hstates⟩ : ∃ states,
      states = '{' :: (joinFrom 0 (R.statesTexts header raw ds) ++ ['}']) := ⟨_, rfl⟩
  have hread := readsAs_states hF ds header raw
  rw [← hstates] at hread
  let members : List LaidMember :=
    [⟨[], "key".toList, jsonText (.string raw.key), .string raw.key⟩,
      ⟨[], "key_group".toList, natText (UInt16.ofInt kg).toNat, .int (UInt16.ofInt kg).toNat⟩,
      ⟨[], "states".toList, states, jsonObject (ds.map fun d =>
        (d.name, (stateValue d.stateType (R.entriesNamed header raw d.name)).getD .null))⟩]
  have hmembers : ∀ m ∈ members, m.Reads :=
    List.forall_mem_cons.mpr ⟨⟨nofun, .of_canonical (canonical_string raw.key)⟩,
      List.forall_mem_cons.mpr ⟨⟨nofun, readsAs_nat _⟩,
        List.forall_mem_cons.mpr ⟨⟨nofun, hread⟩, nofun⟩⟩⟩
  have hkey := (readsAs_object hmembers (nofun : Blank [])).blanks
    (by decide : Blank "\n        ".toList)
  have hopen : "\n        \x7b\"key\":".toList
      = "\n        ".toList ++ '{' :: (quoted "key".toList ++ [':']) := rfl
  have hgroup : ",\"key_group\":".toList = ',' :: (quoted "key_group".toList ++ [':']) := rfl
  have hopens : ",\"states\":\x7b".toList = ',' :: (quoted "states".toList ++ [':', '{']) := rfl
  have hclose : "\x7d\x7d".toList = ['}', '}'] := rfl
  have htext : R.keyText ds header kg raw
      = "\n        ".toList ++ '{' :: (commaSeparated (members.map LaidMember.written)
          ++ ([] ++ ['}'])) := by
    unfold StateReader.keyText
    rw [hopen, hgroup, hopens, hclose]
    simp only [members, List.map_cons, List.map_nil, commaSeparated, LaidMember.written, hstates,
      List.append_assoc, List.cons_append, List.nil_append]
  rw [htext]
  exact hkey

/-- The keys of an operator, as they were written and as they are read. -/
theorem exported_items (o : OpenOperator) (keyed : KeyedStates) :
    ∃ items : List (Text × Json),
      (R.exported o keyed).filterMap (R.textOf (byName keyed.states)) = items.map Prod.fst
        ∧ (R.exported o keyed).filterMap (R.jsonOf (byName keyed.states)) = items.map Prod.snd
        ∧ ∀ item ∈ items, ReadsAs item.1 item.2 := by
  let both (e : Event) : Option (Text × Json) :=
    match e with
    | .key _ header kg _ raw => some (R.keyText (byName keyed.states) header kg raw,
        R.keyJson (byName keyed.states) header kg raw)
    | .report _ => none
  refine ⟨(R.exported o keyed).filterMap both, ?_, ?_, fun item hitem => ?_⟩
  · rw [List.map_filterMap]
    refine List.filterMap_congr fun e _ => ?_
    cases e <;> rfl
  · rw [List.map_filterMap]
    refine List.filterMap_congr fun e _ => ?_
    cases e <;> rfl
  · obtain ⟨e, -, he⟩ := List.mem_filterMap.mp hitem
    cases e with
    | report why => cases he
    | key s header kg ord raw =>
      obtain rfl := Option.some.inj he
      exact readsAs_keyText hF (byName keyed.states) header kg raw

omit hF in
/-- Every member of an operator is read. -/
theorem reads_operatorMembers {items : List (Text × Json)}
    (hitems : ∀ item ∈ items, ReadsAs item.1 item.2) (op : OperatorSummary) (keyed : KeyedStates)
    (errors malformed : List Text) :
    ∀ m ∈ operatorMembers op keyed items errors malformed, m.Reads := by
  have hindent : Blank memberLine := by decide
  have hspace : Blank [' '] := by decide
  have hof {v : Json} (key : Text) (hv : v.Canonical) :
      (⟨memberLine, key, [' '] ++ jsonText v, v⟩ : LaidMember).Reads :=
    ⟨hindent, (ReadsAs.of_canonical hv).blanks hspace⟩
  have hblank : Blank (if items.length > 0 then memberLine else []) := by
    split
    · exact hindent
    · exact nofun
  have hkeys : ReadsAs (laidKeys (items.map Prod.fst)) (.array (items.map Prod.snd)) := by
    unfold laidKeys
    rw [List.length_map]
    exact readsAs_array hitems hblank
  simp only [operatorMembers, List.forall_mem_cons]
  exact ⟨hof _ (canonical_string _), ⟨hindent, (readsAs_int _).blanks hspace⟩,
    hof _ (canonical_bool _), hof _ (canonical_operatorStates _), hof _ (canonical_descriptors _),
    ⟨hindent, hkeys.blanks hspace⟩, ⟨hindent, (readsAs_nat _).blanks hspace⟩,
    hof _ (canonical_jsonTexts _), hof _ (canonical_jsonTexts _), hof _ (canonical_infoJson ..),
    nofun⟩

/-- **An operator** is read as it was laid out. -/
theorem readsAs_operatorText (o : OpenOperator) (op : OperatorSummary) (keyed : KeyedStates)
    (malformed : List Text) :
    ReadsAs (R.operatorText o op keyed malformed) (R.operatorJson o op keyed malformed) := by
  obtain ⟨items, htexts, hjsons, hitems⟩ := exported_items hF o keyed
  have hmembers := reads_operatorMembers hitems op keyed (R.loadErrors o keyed) malformed
  unfold StateReader.operatorText StateReader.operatorJson
  rw [htexts, hjsons]
  dsimp only
  rw [List.length_map, List.length_map, joinFrom_zero, operatorText_members]
  exact (readsAs_object hmembers (by decide : Blank "\n    ".toList)).blanks
    (by decide : Blank "\n    ".toList)

end Reads

/-! ### The document -/

/-- What the document shows of an operator: what its headers say, every key that could be read with
    the values of its states, what could not be read, and every defect. -/
def StateReader.Exports (R : StateReader) (op : OperatorSummary) (doc : Json) : Prop :=
  ∃ o keyed malformed, R.operator op.operatorIdHex = .ok o
    ∧ R.states op.operatorIdHex = .ok keyed ∧ R.Notes o keyed malformed
    ∧ doc = R.operatorJson o op keyed malformed

section Document

variable {R : StateReader} {C : CharText} {caches : Nat → BlockCache} {cancelled : Nat → Bool}

theorem exportOperators_eq (hF : R.host.floats.Readable) {ops : List OperatorSummary}
    (hops : ∀ op ∈ ops, ∃ o, R.Opens C op.operatorIdHex o) (hcaches : ∀ n, R.Reached (caches n))
    (hgo : ∀ n, cancelled n = false) (operators n : Nat) (w : ExportRun) :
    ∃ turns₀ w', ∃ items : List (Text × Json), (∀ turns, turns₀ ≤ turns →
        exportOperators R caches cancelled turns operators n ops w = some (.ok w'))
      ∧ w'.out.text = w.out.text ++ joinFrom n (items.map Prod.fst)
      ∧ (∀ item ∈ items, ReadsAs item.1 item.2)
      ∧ List.Forall₂ R.Exports ops (items.map Prod.snd)
      ∧ w'.summary.maxEntriesHeld
        ≤ max w.summary.maxEntriesHeld (max R.entryLimit exportEntryPage) := by
  induction ops generalizing n w with
  | nil =>
    exact ⟨0, w, [], fun _ _ => rfl, (List.append_nil _).symm, nofun, .nil, le_max_left _ _⟩
  | cons op ops ih =>
    obtain ⟨o, ho⟩ := hops op List.mem_cons_self
    obtain ⟨keyed, turns₁, w₁, malformed, hkeyed, hrun, htext, hnotes, hheld⟩ :=
      exportOperator_eq ho hcaches hgo operators n w
    obtain ⟨turns₂, w₂, items, hrest, htexts, hitems, hdocs, hheld'⟩ :=
      ih (fun op' hop' => hops op' (List.mem_cons_of_mem _ hop')) (n + 1) w₁
    refine ⟨max turns₁ turns₂, w₂,
      (R.operatorText o op keyed malformed, R.operatorJson o op keyed malformed) :: items,
      fun turns hturns => ?_, ?_, ?_, ?_, ?_⟩
    · rw [exportOperators, hrun turns (le_of_max_le_left hturns)]
      exact hrest turns (le_of_max_le_right hturns)
    · rw [htexts, htext, List.map_cons, joinFrom]
      simp only [List.append_assoc]
    · exact List.forall_mem_cons.mpr ⟨readsAs_operatorText hF o op keyed malformed, hitems⟩
    · exact .cons ⟨o, keyed, malformed, ho.operator_eq, hkeyed, hnotes, rfl⟩ hdocs
    · exact hheld'.trans (max_le hheld (le_max_right _ _))

/-- **The document is read as what the savepoint holds**: an export that is not cancelled ends, and
    a reader of JSON gets every operator back, each with all its keys and the values of their
    states, though no more entries of a state are held at once than a record or a page carries. -/
theorem writeJson_reads (hF : R.host.floats.Readable) {operators : List OperatorSummary}
    (hops : ∀ op ∈ operators, ∃ o, R.Opens C op.operatorIdHex o)
    (hcaches : ∀ n, R.Reached (caches n)) (hgo : ∀ n, cancelled n = false) (checkpointId : Int) :
    ∃ turns₀ w docs, (∀ turns, turns₀ ≤ turns →
        writeJson R caches cancelled checkpointId turns operators = some (.ok w))
      ∧ parseJson w.out.text = some (jsonObject [("checkpoint_id".toList, .int checkpointId),
          ("truncated".toList, .bool false), ("operators".toList, .array docs)])
      ∧ List.Forall₂ R.Exports operators docs
      ∧ w.summary.maxEntriesHeld ≤ max R.entryLimit exportEntryPage := by
  obtain ⟨head, hhead⟩ : ∃ head, head = "\x7b\n  \"checkpoint_id\": ".toList ++ intText checkpointId
    ++ ",\n  \"truncated\": false,\n  \"operators\": [".toList := ⟨_, rfl⟩
  obtain ⟨turns₀, w, items, hrun, htext, hitems, hdocs, hheld⟩ := exportOperators_eq hF hops hcaches
    hgo operators.length 0 (ExportRun.start.put head)
  refine ⟨turns₀, w.put "\n  ]\n\x7d\n".toList, items.map Prod.snd, fun turns hturns => ?_, ?_, hdocs,
    ?_⟩
  · unfold writeJson
    dsimp only
    rw [← hhead, hrun turns hturns]
    rfl
  · obtain ⟨line, hline⟩ : ∃ line, line = "\n  ".toList := ⟨_, rfl⟩
    have hindent : Blank line := by
      rw [hline]
      decide
    have hspace : Blank [' '] := by decide
    have harray := readsAs_array hitems hindent
    rw [← joinFrom_zero] at harray
    -- The document as an object of three members, laid out over lines.
    let members : List LaidMember :=
      [⟨line, "checkpoint_id".toList, [' '] ++ intText checkpointId, .int checkpointId⟩,
        ⟨line, "truncated".toList, [' '] ++ jsonText (.bool false), .bool false⟩,
        ⟨line, "operators".toList, [' '] ++ ('[' :: (joinFrom 0 (items.map Prod.fst)
          ++ (line ++ [']']))), .array (items.map Prod.snd)⟩]
    have hmembers : ∀ m ∈ members, m.Reads := by
      simp only [members, List.forall_mem_cons]
      exact ⟨⟨hindent, (readsAs_int checkpointId).blanks hspace⟩,
        ⟨hindent, (ReadsAs.of_canonical (canonical_bool false)).blanks hspace⟩,
        ⟨hindent, harray.blanks hspace⟩, nofun⟩
    have hdocument := (readsAs_object hmembers (by decide : Blank ['\n'])).parseJson
      (by decide : Blank ['\n'])
    -- What was written piece by piece is that layout.
    have hopen : "\x7b\n  \"checkpoint_id\": ".toList
        = '{' :: ("\n  ".toList ++ (quoted "checkpoint_id".toList ++ [':', ' '])) := rfl
    have hoperators : ",\n  \"truncated\": false,\n  \"operators\": [".toList
        = ',' :: ("\n  ".toList ++ (quoted "truncated".toList ++ ':' :: ' '
          :: (jsonText (.bool false) ++ ',' :: ("\n  ".toList
            ++ (quoted "operators".toList ++ [':', ' ', '[']))))) := rfl
    have hclose : "\n  ]\n\x7d\n".toList = "\n  ".toList ++ [']', '\n', '}', '\n'] := rfl
    have hwhole : (w.put "\n  ]\n\x7d\n".toList).out.text
        = '{' :: (commaSeparated (members.map LaidMember.written) ++ (['\n'] ++ ['}'])) ++ ['\n'] := by
      show w.out.text ++ "\n  ]\n\x7d\n".toList = _
      rw [htext]
      show ([] ++ head) ++ _ ++ _ = _
      rw [hhead, hopen, hoperators, hclose, ← hline]
      simp only [members, List.map_cons, List.map_nil, commaSeparated, LaidMember.written,
        List.append_assoc, List.cons_append, List.nil_append]
    rw [hwhole]
    exact hdocument
  · exact hheld.trans (max_le (Nat.zero_le _) le_rfl)

end Document

/-- The operator of the savepoint that `cutReader` reads. -/
def cutSummary : OperatorSummary where
  id := [1]
  displayName := "source".toList
  identifierName := []
  parallelism := 2
  maxParallelism := 1
  subtaskCount := 2
  keyedStateSize := 72
  fullyFinished := false
  hasCoordinatorState := false
  coordinatorInfo := none
  states := [⟨"offsets".toList, "operator/UNION".toList, [⟨"\"a\"".toList, none⟩]⟩]

theorem opens_cutReader : (cutReader 0).Opens asciiText cutSummary.operatorIdHex (cutOperator 0) where
  operator_eq := rfl
  regular := regular_cutOperator 0
  sized := by
    intro s hs kg hkg header block hcontent
    obtain rfl := List.mem_singleton.mp hs
    have h0 : (0 : Int) ≤ kg := hkg.1
    have h1 : kg ≤ 0 := hkg.2
    obtain rfl : kg = 0 := by omega
    rw [content_cutReader] at hcontent
    obtain ⟨-, rfl⟩ := Prod.mk.inj (Option.some.inj (Except.ok.inj hcontent))
    exact (by decide : 1 ≤ 2 ^ 32)
  resolved := by
    intro s hs header hheader
    obtain rfl := List.mem_singleton.mp hs
    obtain rfl := Except.ok.inj hheader
    exact resolved_cutHeader
  start := by
    intro u hu
    obtain rfl := Option.some.inj hu
    rfl

/-- A key with two entries of a state, of which its record carries one, beside an operator state. -/
theorem writeJson_reads_cut :
    ∃ turns₀ w docs, (∀ turns, turns₀ ≤ turns →
        writeJson (cutReader 0) (fun _ => .empty 0) (fun _ => false) 7 turns [cutSummary]
          = some (.ok w))
      ∧ parseJson w.out.text = some (jsonObject [("checkpoint_id".toList, .int 7),
          ("truncated".toList, .bool false), ("operators".toList, .array docs)])
      ∧ List.Forall₂ (cutReader 0).Exports [cutSummary] docs
      ∧ w.summary.maxEntriesHeld ≤ 10000 := by
  have hfloats : (cutReader 0).host.floats.Readable :=
    ⟨fun _ _ h => (by cases h), fun _ _ h => (by cases h)⟩
  have hops : ∀ op ∈ [cutSummary], ∃ o, (cutReader 0).Opens asciiText op.operatorIdHex o := by
    intro op hop
    obtain rfl := List.mem_singleton.mp hop
    exact ⟨_, opens_cutReader⟩
  exact writeJson_reads hfloats hops (fun _ => ⟨0, [], rfl⟩) (fun _ => rfl) 7

end FlinkExplorer
