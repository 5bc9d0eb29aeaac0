import FlinkExplorer.Export.StateValue
import FlinkExplorer.Operators
import FlinkExplorer.Parser.JsonLayout
import FlinkExplorer.Reader.Onward
import FlinkExplorer.Tui.Window
import Mathlib.Data.List.Sort

namespace FlinkExplorer

open Lib

/-!
# `export.rs` — the document

`writeJson` writes every operator of a savepoint with every key of its keyed states, a page of keys
at a time.

* `kept_writeStateValue` — writing a value forgets no defect;
* `writeStates_eq`, `writeRecords_eq` — what is written for a key, and for the keys of a page;
* `writePages_eq` — the loop over the pages writes the keys from its cursor on, each once;
* `exportOperator_eq` — an operator, with what could not be read of it.

A writer that fails is not modelled: the texts are those of one that does not.
-/

/-- Keys read per page while exporting. -/
def exportPageKeys : Nat := 1000

/-- How far an export is. -/
structure ExportProgress where
  keys : Nat
  operatorsDone : Nat
  operators : Nat
  deriving DecidableEq

/-- What an export wrote. -/
structure ExportSummary where
  operators : Nat
  keys : Nat
  errors : List Text
  malformed : List Text
  maxEntriesHeld : Nat

/-- An export under way: what was written, with the defects of the operator at hand; what could not
    be read of that operator, and how many of its keys were written; the summary so far; and what
    was told of the progress. -/
structure ExportRun where
  out : Output
  errors : List Text
  total : Nat
  summary : ExportSummary
  progress : List ExportProgress

namespace ExportRun

def start : ExportRun := ⟨⟨[], 0, [], 0⟩, [], 0, ⟨0, 0, [], [], 0⟩, []⟩

/-- Write a text. -/
def put (w : ExportRun) (text : Text) : ExportRun := { w with out := w.out.put text }

/-- The value of a state was written. -/
def wrote (w : ExportRun) (out : Output) : ExportRun :=
  { w with
    out := out
    summary := { w.summary with maxEntriesHeld := max w.summary.maxEntriesHeld out.held } }

/-- An operator is begun. -/
def begin (w : ExportRun) (keyed : KeyedStates) : ExportRun :=
  { w with
    out := { w.out with malformed := [], calls := w.out.calls + 1 }
    errors := keyed.errors
    total := 0 }

/-- A key was written. -/
def counted (w : ExportRun) : ExportRun := { w with total := w.total + 1 }

/-- A page of keys was read. -/
def paged (w : ExportRun) (page : Page (List KeyRecord)) : ExportRun :=
  { w with
    out := { w.out with
      malformed := pushUnique w.out.malformed page.malformed
      calls := w.out.calls + 1 }
    errors := pushUnique w.errors (page.unreadable.map (·.error)) }

/-- The keys of a page were written. -/
def told (w : ExportRun) (operators keys : Nat) : ExportRun :=
  let summary := { w.summary with keys := w.summary.keys + keys }
  { w with
    summary := summary
    progress := w.progress ++ [⟨summary.keys, summary.operators, operators⟩] }

/-- An operator was written. -/
def finish (w : ExportRun) (operators : Nat) : ExportRun :=
  let summary := { w.summary with
    errors := pushUnique w.summary.errors w.errors
    malformed := pushUnique w.summary.malformed w.out.malformed
    operators := w.summary.operators + 1 }
  { w with
    summary := summary
    progress := w.progress ++ [⟨summary.keys, summary.operators, operators⟩] }

end ExportRun

/-- `json!` of an object. -/
def jsonObject (members : List (Text × Json)) : Json := .object (membersInto [] members)

/-- `json!` of a list of strings. -/
def jsonTexts (texts : List Text) : Json := .array (texts.map .string)

/-- An operator state, as the document shows it. -/
def operatorStateJson (s : OperatorState) : Json :=
  jsonObject [("name".toList, .string s.name), ("mode".toList, .string s.stateType),
    ("values".toList, jsonTexts (s.elements.map (·.label)))]

/-- A keyed state, as the document describes it. -/
def descriptorJson (d : StateInfo) : Json :=
  jsonObject [("name".toList, .string d.name), ("state_type".toList, .string d.stateType),
    ("value_type".toList, .string d.valueType),
    ("value_class".toList, d.valueClass.elim .null .string)]

/-- What is said of an operator once its keys were read. -/
def infoJson (op : OperatorSummary) (keyed : KeyedStates) (total : Nat)
    (errors malformed : List Text) : Json :=
  jsonObject ((op.infoLines (some ⟨keyed.keyType, keyed.states.map (·.name), natText total, errors,
    malformed⟩)).map fun line => (line.1, .string line.2))

/-- The states of an operator by name. -/
def byName (states : List StateInfo) : List StateInfo :=
  states.insertionSort fun a b => textLt b.name a.name = false

section Write

-- The `n`-th check of the flag finds it as `cancelled n`, the `n`-th call the cache `caches n`.
variable (R : StateReader) (caches : Nat → BlockCache) (cancelled : Nat → Bool) (hex : Text)

/-- The states of a key, the first of them the `i`-th. -/
def writeStates (record : KeyRecord) : Nat → List StateInfo → ExportRun → Except Text ExportRun
  | _, [], w => .ok w
  | i, d :: ds, w => do
    let w := w.put ((if i > 0 then [','] else []) ++ jsonText (.string d.name) ++ [':'])
    let out ← writeStateValue R caches cancelled hex record d.name d.stateType w.out
    writeStates record (i + 1) ds (w.wrote out)

/-- The keys of a page. -/
def writeRecords (ds : List StateInfo) : List KeyRecord → ExportRun → Except Text ExportRun
  | [], w => .ok w
  | record :: records, w => do
    let w := w.put ((if w.total > 0 then [','] else []) ++ "\n        \x7b\"key\":".toList
      ++ jsonText (.string record.key) ++ ",\"key_group\":".toList
      ++ natText record.keyGroup.toNat ++ ",\"states\":\x7b".toList)
    let w ← writeStates R caches cancelled hex record 0 ds w
    writeRecords ds records (w.put "\x7d\x7d".toList).counted

/-- The pages of keys from a cursor on; `none` where the turns run out. -/
def writePages (ds : List StateInfo) (operators : Nat) :
    Nat → Cursor → ExportRun → Option (Except Text ExportRun)
  | 0, _, _ => none
  | turns + 1, c, w =>
    if cancelled w.out.calls then some (.error exportCancelled)
    else
      match (R.keyPage hex c exportPageKeys (caches w.out.calls)).1 with
      | .error e => some (.error (e.text R.host))
      | .ok page =>
        match writeRecords R caches cancelled hex ds page.found (w.paged page) with
        | .error e => some (.error e)
        | .ok w =>
          let w := w.told operators page.found.length
          match page.next with
          | none => some (.ok w)
          | some next => writePages ds operators turns next w

/-- What is written of an operator before its keys. -/
def operatorHead (op : OperatorSummary) (keyed : KeyedStates) : Text :=
  "\n    \x7b\n      \"name\": ".toList ++ jsonText (.string op.displayName)
    ++ ",\n      \"parallelism\": ".toList ++ intText op.parallelism
    ++ ",\n      \"truncated\": false,\n      \"operator_states\": ".toList
    ++ jsonText (.array (op.states.map operatorStateJson))
    ++ ",\n      \"state_descriptors\": ".toList
    ++ jsonText (.array (keyed.states.map descriptorJson))
    ++ ",\n      \"keys\": [".toList

/-- What is written of an operator after its keys. -/
def operatorTail (op : OperatorSummary) (keyed : KeyedStates) (total : Nat)
    (errors malformed : List Text) : Text :=
  (if total > 0 then "\n      ".toList else []) ++ "],\n      \"total_keys\": ".toList
    ++ natText total ++ ",\n      \"load_errors\": ".toList ++ jsonText (jsonTexts errors)
    ++ ",\n      \"malformed_key_groups\": ".toList ++ jsonText (jsonTexts malformed)
    ++ ",\n      \"info\": ".toList ++ jsonText (infoJson op keyed total errors malformed)
    ++ "\n    \x7d".toList

/-- The `n`-th of some operators. -/
def exportOperator (turns operators n : Nat) (op : OperatorSummary) (w : ExportRun) :
    Option (Except Text ExportRun) :=
  if cancelled w.out.calls then some (.error exportCancelled)
  else
    match R.states op.operatorIdHex with
    | .error e => some (.error (e.text R.host))
    | .ok keyed =>
      let w := (w.begin keyed).put ((if n > 0 then [','] else []) ++ operatorHead op keyed)
      let written :=
        if keyed.states = [] then some (.ok w)
        else writePages R caches cancelled op.operatorIdHex (byName keyed.states) operators turns
          .start w
      written.map fun result => result.map fun w =>
        (w.put (operatorTail op keyed w.total w.errors w.out.malformed)).finish operators

/-- Some operators, the first of them the `n`-th. -/
def exportOperators (turns operators : Nat) :
    Nat → List OperatorSummary → ExportRun → Option (Except Text ExportRun)
  | _, [], w => some (.ok w)
  | n, op :: ops, w =>
    match exportOperator R caches cancelled turns operators n op w with
    | none => none
    | some (.error e) => some (.error e)
    | some (.ok w) => exportOperators turns operators (n + 1) ops w

/-- `write_json`; `none` where the turns run out. -/
def writeJson (checkpointId : Int) (turns : Nat) (operators : List OperatorSummary) :
    Option (Except Text ExportRun) :=
  let w := ExportRun.start.put ("\x7b\n  \"checkpoint_id\": ".toList ++ intText checkpointId
    ++ ",\n  \"truncated\": false,\n  \"operators\": [".toList)
  (exportOperators R caches cancelled turns operators.length 0 operators w).map fun result =>
    result.map fun w => w.put "\n  ]\n\x7d\n".toList

end Write

/-! ### What is noted -/

theorem subset_pushUnique (list items : List Text) : list ⊆ pushUnique list items := by
  unfold pushUnique
  induction items generalizing list with
  | nil => exact List.Subset.refl list
  | cons item items ih =>
    intro t ht
    exact ih _ (subset_pushNew list item ht)

theorem mem_pushUnique {list items : List Text} {t : Text} (h : t ∈ items) :
    t ∈ pushUnique list items := by
  induction items generalizing list with
  | nil => exact absurd h List.not_mem_nil
  | cons item items ih =>
    rcases List.mem_cons.mp h with rfl | h
    · exact subset_pushUnique (pushNew list t) items (mem_pushNew list t)
    · exact ih h

theorem pushUnique_append (list items items' : List Text) :
    pushUnique list (items ++ items') = pushUnique (pushUnique list items) items' :=
  List.foldl_append

section Kept

variable {R : StateReader} {caches : Nat → BlockCache} {cancelled : Nat → Bool} {op : Text}
  {record : KeyRecord} {state : Text} {pageSize : Nat}

theorem kept_writeFirst {total offset : Nat} {w out : Output}
    (h : writeFirst R caches cancelled op record state pageSize total offset w = .ok out) :
    w.malformed ⊆ out.malformed := by
  induction hleft : total - offset using Nat.strong_induction_on generalizing offset w with
  | _ left ih =>
    rw [writeFirst] at h
    split at h
    · split at h
      · cases h
      · rename_i page hpage
        have hturned : w.malformed ⊆ (w.turned page).malformed := subset_pushUnique _ _
        split at h
        · obtain rfl := Except.ok.inj h
          exact hturned
        · split at h
          · split at h
            · rename_i n hnext hgoes
              exact List.Subset.trans hturned (ih (total - n) (by omega) h rfl)
            · obtain rfl := Except.ok.inj h
              exact hturned
          · obtain rfl := Except.ok.inj h
            exact hturned
    · obtain rfl := Except.ok.inj h
      exact List.Subset.refl _

theorem kept_writeMapPages {total offset i : Nat} {w out : Output}
    (h : writeMapPages R caches cancelled op record state pageSize total offset i w = .ok out) :
    w.malformed ⊆ out.malformed := by
  induction hleft : total - offset using Nat.strong_induction_on generalizing offset i w with
  | _ left ih =>
    rw [writeMapPages] at h
    split at h
    · split at h
      · cases h
      · rename_i page hpage
        have hturned : w.malformed ⊆ ((w.turned page).put (entryTexts i page.entries)).malformed :=
          subset_pushUnique _ _
        dsimp only at h
        split at h
        · split at h
          · rename_i n hnext hgoes
            exact List.Subset.trans hturned (ih (total - n) (by omega) h rfl)
          · obtain rfl := Except.ok.inj h
            exact hturned
        · obtain rfl := Except.ok.inj h
          exact hturned
    · obtain rfl := Except.ok.inj h
      exact List.Subset.refl _

/-- **Writing a value forgets no defect.** -/
theorem kept_writeStateValue {stateType : Text} {w out : Output}
    (h : writeStateValue R caches cancelled op record state stateType w = .ok out) :
    w.malformed ⊆ out.malformed := by
  unfold writeStateValue writeStateValueBy at h
  dsimp only at h
  split at h
  · split at h
    · obtain rfl := Except.ok.inj h
      exact List.Subset.refl _
    · have hkept := kept_writeFirst h
      exact hkept
  · split at h
    · obtain rfl := Except.ok.inj h
      exact List.Subset.refl _
    · have hkept := kept_writeMapPages h
      exact hkept

end Kept

/-! ### Keys -/

/-- The text of a key's states, each with the value that all its entries give. -/
def StateReader.statesTexts (R : StateReader) (header : SubtaskHeader) (raw : RawKey)
    (ds : List StateInfo) : List Text :=
  ds.map fun d => jsonText (.string d.name) ++ ':'
    :: stateText d.stateType (R.entriesNamed header raw d.name)

/-- The text of a key. -/
def StateReader.keyText (R : StateReader) (ds : List StateInfo) (header : SubtaskHeader) (kg : Int)
    (raw : RawKey) : Text :=
  "\n        \x7b\"key\":".toList ++ jsonText (.string raw.key) ++ ",\"key_group\":".toList
    ++ natText (UInt16.ofInt kg).toNat ++ ",\"states\":\x7b".toList
    ++ joinFrom 0 (R.statesTexts header raw ds) ++ "\x7d\x7d".toList

/-- The text of the key of an event. -/
def StateReader.textOf (R : StateReader) (ds : List StateInfo) : Event → Option Text
  | .key _ header kg _ raw => some (R.keyText ds header kg raw)
  | .report _ => none

/-- What was written after `out`: a text, and no defect is forgotten. -/
structure Output.Grown (out out' : Output) (t : Text) : Prop where
  text : out'.text = out.text ++ t
  kept : out.malformed ⊆ out'.malformed

theorem Output.Grown.trans {out out' out'' : Output} {t t' : Text} (h : out.Grown out' t)
    (h' : out'.Grown out'' t') : out.Grown out'' (t ++ t') where
  text := by rw [h'.text, h.text, List.append_assoc]
  kept := List.Subset.trans h.kept h'.kept

theorem Output.grown_put (out : Output) (t : Text) : out.Grown (out.put t) t :=
  ⟨rfl, List.Subset.refl _⟩

/-- An export that wrote some keys of a page, or a part of one. -/
def ExportRun.after (w : ExportRun) (out : Output) (held total : Nat) : ExportRun :=
  { w with out := out, total := total, summary := { w.summary with maxEntriesHeld := held } }

section Keys

variable {R : StateReader} {C : CharText} {op : Text} {o : OpenOperator} {s : SubtaskStream}
  {kg : Int} {header : SubtaskHeader} {ord : Nat} {raw : RawKey} {caches : Nat → BlockCache}
  {cancelled : Nat → Bool} {ds : List StateInfo}

/-- **The states of a key** are written one by one. -/
theorem writeStates_eq (h : R.KeyAt C op o s kg header ord raw)
    (hcaches : ∀ n, R.Reached (caches n)) (hgo : ∀ n, cancelled n = false)
    (hhash : ∀ d ∈ ds, d.name.head? ≠ some '#') (i : Nat) (w : ExportRun) :
    ∃ out held, writeStates R caches cancelled op (R.record s header kg ord raw) i ds w
        = .ok (w.after out held w.total)
      ∧ w.out.Grown out (joinFrom i (R.statesTexts header raw ds))
      ∧ held ≤ max w.summary.maxEntriesHeld (max R.entryLimit exportEntryPage) := by
  induction ds generalizing i w with
  | nil =>
    refine ⟨w.out, w.summary.maxEntriesHeld, rfl, ⟨?_, List.Subset.refl _⟩, le_max_left _ _⟩
    exact (List.append_nil _).symm
  | cons d ds ih =>
    rw [writeStates]
    obtain ⟨out, hout, htext, hheld⟩ := writeStateValue_eq h hcaches hgo
      (hhash d List.mem_cons_self) d.stateType
      (w.put ((if i > 0 then [','] else []) ++ jsonText (.string d.name) ++ [':'])).out
    obtain ⟨out', held, hrest, hgrown, hheld'⟩ :=
      ih (fun d' hd' => hhash d' (List.mem_cons_of_mem _ hd')) (i + 1)
        ((w.put ((if i > 0 then [','] else []) ++ jsonText (.string d.name) ++ [':'])).wrote out)
    refine ⟨out', held, ?_, ?_, ?_⟩
    · rw [hout]
      exact hrest
    · have hvalue : w.out.Grown out ((if i > 0 then [','] else []) ++ (jsonText (.string d.name)
          ++ ':' :: stateText d.stateType (R.entriesNamed header raw d.name))) := by
        have hkept := kept_writeStateValue hout
        refine ⟨?_, hkept⟩
        rw [htext]
        simp [ExportRun.put, Output.put]
      exact hvalue.trans hgrown
    · refine hheld'.trans (max_le (max_le (le_max_left _ _) ?_) (le_max_right _ _))
      exact hheld.trans (le_max_right _ _)

/-- **The keys of a page** are written one by one. -/
theorem writeRecords_eq {events : List Event}
    (hkeys : ∀ s header kg ord raw, Event.key s header kg ord raw ∈ events →
      R.KeyAt C op o s kg header ord raw)
    (hcaches : ∀ n, R.Reached (caches n)) (hgo : ∀ n, cancelled n = false)
    (hhash : ∀ d ∈ ds, d.name.head? ≠ some '#') (w : ExportRun) :
    ∃ out held, writeRecords R caches cancelled op ds (events.filterMap R.recordOf) w
        = .ok (w.after out held (w.total + (events.filterMap R.recordOf).length))
      ∧ w.out.Grown out (joinFrom w.total (events.filterMap (R.textOf ds)))
      ∧ held ≤ max w.summary.maxEntriesHeld (max R.entryLimit exportEntryPage) := by
  induction events generalizing w with
  | nil =>
    refine ⟨w.out, w.summary.maxEntriesHeld, rfl, ⟨?_, List.Subset.refl _⟩, le_max_left _ _⟩
    exact (List.append_nil _).symm
  | cons e events ih =>
    have hrest := ih fun s header kg ord raw h => hkeys s header kg ord raw (List.mem_cons_of_mem _ h)
    cases e with
    | report why => exact hrest w
    | key s header kg ord raw =>
      have hkey := hkeys s header kg ord raw List.mem_cons_self
      -- what is written in front of the states of a key, and behind them
      obtain ⟨head, hhead⟩ : ∃ head, head = (if w.total > 0 then [','] else [])
        ++ "\n        \x7b\"key\":".toList ++ jsonText (.string raw.key) ++ ",\"key_group\":".toList
        ++ natText (UInt16.ofInt kg).toNat ++ ",\"states\":\x7b".toList := ⟨_, rfl⟩
      obtain ⟨close, hclose⟩ : ∃ close, close = "\x7d\x7d".toList := ⟨_, rfl⟩
      obtain ⟨out, held, hout, hgrown, hheld⟩ :=
        writeStates_eq hkey hcaches hgo hhash 0 (w.put head)
      obtain ⟨out', held', hout', hgrown', hheld'⟩ :=
        hrest (((w.put head).after out held w.total).put close).counted
      have hrecord : (Event.key s header kg ord raw :: events).filterMap R.recordOf
          = R.record s header kg ord raw :: events.filterMap R.recordOf := rfl
      refine ⟨out', held', ?_, ?_, hheld'.trans (max_le hheld (le_max_right _ _))⟩
      · have htotal : w.total + (R.record s header kg ord raw :: events.filterMap R.recordOf).length
            = w.total + 1 + (events.filterMap R.recordOf).length := by
          rw [List.length_cons]
          omega
        rw [hrecord, htotal, writeRecords, ← hclose]
        rw [show (R.record s header kg ord raw).key = raw.key from rfl,
          show (R.record s header kg ord raw).keyGroup = UInt16.ofInt kg from rfl, ← hhead, hout]
        exact hout'
      -- one key, its comma included
      · have hone : w.out.Grown (out.put close) ((if w.total > 0 then [','] else [])
            ++ R.keyText ds header kg raw) := by
          have htext : (if w.total > 0 then [','] else []) ++ R.keyText ds header kg raw
              = head ++ (joinFrom 0 (R.statesTexts header raw ds) ++ close) := by
            subst hhead hclose
            unfold StateReader.keyText
            simp only [List.append_assoc]
          have hput : w.out.Grown (w.put head).out head := Output.grown_put w.out head
          rw [htext]
          exact hput.trans (hgrown.trans (Output.grown_put out close))
        have htexts : joinFrom w.total ((Event.key s header kg ord raw :: events).filterMap
              (R.textOf ds))
            = ((if w.total > 0 then [','] else []) ++ R.keyText ds header kg raw)
              ++ joinFrom (w.total + 1) (events.filterMap (R.textOf ds)) := by
          rw [List.filterMap_cons_some (show R.textOf ds (.key s header kg ord raw) = some _ from rfl),
            joinFrom]
        rw [htexts]
        exact hone.trans hgrown'

end Keys

/-! ### Pages -/

section Pages

variable {R : StateReader} {C : CharText} {op : Text} {o : OpenOperator}

/-- A key that a walk meets is a key of the savepoint. -/
theorem keyAt_of_eventsFrom (hop : R.operator op = .ok o) (ho : o.Regular) (hsized : R.Sized o)
    (hresolved : ∀ s ∈ o.ctx.streams, ∀ header, s.header = .ok header → header.Resolved C)
    {c : Cursor} {s : SubtaskStream} {header : SubtaskHeader} {kg : Int} {ord : Nat} {raw : RawKey}
    (h : Event.key s header kg ord raw ∈ R.eventsFrom o (some c)) :
    R.KeyAt C op o s kg header ord raw := by
  obtain ⟨p, hp, hkey⟩ := List.mem_flatMap.mp h
  obtain ⟨q, hq, hunit, hkg⟩ := ahead_mem hp
  obtain ⟨u, hu, hqunit, hhas⟩ := positions_unit ho.laidOut hq
  rw [hqunit] at hunit
  rw [← hkg] at hhas
  cases p with
  | ended => cases hkey
  | unreadable v from' => simp [StateReader.eventsAt] at hkey
  | block s' kg' ordinal =>
    obtain ⟨rfl, rfl⟩ := mem_eventsAt_block hkey
    cases hunit
    have hs : s ∈ o.ctx.streams := by
      rcases o.ctx.mem_units.mp hu with ⟨s', hs', heq⟩ | ⟨f, -, heq⟩
      · cases heq
        exact hs'
      · cases heq
    unfold StateReader.eventsAt at hkey
    dsimp only at hkey
    cases hcontent : R.contentOf o s kg with
    | error e => simp [hcontent] at hkey
    | ok content =>
      cases content with
      | none => simp [hcontent] at hkey
      | some found =>
        obtain ⟨header', block⟩ := found
        rw [hcontent] at hkey
        obtain ⟨-, rfl, -, hle, hraw⟩ := mem_keyEvents hkey
        rw [List.getElem?_drop, show ordinal.toNat + (ord - ordinal.toNat) = ord by omega] at hraw
        have hlt : ord < 2 ^ 32 := (List.getElem?_eq_some_iff.mp hraw).1.trans_le
          (hsized s hs kg hhas header block hcontent)
        exact ⟨hop, ho, hs, hhas, hresolved s hs header (header_of_contentOf hcontent), hlt, block,
          hcontent, hraw⟩

/-- What is written of the keys from a cursor on, and what is noted of them. -/
structure ExportRun.Paged (R : StateReader) (o : OpenOperator) (ds : List StateInfo)
    (w w' : ExportRun) (c : Option Cursor) : Prop where
  grown : w.out.Grown w'.out (joinFrom w.total ((R.eventsFrom o c).filterMap (R.textOf ds)))
  defects : ∀ s kg, o.BlockFrom s kg c → ∀ d ∈ R.defectOf o s kg, d ∈ w'.out.malformed
  errors : w'.errors = pushUnique w.errors ((R.reportsFrom o c).map (·.error))
  total : w'.total = w.total + (R.keysFrom o c).length
  keys : w'.summary.keys = w.summary.keys + (R.keysFrom o c).length
  held : w'.summary.maxEntriesHeld
    ≤ max w.summary.maxEntriesHeld (max R.entryLimit exportEntryPage)
  operators : w'.summary.operators = w.summary.operators

theorem ExportRun.paged_none (R : StateReader) (o : OpenOperator) (ds : List StateInfo)
    (w : ExportRun) : w.Paged R o ds w none where
  grown := ⟨(List.append_nil _).symm, List.Subset.refl _⟩
  defects := by
    rintro s kg ⟨c, hc, -⟩
    cases hc
  errors := rfl
  total := rfl
  keys := rfl
  held := le_max_left _ _
  operators := rfl

theorem length_filterMap_textOf (ds : List StateInfo) (events : List Event) :
    (events.filterMap (R.textOf ds)).length = (events.filterMap R.recordOf).length := by
  induction events with
  | nil => rfl
  | cons e events ih =>
    cases e with
    | report why => exact ih
    | key s header kg ord raw => exact congrArg Nat.succ ih

variable {caches : Nat → BlockCache} {cancelled : Nat → Bool} {ds : List StateInfo}

/-- **The pages of keys** from a cursor on. -/
theorem writePages_eq (hop : R.operator op = .ok o) (ho : o.Regular) (hsized : R.Sized o)
    (hresolved : ∀ s ∈ o.ctx.streams, ∀ header, s.header = .ok header → header.Resolved C)
    (hcaches : ∀ n, R.Reached (caches n)) (hgo : ∀ n, cancelled n = false)
    (hhash : ∀ d ∈ ds, d.name.head? ≠ some '#') (operators : Nat) {c : Cursor}
    (hcheck : o.checkCursor c = .ok ()) (w : ExportRun) :
    ∃ n w', (∀ turns, n ≤ turns →
        writePages R caches cancelled op ds operators turns c w = some (.ok w'))
      ∧ w.Paged R o ds w' (some c) := by
  induction hweight : weight (o.ahead c) using Nat.strong_induction_on generalizing c w with
  | _ total ih =>
    have hfull : ¬ (R.keyWalk exportPageKeys).full [] = true := by simp [StateReader.keyWalk]
    obtain ⟨page, taken, hpage, honward⟩ := page_onward hop ho hsized
      (rfl : (R.keyWalk exportPageKeys).lastKeyGroup = none) true (hcaches w.out.calls).sound hcheck
      hfull
    have hfound : page.found = taken.filterMap R.recordOf := by
      rw [honward.found, gather_keys, List.nil_append]
    have hkeys : ∀ s header kg ord raw, Event.key s header kg ord raw ∈ taken →
        R.KeyAt C op o s kg header ord raw := by
      intro s header kg ord raw h
      refine keyAt_of_eventsFrom hop ho hsized hresolved (c := c) ?_
      rw [honward.events]
      exact List.mem_append_left _ h
    obtain ⟨out, held, hout, hgrown, hheld⟩ :=
      writeRecords_eq hkeys hcaches hgo hhash (w.paged page)
    rw [← hfound] at hout
    -- what this page leaves is what the next one starts from
    let w' := ((w.paged page).after out held (w.total + page.found.length)).told operators
      page.found.length
    have hturn (turns : Nat) : writePages R caches cancelled op ds operators (turns + 1) c w
        = match page.next with
          | none => some (.ok w')
          | some next => writePages R caches cancelled op ds operators turns next w' := by
      have hpage' : (R.keyPage op c exportPageKeys (caches w.out.calls)).1 = .ok page := hpage
      rw [writePages, hgo, if_neg Bool.false_ne_true, hpage']
      dsimp only
      rw [hout]
      rfl
    have hpaged : w.out.Grown out (joinFrom w.total (taken.filterMap (R.textOf ds))) := by
      refine ⟨hgrown.text, List.Subset.trans ?_ hgrown.kept⟩
      exact subset_pushUnique _ _
    have hnoted (d : Text) (hd : d ∈ page.malformed) : d ∈ out.malformed :=
      hgrown.kept (mem_pushUnique hd)
    obtain ⟨n, w'', hrun, hrest⟩ : ∃ n w'', (∀ turns, n ≤ turns → (match page.next with
          | none => some (.ok w')
          | some next => writePages R caches cancelled op ds operators turns next w')
            = some (.ok w'')) ∧ w'.Paged R o ds w'' page.next := by
      cases hnext : page.next with
      | none => exact ⟨0, w', fun _ _ => rfl, ExportRun.paged_none R o ds w'⟩
      | some next =>
        obtain ⟨hcheck', -, hless⟩ := honward.next next hnext
        exact ih _ (hweight ▸ hless) hcheck' w' rfl
    have hlength : w'.total = w.total + (taken.filterMap (R.textOf ds)).length := by
      rw [length_filterMap_textOf, ← hfound]
      rfl
    have hcount : (R.keysFrom o (some c)).length
        = page.found.length + (R.keysFrom o page.next).length := by
      rw [honward.keys, ← hfound, List.length_append]
    refine ⟨n + 1, w'', fun turns hturns => ?_, ?_⟩
    · obtain ⟨turns, rfl⟩ : ∃ t, turns = t + 1 := ⟨turns - 1, by omega⟩
      rw [hturn]
      exact hrun turns (by omega)
    · refine ⟨?_, fun s kg hblock d hd => ?_, ?_, ?_, ?_, ?_, hrest.operators⟩
      · rw [honward.events, List.filterMap_append, joinFrom_append, ← hlength]
        exact hpaged.trans hrest.grown
      · rcases honward.defects s kg hblock d hd with hhere | hlater
        · exact hrest.grown.kept (hnoted d hhere)
        · exact hrest.defects s kg hlater d hd
      · rw [hrest.errors, honward.reports, List.map_append, pushUnique_append]
        rfl
      · rw [hrest.total, hcount, ← Nat.add_assoc]
        rfl
      · rw [hrest.keys, hcount, ← Nat.add_assoc]
        rfl
      · refine hrest.held.trans (max_le ?_ (le_max_right _ _))
        exact hheld

end Pages

/-! ### Operators -/

/-- An operator that is read from its first cursor on. -/
structure StateReader.Opens (R : StateReader) (C : CharText) (op : Text) (o : OpenOperator) :
    Prop where
  operator_eq : R.operator op = .ok o
  regular : o.Regular
  sized : R.Sized o
  resolved : ∀ s ∈ o.ctx.streams, ∀ header, s.header = .ok header → header.Resolved C
  start : ∀ u, o.ctx.unitOf 0 = some u → u.subtask = 0

/-- What a walk over an operator meets, if a header registers a state. -/
def StateReader.exported (R : StateReader) (o : OpenOperator) (keyed : KeyedStates) : List Event :=
  if keyed.states = [] then [] else R.eventsFrom o (some .start)

/-- What could not be read of an operator. -/
def StateReader.loadErrors (R : StateReader) (o : OpenOperator) (keyed : KeyedStates) : List Text :=
  pushUnique keyed.errors (((R.exported o keyed).filterMap Event.reported).map (·.error))

/-- The text of an operator. -/
def StateReader.operatorText (R : StateReader) (o : OpenOperator) (op : OperatorSummary)
    (keyed : KeyedStates) (malformed : List Text) : Text :=
  let keys := (R.exported o keyed).filterMap (R.textOf (byName keyed.states))
  operatorHead op keyed ++ joinFrom 0 keys
    ++ operatorTail op keyed keys.length (R.loadErrors o keyed) malformed

/-- Every block with a defect is among those noted. -/
def StateReader.Notes (R : StateReader) (o : OpenOperator) (keyed : KeyedStates)
    (malformed : List Text) : Prop :=
  keyed.states ≠ [] → ∀ s ∈ o.ctx.streams, ∀ kg, (ReadUnit.stream s).Has kg →
    ∀ d ∈ R.defectOf o s kg, d ∈ malformed

section Operators

variable {R : StateReader} {C : CharText} {o : OpenOperator} {caches : Nat → BlockCache}
  {cancelled : Nat → Bool}

/-- **An operator** is written with all its keys, whatever the turns beyond those it takes. -/
theorem exportOperator_eq {op : OperatorSummary} (h : R.Opens C op.operatorIdHex o)
    (hcaches : ∀ n, R.Reached (caches n)) (hgo : ∀ n, cancelled n = false) (operators n : Nat)
    (w : ExportRun) :
    ∃ keyed turns₀ w' malformed, R.states op.operatorIdHex = .ok keyed
      ∧ (∀ turns, turns₀ ≤ turns →
        exportOperator R caches cancelled turns operators n op w = some (.ok w'))
      ∧ w'.out.text = w.out.text
        ++ ((if n > 0 then [','] else []) ++ R.operatorText o op keyed malformed)
      ∧ R.Notes o keyed malformed
      ∧ w'.summary.maxEntriesHeld
        ≤ max w.summary.maxEntriesHeld (max R.entryLimit exportEntryPage) := by
  have hstates := states_eq h.operator_eq
  obtain ⟨keyed, hkeyed, hnames⟩ : ∃ keyed, R.states op.operatorIdHex = .ok keyed
      ∧ ∀ d ∈ byName keyed.states, d.name.head? ≠ some '#' := by
    refine ⟨_, hstates, fun d hd => ?_⟩
    exact not_hash_registerAll h.resolved ((List.perm_insertionSort _ _).mem_iff.mp hd)
  let w₀ := (w.begin keyed).put ((if n > 0 then [','] else []) ++ operatorHead op keyed)
  -- what the keys leave, if there are any
  obtain ⟨turns₀, w₁, hrun, hgrown, herrors, htotal, hnotes, hheld⟩ : ∃ turns₀ w₁,
      (∀ turns, turns₀ ≤ turns →
        (if keyed.states = [] then some (.ok w₀)
          else writePages R caches cancelled op.operatorIdHex (byName keyed.states) operators turns
            .start w₀) = some (.ok w₁))
      ∧ w₁.out.text = w₀.out.text
        ++ joinFrom 0 ((R.exported o keyed).filterMap (R.textOf (byName keyed.states)))
      ∧ w₁.errors = R.loadErrors o keyed
      ∧ w₁.total = ((R.exported o keyed).filterMap (R.textOf (byName keyed.states))).length
      ∧ R.Notes o keyed w₁.out.malformed
      ∧ w₁.summary.maxEntriesHeld
        ≤ max w.summary.maxEntriesHeld (max R.entryLimit exportEntryPage) := by
    unfold StateReader.loadErrors StateReader.exported
    by_cases hnone : keyed.states = []
    · refine ⟨0, w₀, fun _ _ => if_pos hnone, ?_, ?_, ?_, fun hne => absurd hnone hne,
        le_max_left _ _⟩
      · rw [if_pos hnone]
        exact (List.append_nil _).symm
      · rw [if_pos hnone]
        rfl
      · rw [if_pos hnone]
        rfl
    · obtain ⟨turns₀, w₁, hrun, hpaged⟩ := writePages_eq h.operator_eq h.regular h.sized h.resolved
        hcaches hgo hnames operators (checkCursor_start h.start) w₀
      refine ⟨turns₀, w₁, fun turns hturns => ?_, ?_, ?_, ?_, fun _ s hs kg hkg d hd => ?_,
        hpaged.held⟩
      · rw [if_neg hnone]
        exact hrun turns hturns
      · rw [if_neg hnone]
        exact hpaged.grown.text
      · rw [if_neg hnone]
        exact hpaged.errors
      · rw [if_neg hnone, length_filterMap_textOf, hpaged.total]
        exact Nat.zero_add _
      · exact hpaged.defects s kg (blockFrom_start h.regular hs hkg hd) d hd
  refine ⟨keyed, turns₀, (w₁.put (operatorTail op keyed w₁.total w₁.errors
    w₁.out.malformed)).finish operators, w₁.out.malformed, hkeyed, fun turns hturns => ?_, ?_, hnotes,
    hheld⟩
  · unfold exportOperator
    rw [hgo, if_neg Bool.false_ne_true, hkeyed]
    dsimp only
    rw [hrun turns hturns]
    rfl
  · show w₁.out.text ++ operatorTail op keyed w₁.total w₁.errors w₁.out.malformed = _
    rw [hgrown, herrors, htotal]
    show w.out.text ++ ((if n > 0 then [','] else []) ++ operatorHead op keyed) ++ _ ++ _ = _
    unfold StateReader.operatorText
    simp only [List.append_assoc]

end Operators

end FlinkExplorer
