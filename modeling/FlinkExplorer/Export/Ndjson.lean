import FlinkExplorer.Export.StateRows
import FlinkExplorer.Parser.Canonical
import FlinkExplorer.Reader.Entries

namespace FlinkExplorer

open Lib

/-!
# `export_state.rs` — one line a row

`ndjsonSink` writes the JSON of each row on a line of its own.

* `newline_not_mem_jsonText` — no value prints as more than one line;
* `canonical_rowJson` — every row is read as it prints;
* `exportStateNdjson_reads` — so the lines of an export are read back as its rows.

A writer that fails is not modelled: the text is that of one that does not.
-/

/-- `NdjsonSink`, with the text it wrote. -/
def ndjsonSink : RowSink Text where
  row row out := .ok (out ++ jsonText (rowJson row) ++ ['\n'])
  finish := .ok

/-- `export_state_ndjson`. -/
def exportStateNdjson (R : StateReader) (operator : Option Text) (stateName : Text) :
    Except Text (ExportStats × Text) :=
  exportStateRows R ndjsonSink operator stateName []

/-- What a reader of lines makes of a text: the value of each line that ends. -/
def readNdjson (t : Text) : List (Option Json) := (t.splitOn '\n').dropLast.map parseJson

/-! ### One line -/

theorem newline_not_mem_hexByte (b : UInt8) : '\n' ∉ hexByte b := by
  have hdigit (n : Nat) (hn : n < 16) : hexDigit n ≠ '\n' := by
    intro h
    have hhex := (hexDigit_spec hn).1
    rw [h] at hhex
    exact absurd hhex (by decide)
  intro h
  have hb := b.toNat_lt
  rcases List.mem_pair.mp h with h | h
  · exact hdigit _ (by omega) h.symm
  · exact hdigit _ (by omega) h.symm

theorem newline_not_mem_escapeChar (c : Char) : '\n' ∉ escapeChar c := by
  by_cases hc : c = '\n'
  · subst hc
    decide
  · have hself : '\n' ∉ [c] := by simpa [eq_comm] using hc
    have hhex : '\n' ∉ ['\\', 'u', '0', '0'] ++ hexByte (UInt8.ofNat c.toNat) := by
      simp [newline_not_mem_hexByte]
    unfold escapeChar
    repeat' split
    all_goals first | exact hself | exact hhex | simp

theorem newline_not_mem_quoted (s : Text) : '\n' ∉ quoted s := by
  unfold quoted
  simp only [List.cons_append, List.mem_cons, List.mem_append, List.mem_flatMap, List.mem_nil_iff,
    or_false, not_or, not_exists, not_and]
  exact ⟨by decide, fun c _ => newline_not_mem_escapeChar c, by decide⟩

mutual

/-- **A value prints on one line.** -/
theorem newline_not_mem_jsonText (v : Json) (hv : v.Canonical) : '\n' ∉ jsonText v := by
  match v with
  | .null | .bool true | .bool false => decide
  | .number n =>
    intro h
    have hchar := isNumberChar_of_mem_numberText hv h
    exact absurd hchar (by decide)
  | .string s => exact newline_not_mem_quoted s
  | .array items =>
    have hitems := newline_not_mem_itemsText items hv
    rw [jsonText]
    simp [hitems]
  | .object members =>
    have hmembers := newline_not_mem_membersText members hv.2
    rw [jsonText]
    simp [hmembers]

theorem newline_not_mem_itemsText (items : List Json) (hitems : ItemsCanonical items) :
    '\n' ∉ itemsText items := by
  match items with
  | [] => exact List.not_mem_nil
  | [v] => exact newline_not_mem_jsonText v hitems.1
  | v :: w :: vs =>
    have hfirst := newline_not_mem_jsonText v hitems.1
    have hrest := newline_not_mem_itemsText (w :: vs) hitems.2
    rw [itemsText]
    simp [hfirst, hrest]

theorem newline_not_mem_membersText (members : List (Text × Json))
    (hmembers : MembersCanonical members) : '\n' ∉ membersText members := by
  match members with
  | [] => exact List.not_mem_nil
  | [(k, v)] =>
    have hvalue := newline_not_mem_jsonText v hmembers.1
    rw [membersText]
    simp [newline_not_mem_quoted, hvalue]
  | (k, v) :: m :: ms =>
    have hvalue := newline_not_mem_jsonText v hmembers.1
    have hrest := newline_not_mem_membersText (m :: ms) hmembers.2
    rw [membersText]
    simp [newline_not_mem_quoted, hvalue, hrest]

end

/-- Lines that end are what splitting at their ends gives. -/
theorem splitOn_lines {ls : List Text} (h : ∀ l ∈ ls, '\n' ∉ l) :
    ((ls.flatMap (· ++ ['\n'])).splitOn '\n').dropLast = ls := by
  have hjoin : ls.flatMap (· ++ ['\n']) = ['\n'].intercalate (ls ++ [[]]) := by
    induction ls with
    | nil => rfl
    | cons l ls ih =>
      have hne : ls ++ [[]] ≠ [] := by simp
      rw [List.flatMap_cons, ih fun l' hl' => h l' (List.mem_cons_of_mem l hl'), List.cons_append,
        List.intercalate_cons_of_ne_nil hne]
  rw [hjoin, List.splitOn_intercalate]
  · simp
  · intro l hl
    rcases List.mem_append.mp hl with hl | hl
    · exact h l hl
    · rw [List.mem_singleton.mp hl]
      exact List.not_mem_nil
  · simp

/-! ### Rows -/

section Rows

variable {R : StateReader} {o : OpenOperator} {stateName : Text}

theorem canonical_decodeEntryValue {F : FloatText} (hF : F.Readable) (proto : Option ProtoContext)
    (sub : ResolvedState) (namespaceBytes value : Bytes) (fallbackKey : Nat) :
    (decodeEntryValue F proto sub namespaceBytes value fallbackKey).2.Canonical := by
  unfold decodeEntryValue
  split
  · exact canonical_decodeMapEntry hF proto namespaceBytes value sub.mapKeyType sub.mapValueType
      sub.pojo fallbackKey
  · exact canonical_decodeStateValue hF proto _ _ _

/-- **A row is read as it prints.** -/
theorem canonical_rowJson {row : StateRow} (hvalue : row.value.Canonical) :
    (rowJson row).Canonical := by
  unfold rowJson
  extract_lets obj
  have hobj : GoodMembers obj := by
    refine GoodMembers.nil.membersInto ?_
    simp [canonical_string, canonical_int, hvalue]
  split
  · exact (hobj.objInsert "map_key".toList (canonical_string _)).canonical
  · exact (hobj.objInsert "namespace_hex".toList (canonical_string _)).canonical
  · exact hobj.canonical

/-- The text of rows. -/
def rowLines (rows : List StateRow) : List Text := rows.map fun row => jsonText (rowJson row)

theorem feed_ndjsonSink (rows : List StateRow) (out : Text) :
    ndjsonSink.feed rows out = .ok (out ++ (rowLines rows).flatMap (· ++ ['\n'])) := by
  induction rows generalizing out with
  | nil => exact congrArg Except.ok (List.append_nil out).symm
  | cons row rows ih =>
    refine (ih (out ++ jsonText (rowJson row) ++ ['\n'])).trans ?_
    unfold rowLines
    rw [List.map_cons, List.flatMap_cons]
    simp only [List.append_assoc]

/-- **The lines of an export are read back as its rows**, one for each entry of the state, in
    order. -/
theorem exportStateNdjson_reads (hF : R.host.floats.Readable) {operator : Option Text}
    {stats : ExportStats} {out : Text}
    (h : exportStateNdjson R operator stateName = .ok (stats, out)) :
    ∃ o, exportTarget R operator stateName = .ok o
      ∧ readNdjson out = (R.rowsOf o stateName).map (fun row => some (rowJson row))
      ∧ stats.rows = (readNdjson out).length := by
  obtain ⟨o, htarget, ⟨fed, hfeed, hfinish⟩, hrows, -⟩ := exportStateRows_ok h
  suffices hread : readNdjson out = (R.rowsOf o stateName).map fun row => some (rowJson row) by
    refine ⟨o, htarget, hread, ?_⟩
    rw [hread, List.length_map, hrows]
    exact List.length_mapIdx.symm
  rw [feed_ndjsonSink, List.nil_append] at hfeed
  obtain rfl : fed = out := Except.ok.inj hfinish
  have hvalues : ∀ row ∈ R.rowsOf o stateName, (rowJson row).Canonical := by
    intro row hrow
    obtain ⟨i, hi, rfl⟩ := List.mem_mapIdx.mp hrow
    exact canonical_rowJson (canonical_decodeEntryValue hF R.proto _ _ _ _)
  unfold readNdjson
  rw [← Except.ok.inj hfeed, splitOn_lines]
  · unfold rowLines
    rw [List.map_map]
    exact List.map_congr_left fun row hrow => parseJson_jsonText (hvalues row hrow)
  · intro l hl
    obtain ⟨row, hrow, rfl⟩ := List.mem_map.mp hl
    exact newline_not_mem_jsonText _ (hvalues row hrow)

end Rows

/-- Two lines, for the two entries of one key. -/
theorem exportStateNdjson_reads_two :
    ∃ stats out o, exportStateNdjson (cutReader 0) none "n".toList = .ok (stats, out)
      ∧ exportTarget (cutReader 0) none "n".toList = .ok o
      ∧ readNdjson out = ((cutReader 0).rowsOf o "n".toList).map (fun row => some (rowJson row))
      ∧ (readNdjson out).length = 2 := by
  have hruns : (exportStateNdjson (cutReader 0) none "n".toList).toOption.any
      (fun r => r.1.rows = 2) = true := by
    decide +kernel
  obtain ⟨⟨stats, out⟩, hok, htwo⟩ := (Option.any_eq_true _ _).mp hruns
  have hexport := eq_ok_of_toOption hok
  have hfloats : (cutReader 0).host.floats.Readable :=
    ⟨fun _ _ h => (by cases h), fun _ _ h => (by cases h)⟩
  obtain ⟨o, htarget, hread, hrows⟩ := exportStateNdjson_reads hfloats hexport
  exact ⟨stats, out, o, hexport, htarget, hread, hrows.symm.trans (of_decide_eq_true htwo)⟩

end FlinkExplorer
