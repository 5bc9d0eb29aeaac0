import FlinkExplorer.Parser.Canonical
import FlinkExplorer.Parser.JsonLayout
import FlinkExplorer.Reader.Entries
import FlinkExplorer.Tui.Snapshot

namespace FlinkExplorer

open Lib

/-!
# `export.rs` — the value of one state of a key

`stateValue` makes one value of a key's entries of a state.  `writeStateValue` writes it without
ever holding them all: what the record carries first, then a page of entries at a time.

* `writeMapPages_eq`, `writeFirst_eq` — the loops over the pages, by what is left after an offset;
* `writeStateValueBy_eq` — the text is the one the whole list of entries would give;
* `writeStateValue_reads`, `writeStateValueBy_reads` — a reader of JSON gets `stateValue` back from it,
  whatever the size of a page is.

A writer that fails is not modelled: the texts are those of one that does not.
-/

/-- Entries of one key's state read per page, past those its record carries. -/
def exportEntryPage : Nat := 10000

/-- Add what is not there yet. -/
def pushUnique (list items : List Text) : List Text := items.foldl pushNew list

/-- What was written so far: its text, the most entries held at once, the defects met, and how many
    calls of the reader it took. -/
structure Output where
  text : Text
  held : Nat
  malformed : List Text
  calls : Nat

namespace Output

/-- Write a text. -/
def put (w : Output) (text : Text) : Output := { w with text := w.text ++ text }

/-- A page of entries was read. -/
def turned (w : Output) (page : EntryPage) : Output :=
  { w with
    held := max w.held page.entries.length
    malformed := pushUnique w.malformed page.malformed
    calls := w.calls + 1 }

end Output

/-- Entries of a MAP, the first of them the `i`-th: each but entry 0 after a comma. -/
def entryTexts : Nat → List StateEntry → Text
  | _, [] => []
  | i, e :: es =>
    (if i > 0 then [','] else []) ++ jsonText (.string (mapKeyOf e i)) ++ ':' :: jsonText e.value
      ++ entryTexts (i + 1) es

/-- An export that was asked to stop. -/
def exportCancelled : Text := "export cancelled".toList

section Write

-- The `n`-th call of the reader finds the cache `caches n`, and the flag as `cancelled n`.
variable (R : StateReader) (caches : Nat → BlockCache) (cancelled : Nat → Bool) (op : Text)
  (record : KeyRecord) (state : Text) (pageSize : Nat)

/-- One turn of a loop: stop when asked to, else read a page. -/
def exportPage (offset : Nat) (w : Output) : Except Text EntryPage :=
  if cancelled w.calls then .error exportCancelled
  else ((R.entries op record.position state offset pageSize (caches w.calls)).1).mapError
    (ReaderError.text R.host)

/-- The first entry that is not empty, among those past the record's. -/
def writeFirst (total offset : Nat) (w : Output) : Except Text Output :=
  if offset < total then
    match exportPage R caches cancelled op record state pageSize offset w with
    | .error e => .error e
    | .ok page =>
      match page.entries.find? fun e => !e.raw.isEmpty with
      | some e => .ok ((w.turned page).put (jsonText e.value))
      | none =>
        match page.next with
        | some n =>
          if offset < n ∧ n < total then writeFirst total n (w.turned page)
          else .ok ((w.turned page).put (jsonText .null))
        | none => .ok ((w.turned page).put (jsonText .null))
  else .ok (w.put (jsonText .null))
  termination_by total - offset

/-- The entries of a MAP past the record's; `i` were written before. -/
def writeMapPages (total offset i : Nat) (w : Output) : Except Text Output :=
  if offset < total then
    match exportPage R caches cancelled op record state pageSize offset w with
    | .error e => .error e
    | .ok page =>
      let w := (w.turned page).put (entryTexts i page.entries)
      match page.next with
      | some n =>
        if offset < n ∧ n < total then writeMapPages total n (i + page.entries.length) w
        else .ok (w.put ['}'])
      | none => .ok (w.put ['}'])
  else .ok (w.put ['}'])
  termination_by total - offset

/-- Write the value of a state of a record, a page of `pageSize` entries at a time. -/
def writeStateValueBy (stateType : Text) (w : Output) : Except Text Output :=
  let carried := record.entries.filter fun e => e.state == state
  let rest := ((record.truncated.find? fun t => t.state == state).map (·.total)).filter
    fun total => carried.length < total
  let w := { w with held := carried.length }
  if stateType ≠ "MAP".toList then
    match stateValue stateType carried with
    | some v => .ok (w.put (jsonText v))
    | none => writeFirst R caches cancelled op record state pageSize (rest.getD 0) carried.length w
  else if carried.isEmpty && rest.isNone then .ok (w.put (jsonText .null))
  else
    writeMapPages R caches cancelled op record state pageSize (rest.getD 0) carried.length
      carried.length (w.put ('{' :: entryTexts 0 carried))

end Write

/-- Write the value of a state of a record. -/
def writeStateValue (R : StateReader) (caches : Nat → BlockCache) (cancelled : Nat → Bool)
    (op : Text) (record : KeyRecord) (state stateType : Text) (w : Output) : Except Text Output :=
  writeStateValueBy R caches cancelled op record state exportEntryPage stateType w

/-! ### The text of the whole value -/

/-- The members of the object that some entries of a MAP make, in on-disk order. -/
def mapMembers (entries : List StateEntry) : List (Text × Json) :=
  entries.zipIdx.map fun e => (mapKeyOf e.1 e.2, e.1.value)

/-- What is written for a key whose entries of a state are all at hand. -/
def stateText (stateType : Text) (entries : List StateEntry) : Text :=
  if stateType = "MAP".toList ∧ entries ≠ [] then '{' :: membersText (mapMembers entries) ++ ['}']
  else jsonText ((stateValue stateType entries).getD .null)

theorem entryTexts_append (i : Nat) (es es' : List StateEntry) :
    entryTexts i (es ++ es') = entryTexts i es ++ entryTexts (i + es.length) es' := by
  induction es generalizing i with
  | nil => rfl
  | cons e es ih =>
    have hnext : i + (e :: es).length = i + 1 + es.length := by
      rw [List.length_cons]
      omega
    rw [List.cons_append, entryTexts, entryTexts, ih, hnext]
    simp only [List.append_assoc, List.cons_append]

theorem entryTexts_succ (i : Nat) (es : List StateEntry) (hne : es ≠ []) :
    entryTexts (i + 1) es
      = ',' :: membersText ((es.zipIdx (i + 1)).map fun e => (mapKeyOf e.1 e.2, e.1.value)) := by
  induction es generalizing i with
  | nil => exact absurd rfl hne
  | cons e es ih =>
    rw [entryTexts, if_pos (Nat.succ_pos i), List.zipIdx_cons, List.map_cons]
    cases es with
    | nil => simp [entryTexts, membersText, jsonText]
    | cons e' es =>
      rw [ih (i + 1) (List.cons_ne_nil _ _), List.zipIdx_cons, List.map_cons, membersText]
      simp [jsonText]

/-- Entries written one by one are the members of an object. -/
theorem entryTexts_zero (es : List StateEntry) :
    entryTexts 0 es = membersText (mapMembers es) := by
  unfold mapMembers
  cases es with
  | nil => rfl
  | cons e es =>
    rw [entryTexts, if_neg (Nat.lt_irrefl 0), List.zipIdx_cons, List.map_cons]
    cases es with
    | nil => simp [entryTexts, membersText, jsonText]
    | cons e' es =>
      rw [entryTexts_succ 0 _ (List.cons_ne_nil _ _), List.zipIdx_cons, List.map_cons, membersText]
      simp [jsonText]

/-- The object of a MAP is what its members give when they are inserted one by one. -/
theorem stateValue_map {entries : List StateEntry} (hne : entries ≠ []) :
    stateValue "MAP".toList entries = some (.object (membersInto [] (mapMembers entries))) := by
  have hempty : ¬ entries.isEmpty = true := by simpa using hne
  rw [stateValue, if_pos rfl, if_neg hempty, membersInto, mapMembers, List.foldl_map]

/-! ### The loops -/

/-- A page of the entries of a state, read from an offset on; it holds one entry or more. -/
structure PageFrom (pageSize : Nat) (all : List StateEntry) (offset : Nat) (page : EntryPage) :
    Prop where
  entries_eq : page.entries = (all.drop offset).take (max pageSize 1)
  next_eq : page.next = if offset + page.entries.length < all.length
    then some (offset + page.entries.length) else none

namespace PageFrom

variable {pageSize : Nat} {all : List StateEntry} {offset : Nat} {page : EntryPage}

theorem length_eq (h : PageFrom pageSize all offset page) :
    page.entries.length = min (max pageSize 1) (all.length - offset) := by
  rw [h.entries_eq, List.length_take, List.length_drop]

theorem length_le (h : PageFrom pageSize all offset page) : page.entries.length ≤ max pageSize 1 := by
  rw [h.length_eq]
  exact min_le_left _ _

/-- A page before the end holds something: the loop goes on. -/
theorem length_pos (h : PageFrom pageSize all offset page) (hmore : offset < all.length) :
    0 < page.entries.length := by
  have hpage : 0 < max pageSize 1 := lt_max_of_lt_right Nat.one_pos
  rw [h.length_eq]
  omega

/-- What is left is the page, and what is left after it. -/
theorem append_drop (h : PageFrom pageSize all offset page) :
    page.entries ++ all.drop (offset + page.entries.length) = all.drop offset := by
  by_cases hfull : max pageSize 1 ≤ all.length - offset
  · rw [h.length_eq, min_eq_left hfull, h.entries_eq, ← List.drop_drop, List.take_append_drop]
  · have hlength := h.length_eq
    have hlast : all.drop (offset + page.entries.length) = [] :=
      List.drop_eq_nil_of_le (by omega)
    rw [hlast, List.append_nil, h.entries_eq, List.take_of_length_le]
    rw [List.length_drop]
    omega

end PageFrom

section Loops

variable {R : StateReader} {caches : Nat → BlockCache} {cancelled : Nat → Bool} {op : Text}
  {record : KeyRecord} {state : Text} {pageSize : Nat}
  {all : List StateEntry}

/-- **The loop over a MAP's pages** writes the entries that are left, and holds one page of them. -/
theorem writeMapPages_eq
    (hpages : ∀ offset w, ∃ page,
      exportPage R caches cancelled op record state pageSize offset w = .ok page
        ∧ PageFrom pageSize all offset page) (offset : Nat) (w : Output) :
    ∃ out, writeMapPages R caches cancelled op record state pageSize all.length offset offset w
        = .ok out
      ∧ out.text = w.text ++ (entryTexts offset (all.drop offset) ++ ['}'])
      ∧ out.held ≤ max w.held (max pageSize 1) := by
  induction hleft : all.length - offset using Nat.strong_induction_on generalizing offset w with
  | _ left ih =>
    rw [writeMapPages]
    by_cases hmore : offset < all.length
    · obtain ⟨page, hpage, hfrom⟩ := hpages offset w
      have hpos := hfrom.length_pos hmore
      have hheld : (w.turned page).held ≤ max w.held (max pageSize 1) :=
        max_le_max le_rfl hfrom.length_le
      rw [if_pos hmore, hpage, ← hfrom.append_drop, entryTexts_append]
      dsimp only
      by_cases hgoes : offset + page.entries.length < all.length
      · rw [hfrom.next_eq, if_pos hgoes]
        dsimp only
        rw [if_pos ⟨by omega, hgoes⟩]
        obtain ⟨out, hout, htext, hheld'⟩ := ih (all.length - (offset + page.entries.length))
          (by omega) (offset + page.entries.length)
          ((w.turned page).put (entryTexts offset page.entries)) rfl
        refine ⟨out, hout, ?_, hheld'.trans (max_le hheld (le_max_right _ _))⟩
        rw [htext]
        simp [Output.put, Output.turned]
      · -- the last page
        rw [hfrom.next_eq, if_neg hgoes, List.drop_eq_nil_of_le (not_lt.mp hgoes)]
        refine ⟨_, rfl, ?_, hheld⟩
        simp [Output.put, Output.turned, entryTexts]
    · rw [if_neg hmore, List.drop_eq_nil_of_le (not_lt.mp hmore)]
      exact ⟨_, rfl, rfl, le_max_left _ _⟩

/-- **The loop that looks for a value** writes the first one that is left, or `null`. -/
theorem writeFirst_eq
    (hpages : ∀ offset w, ∃ page,
      exportPage R caches cancelled op record state pageSize offset w = .ok page
        ∧ PageFrom pageSize all offset page) (offset : Nat) (w : Output) :
    ∃ out, writeFirst R caches cancelled op record state pageSize all.length offset w = .ok out
      ∧ out.text = w.text ++ jsonText
          ((((all.drop offset).find? fun e => !e.raw.isEmpty).map (·.value)).getD .null)
      ∧ out.held ≤ max w.held (max pageSize 1) := by
  induction hleft : all.length - offset using Nat.strong_induction_on generalizing offset w with
  | _ left ih =>
    rw [writeFirst]
    by_cases hmore : offset < all.length
    · obtain ⟨page, hpage, hfrom⟩ := hpages offset w
      have hpos := hfrom.length_pos hmore
      have hheld : (w.turned page).held ≤ max w.held (max pageSize 1) :=
        max_le_max le_rfl hfrom.length_le
      rw [if_pos hmore, hpage, ← hfrom.append_drop, List.find?_append]
      dsimp only
      cases page.entries.find? fun e => !e.raw.isEmpty with
      | some e => exact ⟨_, rfl, rfl, hheld⟩
      | none =>
        rw [Option.none_or]
        by_cases hgoes : offset + page.entries.length < all.length
        · rw [hfrom.next_eq, if_pos hgoes]
          dsimp only
          rw [if_pos ⟨by omega, hgoes⟩]
          obtain ⟨out, hout, htext, hheld'⟩ := ih (all.length - (offset + page.entries.length))
            (by omega) (offset + page.entries.length) (w.turned page) rfl
          exact ⟨out, hout, htext, hheld'.trans (max_le hheld (le_max_right _ _))⟩
        · rw [hfrom.next_eq, if_neg hgoes, List.drop_eq_nil_of_le (not_lt.mp hgoes)]
          exact ⟨_, rfl, rfl, hheld⟩
    · rw [if_neg hmore, List.drop_eq_nil_of_le (not_lt.mp hmore)]
      exact ⟨_, rfl, rfl, le_max_left _ _⟩

/-- A value written from a record that carries the first `limit` entries and, when there are more,
    says how many. -/
theorem writeStateValueBy_of {limit : Nat}
    (hcarried : (record.entries.filter fun e => e.state == state) = all.take limit)
    (htotal : ((record.truncated.find? fun t => t.state == state).map (·.total))
      = if limit < all.length then some all.length else none)
    (hpages : limit < all.length → ∀ offset w, ∃ page,
      exportPage R caches cancelled op record state pageSize offset w = .ok page
        ∧ PageFrom pageSize all offset page)
    (stateType : Text) (w : Output) :
    ∃ out, writeStateValueBy R caches cancelled op record state pageSize stateType w = .ok out
      ∧ out.text = w.text ++ stateText stateType all ∧ out.held ≤ max limit (max pageSize 1) := by
  unfold writeStateValueBy
  rw [hcarried, htotal]
  by_cases hover : limit < all.length
  · -- pages follow what the record carries
    have hlength : (all.take limit).length = limit := by
      rw [List.length_take, min_eq_left hover.le]
    have hne : all ≠ [] := List.ne_nil_of_length_pos (Nat.zero_lt_of_lt hover)
    rw [if_pos hover]
    dsimp only
    rw [Option.filter_some, hlength, if_pos (decide_eq_true hover)]
    dsimp only [Option.getD_some]
    by_cases hmap : stateType = "MAP".toList
    · obtain ⟨out, hout, htext, hheld⟩ := writeMapPages_eq (hpages hover) limit
        ({ w with held := limit }.put ('{' :: entryTexts 0 (all.take limit)))
      rw [if_neg (not_not.mpr hmap), Option.isNone_some, Bool.and_false, if_neg Bool.false_ne_true]
      refine ⟨out, hout, ?_, hheld⟩
      have hentries : entryTexts 0 all
          = entryTexts 0 (all.take limit) ++ entryTexts limit (all.drop limit) := by
        rw [← List.take_append_drop limit all, entryTexts_append, List.take_append_drop, hlength,
          Nat.zero_add]
      rw [htext, stateText, if_pos ⟨hmap, hne⟩, ← entryTexts_zero, hentries]
      simp [Output.put]
    · rw [if_pos hmap, stateText, if_neg fun h => hmap h.1]
      unfold stateValue
      rw [if_neg hmap, if_neg hmap]
      have hfind : all.find? (fun e => !e.raw.isEmpty)
          = ((all.take limit).find? fun e => !e.raw.isEmpty).or
              ((all.drop limit).find? fun e => !e.raw.isEmpty) := by
        rw [← List.find?_append, List.take_append_drop]
      rw [hfind]
      cases (all.take limit).find? fun e => !e.raw.isEmpty with
      | some e => exact ⟨_, rfl, rfl, le_max_left _ _⟩
      | none =>
        obtain ⟨out, hout, htext, hheld⟩ :=
          writeFirst_eq (hpages hover) limit { w with held := limit }
        exact ⟨out, hout, htext, hheld⟩
  · -- the record carries them all
    have hall : all.take limit = all := List.take_of_length_le (not_lt.mp hover)
    have hheld : all.length ≤ max limit (max pageSize 1) := (not_lt.mp hover).trans (le_max_left _ _)
    rw [if_neg hover, hall]
    dsimp only [Option.filter_none, Option.getD_none]
    by_cases hmap : stateType = "MAP".toList
    · rw [if_neg (not_not.mpr hmap), Option.isNone_none, Bool.and_true]
      cases all with
      | nil =>
        have hnull : stateText stateType [] = jsonText .null := by
          rw [stateText, if_neg fun h => h.2 rfl, stateValue, if_pos hmap]
          rfl
        rw [List.isEmpty_nil, if_pos rfl, hnull]
        exact ⟨_, rfl, rfl, hheld⟩
      | cons e es =>
        rw [List.isEmpty_cons, if_neg Bool.false_ne_true, writeMapPages, if_neg (Nat.not_lt_zero _),
          stateText, if_pos ⟨hmap, List.cons_ne_nil _ _⟩, ← entryTexts_zero]
        refine ⟨_, rfl, ?_, hheld⟩
        simp [Output.put]
    · rw [if_pos hmap, stateText, if_neg fun h => hmap h.1]
      cases stateValue stateType all with
      | some v => exact ⟨_, rfl, rfl, hheld⟩
      | none =>
        dsimp only
        rw [writeFirst, if_neg (Nat.not_lt_zero _)]
        exact ⟨_, rfl, rfl, hheld⟩

end Loops

/-! ### A key of the savepoint -/

/-- A key at its place in the block of a key-group that was read. -/
structure StateReader.KeyAt (R : StateReader) (C : CharText) (op : Text) (o : OpenOperator)
    (s : SubtaskStream) (kg : Int) (header : SubtaskHeader) (ord : Nat) (raw : RawKey) : Prop where
  operator_eq : R.operator op = .ok o
  regular : o.Regular
  stream_mem : s ∈ o.ctx.streams
  has : (ReadUnit.stream s).Has kg
  resolved : header.Resolved C
  ordinal_lt : ord < 2 ^ 32
  read : ∃ block, R.contentOf o s kg = .ok (some (header, block)) ∧ block.keys[ord]? = some raw

/-- Every entry of a key, decoded. -/
def StateReader.wholeEntries (R : StateReader) (header : SubtaskHeader) (raw : RawKey) :
    List StateEntry :=
  raw.entries.zipIdx.map fun e => entryOf R.host.floats R.proto header e.2 e.1

/-- The entries of a key for the state of some name. -/
def StateReader.entriesNamed (R : StateReader) (header : SubtaskHeader) (raw : RawKey)
    (state : Text) : List StateEntry :=
  (R.wholeEntries header raw).filter fun e => e.state == state

section Key

variable {R : StateReader} {C : CharText} {op : Text} {o : OpenOperator} {s : SubtaskStream}
  {kg : Int} {header : SubtaskHeader} {ord : Nat} {raw : RawKey}

theorem stateEntriesFrom_eq {id : UInt16}
    (hlabel : ∀ id', header.stateLabel id' = header.stateLabel id → id' = id) (i : Nat)
    (es : List KeyedEntry) :
    R.stateEntriesFrom header id i es
      = ((es.zipIdx i).map fun e => entryOf R.host.floats R.proto header e.2 e.1).filter
          fun e => e.state == header.stateLabel id := by
  induction es generalizing i with
  | nil => rfl
  | cons e es ih =>
    rw [StateReader.stateEntriesFrom, List.zipIdx_cons, List.map_cons, List.filter_cons,
      state_entryOf, ih]
    by_cases hid : e.stateId = id
    · rw [if_pos hid, hid, if_pos (beq_self_eq_true _)]
    · have hother : ¬ (header.stateLabel e.stateId == header.stateLabel id) = true :=
        fun h => hid (hlabel _ (eq_of_beq h))
      rw [if_neg hid, if_neg hother]

/-- The entries of a state that the header describes. -/
theorem entriesNamed_label (hnames : NamesOk C (header.states.map (·.name))) (id : UInt16) :
    R.entriesNamed header raw (header.stateLabel id) = R.stateEntries header id raw :=
  (stateEntriesFrom_eq (fun _ h => stateLabel_inj hnames h) 0 raw.entries).symm

/-- A record carries the first entries of each state. -/
theorem carried_eq (hnames : NamesOk C (header.states.map (·.name))) (id : UInt16) :
    ((R.record s header kg ord raw).entries.filter fun e => e.state == header.stateLabel id)
      = (R.stateEntries header id raw).take R.entryLimit := by
  rw [entries_record, filter_recordEntries fun id' h => stateLabel_inj hnames h, seen_nil,
    Nat.sub_zero]
  rfl

/-- The total that a record gives for a state it cuts. -/
theorem truncated_find (hnames : NamesOk C (header.states.map (·.name))) (id : UInt16) :
    (((R.record s header kg ord raw).truncated.find? fun t => t.state == header.stateLabel id).map
        (·.total))
      = if R.entryLimit < (R.stateEntries header id raw).length
        then some (R.stateEntries header id raw).length else none := by
  have hown {t : Truncated} (ht : t ∈ (R.record s header kg ord raw).truncated)
      (hstate : t.state = header.stateLabel id) :
      R.entryLimit < (R.stateEntries header id raw).length
        ∧ t.total = (R.stateEntries header id raw).length := by
    obtain ⟨id', hover, rfl⟩ := mem_truncated.mp ht
    obtain rfl := stateLabel_inj hnames hstate
    exact ⟨hover, rfl⟩
  cases hfind : (R.record s header kg ord raw).truncated.find? fun t =>
      t.state == header.stateLabel id with
  | some t =>
    have hstate : t.state = header.stateLabel id := eq_of_beq
      (List.find?_some (p := fun t : Truncated => t.state == header.stateLabel id) hfind)
    obtain ⟨hover, htotal⟩ := hown (List.mem_of_find?_eq_some hfind) hstate
    rw [if_pos hover, Option.map_some, htotal]
  | none =>
    have hnone := List.find?_eq_none.mp hfind
    have hwhole : ¬ R.entryLimit < (R.stateEntries header id raw).length := by
      intro hover
      exact hnone _ (mem_truncated.mpr ⟨id, hover, rfl⟩) (beq_self_eq_true _)
    rw [if_neg hwhole, Option.map_none]

/-- A page of a state that the header describes. -/
theorem StateReader.KeyAt.exportPage (h : R.KeyAt C op o s kg header ord raw)
    {caches : Nat → BlockCache} (hcaches : ∀ n, R.Reached (caches n)) {cancelled : Nat → Bool}
    (hgo : ∀ n, cancelled n = false) {id : UInt16} (hid : id.toNat < header.states.length)
    (pageSize offset : Nat) (w : Output) :
    ∃ page, FlinkExplorer.exportPage R caches cancelled op (R.record s header kg ord raw)
        (header.stateLabel id) pageSize offset w = .ok page
      ∧ PageFrom pageSize (R.stateEntries header id raw) offset page := by
  obtain ⟨block, hcontent, hraw⟩ := h.read
  obtain ⟨stats, hcall⟩ := entries_eq h.operator_eq h.regular h.stream_mem h.has hcontent hraw
    h.ordinal_lt (hcaches w.calls) (header.stateLabel id) offset pageSize
  have hfound : R.entriesOf o header raw (header.stateLabel id) offset (max pageSize 1)
      = .ok (header.stateLabel id, ((R.stateEntries header id raw).drop offset).take
          (max pageSize 1), (R.stateEntries header id raw).length) := by
    have hlimit : offset + max pageSize 1 - max offset 0 = max pageSize 1 := by omega
    unfold StateReader.entriesOf
    rw [stateId_stateLabel h.resolved.namesOk hid]
    dsimp only
    rw [pageEntries_eq, Nat.sub_zero, hlimit, Nat.zero_add]
    rfl
  rw [hfound] at hcall
  have hposition : (R.record s header kg ord raw).position
      = ⟨s.subtaskIndex, UInt16.ofInt kg, UInt32.ofNat ord⟩ := rfl
  unfold FlinkExplorer.exportPage
  rw [hgo, if_neg Bool.false_ne_true, hposition, hcall]
  exact ⟨_, rfl, rfl, rfl⟩

/-- A name that the header does not describe labels no entry of the key. -/
theorem stateLabel_ne {state : Text} (hhash : state.head? ≠ some '#')
    (hname : ∀ id : UInt16, id.toNat < header.states.length → header.stateLabel id ≠ state)
    (id : UInt16) : header.stateLabel id ≠ state := by
  by_cases hid : id.toNat < header.states.length
  · exact hname id hid
  · rw [stateLabel_of_not_lt hid]
    rintro rfl
    exact hhash rfl

theorem entriesNamed_unknown {state : Text} (hnone : ∀ id, header.stateLabel id ≠ state) :
    R.entriesNamed header raw state = [] := by
  refine List.filter_eq_nil_iff.mpr fun e he => ?_
  obtain ⟨⟨e', i⟩, -, rfl⟩ := List.mem_map.mp he
  rw [state_entryOf]
  exact fun h => hnone _ (eq_of_beq h)

/-- An entry that a record carries is one of the key's. -/
theorem mem_recordEntries {e : StateEntry} {i : Nat} {counts : List (UInt16 × Nat)}
    {es : List KeyedEntry} (h : e ∈ (R.recordEntries header i counts es).1) :
    ∃ id, e.state = header.stateLabel id := by
  induction es generalizing i counts with
  | nil => exact absurd h List.not_mem_nil
  | cons e' es ih =>
    rw [StateReader.recordEntries] at h
    split at h
    · rcases List.mem_cons.mp h with rfl | h
      · exact ⟨_, state_entryOf i e'⟩
      · exact ih h
    · exact ih h

/-- **The text written for a state of a key** is the one that all its entries would give, though no
    more of them are held than a record or a page carries. -/
theorem writeStateValueBy_eq (h : R.KeyAt C op o s kg header ord raw) {caches : Nat → BlockCache}
    (hcaches : ∀ n, R.Reached (caches n)) {cancelled : Nat → Bool}
    (hgo : ∀ n, cancelled n = false) {state : Text} (hhash : state.head? ≠ some '#')
    (pageSize : Nat) (stateType : Text) (w : Output) :
    ∃ out, writeStateValueBy R caches cancelled op (R.record s header kg ord raw) state pageSize
        stateType w = .ok out
      ∧ out.text = w.text ++ stateText stateType (R.entriesNamed header raw state)
      ∧ out.held ≤ max R.entryLimit (max pageSize 1) := by
  have hnames := h.resolved.namesOk
  by_cases hname : ∃ id : UInt16, id.toNat < header.states.length ∧ header.stateLabel id = state
  · obtain ⟨id, hid, rfl⟩ := hname
    rw [entriesNamed_label hnames]
    exact writeStateValueBy_of (carried_eq hnames id) (truncated_find hnames id)
      (fun _ => h.exportPage hcaches hgo hid pageSize) stateType w
  · have hnone := stateLabel_ne hhash fun id hid heq => hname ⟨id, hid, heq⟩
    rw [entriesNamed_unknown hnone]
    refine writeStateValueBy_of ?_ ?_ (fun hover => absurd hover (Nat.not_lt_zero _)) stateType w
    · refine (List.filter_eq_nil_iff.mpr fun e he => ?_).trans List.take_nil.symm
      obtain ⟨id, hid⟩ := mem_recordEntries he
      rw [hid]
      exact fun heq => hnone _ (eq_of_beq heq)
    · rw [List.length_nil, if_neg (Nat.not_lt_zero _), Option.map_eq_none_iff]
      refine List.find?_eq_none.mpr fun t ht => ?_
      obtain ⟨id, -, rfl⟩ := mem_truncated.mp ht
      exact fun heq => hnone _ (eq_of_beq heq)

theorem writeStateValue_eq (h : R.KeyAt C op o s kg header ord raw) {caches : Nat → BlockCache}
    (hcaches : ∀ n, R.Reached (caches n)) {cancelled : Nat → Bool}
    (hgo : ∀ n, cancelled n = false) {state : Text} (hhash : state.head? ≠ some '#')
    (stateType : Text) (w : Output) :
    ∃ out, writeStateValue R caches cancelled op (R.record s header kg ord raw) state stateType w
        = .ok out
      ∧ out.text = w.text ++ stateText stateType (R.entriesNamed header raw state)
      ∧ out.held ≤ max R.entryLimit exportEntryPage :=
  writeStateValueBy_eq h hcaches hgo hhash exportEntryPage stateType w

/-- Every value the reader shows is read back as it prints. -/
theorem canonical_entryOf {F : FloatText} (hF : F.Readable) (proto : Option ProtoContext)
    (header : SubtaskHeader) (i : Nat) (e : KeyedEntry) :
    (entryOf F proto header i e).value.Canonical := by
  unfold entryOf
  cases header.states[e.stateId.toNat]? with
  | none => exact canonical_undecodable _
  | some st =>
    show (decodeEntryValue F proto st e.namespaceBytes e.value i).2.Canonical
    unfold decodeEntryValue
    split
    · exact canonical_decodeMapEntry hF proto e.namespaceBytes e.value st.mapKeyType st.mapValueType
        st.pojo i
    · exact canonical_decodeStateValue hF proto _ _ _

theorem canonical_entriesNamed (hF : R.host.floats.Readable) {state : Text} {e : StateEntry}
    (he : e ∈ R.entriesNamed header raw state) : e.value.Canonical := by
  obtain ⟨he, -⟩ := List.mem_filter.mp he
  obtain ⟨⟨e', i⟩, -, rfl⟩ := List.mem_map.mp he
  exact canonical_entryOf hF R.proto header i e'

end Key

/-- The text of the whole value is read as the value. -/
theorem readsAs_stateText (stateType : Text) {entries : List StateEntry}
    (hvalues : ∀ e ∈ entries, e.value.Canonical) :
    ReadsAs (stateText stateType entries) ((stateValue stateType entries).getD .null) := by
  unfold stateText
  by_cases hmap : stateType = "MAP".toList ∧ entries ≠ []
  · obtain ⟨rfl, hne⟩ := hmap
    rw [if_pos ⟨rfl, hne⟩, stateValue_map hne]
    refine readsAs_membersText fun m hm => ?_
    obtain ⟨⟨e, i⟩, he, rfl⟩ := List.mem_map.mp hm
    exact hvalues e (List.fst_mem_of_mem_zipIdx he)
  · rw [if_neg hmap]
    apply ReadsAs.of_canonical
    unfold stateValue
    split
    · rename_i hstate
      have hempty : entries = [] := by
        by_contra hne
        exact hmap ⟨hstate, hne⟩
      rw [hempty]
      exact canonical_null
    · cases hfind : entries.find? fun e => !e.raw.isEmpty with
      | none => exact canonical_null
      | some e => exact hvalues e (List.mem_of_find?_eq_some hfind)

/-- The text of the value of a state of a key is read as that value. -/
theorem parseJson_stateText {R : StateReader} (hF : R.host.floats.Readable) (header : SubtaskHeader)
    (raw : RawKey) (state stateType : Text) :
    parseJson (stateText stateType (R.entriesNamed header raw state))
      = some ((stateValue stateType (R.entriesNamed header raw state)).getD .null) := by
  have hvalues : ∀ e ∈ R.entriesNamed header raw state, e.value.Canonical :=
    fun e he => canonical_entriesNamed hF he
  have hread := (readsAs_stateText stateType hvalues).parseJson (nofun : Blank [])
  rw [List.append_nil] at hread
  exact hread

/-- **The value streamed for a state of a key is read as the one `stateValue` makes of all its
    entries**, wherever the record and the pages cut them. -/
theorem writeStateValue_reads {R : StateReader} {C : CharText} {op : Text} {o : OpenOperator}
    {s : SubtaskStream} {kg : Int} {header : SubtaskHeader} {ord : Nat} {raw : RawKey}
    (hF : R.host.floats.Readable) (h : R.KeyAt C op o s kg header ord raw)
    {caches : Nat → BlockCache} (hcaches : ∀ n, R.Reached (caches n)) {cancelled : Nat → Bool}
    (hgo : ∀ n, cancelled n = false) {state : Text} (hhash : state.head? ≠ some '#')
    (stateType : Text) :
    ∃ out, writeStateValue R caches cancelled op (R.record s header kg ord raw) state stateType
        ⟨[], 0, [], 0⟩ = .ok out
      ∧ parseJson out.text
        = some ((stateValue stateType (R.entriesNamed header raw state)).getD .null)
      ∧ out.held ≤ max R.entryLimit exportEntryPage := by
  obtain ⟨out, hout, htext, hheld⟩ := writeStateValue_eq h hcaches hgo hhash stateType ⟨[], 0, [], 0⟩
  refine ⟨out, hout, ?_, hheld⟩
  rw [htext, List.nil_append]
  exact parseJson_stateText hF header raw state stateType

/-- The key 7 of the savepoint with two entries. -/
theorem keyAt_cutReader : (cutReader 0).KeyAt asciiText "01".toList (cutOperator 0) (cutStream 0) 0
    cutHeader 0 (cutKey 0) :=
  ⟨rfl, regular_cutOperator 0, List.mem_cons_self, ⟨le_rfl, le_rfl⟩, resolved_cutHeader, by decide,
    _, content_cutReader, rfl⟩

theorem readable_cutReader : (cutReader 0).host.floats.Readable :=
  ⟨fun _ _ h => (by cases h), fun _ _ h => (by cases h)⟩

/-- Two entries, of which the record carries one: the second comes from a page. -/
theorem writeStateValue_reads_cut :
    ∃ out, writeStateValue (cutReader 0) (fun _ => .empty 0) (fun _ => false) "01".toList
        ((cutReader 0).record (cutStream 0) cutHeader 0 0 (cutKey 0)) "n".toList "MAP".toList
        ⟨[], 0, [], 0⟩ = .ok out
      ∧ parseJson out.text = some ((stateValue "MAP".toList
          ((cutReader 0).entriesNamed cutHeader (cutKey 0) "n".toList)).getD .null)
      ∧ out.held ≤ 10000 := by
  exact writeStateValue_reads readable_cutReader keyAt_cutReader (fun _ => ⟨0, [], rfl⟩) (fun _ => rfl) (by decide) _

/-- **A page may have any size**: the value of a registered state, whatever its kind, is read as the
    one that all the key's entries of the state give. -/
theorem writeStateValueBy_reads {R : StateReader} {C : CharText} {op : Text} {o : OpenOperator}
    {s : SubtaskStream} {kg : Int} {header : SubtaskHeader} {ord : Nat} {raw : RawKey}
    (hF : R.host.floats.Readable) (h : R.KeyAt C op o s kg header ord raw)
    {caches : Nat → BlockCache} (hcaches : ∀ n, R.Reached (caches n)) {cancelled : Nat → Bool}
    (hgo : ∀ n, cancelled n = false) {state : Text} (hstate : state ∈ header.states.map (·.name))
    (pageSize : Nat) (stateType : Text) :
    ∃ out, writeStateValueBy R caches cancelled op (R.record s header kg ord raw) state pageSize
        stateType ⟨[], 0, [], 0⟩ = .ok out
      ∧ parseJson out.text
        = some ((stateValue stateType (R.entriesNamed header raw state)).getD .null) := by
  have hhash : state.head? ≠ some '#' := by
    intro hhead
    obtain ⟨rest, rfl⟩ := List.head?_eq_some_iff.mp hhead
    exact not_hash (h.resolved.namesOk.valid _ hstate) rest rfl
  obtain ⟨out, hout, htext, -⟩ :=
    writeStateValueBy_eq h hcaches hgo hhash pageSize stateType ⟨[], 0, [], 0⟩
  refine ⟨out, hout, ?_⟩
  rw [htext, List.nil_append]
  exact parseJson_stateText hF header raw state stateType

theorem writeStateValueBy_reads_single :
    ∃ out, writeStateValueBy (cutReader 0) (fun _ => .empty 0) (fun _ => false) "01".toList
        ((cutReader 0).record (cutStream 0) cutHeader 0 0 (cutKey 0)) "n".toList 1 "MAP".toList
        ⟨[], 0, [], 0⟩ = .ok out
      ∧ parseJson out.text = some ((stateValue "MAP".toList
          ((cutReader 0).entriesNamed cutHeader (cutKey 0) "n".toList)).getD .null) :=
  writeStateValueBy_reads readable_cutReader keyAt_cutReader (fun _ => ⟨0, [], rfl⟩) (fun _ => rfl)
    (by decide) 1 _

/-! ### A key-group that is none of the operator's -/

/-- One state, a MAP of ints by ints. -/
def mapHeader : SubtaskHeader :=
  { sampleHeader with
    states := [⟨"n".toList, "MAP".toList, "Map<Int, Int>".toList, none, none, "Int".toList,
      "Int".toList⟩]
    stateTypes := ["MAP".toList]
    layouts := [⟨some 1, some "Int".toList⟩] }

/-- Key-group 1, with two entries of the key 7. -/
def strayStream : SubtaskStream :=
  { sampleStream with
    startKeyGroup := 1
    src := .inline [0, 0, 0,
      0, 0, 0, 10, 1, 0, 0, 0, 7, 0, 0, 0, 0, 1, 0, 0, 0, 5, 0, 0, 0, 0, 9,
      0, 0, 0, 10, 0x81, 0, 0, 0, 7, 0, 0, 0, 0, 2, 0, 0, 0, 5, 0, 0, 0, 0, 8, 0xFF, 0xFF]
    header := .ok mapHeader }

/-- Its one key-group should be 0. -/
def strayOperator : OpenOperator := ⟨[1], 1, 1, ⟨0, [strayStream], [], List.nodup_singleton _⟩⟩

def strayReader : StateReader :=
  { sampleReader 1 with
    operators := [strayOperator]
    entryLimit := 1
    entryLimit_pos := Nat.one_pos
    opIndex_eq := by
      intro i o h
      rcases i with _ | i
      · cases h
        rfl
      · cases h }

/-- No page follows the record of a key in a key-group past the operator's: the rest of its MAP is
    not written. -/
theorem writeStateValueBy_stray :
    ∃ page record, (strayReader.keyPage "01".toList Cursor.start 1 (.empty 0)).1 = .ok page
      ∧ page.found = [record] ∧ record.key = "7".toList
      ∧ record.truncated = [⟨"n".toList, 2, 1⟩]
      ∧ ∀ pageSize, ∃ e, writeStateValueBy strayReader (fun _ => .empty 0) (fun _ => false)
          "01".toList record "n".toList pageSize "MAP".toList ⟨[], 0, [], 0⟩ = .error e := by
  have hpage : (strayReader.keyPage "01".toList Cursor.start 1 (.empty 0)).1.toOption.any (fun page =>
      page.found.length = 1 ∧ page.found.all fun r => r.key = "7".toList ∧ r.position = ⟨0, 1, 0⟩
        ∧ r.truncated = [⟨"n".toList, 2, 1⟩]
        ∧ (r.entries.filter fun e => e.state == "n".toList).length = 1) = true := by decide +kernel
  rcases hcall : (strayReader.keyPage "01".toList Cursor.start 1 (.empty 0)).1 with e | page
  · rw [hcall] at hpage
    cases hpage
  rw [hcall] at hpage
  obtain ⟨hlength, hall⟩ := of_decide_eq_true hpage
  obtain ⟨record, hrecord⟩ := List.length_eq_one_iff.mp hlength
  rw [hrecord, List.all_cons, List.all_nil, Bool.and_true] at hall
  obtain ⟨hkey, hposition, htruncated, hcarried⟩ := of_decide_eq_true hall
  refine ⟨page, record, rfl, hrecord, hkey, htruncated, fun pageSize => ?_⟩
  -- the cursor of the record is refused, whatever is asked for behind it
  have hrefused : ∃ e, (strayReader.entries "01".toList ⟨0, 1, 0⟩ "n".toList 1 pageSize
      (.empty 0)).1 = .error e := ⟨_, rfl⟩
  obtain ⟨e, herror⟩ := hrefused
  have hrest : ((record.truncated.find? fun t => t.state == "n".toList).map (·.total)).filter
      (fun total => decide (1 < total)) = some 2 := by
    rw [htruncated]
    rfl
  refine ⟨ReaderError.text strayReader.host e, ?_⟩
  unfold writeStateValueBy
  dsimp only
  rw [hcarried, hrest]
  rw [if_neg (not_not.mpr rfl), Option.isNone_some, Bool.and_false, if_neg Bool.false_ne_true,
    Option.getD_some, writeMapPages, if_pos (by decide)]
  unfold exportPage
  rw [if_neg Bool.false_ne_true, hposition]
  dsimp only [Output.put]
  rw [herror]
  rfl

end FlinkExplorer
