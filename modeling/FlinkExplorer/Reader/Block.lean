import FlinkExplorer.Parser.KeyGroupBlock

namespace FlinkExplorer

open Lib

/-!
# `reader/mod.rs` — a block grouped by key

`groupBlock` parses a block and gathers the entries of each key, in the order the keys first
appear.  `groupEntries_eq` says what it gathers: one record for each text, with the entries that
have it.
-/

/-- A key's entries in one block, before decoding; their own `key` is left empty. -/
structure RawKey where
  key : Text
  entries : List KeyedEntry

/-- An entry as a record holds it. -/
def KeyedEntry.withoutKey (e : KeyedEntry) : KeyedEntry := { e with key := [] }

/-- Add an entry to the record of its key, or start one. -/
def groupEntry : List RawKey → KeyedEntry → List RawKey
  | [], e => [⟨e.key, [e.withoutKey]⟩]
  | k :: keys, e =>
    if k.key = e.key then { k with entries := k.entries ++ [e.withoutKey] } :: keys
    else k :: groupEntry keys e

/-- The records of a list of entries. -/
def groupEntries (es : List KeyedEntry) : List RawKey := es.foldl groupEntry []

/-- Parse a whole block and group its entries by key. -/
def groupBlock (F : FloatText) (ctx : KeyGroupParse) (block : Bytes) (keyGroup : UInt16) :
    List RawKey × Option BlockDefect :=
  let parsed := parseKeyGroupBlock ctx F block keyGroup
  (groupEntries parsed.1, parsed.2)

/-! ### What grouping gathers -/

section Group

/-- The record of a key. -/
def recordOf (es : List KeyedEntry) (key : Text) : RawKey :=
  ⟨key, (es.filter fun e => e.key = key).map KeyedEntry.withoutKey⟩

/-- The records that grouping makes of entries whose keys are `ks`, in order of appearance. -/
def recordsOf (es : List KeyedEntry) (ks : List Text) : List RawKey := ks.map (recordOf es)

/-- The texts of a list in the order they first appear. -/
def firstSeen (ks : List Text) (k : Text) : List Text := if k ∈ ks then ks else ks ++ [k]

theorem nodup_firstSeen {ks : List Text} (h : ks.Nodup) (k : Text) : (firstSeen ks k).Nodup := by
  unfold firstSeen
  by_cases hk : k ∈ ks
  · rwa [if_pos hk]
  · rw [if_neg hk, List.nodup_append]
    refine ⟨h, by simp, fun a ha b hb => ?_⟩
    rw [List.mem_singleton] at hb
    rintro rfl
    exact hk (hb ▸ ha)

theorem recordOf_append (es : List KeyedEntry) (e : KeyedEntry) (key : Text) :
    recordOf (es ++ [e]) key
      = if e.key = key then { recordOf es key with
          entries := (recordOf es key).entries ++ [e.withoutKey] }
        else recordOf es key := by
  unfold recordOf
  rw [List.filter_append, List.map_append]
  by_cases h : e.key = key
  · rw [if_pos h, List.filter_singleton]
    simp [h]
  · rw [if_neg h, List.filter_singleton]
    simp [h]

/-- One entry more. -/
theorem groupEntry_recordsOf (es : List KeyedEntry) (ks : List Text) (hnodup : ks.Nodup)
    (e : KeyedEntry) (hkeys : e.key ∉ ks → es.filter (fun e' => e'.key = e.key) = []) :
    groupEntry (recordsOf es ks) e = recordsOf (es ++ [e]) (firstSeen ks e.key) := by
  induction ks with
  | nil =>
    have hnone := hkeys List.not_mem_nil
    have hrecord : recordOf (es ++ [e]) e.key = ⟨e.key, [e.withoutKey]⟩ := by
      rw [recordOf_append, if_pos rfl, recordOf, hnone]
      rfl
    simp only [recordsOf, List.map_nil, groupEntry, firstSeen, List.not_mem_nil, ↓reduceIte,
      List.nil_append, List.map_cons, hrecord]
  | cons k ks ih =>
    have hk := (List.nodup_cons.mp hnodup).1
    by_cases hke : k = e.key
    · -- The key has a record, and no other one.
      subst hke
      have hsame : ∀ k' ∈ ks, recordOf (es ++ [e]) k' = recordOf es k' := by
        intro k' hk'
        rw [recordOf_append, if_neg]
        rintro rfl
        exact hk hk'
      have hseen : firstSeen (e.key :: ks) e.key = e.key :: ks := if_pos List.mem_cons_self
      have hkey : (recordOf es e.key).key = e.key := rfl
      rw [hseen, recordsOf, recordsOf, List.map_cons, List.map_cons, groupEntry, if_pos hkey,
        recordOf_append, if_pos rfl, List.map_congr_left hsame]
    · have hrest := ih (List.nodup_cons.mp hnodup).2 fun h =>
        hkeys fun hmem => (List.mem_cons.mp hmem).elim (fun h' => hke h'.symm) h
      have hhead : recordOf (es ++ [e]) k = recordOf es k := by
        rw [recordOf_append, if_neg fun h => hke h.symm]
      have hseen : firstSeen (k :: ks) e.key = k :: firstSeen ks e.key := by
        unfold firstSeen
        by_cases hmem : e.key ∈ ks
        · rw [if_pos hmem, if_pos (List.mem_cons_of_mem k hmem)]
        · rw [if_neg hmem, if_neg fun h => (List.mem_cons.mp h).elim (fun h' => hke h'.symm) hmem]
          rfl
      have hne : (recordOf es k).key ≠ e.key := hke
      rw [hseen, recordsOf, recordsOf, List.map_cons, List.map_cons, groupEntry, if_neg hne, hhead]
      exact congrArg _ hrest

/-- The keys of a list of entries, in the order they first appear. -/
def keysOf (es : List KeyedEntry) : List Text := es.foldl (fun ks e => firstSeen ks e.key) []

theorem keysOf_append (es : List KeyedEntry) (e : KeyedEntry) :
    keysOf (es ++ [e]) = firstSeen (keysOf es) e.key := by
  simp [keysOf]

/-- Every key appears once. -/
theorem keysOf_spec (es : List KeyedEntry) :
    (keysOf es).Nodup ∧ ∀ k, k ∈ keysOf es ↔ ∃ e ∈ es, e.key = k := by
  induction es using List.reverseRecOn with
  | nil => exact ⟨List.nodup_nil, fun k => by simp [keysOf]⟩
  | append_singleton es e ih =>
    rw [keysOf_append]
    refine ⟨nodup_firstSeen ih.1 e.key, fun k => ?_⟩
    have hmem : k ∈ firstSeen (keysOf es) e.key ↔ k ∈ keysOf es ∨ k = e.key := by
      unfold firstSeen
      by_cases hk : e.key ∈ keysOf es
      · rw [if_pos hk]
        exact ⟨.inl, fun h => h.elim id fun h => h ▸ hk⟩
      · rw [if_neg hk, List.mem_append, List.mem_singleton]
    rw [hmem, ih.2]
    constructor
    · rintro (⟨e', he', rfl⟩ | rfl)
      · exact ⟨e', List.mem_append_left _ he', rfl⟩
      · exact ⟨e, List.mem_append_right _ List.mem_cons_self, rfl⟩
    · rintro ⟨e', he', rfl⟩
      rcases List.mem_append.mp he' with he' | he'
      · exact .inl ⟨e', he', rfl⟩
      · rw [List.mem_singleton] at he'
        exact .inr (by rw [he'])

/-- **Grouping** makes one record for each text, in the order the texts first appear, with the
    entries that have it. -/
theorem groupEntries_eq (es : List KeyedEntry) : groupEntries es = recordsOf es (keysOf es) := by
  induction es using List.reverseRecOn with
  | nil => rfl
  | append_singleton es e ih =>
    have hstep : groupEntries (es ++ [e]) = groupEntry (groupEntries es) e := by
      simp [groupEntries]
    obtain ⟨hnodup, hkeys⟩ := keysOf_spec es
    rw [hstep, ih, keysOf_append]
    refine groupEntry_recordsOf es _ hnodup e fun hnew => ?_
    rw [List.filter_eq_nil_iff]
    intro e' he' hkey
    exact hnew ((hkeys _).mpr ⟨e', he', by simpa using hkey⟩)

end Group

end FlinkExplorer
