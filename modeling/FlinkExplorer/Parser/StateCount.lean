import Mathlib.Data.List.Dedup
import FlinkExplorer.Parser.StateMetadata

namespace FlinkExplorer

open Lib

/-!
# `parser/keyed_state.rs` — the number of states a header registers

Flink writes the number of states in front of the first state record.  `countStatesInHeader` does
not read up to it: it takes the two bytes in front of the earliest record of a state that
`extractStateMetadata` found, and the larger of that and two counts of what it recognises.

* `metaInfoRecords` — one pass over the header for the records of the states that were found;
* `IsStateRecord` — what such a record looks like, at any offset;
* `metaInfoRecords_least` — the least offset of the pass is the least offset that looks like one;
* `le_countStatesInHeader` — when the count is at least some number.
-/

/-! ### Occurrences of a text -/

/-- The occurrences of `needle` from `s` on, none inside another. -/
def findAllFrom (data needle : Bytes) : Nat → Nat → List Nat
  | 0, _ => []
  | turns + 1, s =>
    if s < data.length - needle.length then
      match findBytes data needle s data.length with
      | some p => p :: findAllFrom data needle turns (p + needle.length)
      | none => []
    else []

/-- Every occurrence of `needle`, none inside another. -/
def findAll (data needle : Bytes) : List Nat := findAllFrom data needle data.length 0

/-! ### State records -/

/-- The states' names, as bytes. -/
def nameBytes (metas : List KeyedStateMeta) : List Bytes := metas.map fun m => encodeUtf8 m.name

/-- Whether the ints at `after` are a `backendStateType` and a number of options. -/
def typeAndOptionsAt (data : Bytes) (after : Nat) : Bool :=
  (0 ≤ i32At data after && i32At data after ≤ 3)
    && (0 ≤ i32At data (after + 4) && i32At data (after + 4) ≤ 64)

/-- The state of a record at `p`: its place among `names`, where the first of equal names counts. -/
def stateOfRecord (data : Bytes) (names : List Bytes) (maxLen p : Nat) : Option Nat :=
  let len := u16At data p
  let after := p + 2 + len
  if (1 ≤ len ∧ len ≤ maxLen) ∧ after + 8 ≤ data.length then
    (names.findIdx? (· == slice data (p + 2) len)).filter fun _ => typeAndOptionsAt data after
  else none

/-- The pass from `p` on, with `missing` names not found yet. -/
def metaInfoLoop (data : Bytes) (names : List Bytes) (maxLen : Nat) :
    Nat → Nat → Nat → List (Option Nat) → List (Option Nat)
  | 0, _, _, out => out
  | turns + 1, p, missing, out =>
    if missing > 0 ∧ p + 2 ≤ data.length then
      match stateOfRecord data names maxLen p with
      | some i =>
        if out[i]? = some none then
          metaInfoLoop data names maxLen turns (p + 1) (missing - 1) (out.set i (some p))
        else metaInfoLoop data names maxLen turns (p + 1) missing out
      | none => metaInfoLoop data names maxLen turns (p + 1) missing out
    else out

/-- Where the record of each state starts, if it is found. -/
def metaInfoRecords (data : Bytes) (metas : List KeyedStateMeta) : List (Option Nat) :=
  let names := nameBytes metas
  let maxLen := (names.map List.length).max?.getD 0
  metaInfoLoop data names maxLen data.length 0 names.dedup.length
    (List.replicate metas.length none)

/-- The number in front of the earliest record. -/
def declaredStateCount (data : Bytes) (metas : List KeyedStateMeta) : Option Nat :=
  ((metaInfoRecords data metas).filterMap id).min?.bind fun first =>
    if first < 9 + 2 then none else some (u16At data (first - 2))

/-- How many states have a void namespace, as far as their serializers tell. -/
def voidNamespaces (data : Bytes) : Nat :=
  (findAll data (encodeUtf8 "VoidNamespaceSerializerSnapshot".toList)).length

/-- The number of states a header registers. -/
def countStatesInHeader (data : Bytes) (metas : List KeyedStateMeta) : Nat :=
  max (max (max ((declaredStateCount data metas).getD 0) (voidNamespaces data)) metas.length) 1

/-! ### The earliest record -/

/-- A record of one of `names` at `p`, as it looks: the name, a type and a number of options. -/
def IsStateRecord (data : Bytes) (names : List Bytes) (p : Nat) : Prop :=
  ∃ name ∈ names, name ≠ [] ∧ p + 2 + name.length + 8 ≤ data.length
    ∧ u16At data p = name.length ∧ slice data (p + 2) name.length = name
    ∧ typeAndOptionsAt data (p + 2 + name.length) = true

/-- No record looks like one before `p`, and one does at `p`. -/
structure IsEarliest (data : Bytes) (names : List Bytes) (p : Nat) : Prop where
  isRecord : IsStateRecord data names p
  earliest : ∀ q, IsStateRecord data names q → p ≤ q

theorem IsEarliest.unique {data : Bytes} {names : List Bytes} {p q : Nat}
    (hp : IsEarliest data names p) (hq : IsEarliest data names q) : p = q :=
  Nat.le_antisymm (hp.earliest q hq.isRecord) (hq.earliest p hp.isRecord)

section Pass

variable {data : Bytes} {names : List Bytes} {maxLen : Nat}

theorem length_le_max {name : Bytes} (h : name ∈ names) :
    name.length ≤ (names.map List.length).max?.getD 0 := by
  have hmem : name.length ∈ names.map List.length := List.mem_map_of_mem h
  cases hmax : (names.map List.length).max? with
  | none =>
    rw [List.max?_eq_none_iff.mp hmax] at hmem
    exact absurd hmem List.not_mem_nil
  | some m => exact (List.max?_eq_some_iff.mp hmax).2 _ hmem

/-- A state is found at an offset exactly when its record looks like one. -/
theorem stateOfRecord_isSome (hmax : ∀ name ∈ names, name.length ≤ maxLen) (p : Nat) :
    (∃ i, stateOfRecord data names maxLen p = some i) ↔ IsStateRecord data names p := by
  unfold stateOfRecord
  dsimp only
  constructor
  · rintro ⟨i, h⟩
    split_ifs at h with hfits
    obtain ⟨hfind, htype⟩ := Option.filter_eq_some_iff.mp h
    obtain ⟨hi, hname, -⟩ := List.findIdx?_eq_some_iff_getElem.mp hfind
    have heq : names[i] = slice data (p + 2) (u16At data p) := eq_of_beq hname
    have hlen : names[i].length = u16At data p := by
      rw [heq, slice, List.length_take, List.length_drop]
      omega
    refine ⟨names[i], List.getElem_mem hi, ?_, by omega, hlen.symm, ?_, ?_⟩
    · intro hnil
      rw [hnil, List.length_nil] at hlen
      omega
    · rw [hlen]
      exact heq.symm
    · rw [hlen]
      exact htype
  · rintro ⟨name, hmem, hne, hfits, hlen, hname, htype⟩
    have hpos : 0 < name.length := List.length_pos_iff.mpr hne
    have hle := hmax name hmem
    rw [hlen, if_pos ⟨⟨hpos, hle⟩, hfits⟩, hname]
    cases hfind : names.findIdx? (· == name) with
    | none =>
      have hno := List.findIdx?_eq_none_iff.mp hfind name hmem
      simp at hno
    | some i => exact ⟨i, Option.filter_eq_some_iff.mpr ⟨rfl, htype⟩⟩

theorem lt_of_stateOfRecord {p i : Nat} (h : stateOfRecord data names maxLen p = some i) :
    i < names.length := by
  unfold stateOfRecord at h
  dsimp only at h
  split_ifs at h
  obtain ⟨hfind, -⟩ := Option.filter_eq_some_iff.mp h
  exact (List.findIdx?_eq_some_iff_getElem.mp hfind).1

/-- What holds of the pass at `p`: what it has found are records before `p`, no record before `p` is
    earlier than all of them, and it has found one if it is not looking for more. -/
structure Found (data : Bytes) (names : List Bytes) (p missing : Nat) (out : List (Option Nat)) :
    Prop where
  length_eq : out.length = names.length
  isRecord : ∀ q, some q ∈ out → q < p ∧ IsStateRecord data names q
  least : ∀ q, q < p → IsStateRecord data names q → ∃ q', some q' ∈ out ∧ q' ≤ q
  done : missing = 0 → names = [] ∨ ∃ q, some q ∈ out

theorem mem_set_of_mem {out : List (Option Nat)} {i p q : Nat} (hi : out[i]? = some none)
    (h : some q ∈ out) : some q ∈ out.set i (some p) := by
  obtain ⟨j, hj⟩ := List.mem_iff_getElem?.mp h
  have hne : i ≠ j := by
    intro heq
    rw [heq, hj] at hi
    cases hi
  exact List.mem_iff_getElem?.mpr ⟨j, by rw [List.getElem?_set_ne hne, hj]⟩

/-- A step that finds a new state. -/
theorem Found.found {p missing i : Nat} {out : List (Option Nat)}
    (h : Found data names p missing out) (hi : out[i]? = some none)
    (hrecord : IsStateRecord data names p) (missing' : Nat) :
    Found data names (p + 1) missing' (out.set i (some p)) := by
  have hlt : i < out.length := (List.getElem?_eq_some_iff.mp hi).1
  have hnew : some p ∈ out.set i (some p) := List.mem_set hlt _
  refine ⟨by rw [List.length_set, h.length_eq], ?_, ?_, fun _ => .inr ⟨p, hnew⟩⟩
  · intro q hq
    rcases List.mem_or_eq_of_mem_set hq with hold | heq
    · obtain ⟨hlt, hq⟩ := h.isRecord q hold
      exact ⟨by omega, hq⟩
    · obtain rfl := Option.some.inj heq
      exact ⟨by omega, hrecord⟩
  · intro q hq hqrecord
    rcases Nat.eq_or_lt_of_le (Nat.lt_succ_iff.mp hq) with rfl | hlt
    · exact ⟨q, hnew, Nat.le_refl _⟩
    · obtain ⟨q', hmem, hle⟩ := h.least q hlt hqrecord
      exact ⟨q', mem_set_of_mem hi hmem, hle⟩

/-- A step that finds none, or one that was found before. -/
theorem Found.skip {p missing : Nat} {out : List (Option Nat)}
    (h : Found data names p missing out)
    (hold : IsStateRecord data names p → ∃ q, some q ∈ out) :
    Found data names (p + 1) missing out := by
  refine ⟨h.length_eq, fun q hq => ⟨Nat.lt_succ_of_lt (h.isRecord q hq).1, (h.isRecord q hq).2⟩,
    ?_, h.done⟩
  intro q hq hqrecord
  rcases Nat.eq_or_lt_of_le (Nat.lt_succ_iff.mp hq) with rfl | hlt
  · obtain ⟨q', hmem⟩ := hold hqrecord
    exact ⟨q', hmem, Nat.le_of_lt (h.isRecord q' hmem).1⟩
  · exact h.least q hlt hqrecord

/-- Where the pass stops. -/
theorem Found.stop {p missing : Nat} {out : List (Option Nat)}
    (h : Found data names p missing out) (hend : data.length < p + 2 ∨ missing = 0) :
    (∀ q, some q ∈ out → IsStateRecord data names q)
      ∧ ∀ q, IsStateRecord data names q → ∃ q', some q' ∈ out ∧ q' ≤ q := by
  refine ⟨fun q hq => (h.isRecord q hq).2, fun q hq => ?_⟩
  by_cases hlt : q < p
  · exact h.least q hlt hq
  obtain ⟨name, hmem, -, hfits, -⟩ := hq
  rcases hend with hend | hend
  · omega
  rcases h.done hend with hnil | ⟨q', hq'⟩
  · rw [hnil] at hmem
    exact absurd hmem List.not_mem_nil
  · have hlt' := (h.isRecord q' hq').1
    exact ⟨q', hq', by omega⟩

/-- **The pass finds the earliest record**, though it stops when it has found every name. -/
theorem metaInfoLoop_spec (hmax : ∀ name ∈ names, name.length ≤ maxLen) (turns : Nat)
    {p missing : Nat} {out : List (Option Nat)} (h : Found data names p missing out)
    (hturns : data.length ≤ p + turns) :
    (∀ q, some q ∈ metaInfoLoop data names maxLen turns p missing out →
        IsStateRecord data names q)
      ∧ ∀ q, IsStateRecord data names q →
        ∃ q', some q' ∈ metaInfoLoop data names maxLen turns p missing out ∧ q' ≤ q := by
  induction turns generalizing p missing out with
  | zero => exact h.stop (.inl (by omega))
  | succ turns ih =>
    rw [metaInfoLoop]
    by_cases hmore : missing > 0 ∧ p + 2 ≤ data.length
    · rw [if_pos hmore]
      cases hrecord : stateOfRecord data names maxLen p with
      | none =>
        have hnot : ¬ IsStateRecord data names p := by
          rw [← stateOfRecord_isSome hmax, hrecord]
          simp
        exact ih (h.skip fun hp => absurd hp hnot) (by omega)
      | some i =>
        have hlt := lt_of_stateOfRecord hrecord
        rw [← h.length_eq] at hlt
        -- a state's first record is the one that is kept
        cases hold : out[i] with
        | none =>
          have hi : out[i]? = some none := by rw [List.getElem?_eq_getElem hlt, hold]
          have hp := (stateOfRecord_isSome hmax p).mp ⟨i, hrecord⟩
          simp only [if_pos hi]
          exact ih (h.found hi hp _) (by omega)
        | some q =>
          have hi : ¬ out[i]? = some none := by
            rw [List.getElem?_eq_getElem hlt, hold]
            simp
          simp only [if_neg hi]
          exact ih (h.skip fun _ => ⟨q, hold ▸ List.getElem_mem hlt⟩) (by omega)
    · rw [if_neg hmore]
      exact h.stop (by omega)

/-- The pass from the start of a header, with nothing found. -/
theorem found_start (missing : Nat) (hmissing : missing = 0 → names = []) :
    Found data names 0 missing (List.replicate names.length none) := by
  have hnone (q : Nat) : some q ∉ List.replicate names.length (none : Option Nat) := by
    intro h
    cases List.eq_of_mem_replicate h
  exact ⟨List.length_replicate, fun q hq => absurd hq (hnone q),
    fun q hq => absurd hq (Nat.not_lt_zero q), fun h => .inl (hmissing h)⟩

end Pass

section Count

variable {data : Bytes} {metas : List KeyedStateMeta}

theorem metaInfoRecords_spec (data : Bytes) (metas : List KeyedStateMeta) :
    (∀ q, some q ∈ metaInfoRecords data metas → IsStateRecord data (nameBytes metas) q)
      ∧ ∀ q, IsStateRecord data (nameBytes metas) q →
        ∃ q', some q' ∈ metaInfoRecords data metas ∧ q' ≤ q := by
  have hlen : metas.length = (nameBytes metas).length := by rw [nameBytes, List.length_map]
  have hnil : (nameBytes metas).dedup.length = 0 → nameBytes metas = [] := by
    intro h
    exact (List.dedup_eq_nil _).mp (List.length_eq_zero_iff.mp h)
  unfold metaInfoRecords
  rw [hlen]
  exact metaInfoLoop_spec (fun name hmem => length_le_max hmem) _ (found_start _ hnil) (by omega)

/-- **The least offset that is found is the earliest record.** -/
theorem metaInfoRecords_least (p : Nat) :
    ((metaInfoRecords data metas).filterMap id).min? = some p
      ↔ IsEarliest data (nameBytes metas) p := by
  obtain ⟨hrecords, hleast⟩ := metaInfoRecords_spec data metas
  have hmem (q : Nat) : q ∈ (metaInfoRecords data metas).filterMap id
      ↔ some q ∈ metaInfoRecords data metas := by simp
  rw [List.min?_eq_some_iff]
  constructor
  · rintro ⟨hp, hmin⟩
    refine ⟨hrecords p ((hmem p).mp hp), fun q hq => ?_⟩
    obtain ⟨q', hq', hle⟩ := hleast q hq
    exact Nat.le_trans (hmin q' ((hmem q').mpr hq')) hle
  · rintro ⟨hp, hmin⟩
    obtain ⟨p', hp', hle⟩ := hleast p hp
    obtain rfl := Nat.le_antisymm hle (hmin p' (hrecords p' hp'))
    exact ⟨(hmem p').mpr hp', fun q hq => hmin q (hrecords q ((hmem q).mp hq))⟩

theorem declaredStateCount_eq_some {n : Nat} :
    declaredStateCount data metas = some n
      ↔ ∃ p, IsEarliest data (nameBytes metas) p ∧ 11 ≤ p ∧ u16At data (p - 2) = n := by
  simp only [declaredStateCount, Option.bind_eq_some_iff, metaInfoRecords_least]
  constructor
  · rintro ⟨p, hp, h⟩
    split_ifs at h with hearly
    exact ⟨p, hp, by omega, Option.some.inj h⟩
  · rintro ⟨p, hp, hlate, h⟩
    exact ⟨p, hp, by rw [if_neg (by omega), h]⟩

/-- **When the count is at least `n`.** -/
theorem le_countStatesInHeader (data : Bytes) (metas : List KeyedStateMeta) (n : Nat) :
    n ≤ countStatesInHeader data metas
      ↔ n ≤ 1 ∨ n ≤ metas.length ∨ n ≤ voidNamespaces data
        ∨ ∃ p, IsEarliest data (nameBytes metas) p ∧ 11 ≤ p ∧ n ≤ u16At data (p - 2) := by
  have hdeclared : n ≤ (declaredStateCount data metas).getD 0
      ↔ n = 0 ∨ ∃ p, IsEarliest data (nameBytes metas) p ∧ 11 ≤ p ∧ n ≤ u16At data (p - 2) := by
    cases h : declaredStateCount data metas with
    | none =>
      rw [Option.getD_none, Nat.le_zero]
      constructor
      · exact .inl
      · rintro (h0 | ⟨p, hp, hlate, -⟩)
        · exact h0
        · rw [declaredStateCount_eq_some.mpr ⟨p, hp, hlate, rfl⟩] at h
          cases h
    | some m =>
      obtain ⟨p, hp, hlate, hm⟩ := declaredStateCount_eq_some.mp h
      rw [Option.getD_some, ← hm]
      constructor
      · intro hle
        exact .inr ⟨p, hp, hlate, hle⟩
      · rintro (rfl | ⟨q, hq, -, hle⟩)
        · exact Nat.zero_le _
        · rwa [hp.unique hq]
  rw [countStatesInHeader, le_max_iff, le_max_iff, le_max_iff, hdeclared]
  constructor
  · rintro ((((h0 | hp) | hvoid) | hmetas) | hone)
    · exact .inl (by omega)
    · exact .inr (.inr (.inr hp))
    · exact .inr (.inr (.inl hvoid))
    · exact .inr (.inl hmetas)
    · exact .inl hone
  · rintro (hone | hmetas | hvoid | hp)
    · exact .inr hone
    · exact .inl (.inr hmetas)
    · exact .inl (.inl (.inr hvoid))
    · exact .inl (.inl (.inl (.inr hp)))

end Count

end FlinkExplorer
