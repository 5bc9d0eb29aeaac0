import FlinkExplorer.Parser.JavaDeser

namespace FlinkExplorer

open Lib

/-!
# `parser/keyed_state.rs` — the states a header registers

Headers are not parsed: `extractStateMetadata` scans the bytes of one for what a state record looks
like.

* states with a `KEYED_STATE_TYPE` option, each named by the nearest name in front of it
  (`findStateNameBefore`);
* then the timers, `_timer_state/...`;
* then the states without options (`findStatesWithoutOptions`).

`extractStateMetadata_named` — whatever the bytes are, no two of the states have one name, and each
name is valid or a timer's.
-/

/-- What Rust's `char` says of a character, which is ASCII's own below 128. -/
structure CharText where
  isAlphanumeric : Char → Bool
  isUppercase : Char → Bool
  alphanumeric_ascii : ∀ c : Char, c.toNat < 128 → isAlphanumeric c = c.isAlphanum
  uppercase_ascii : ∀ c : Char, c.toNat < 128 → isUppercase c = c.isUpper

/-- ASCII alone. -/
def asciiText : CharText := ⟨Char.isAlphanum, Char.isUpper, fun _ _ => rfl, fun _ _ => rfl⟩

/-- A keyed state of an operator. -/
structure KeyedStateMeta where
  name : Text
  stateType : Text
  keyType : Text
  deriving DecidableEq

/-! ### Bytes at an offset -/

/-- `data[pos..pos + n]`. -/
def slice (data : Bytes) (pos n : Nat) : Bytes := (data.drop pos).take n

/-- The big-endian `u16` at an offset. -/
def u16At (data : Bytes) (pos : Nat) : Nat := beNat (slice data pos 2)

/-- The big-endian `i32` at an offset. -/
def i32At (data : Bytes) (pos : Nat) : Int := beInt (slice data pos 4)

/-- Where `needle` first occurs in `data[start..last]`. -/
def findBytes (data needle : Bytes) (start last : Nat) : Option Nat :=
  let last := min last data.length
  if needle.length > last - start then none
  else (List.range' start (last - needle.length + 1 - start)).find? fun i =>
    slice data i needle.length == needle

/-! ### Names -/

/-- The keys of Flink's own serializer configurations. -/
def configKeys : List Text :=
  ["KEY_SERIALIZER".toList, "NAMESPACE_SERIALIZER".toList, "VALUE_SERIALIZER".toList,
    "ELEMENT_SERIALIZER".toList]

def timerPrefix : Text := "_timer_state/".toList

section Names

variable (C : CharText)

def isValidStateName (s : Text) : Bool :=
  !s.isEmpty && (encodeUtf8 s).length < 200
    && (s.all fun c => C.isAlphanumeric c || c == '-' || c == '_' || c == '.' || c == ' ' || c == '/')
    && s.any Char.isLower
    && !(s.contains '.' && s.any C.isUppercase)
    && !configKeys.contains s

/-- A name, its `backendStateType` and its number of options, as a record at `bp` would have them. -/
def recordAt (data : Bytes) (bp : Nat) : Option (Text × Int × Int) :=
  let nlen := u16At data bp
  if bp + 2 > data.length ∨ nlen = 0 ∨ nlen > 200 ∨ bp + 2 + nlen + 8 > data.length then none
  else
    match decodeUtf8 (slice data (bp + 2) nlen) with
    | none => none
    | some name =>
      if isValidStateName C name then
        some (name, i32At data (bp + 2 + nlen), i32At data (bp + 2 + nlen + 4))
      else none

/-- The state whose `KEYED_STATE_TYPE` is at `kstUtfStart`: that of the nearest record before it, at
    most 300 bytes away. -/
def findStateNameBefore (data : Bytes) (kstUtfStart : Nat) (stateType keyType : Text) :
    Option KeyedStateMeta :=
  let searchStart := kstUtfStart - 300
  (List.range' searchStart (kstUtfStart - 8 - searchStart)).reverse.findSome? fun bp =>
    match recordAt C data bp with
    | some (name, bt, opts) =>
      if (bt = 0 ∨ bt = 1) ∧ opts ≥ 1 then some ⟨name, stateType, keyType⟩ else none
    | none => none

end Names

/-! ### The scans -/

/-- Whether a state of that name was found. -/
def named (name : Text) (results : List KeyedStateMeta) : Bool := results.any fun r => r.name == name

/-- Add a state unless one of its name was found. -/
def pushState (results : List KeyedStateMeta) (m : KeyedStateMeta) : List KeyedStateMeta :=
  if named m.name results then results else results ++ [m]

/-- Visit the occurrences of `needle` from `from'` on, none inside another. -/
def scanFor (data needle : Bytes) (visit : Nat → List KeyedStateMeta → List KeyedStateMeta) :
    Nat → Nat → List KeyedStateMeta → List KeyedStateMeta
  | 0, _, results => results
  | turns + 1, from', results =>
    if from' < data.length - needle.length then
      match findBytes data needle from' data.length with
      | none => results
      | some pos => scanFor data needle visit turns (pos + needle.length) (visit pos results)
    else results

section Scans

variable (C : CharText) (data : Bytes) (keyType : Text)

def keyedStateType : Bytes := encodeUtf8 "KEYED_STATE_TYPE".toList

/-- The state of a `KEYED_STATE_TYPE` at `pos`, if it can be read. -/
def visitOption (pos : Nat) (results : List KeyedStateMeta) : List KeyedStateMeta :=
  let valStart := pos + keyedStateType.length
  let valLen := u16At data valStart
  if valStart + 2 > data.length ∨ valStart + 2 + valLen > data.length then results
  else
    match decodeUtf8 (slice data (valStart + 2) valLen) with
    | none => results
    | some stateType =>
      -- the option's key has its own 2-byte length
      if pos - 2 < 8 then results
      else
        match findStateNameBefore C data (pos - 2) stateType keyType with
        | none => results
        | some m => pushState results m

/-- The timer whose name starts at `pos`, if it can be read. -/
def visitTimer (pos : Nat) (results : List KeyedStateMeta) : List KeyedStateMeta :=
  let nlen := u16At data (pos - 2)
  if pos < 2 ∨ nlen < (encodeUtf8 timerPrefix).length ∨ pos + nlen > data.length then results
  else
    match decodeUtf8 (slice data pos nlen) with
    | none => results
    | some name =>
      if timerPrefix.isPrefixOf name then pushState results ⟨name, "TIMER".toList, keyType⟩
      else results

/-- The type of a state without options. -/
def backendTypeText (bt : Int) : Text := if bt = 1 then "PRIORITY_QUEUE".toList else "VALUE".toList

/-- The state without options whose record is at `pos`, if it is none of `existing`. -/
def visitPlain (existing : List KeyedStateMeta) (found : List KeyedStateMeta) (pos : Nat) :
    List KeyedStateMeta :=
  match recordAt C data pos with
  | none => found
  | some (name, bt, opts) =>
    if named name existing ∨ named name found then found
    else
      let serPos := pos + 2 + u16At data pos + 8
      if (bt = 0 ∨ bt = 1) ∧ opts = 0 ∧ serPos + 4 ≤ data.length ∧ 0 ≤ i32At data serPos
          ∧ i32At data serPos ≤ 20 then
        found ++ [⟨name, backendTypeText bt, keyType⟩]
      else found

/-- The states that have no options. -/
def findStatesWithoutOptions (existing : List KeyedStateMeta) : List KeyedStateMeta :=
  (List.range' 5 (data.length - 10 - 5)).foldl (visitPlain C data keyType existing) []

/-- The states of a header, in the order of their stateIds; `keyType` is the type of its keys. -/
def extractStateMetadata : List KeyedStateMeta :=
  if data.length < 10 then []
  else
    let keyed := scanFor data keyedStateType (visitOption C data keyType) data.length 0 []
    let timers := scanFor data (encodeUtf8 timerPrefix) (visitTimer data keyType) data.length 0 keyed
    (findStatesWithoutOptions C data keyType timers).foldl pushState timers

end Scans

/-! ### What the names are -/

section Named

variable {C : CharText} {data : Bytes} {keyType : Text}

/-- The names of the states, each once, and each a valid one or a timer's. -/
structure NamesOk (C : CharText) (names : List Text) : Prop where
  nodup : names.Nodup
  valid : ∀ name ∈ names, isValidStateName C name = true ∨ timerPrefix <+: name

/-- No name of a state starts with `#`. -/
theorem not_hash {name : Text} (h : isValidStateName C name = true ∨ timerPrefix <+: name)
    (rest : Text) : name ≠ '#' :: rest := by
  intro hname
  rw [hname] at h
  rcases h with h | ⟨suffix, h⟩
  · have hhash : C.isAlphanumeric '#' = false := C.alphanumeric_ascii '#' (by decide)
    simp [isValidStateName, hhash] at h
  · exact absurd (List.cons.inj h).1 (by decide)

theorem named_eq_false {name : Text} {results : List KeyedStateMeta} :
    named name results = false ↔ name ∉ results.map (·.name) := by
  simp [named, List.any_eq_false]

theorem namesOk_pushState {results : List KeyedStateMeta} {m : KeyedStateMeta}
    (h : NamesOk C (results.map (·.name)))
    (hm : isValidStateName C m.name = true ∨ timerPrefix <+: m.name) :
    NamesOk C ((pushState results m).map (·.name)) := by
  unfold pushState
  by_cases hnamed : named m.name results = true
  · rw [if_pos hnamed]
    exact h
  · rw [if_neg hnamed]
    have hnew := named_eq_false.mp (Bool.eq_false_iff.mpr hnamed)
    constructor
    · rw [List.map_append, List.nodup_append]
      refine ⟨h.nodup, List.pairwise_singleton _ _, fun a ha b hb => ?_⟩
      obtain rfl := List.mem_singleton.mp hb
      rintro rfl
      exact hnew ha
    · intro name hname
      rw [List.map_append, List.mem_append] at hname
      rcases hname with hname | hname
      · exact h.valid name hname
      · obtain rfl := List.mem_singleton.mp hname
        exact hm

theorem recordAt_valid {bp : Nat} {name : Text} {bt opts : Int}
    (h : recordAt C data bp = some (name, bt, opts)) : isValidStateName C name = true := by
  unfold recordAt at h
  dsimp only at h
  split_ifs at h with hshort
  cases hname : decodeUtf8 (slice data (bp + 2) (u16At data bp)) with
  | none => simp [hname] at h
  | some text =>
    simp only [hname] at h
    split_ifs at h with hvalid
    obtain rfl : text = name := congrArg Prod.fst (Option.some.inj h)
    exact hvalid

theorem findStateNameBefore_valid {kst : Nat} {stateType : Text} {m : KeyedStateMeta}
    (h : findStateNameBefore C data kst stateType keyType = some m) :
    isValidStateName C m.name = true := by
  obtain ⟨bp, -, h⟩ := List.exists_of_findSome?_eq_some h
  cases hrecord : recordAt C data bp with
  | none => simp [hrecord] at h
  | some r =>
    obtain ⟨name, bt, opts⟩ := r
    simp only [hrecord] at h
    split_ifs at h with htypes
    obtain rfl := Option.some.inj h
    exact recordAt_valid hrecord

theorem namesOk_visitOption {results : List KeyedStateMeta} (h : NamesOk C (results.map (·.name)))
    (pos : Nat) : NamesOk C ((visitOption C data keyType pos results).map (·.name)) := by
  unfold visitOption
  dsimp only
  split
  · exact h
  split
  · exact h
  split
  · exact h
  split
  · exact h
  · next hfound => exact namesOk_pushState h (.inl (findStateNameBefore_valid hfound))

theorem namesOk_visitTimer {results : List KeyedStateMeta} (h : NamesOk C (results.map (·.name)))
    (pos : Nat) : NamesOk C ((visitTimer data keyType pos results).map (·.name)) := by
  unfold visitTimer
  dsimp only
  split
  · exact h
  split
  · exact h
  split
  · next hstart => exact namesOk_pushState h (.inr (List.isPrefixOf_iff_prefix.mp hstart))
  · exact h

/-- A scan keeps what each visit keeps. -/
theorem scanFor_keeps {P : List KeyedStateMeta → Prop} {needle : Bytes}
    {visit : Nat → List KeyedStateMeta → List KeyedStateMeta}
    (hvisit : ∀ pos results, P results → P (visit pos results)) (turns from' : Nat)
    {results : List KeyedStateMeta} (h : P results) :
    P (scanFor data needle visit turns from' results) := by
  induction turns generalizing from' results with
  | zero => exact h
  | succ turns ih =>
    rw [scanFor]
    split
    · split
      · exact h
      · exact ih _ (hvisit _ _ h)
    · exact h

theorem visitPlain_valid (existing : List KeyedStateMeta) (positions : List Nat)
    {found : List KeyedStateMeta} (h : ∀ m ∈ found, isValidStateName C m.name = true) :
    ∀ m ∈ positions.foldl (visitPlain C data keyType existing) found,
      isValidStateName C m.name = true := by
  induction positions generalizing found with
  | nil => exact h
  | cons pos positions ih =>
    refine ih fun m hm => ?_
    unfold visitPlain at hm
    cases hrecord : recordAt C data pos with
    | none =>
      simp only [hrecord] at hm
      exact h m hm
    | some r =>
      obtain ⟨name, bt, opts⟩ := r
      simp only [hrecord] at hm
      split_ifs at hm
      · exact h m hm
      · rcases List.mem_append.mp hm with hm | hm
        · exact h m hm
        · obtain rfl := List.mem_singleton.mp hm
          exact recordAt_valid hrecord
      · exact h m hm

theorem namesOk_foldl_pushState (ms : List KeyedStateMeta) {results : List KeyedStateMeta}
    (h : NamesOk C (results.map (·.name))) (hms : ∀ m ∈ ms, isValidStateName C m.name = true) :
    NamesOk C ((ms.foldl pushState results).map (·.name)) := by
  induction ms generalizing results with
  | nil => exact h
  | cons m ms ih =>
    refine ih (namesOk_pushState h (.inl (hms m List.mem_cons_self))) fun m' hm' => ?_
    exact hms m' (List.mem_cons_of_mem m hm')

/-- **The names of a header's states**, whatever its bytes are: each comes once, and each is valid or
    a timer's. -/
theorem extractStateMetadata_named (C : CharText) (data : Bytes) (keyType : Text) :
    NamesOk C ((extractStateMetadata C data keyType).map (·.name)) := by
  unfold extractStateMetadata
  have hnil : NamesOk C (([] : List KeyedStateMeta).map (·.name)) :=
    ⟨List.nodup_nil, fun _ h => absurd h List.not_mem_nil⟩
  split
  · exact hnil
  have hscan (needle : Bytes) (visit : Nat → List KeyedStateMeta → List KeyedStateMeta)
      {results : List KeyedStateMeta} (hvisit : ∀ pos results,
        NamesOk C (results.map (·.name)) → NamesOk C ((visit pos results).map (·.name)))
      (h : NamesOk C (results.map (·.name))) :
      NamesOk C ((scanFor data needle visit data.length 0 results).map (·.name)) :=
    scanFor_keeps (P := fun results => NamesOk C (results.map (·.name))) hvisit data.length 0 h
  have hkeyed := hscan keyedStateType (visitOption C data keyType)
    (fun pos results h => namesOk_visitOption h pos) hnil
  have htimers := hscan (encodeUtf8 timerPrefix) (visitTimer data keyType)
    (fun pos results h => namesOk_visitTimer h pos) hkeyed
  exact namesOk_foldl_pushState _ htimers
    (visitPlain_valid _ _ fun _ h => absurd h List.not_mem_nil)

end Named

end FlinkExplorer
