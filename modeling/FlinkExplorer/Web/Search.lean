import FlinkExplorer.KeyMatcher
import FlinkExplorer.Reader.Count
import FlinkExplorer.Reader.Next
import FlinkExplorer.Reader.Accounted
import FlinkExplorer.Web.Url

namespace FlinkExplorer

open Lib

/-!
# `web/tools.rs` — a search and its continuations

A search page reads a part of an operator and links to the next part.  `Search.url` writes that
link, `parseSearch` reads a request:

* `Cursor.parse_text` — the text of a cursor is read back;
* `Search.Valid`, `parseSearch_valid` — what a request that is accepted asks for;
* `scanWith_next` — where the next page starts: in the range of the search, in a subtask of it;
* `search_continues` — the link goes on with the same search, there.

The test of the keys is a parameter.  Texts of failures that quote a string take `{:?}` of it from
`HostText`.
-/

/-! ### `reader/mod.rs` -/

/-- `Cursor::from_str`. -/
def Cursor.parse (host : HostText) (s : Text) : Except Text Cursor :=
  let bad := host.debugText s ++ " is not a cursor (subtask.keygroup.ordinal)".toList
  match s.splitOn '.' with
  | [a, b, c] =>
    match parseSigned (-2 ^ 31) (2 ^ 31 - 1) a, parseUnsigned 65535 b,
      parseUnsigned (2 ^ 32 - 1) c with
    | some subtask, some keyGroup, some ordinal =>
      .ok ⟨subtask, UInt16.ofNat keyGroup, UInt32.ofNat ordinal⟩
    | _, _, _ => .error bad
  | _ => .error bad

/-- How many subtasks hold a keyed-state handle, of any kind. -/
def Operator.keyedSubtasks (o : Operator) : Nat :=
  (o.subtaskStates.filter fun st =>
    match st.managedKeyedState with
    | .keyGroups _ => true
    | other => (unsupportedKeyedHandle other).isSome).length

/-- The last key-group of an operator. -/
def Operator.lastKeyGroup (o : Operator) : UInt16 := UInt16.ofInt (max o.maxParallelism.toInt 1 - 1)

/-- **A cursor's text is read back.** -/
theorem Cursor.parse_text (host : HostText) {c : Cursor} (hlo : -2 ^ 31 ≤ c.subtask)
    (hhi : c.subtask < 2 ^ 31) : Cursor.parse host c.text = .ok c := by
  have hdot {t : Text} (ht : ∀ d ∈ t, d.isDigit = true ∨ d = '-') : '.' ∉ t := fun hmem => by
    rcases ht '.' hmem with h | h <;> exact absurd h (by decide)
  have hsplit : c.text.splitOn '.'
      = [intText c.subtask, natText c.keyGroup.toNat, natText c.ordinal.toNat] :=
    splitOn_three (hdot fun d => digit_or_minus_of_mem_intText)
      (hdot fun d hd => .inl (isDigit_of_mem_natText hd))
      (hdot fun d hd => .inl (isDigit_of_mem_natText hd))
  have hsubtask : parseSigned (-2 ^ 31) (2 ^ 31 - 1) (intText c.subtask) = some c.subtask := by
    rw [← padInt_zero]
    exact parseSigned_padInt 0 hlo (by omega)
  have hkg : parseUnsigned 65535 (natText c.keyGroup.toNat) = some c.keyGroup.toNat :=
    parseUnsigned_natText (by have := c.keyGroup.toNat_lt; omega)
  have hordinal : parseUnsigned (2 ^ 32 - 1) (natText c.ordinal.toNat) = some c.ordinal.toNat :=
    parseUnsigned_natText (by have := c.ordinal.toNat_lt; omega)
  unfold Cursor.parse
  rw [hsplit]
  dsimp only
  rw [hsubtask, hkg, hordinal]
  simp

namespace Web

/-! ### `pages.rs` -/

/-- Why a request failed. -/
inductive Fail
  | notFound (msg : Text)
  | badRequest (msg : Text)
  | busy (msg : Text)
  | internal (msg : Text)
  deriving DecidableEq

/-- `Fail::from`. -/
def Fail.ofReader (host : HostText) (e : ReaderError) : Fail :=
  let msg := e.text host
  match e with
  | .unknownOperator _ | .noKeyedState _ | .notFound _ => .notFound msg
  | .ambiguousOperator _ _ | .badCursor _ _ => .badRequest msg
  | .unreadable _ | .malformed _ _ _ _ _ => .internal msg

/-- `DEFAULT_LIMIT` and `MAX_LIMIT`. -/
def defaultLimit : Nat := 100
def maxLimit : Nat := 1000

/-- A parameter between 1 and `top`, or its default. -/
def numberWithin (top default : Nat) (bad : Fail) : Option Text → Except Fail Nat
  | none | some [] => .ok default
  | some t =>
    match parseUnsigned (2 ^ 64 - 1) t with
    | some n => if 1 ≤ n ∧ n ≤ top then .ok n else .error bad
    | none => .error bad

/-- The parameters of a request. -/
abbrev Query := List (Text × Text)

namespace Query

variable (q : Query)

def get (name : Text) : Option Text := (q.find? fun p => p.1 = name).map (·.2)

def cursor (host : HostText) (name : Text) : Except Fail (Option Cursor) :=
  match q.get name with
  | none | some [] => .ok none
  | some c => ((Cursor.parse host c).map some).mapError .badRequest

def limit : Except Fail Nat :=
  numberWithin maxLimit defaultLimit
    (.badRequest ("limit must be between 1 and ".toList ++ natText maxLimit))
    (q.get "limit".toList)

end Query

/-! ### `tools.rs` -/

/-- `MAX_QUERY_CHARS`, `DEFAULT_SEARCH_BUDGET` and `MAX_SEARCH_BUDGET`. -/
def maxQueryChars : Nat := 256
def defaultSearchBudget : Nat := 4 * 2 ^ 20
def maxSearchBudget : Nat := 64 * 2 ^ 20

/-- A parsed search request. -/
structure Search where
  id : Text
  q : Text
  mode : MatchMode
  from' : Option UInt16
  to' : Option UInt16
  budget : Nat
  limit : Nat
  /-- Where this request starts. -/
  cursor : Cursor
  /-- Whether `cursor` was given. -/
  resumed : Bool
  deriving DecidableEq

namespace Search

variable (s : Search)

/-- The query parameters of a search, at a cursor. -/
def params (cursor : Option Cursor) : List (Text × Text) :=
  [("q".toList, s.q), ("mode".toList, s.mode.asStr)]
    ++ (s.from'.map fun f => ("from".toList, natText f.toNat)).toList
    ++ (s.to'.map fun t => ("to".toList, natText t.toNat)).toList
    ++ (if s.budget ≠ defaultSearchBudget then [("budget".toList, natText s.budget)] else [])
    ++ (if s.limit ≠ defaultLimit then [("limit".toList, natText s.limit)] else [])
    ++ (cursor.map fun c => ("cursor".toList, c.text)).toList

def url (api : Bool) (cursor : Option Cursor) : Text :=
  let base := opPath s.id "search".toList
  href (if api then "/api".toList ++ base else base) (s.params cursor)

end Search

section Parse

variable (env : Environment) (sp : Savepoint)

/-- The operator `op` names, and its canonical id. -/
def resolve (op : Text) : Except Fail (Operator × Text) :=
  -- An empty prefix would match every operator.
  if op.isEmpty then .error (.notFound "no operator id given".toList)
  else
    match (StateReader.ofSavepoint env sp).operatorIndex op with
    | .error e => .error (.ofReader env.host e)
    | .ok i =>
      match sp.operators[i]? with
      | some o => .ok (o, hexId o.id)
      | none => .error (.ofReader env.host (.unknownOperator op))

/-- The operator, resolved, and holding keyed state. -/
def keyed (op : Text) : Except Fail (Operator × Text) := do
  let (o, id) ← resolve env sp op
  if o.keyedSubtasks = 0 then .error (.ofReader env.host (.noKeyedState id)) else .ok (o, id)

def optU16 (q : Query) (name : Text) : Except Fail (Option UInt16) :=
  match q.get name with
  | none | some [] => .ok none
  | some v =>
    match parseUnsigned 65535 (trim v) with
    | some n => .ok (some (UInt16.ofNat n))
    | none => .error (.badRequest (name ++ " must be a key-group number (0..65535)".toList))

/-- The key-groups a request names are the operator's. -/
def checkRange (last : UInt16) (from' to' : Option UInt16) : Except Fail Unit :=
  match (from'.toList ++ to'.toList).find? fun v => v > last with
  | some v => .error (.badRequest ("key-group ".toList ++ natText v.toNat
      ++ " is out of range: this operator has key-groups 0..".toList ++ natText last.toNat))
  | none =>
    match from', to' with
    | some f, some t =>
      if f > t then
        .error (.badRequest ("empty key-group range ".toList ++ natText f.toNat ++ "..".toList
          ++ natText t.toNat))
      else .ok ()
    | _, _ => .ok ()

def parseMode (q : Query) : Except Fail MatchMode :=
  match q.get "mode".toList with
  | none | some [] => .ok .glob
  | some m =>
    match MatchMode.parse m with
    | some mode => .ok mode
    | none =>
      .error (.badRequest "mode must be \"glob\", \"substring\" or \"exact\"".toList)

def parseBudget (q : Query) : Except Fail Nat :=
  numberWithin maxSearchBudget defaultSearchBudget
    (.badRequest ("budget must be between 1 and ".toList ++ natText maxSearchBudget
      ++ " bytes".toList))
    (q.get "budget".toList)

/-- Where a request starts, and whether it says so. -/
def parseStart (id : Text) (from' to' : Option UInt16) (q : Query) : Except Fail (Cursor × Bool) := do
  match ← q.cursor env.host "cursor".toList with
  | some c =>
    if from'.any (fun f => c.keyGroup < f) || to'.any (fun t => c.keyGroup > t) then
      .error (.badRequest ("cursor ".toList ++ c.text ++ " is outside the key-group range".toList))
    else .ok (c, true)
  | none =>
    match (StateReader.ofSavepoint env sp).cursorAt id (from'.getD 0) with
    | .ok c => .ok (c, false)
    | .error e => .error (.ofReader env.host e)

/-- Read a search request; without a query it asks for nothing yet. -/
def parseSearch (op : Text) (q : Query) : Except Fail (Text × Option Search) := do
  let (o, id) ← keyed env sp op
  match q.get "q".toList with
  | none | some [] => .ok (id, none)
  | some query =>
    if query.length > maxQueryChars then
      .error (.badRequest ("the query is longer than ".toList ++ natText maxQueryChars
        ++ " characters".toList))
    else
      let mode ← parseMode q
      let from' ← optU16 q "from".toList
      let to' ← optU16 q "to".toList
      let () ← checkRange o.lastKeyGroup from' to'
      let budget ← parseBudget q
      let limit ← q.limit
      let (cursor, resumed) ← parseStart env sp id from' to' q
      .ok (id, some ⟨id, query, mode, from', to', budget, limit, cursor, resumed⟩)

/-- The scan of a search: its keys, and where the next page starts. -/
def runSearch {τ : Type} (s : Search) (test : τ → Text → τ × Bool) (t : τ) (cache : BlockCache) :
    Except ReaderError (Page (List KeyRecord × τ)) × BlockCache :=
  (StateReader.ofSavepoint env sp).scanWith s.id s.cursor ⟨s.budget, s.limit, s.to'⟩ test t cache

end Parse

namespace Query

theorem get_append (a b : Query) (name : Text) :
    Query.get (a ++ b) name = (Query.get a name).or (Query.get b name) := by
  unfold Query.get
  rw [List.find?_append]
  cases a.find? fun p => p.1 = name with
  | none => simp
  | some p => simp

theorem get_nil (name : Text) : Query.get [] name = none := rfl

theorem get_cons (k v : Text) (q : Query) (name : Text) :
    Query.get ((k, v) :: q) name = if k = name then some v else Query.get q name := by
  unfold Query.get
  by_cases hk : k = name
  · rw [List.find?_cons_of_pos (by simpa using hk), if_pos hk]
    rfl
  · rw [List.find?_cons_of_neg (by simpa using hk), if_neg hk]

theorem get_option {α : Type} (k : Text) (f : α → Text) (o : Option α) (name : Text) :
    Query.get (o.map fun x => (k, f x)).toList name = if k = name then o.map f else none := by
  cases o with
  | none => simp [Query.get]
  | some x =>
    rw [Option.map_some, Option.toList_some, get_cons]
    rfl

theorem get_ite (p : Prop) [Decidable p] (k v name : Text) :
    Query.get (if p then [(k, v)] else []) name
      = if k = name then (if p then some v else none) else none := by
  by_cases hp : p
  · rw [if_pos hp, if_pos hp, get_cons]
    rfl
  · rw [if_neg hp, if_neg hp, ite_self]
    rfl

end Query

namespace Search

variable (s : Search) (c : Cursor)

/-! ### What the parameters of a link say -/

theorem get_params (name : Text) : Query.get (s.params (some c)) name
    = ((((((if "q".toList = name then some s.q
          else if "mode".toList = name then some s.mode.asStr else none)
        ).or (if "from".toList = name then s.from'.map fun f => natText f.toNat else none)
        ).or (if "to".toList = name then s.to'.map fun t => natText t.toNat else none)
        ).or (if "budget".toList = name
          then (if s.budget ≠ defaultSearchBudget then some (natText s.budget) else none) else none)
        ).or (if "limit".toList = name
          then (if s.limit ≠ defaultLimit then some (natText s.limit) else none) else none)
        ).or (if "cursor".toList = name then some c.text else none) := by
  unfold params
  simp only [Query.get_append, Query.get_option, Query.get_cons, Query.get_nil, Query.get_ite,
    Option.map_some, Option.toList_some]

theorem get_params_q : Query.get (s.params (some c)) "q".toList = some s.q := by
  simp [get_params]

theorem get_params_mode : Query.get (s.params (some c)) "mode".toList = some s.mode.asStr := by
  simp [get_params]

theorem get_params_from : Query.get (s.params (some c)) "from".toList
    = s.from'.map fun f => natText f.toNat := by
  simp [get_params]

theorem get_params_to : Query.get (s.params (some c)) "to".toList
    = s.to'.map fun t => natText t.toNat := by
  simp [get_params]

theorem get_params_budget : Query.get (s.params (some c)) "budget".toList
    = if s.budget ≠ defaultSearchBudget then some (natText s.budget) else none := by
  simp [get_params]

theorem get_params_limit : Query.get (s.params (some c)) "limit".toList
    = if s.limit ≠ defaultLimit then some (natText s.limit) else none := by
  simp [get_params]

theorem get_params_cursor : Query.get (s.params (some c)) "cursor".toList = some c.text := by
  simp [get_params]

end Search

theorem parseMode_of_get {q : Query} {mode : MatchMode}
    (h : q.get "mode".toList = some mode.asStr) : parseMode q = .ok mode := by
  unfold parseMode
  rw [h]
  cases mode <;> rfl

theorem optU16_of_get {q : Query} {name : Text} {v : Option UInt16}
    (h : q.get name = v.map fun u => natText u.toNat) : optU16 q name = .ok v := by
  unfold optU16
  rw [h]
  cases v with
  | none => rfl
  | some u =>
    have hlt := u.toNat_lt
    have hread : parseUnsigned 65535 (trim (natText u.toNat)) = some u.toNat := by
      rw [trim_natText]
      exact parseUnsigned_natText (by omega)
    rw [Option.map_some]
    cases htext : natText u.toNat with
    | nil => exact absurd htext (natText_ne_nil _)
    | cons d ds =>
      rw [htext] at hread
      dsimp only
      rw [hread]
      simp

/-- A number that a link leaves out when it is the default is read back. -/
theorem numberWithin_natText {top default n : Nat} (bad : Fail) (hlo : 1 ≤ n) (hhi : n ≤ top)
    (htop : top < 2 ^ 64) :
    numberWithin top default bad (if n ≠ default then some (natText n) else none) = .ok n := by
  by_cases hdefault : n = default
  · rw [if_neg (not_not.mpr hdefault), hdefault]
    rfl
  · have hread : parseUnsigned (2 ^ 64 - 1) (natText n) = some n :=
      parseUnsigned_natText (by omega)
    rw [if_pos hdefault]
    cases htext : natText n with
    | nil => exact absurd htext (natText_ne_nil _)
    | cons d ds =>
      rw [htext] at hread
      unfold numberWithin
      dsimp only
      rw [hread]
      exact if_pos ⟨hlo, hhi⟩

/-! ### The operator of a link -/

section Operator

variable {env : Environment} {sp : Savepoint}

theorem operators_ofSavepoint_ids :
    ((StateReader.ofSavepoint env sp).operators.map fun o => hexId o.id)
      = sp.operators.map fun o => hexId o.id := by
  unfold StateReader.ofSavepoint
  dsimp only
  refine List.ext_getElem? fun i => ?_
  rw [List.getElem?_map, List.getElem?_mapIdx, List.getElem?_map]
  cases sp.operators[i]? <;> rfl

/-- The operator a text names is named by its whole id too. -/
theorem operatorIndex_hexId {op : Text} {i : Nat} {o : Operator} (hne : op ≠ [])
    (hindex : (StateReader.ofSavepoint env sp).operatorIndex op = .ok i)
    (ho : sp.operators[i]? = some o) :
    (StateReader.ofSavepoint env sp).operatorIndex (hexId o.id) = .ok i ∧ hexId o.id ≠ [] := by
  unfold StateReader.operatorIndex at hindex ⊢
  rw [operators_ofSavepoint_ids] at hindex ⊢
  generalize hids : (sp.operators.map fun o => hexId o.id) = ids at hindex ⊢
  have hid : ids[i]? = some (hexId o.id) := by rw [← hids, List.getElem?_map, ho]; rfl
  dsimp only at hindex ⊢
  rcases hfirst : ids.findIdx? (· == op) with _ | j
  · rw [hfirst] at hindex
    dsimp only at hindex
    -- `op` starts the id of that operator alone
    rcases hmatch : (List.range ids.length).filter fun k => op.isPrefixOf (ids.getD k [])
      with _ | ⟨k, _ | ⟨l, more⟩⟩
    · rw [hmatch] at hindex
      cases hindex
    · rw [hmatch] at hindex
      obtain rfl := Except.ok.inj hindex
      have hstart : op <+: hexId o.id := by
        have hmem := List.mem_filter.mp (hmatch ▸ List.mem_cons_self)
        have hget : ids.getD k [] = hexId o.id := by
          rw [List.getD_eq_getElem?_getD, hid]
          rfl
        have hstarts := hmem.2
        rw [hget] at hstarts
        simpa using hstarts
      refine ⟨?_, fun h => hne (List.prefix_nil.mp (h ▸ hstart))⟩
      have hsome : (ids.findIdx? (· == hexId o.id)).isSome = true := by
        rw [List.findIdx?_isSome, List.any_eq_true]
        exact ⟨_, List.mem_of_getElem? hid, by simp⟩
      obtain ⟨j, hj⟩ := Option.isSome_iff_exists.mp hsome
      obtain ⟨hlt, heq, -⟩ := List.findIdx?_eq_some_iff_getElem.mp hj
      have hsame : ids[j] = hexId o.id := by simpa using heq
      have hmem : j ∈ (List.range ids.length).filter fun k => op.isPrefixOf (ids.getD k []) := by
        refine List.mem_filter.mpr ⟨List.mem_range.mpr hlt, ?_⟩
        rw [List.getD_eq_getElem?_getD, List.getElem?_eq_getElem hlt, hsame]
        simpa using hstart
      rw [hmatch, List.mem_singleton] at hmem
      rw [hj, hmem]
    · rw [hmatch] at hindex
      cases hindex
  · rw [hfirst] at hindex
    obtain rfl := Except.ok.inj hindex
    obtain ⟨hlt, heq, -⟩ := List.findIdx?_eq_some_iff_getElem.mp hfirst
    have hop : hexId o.id = op := by
      rw [List.getElem?_eq_getElem hlt, Option.some.injEq] at hid
      rw [← hid]
      simpa using heq
    rw [hop, hfirst]
    exact ⟨rfl, hne⟩

theorem keyed_id {op id : Text} {o : Operator} (h : keyed env sp op = .ok (o, id)) :
    keyed env sp id = .ok (o, id)
      ∧ ∃ i, (StateReader.ofSavepoint env sp).operatorIndex id = .ok i
        ∧ sp.operators[i]? = some o := by
  unfold keyed at h
  rcases hresolve : resolve env sp op with e | ⟨o', id'⟩
  · rw [hresolve] at h
    cases h
  have hsame : o' = o ∧ id' = id ∧ o.keyedSubtasks ≠ 0 := by
    rw [hresolve] at h
    by_cases hzero : o'.keyedSubtasks = 0
    · simp [bind, Except.bind, hzero] at h
    · simp only [bind, Except.bind, if_neg hzero, Except.ok.injEq, Prod.mk.injEq] at h
      obtain ⟨rfl, rfl⟩ := h
      exact ⟨rfl, rfl, hzero⟩
  obtain ⟨rfl, rfl, hkeyed⟩ := hsame
  unfold resolve at hresolve
  by_cases hempty : op.isEmpty = true
  · rw [if_pos hempty] at hresolve
    cases hresolve
  rw [if_neg hempty] at hresolve
  rcases hindex : (StateReader.ofSavepoint env sp).operatorIndex op with e | i
  · rw [hindex] at hresolve
    cases hresolve
  rw [hindex] at hresolve
  dsimp only at hresolve
  rcases hget : sp.operators[i]? with _ | o''
  · rw [hget] at hresolve
    cases hresolve
  rw [hget] at hresolve
  obtain ⟨rfl, rfl⟩ := Prod.mk.inj (Except.ok.inj hresolve)
  obtain ⟨hagain, hne⟩ := operatorIndex_hexId (by simpa using hempty) hindex hget
  refine ⟨?_, i, hagain, hget⟩
  unfold keyed resolve
  rw [if_neg (by simpa using hne), hagain]
  dsimp only
  rw [hget]
  exact if_neg hkeyed

end Operator

/-! ### What a request asks for -/

/-- A search of an operator, as a request asks for it. -/
structure Search.Valid (env : Environment) (sp : Savepoint) (o : Operator) (s : Search) : Prop where
  keyed : keyed env sp s.id = .ok (o, s.id)
  query : s.q ≠ []
  queryChars : s.q.length ≤ maxQueryChars
  from_le : ∀ f ∈ s.from', f ≤ o.lastKeyGroup
  to_le : ∀ t ∈ s.to', t ≤ o.lastKeyGroup
  range : ∀ f ∈ s.from', ∀ t ∈ s.to', f ≤ t
  budget : 1 ≤ s.budget ∧ s.budget ≤ maxSearchBudget
  limit : 1 ≤ s.limit ∧ s.limit ≤ maxLimit
  cursor_ge : ∀ f ∈ s.from', f ≤ s.cursor.keyGroup
  cursor_le : ∀ t ∈ s.to', s.cursor.keyGroup ≤ t

theorem checkRange_eq_ok {last : UInt16} {from' to' : Option UInt16} :
    checkRange last from' to' = .ok () ↔
      (∀ f ∈ from', f ≤ last) ∧ (∀ t ∈ to', t ≤ last) ∧ ∀ f ∈ from', ∀ t ∈ to', f ≤ t := by
  unfold checkRange
  rcases hfind : (from'.toList ++ to'.toList).find? fun v => v > last with _ | v
  · have hall : ∀ v ∈ from'.toList ++ to'.toList, v ≤ last := by
      intro v hv
      have hnot := List.find?_eq_none.mp hfind v hv
      simpa using hnot
    have hfrom : ∀ f ∈ from', f ≤ last := fun f hf => hall f (by simp [Option.mem_def.mp hf])
    have hto : ∀ t ∈ to', t ≤ last := fun t ht => hall t (by simp [Option.mem_def.mp ht])
    cases from' with
    | none => exact iff_of_true rfl ⟨hfrom, hto, fun f hf => by cases hf⟩
    | some f =>
      cases to' with
      | none => exact iff_of_true rfl ⟨hfrom, hto, fun _ _ t ht => by cases ht⟩
      | some t =>
        dsimp only
        by_cases hgt : f > t
        · rw [if_pos hgt]
          refine iff_of_false (by simp) fun h => ?_
          exact absurd (h.2.2 f rfl t rfl) (UInt16.not_le.mpr hgt)
        · rw [if_neg hgt]
          refine iff_of_true rfl ⟨hfrom, hto, fun f' hf' t' ht' => ?_⟩
          obtain rfl := Option.mem_some_iff.mp hf'
          obtain rfl := Option.mem_some_iff.mp ht'
          exact UInt16.not_lt.mp hgt
  · have hmem := List.mem_of_find?_eq_some hfind
    have hgt : v > last := by simpa using List.find?_some hfind
    refine iff_of_false (by simp) fun h => ?_
    rcases List.mem_append.mp hmem with hv | hv
    · exact absurd (h.1 v (by simpa using hv)) (UInt16.not_le.mpr hgt)
    · exact absurd (h.2.1 v (by simpa using hv)) (UInt16.not_le.mpr hgt)

theorem numberWithin_bounds {top default n : Nat} {bad : Fail} {t : Option Text}
    (h : numberWithin top default bad t = .ok n) (hdefault : 1 ≤ default ∧ default ≤ top) :
    1 ≤ n ∧ n ≤ top := by
  unfold numberWithin at h
  split at h
  · cases h
    exact hdefault
  · cases h
    exact hdefault
  · split at h
    · rename_i n' hread
      by_cases hn : 1 ≤ n' ∧ n' ≤ top
      · rw [if_pos hn] at h
        cases h
        exact hn
      · rw [if_neg hn] at h
        cases h
    · cases h

/-- A request starts within its range. -/
theorem parseStart_within {env : Environment} {sp : Savepoint} {id : Text} {from' to' : Option UInt16}
    {q : Query} {c : Cursor} {resumed : Bool} (hrange : ∀ f ∈ from', ∀ t ∈ to', f ≤ t)
    (h : parseStart env sp id from' to' q = .ok (c, resumed)) :
    (∀ f ∈ from', f ≤ c.keyGroup) ∧ ∀ t ∈ to', c.keyGroup ≤ t := by
  unfold parseStart at h
  -- Without a cursor the search starts where the range does; a given one is checked against it.
  rcases hcursor : q.cursor env.host "cursor".toList with e | _ | given
  · rw [hcursor] at h
    cases h
  · rw [hcursor] at h
    rcases hat : (StateReader.ofSavepoint env sp).cursorAt id (from'.getD 0) with e | at'
    · simp [bind, Except.bind, hat] at h
    · simp only [bind, Except.bind, hat, Except.ok.injEq, Prod.mk.injEq] at h
      obtain ⟨rfl, -⟩ := h
      have hkg : at'.keyGroup = from'.getD 0 := by
        unfold StateReader.cursorAt at hat
        rcases hop : (StateReader.ofSavepoint env sp).operator id with e | o
        · rw [hop] at hat
          cases hat
        · rw [hop] at hat
          cases hat
          rfl
      rw [hkg]
      refine ⟨fun f hf => ?_, fun t ht => ?_⟩
      · rw [Option.mem_def.mp hf]
        exact UInt16.le_refl _
      · cases from' with
        | none => exact UInt16.zero_le
        | some f => exact hrange f rfl t ht
  · rw [hcursor] at h
    by_cases hout : (from'.any (fun f => given.keyGroup < f) || to'.any fun t => given.keyGroup > t)
      = true
    · simp [bind, Except.bind, hout] at h
    · simp only [bind, Except.bind, if_neg hout, Except.ok.injEq, Prod.mk.injEq] at h
      obtain ⟨rfl, -⟩ := h
      rw [Bool.not_eq_true, Bool.or_eq_false_iff] at hout
      refine ⟨fun f hf => ?_, fun t ht => ?_⟩
      · have hany := hout.1
        rw [Option.mem_def.mp hf] at hany
        simpa using hany
      · have hany := hout.2
        rw [Option.mem_def.mp ht] at hany
        simpa using hany

/-- **What a request that is accepted asks for.** -/
theorem parseSearch_valid {env : Environment} {sp : Savepoint} {op id : Text} {q : Query}
    {s : Search} (h : parseSearch env sp op q = .ok (id, some s)) :
    id = s.id ∧ ∃ o, s.Valid env sp o := by
  unfold parseSearch at h
  -- Each parameter is read in turn, and an error in any of them is the answer.
  rcases hkeyed : keyed env sp op with e | ⟨o, id'⟩
  · rw [hkeyed] at h
    cases h
  rw [hkeyed] at h
  simp only [bind, Except.bind] at h
  split at h
  · cases h
  · cases h
  rename_i query hne hq
  by_cases hlong : query.length > maxQueryChars
  · rw [if_pos hlong] at h
    cases h
  rw [if_neg hlong] at h
  rcases hmode : parseMode q with e | mode
  · rw [hmode] at h
    cases h
  rw [hmode] at h
  dsimp only at h
  rcases hfrom : optU16 q "from".toList with e | from'
  · rw [hfrom] at h
    cases h
  rw [hfrom] at h
  dsimp only at h
  rcases hto : optU16 q "to".toList with e | to'
  · rw [hto] at h
    cases h
  rw [hto] at h
  dsimp only at h
  rcases hrange : checkRange o.lastKeyGroup from' to' with e | ⟨⟩
  · rw [hrange] at h
    cases h
  rw [hrange] at h
  dsimp only at h
  rcases hbudget : parseBudget q with e | budget
  · rw [hbudget] at h
    cases h
  rw [hbudget] at h
  dsimp only at h
  rcases hlimit : q.limit with e | limit
  · rw [hlimit] at h
    cases h
  rw [hlimit] at h
  dsimp only at h
  rcases hstart : parseStart env sp id' from' to' q with e | ⟨cursor, resumed⟩
  · rw [hstart] at h
    cases h
  rw [hstart] at h
  obtain ⟨rfl, hs⟩ := Prod.mk.inj (Except.ok.inj h)
  obtain rfl := Option.some.inj hs
  -- What is left passed every check, and each check is a field of `Valid`.
  obtain ⟨hfromLast, htoLast, horder⟩ := checkRange_eq_ok.mp hrange
  obtain ⟨hge, hle⟩ := parseStart_within horder hstart
  exact ⟨rfl, o, {
    keyed := (keyed_id hkeyed).1
    query := hne
    queryChars := not_lt.mp hlong
    from_le := hfromLast
    to_le := htoLast
    range := horder
    budget := numberWithin_bounds hbudget (by decide)
    limit := numberWithin_bounds hlimit (by decide)
    cursor_ge := hge
    cursor_le := hle }⟩

/-! ### The link to the next page -/

section Continue

variable {env : Environment} {sp : Savepoint} {o : Operator} {s : Search}

theorem subtask_openSubtask {p : Nat} {st : SubtaskState} {u : ReadUnit}
    (h : openSubtask env p st = some u) : u.subtask = st.subtaskIndex.toInt := by
  unfold openSubtask at h
  split at h
  · unfold openKeyGroups at h
    dsimp only at h
    split at h
    · cases h
    · cases h
      rfl
    · split at h
      · cases h
        rfl
      · cases h
        rfl
  · obtain ⟨x, -, rfl⟩ := Option.map_eq_some_iff.mp h
    rfl

theorem question_not_mem_url (s : Search) (api : Bool) :
    '?' ∉ (if api then "/api".toList ++ opPath s.id "search".toList
      else opPath s.id "search".toList) := by
  have hid := (unsplit_urlEncode s.id).2.2.1
  cases api <;> simp [opPath, hid]

/-- The parameters of a link are what its request is read from. -/
theorem parseQuery_url (s : Search) (api : Bool) (cursor : Option Cursor) :
    parseQuery (queryOf (s.url api cursor)) = s.params cursor :=
  parseQuery_href (question_not_mem_url s api) _

theorem cursor_of_params (s : Search) {c : Cursor} (host : HostText) (hlo : -2 ^ 31 ≤ c.subtask)
    (hhi : c.subtask < 2 ^ 31) :
    Query.cursor (s.params (some c)) host "cursor".toList = .ok (some c) := by
  have hread := Cursor.parse_text host hlo hhi
  unfold Query.cursor
  rw [s.get_params_cursor c]
  cases htext : c.text with
  | nil =>
    have hlen := congrArg List.length htext
    simp [Cursor.text] at hlen
  | cons d ds =>
    rw [htext] at hread
    dsimp only
    rw [hread]
    rfl

/-- A link to a cursor in the range of its search is read as that search, there. -/
theorem parseSearch_params (hs : s.Valid env sp o) {c : Cursor} (hlo : -2 ^ 31 ≤ c.subtask)
    (hhi : c.subtask < 2 ^ 31) (hge : ∀ f ∈ s.from', f ≤ c.keyGroup)
    (hle : ∀ t ∈ s.to', c.keyGroup ≤ t) :
    parseSearch env sp s.id (s.params (some c))
      = .ok (s.id, some { s with cursor := c, resumed := true }) := by
  have hstart : parseStart env sp s.id s.from' s.to' (s.params (some c)) = .ok (c, true) := by
    have hin : ¬ (s.from'.any (fun f => c.keyGroup < f) || s.to'.any fun t => c.keyGroup > t)
        = true := by
      rw [Bool.or_eq_true, Option.any_eq_true, Option.any_eq_true]
      rintro (⟨f, hf, hlt⟩ | ⟨t, ht, hgt⟩)
      · exact absurd (hge f hf) (UInt16.not_le.mpr (by simpa using hlt))
      · exact absurd (hle t ht) (UInt16.not_le.mpr (by simpa using hgt))
    unfold parseStart
    rw [cursor_of_params s env.host hlo hhi]
    exact if_neg hin
  have hmode := parseMode_of_get (s.get_params_mode c)
  have hfrom := optU16_of_get (s.get_params_from c)
  have hto := optU16_of_get (s.get_params_to c)
  have hrange := checkRange_eq_ok.mpr ⟨hs.from_le, hs.to_le, hs.range⟩
  have hbudget : parseBudget (s.params (some c)) = .ok s.budget := by
    unfold parseBudget
    rw [s.get_params_budget c]
    exact numberWithin_natText _ hs.budget.1 hs.budget.2 (by decide)
  have hlimit : Query.limit (s.params (some c)) = .ok s.limit := by
    unfold Query.limit
    rw [s.get_params_limit c]
    exact numberWithin_natText _ hs.limit.1 hs.limit.2 (by decide)
  unfold parseSearch
  rw [hs.keyed, s.get_params_q c]
  cases hq : s.q with
  | nil => exact absurd hq hs.query
  | cons d ds =>
    have hchars := hs.queryChars
    rw [hq] at hchars
    simp only [bind, Except.bind]
    rw [if_neg (not_lt.mpr hchars)]
    simp only [hmode, hfrom, hto, hrange, hbudget, hlimit, hstart]

/-- **A search link continues the same search.**  The URL of the next page is read as the same
    search at the cursor its scan gave, whatever its query is; this needs a key-group that a cursor
    can name, where the search has a first key-group and no last one. -/
theorem search_continues (hs : s.Valid env sp o)
    (hkeyGroups : s.from' = none ∨ s.to'.isSome = true
      ∨ ∀ i, (OpenOperator.opened env i o).Bounded)
    {τ : Type} (test : τ → Text → τ × Bool) (t : τ) (cache : BlockCache)
    {page : Page (List KeyRecord × τ)} (hpage : (runSearch env sp s test t cache).1 = .ok page)
    {c : Cursor} (hc : page.next = some c) (api : Bool) :
    parseSearch env sp s.id (parseQuery (queryOf (s.url api (some c))))
        = .ok (s.id, some { s with cursor := c, resumed := true })
      ∧ parseQuery (queryOf (s.url api (some c))) = s.params (some c)
      ∧ Cursor.parse env.host c.text = .ok c
      ∧ (∀ (path : Text) (params : List (Text × Text)), '?' ∉ path →
        parseQuery (queryOf (href path params)) = params)
      ∧ ∀ text, urlDecode (urlEncode text) = text := by
  obtain ⟨-, i, hindex, ho⟩ := keyed_id hs.keyed
  have hop : (StateReader.ofSavepoint env sp).operator s.id = .ok (OpenOperator.opened env i o) := by
    have hget : (StateReader.ofSavepoint env sp).operators[i]?
        = some (OpenOperator.opened env i o) := by
      unfold StateReader.ofSavepoint
      rw [List.getElem?_mapIdx, ho]
      rfl
    unfold StateReader.operator
    rw [hindex]
    simp only [bind, Except.bind, hget]
  -- The cursor is that of a unit's key-group at or after the one asked for.
  obtain ⟨kg, hlower, hpast, hkg, u, hu, hwithin, hsubtask⟩ :=
    StateReader.scanWith_next hop hpage c hc
  obtain ⟨p, st, -, hopen⟩ := mem_units_opened.mp hu
  rw [subtask_openSubtask hopen] at hsubtask
  have hlo : -2 ^ 31 ≤ c.subtask := hsubtask ▸ st.subtaskIndex.le_toInt
  have hhi : c.subtask < 2 ^ 31 := hsubtask ▸ st.subtaskIndex.toInt_lt
  have hlast : ∀ t ∈ s.to', kg ≤ t.toNat := by
    intro t ht
    unfold Walk.past at hpast
    have hlastKeyGroup : ((StateReader.ofSavepoint env sp).scanWalk
        ⟨s.budget, s.limit, s.to'⟩ test).lastKeyGroup = some t := ht
    rw [hlastKeyGroup, Option.any_some, decide_eq_false_iff_not] at hpast
    exact not_lt.mp hpast
  -- A u16 names the key-group only below 65536.
  have hname (hfits : kg < 65536) : (c.keyGroup.toNat : Int) = kg := by
    rw [hkg]
    exact toNat_ofInt_keyGroup (by omega) hfits
  -- So the cursor is within the range of the search it continues.
  have hge : ∀ f ∈ s.from', f ≤ c.keyGroup := by
    intro f hf
    have hfits : kg < 65536 := by
      rcases hkeyGroups with hnone | hsome | hbounded
      · rw [Option.mem_def.mp hf] at hnone
        cases hnone
      · obtain ⟨t, ht⟩ := Option.isSome_iff_exists.mp hsome
        have hle := hlast t ht
        have hlt := t.toNat_lt
        omega
      · obtain ⟨hfirst, hend⟩ := hbounded i u hu
        omega
    have hcursor := UInt16.le_iff_toNat_le.mp (hs.cursor_ge f hf)
    have hsame := hname hfits
    exact UInt16.le_iff_toNat_le.mpr (by omega)
  have hle : ∀ t ∈ s.to', c.keyGroup ≤ t := by
    intro t ht
    have hkgle := hlast t ht
    have hlt := t.toNat_lt
    have hsame := hname (by omega)
    exact UInt16.le_iff_toNat_le.mpr (by omega)
  refine ⟨?_, parseQuery_url s api (some c), Cursor.parse_text env.host hlo hhi,
    fun path params hpath => parseQuery_href hpath params, urlDecode_urlEncode⟩
  rw [parseQuery_url]
  exact parseSearch_params hs hlo hhi hge hle

end Continue

/-! ### Samples -/

/-- A subtask that holds one key-group, of one byte. -/
def sampleSubtask (subtask keyGroup : Int32) : SubtaskState :=
  ⟨subtask, none, none, .keyGroups ⟨keyGroup, 1, [1], .byteStream ⟨[], [0, 0]⟩⟩, .null, [], []⟩

/-- An operator of two subtasks, at key-group 5 and at another. -/
def sampleSavepoint (keyGroup : Int32) : Savepoint where
  version := 3
  checkpointId := 1
  operators := [⟨List.replicate 16 0, [], [], 2, 128, none,
    [sampleSubtask 0 5, sampleSubtask 1 keyGroup], false⟩]
  masterStates := []

/-- A search from key-group 5 on, of one block a page. -/
def sampleSearch (to' : Option UInt16) : Search where
  id := List.replicate 32 '0'
  q := ['a']
  mode := .exact
  from' := some 5
  to' := to'
  budget := 1
  limit := 100
  cursor := ⟨0, 5, 0⟩
  resumed := false

/-- A test that takes no key. -/
def sampleTest (t : Unit) (_ : Text) : Unit × Bool := (t, false)

theorem sampleSearch_valid (keyGroup : Int32) (to' : Option UInt16) (hto : ∀ t ∈ to', t = 6) :
    ∃ o, (sampleSearch to').Valid emptyEnvironment (sampleSavepoint keyGroup) o := by
  have hsix : ∀ t ∈ (sampleSearch to').to', t = 6 := hto
  have hfive : ∀ f ∈ (sampleSearch to').from', f = 5 := fun f hf => (Option.mem_some_iff.mp hf).symm
  have hbelow : (5 : UInt16) ≤ UInt16.ofInt (max (128 : Int32).toInt 1 - 1)
      ∧ (6 : UInt16) ≤ UInt16.ofInt (max (128 : Int32).toInt 1 - 1) := by decide
  exact ⟨_, {
    keyed := rfl
    query := List.cons_ne_nil _ _
    queryChars := (by decide : 1 ≤ maxQueryChars)
    from_le := fun f hf => by rw [hfive f hf]; exact hbelow.1
    to_le := fun t ht => by rw [hsix t ht]; exact hbelow.2
    range := fun f hf t ht => by rw [hfive f hf, hsix t ht]; decide
    budget := (by decide : 1 ≤ 1 ∧ 1 ≤ maxSearchBudget)
    limit := (by decide : 1 ≤ 100 ∧ 100 ≤ maxLimit)
    cursor_ge := fun f hf => by rw [hfive f hf]; exact UInt16.le_refl 5
    cursor_le := fun t ht => by rw [hsix t ht]; exact (by decide : (5 : UInt16) ≤ 6) }⟩

/-- The page of a sample search, and its cursor. -/
theorem runSearch_sample (keyGroup : Int32) (to' : Option UInt16) (c : Cursor)
    (h : ((runSearch emptyEnvironment (sampleSavepoint keyGroup) (sampleSearch to') sampleTest ()
      (.empty 0)).1.toOption.bind (·.next)) = some c) :
    ∃ page, (runSearch emptyEnvironment (sampleSavepoint keyGroup) (sampleSearch to') sampleTest ()
      (.empty 0)).1 = .ok page ∧ page.next = some c := by
  obtain ⟨page, hpage, hc⟩ := Option.bind_eq_some_iff.mp h
  rcases hrun : (runSearch emptyEnvironment (sampleSavepoint keyGroup) (sampleSearch to') sampleTest
    () (.empty 0)).1 with e | page'
  · rw [hrun] at hpage
    cases hpage
  · rw [hrun] at hpage
    cases hpage
    exact ⟨page, rfl, hc⟩

/-- A search of key-groups 5 and 6 goes on at the second. -/
theorem search_continues_sample :
    ∃ o page c, (sampleSearch (some 6)).Valid emptyEnvironment (sampleSavepoint 6) o
      ∧ (runSearch emptyEnvironment (sampleSavepoint 6) (sampleSearch (some 6)) sampleTest ()
        (.empty 0)).1 = .ok page
      ∧ page.next = some c
      ∧ parseSearch emptyEnvironment (sampleSavepoint 6) (sampleSearch (some 6)).id
          (parseQuery (queryOf ((sampleSearch (some 6)).url true (some c))))
        = .ok ((sampleSearch (some 6)).id, some { sampleSearch (some 6) with
            cursor := c
            resumed := true }) := by
  obtain ⟨o, hvalid⟩ := sampleSearch_valid 6 (some 6) fun t ht => (Option.mem_some_iff.mp ht).symm
  obtain ⟨page, hpage, hc⟩ := runSearch_sample 6 (some 6) ⟨1, 6, 0⟩
    (by decide +kernel)
  exact ⟨o, page, _, hvalid, hpage, hc,
    (search_continues hvalid (.inr (.inl rfl)) sampleTest () (.empty 0) hpage hc true).1⟩

/-- A subtask at key-group 65536 is named by a cursor at key-group 0, before the search's first. -/
theorem search_refused :
    ∃ o page c, (sampleSearch none).Valid emptyEnvironment (sampleSavepoint 65536) o
      ∧ (runSearch emptyEnvironment (sampleSavepoint 65536) (sampleSearch none) sampleTest ()
        (.empty 0)).1 = .ok page
      ∧ page.next = some c
      ∧ parseSearch emptyEnvironment (sampleSavepoint 65536) (sampleSearch none).id
          (parseQuery (queryOf ((sampleSearch none).url true (some c))))
        = .error (.badRequest "cursor 1.0.0 is outside the key-group range".toList) := by
  obtain ⟨o, hvalid⟩ := sampleSearch_valid 65536 none fun t ht => by cases ht
  obtain ⟨page, hpage, hc⟩ := runSearch_sample 65536 none ⟨1, 0, 0⟩
    (by decide +kernel)
  refine ⟨o, page, _, hvalid, hpage, hc, ?_⟩
  rw [parseQuery_url]
  rfl

end Web

end FlinkExplorer
