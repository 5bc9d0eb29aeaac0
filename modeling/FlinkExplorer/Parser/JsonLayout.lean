import FlinkExplorer.Parser.JsonRead

namespace FlinkExplorer

open Lib

/-!
# JSON laid out with blanks

A document that is written a piece at a time, on lines of its own, is read by its pieces.

* `ReadsAs t v` — the text is read as the value, whatever follows it;
* `ReadsAs.blanks`, `readsAs_array`, `readsAs_object` — blanks before a value, and between the
  elements of an array or the members of an object;
* `ReadsAs.parseJson` — a text that reads as a value is one.
-/

/-- A text that is read as a value, whatever follows it. -/
def ReadsAs (t : Text) (v : Json) : Prop :=
  ∀ depth, t.length < depth → ∀ rest, EndsNumber rest → parseValue depth (t ++ rest) = some (v, rest)

/-- Texts with a comma after each but the last. -/
def commaSeparated : List Text → Text
  | [] => []
  | [t] => t
  | t :: u :: ts => t ++ ',' :: commaSeparated (u :: ts)

/-- Texts written one by one, the first of them the `i`-th: each but the very first after a
    comma. -/
def joinFrom : Nat → List Text → Text
  | _, [] => []
  | i, t :: ts => (if i > 0 then [','] else []) ++ t ++ joinFrom (i + 1) ts

theorem joinFrom_append (i : Nat) (ts us : List Text) :
    joinFrom i (ts ++ us) = joinFrom i ts ++ joinFrom (i + ts.length) us := by
  induction ts generalizing i with
  | nil => rfl
  | cons t ts ih =>
    have hnext : i + (t :: ts).length = i + 1 + ts.length := by
      rw [List.length_cons]
      omega
    rw [List.cons_append, joinFrom, joinFrom, ih, hnext, List.append_assoc _ _ (joinFrom _ us)]

theorem joinFrom_succ (i : Nat) (t : Text) (ts : List Text) :
    joinFrom (i + 1) (t :: ts) = ',' :: commaSeparated (t :: ts) := by
  induction ts generalizing i t with
  | nil => simp [joinFrom, commaSeparated]
  | cons u ts ih =>
    rw [joinFrom, if_pos (Nat.succ_pos i), ih, commaSeparated]
    rfl

/-- Texts written one by one from the first on. -/
theorem joinFrom_zero (ts : List Text) : joinFrom 0 ts = commaSeparated ts := by
  cases ts with
  | nil => rfl
  | cons t ts =>
    rw [joinFrom, if_neg (Nat.lt_irrefl 0), List.nil_append]
    cases ts with
    | nil => rw [joinFrom, List.append_nil, commaSeparated]
    | cons u ts => rw [joinFrom_succ, commaSeparated]

/-- Nothing but blanks. -/
def Blank (t : Text) : Prop := ∀ c ∈ t, isJsonSpace c = true

instance (t : Text) : Decidable (Blank t) := List.decidableBAll _ t

theorem skipSpace_blank {blank : Text} (h : Blank blank) (t : Text) :
    skipSpace (blank ++ t) = skipSpace t := by
  unfold skipSpace
  exact List.dropWhile_append_of_pos h

theorem endsNumber_of_blank {blank rest : Text} (h : Blank blank) (hrest : EndsNumber rest) :
    EndsNumber (blank ++ rest) := by
  cases blank with
  | nil => exact hrest
  | cons c blank =>
    refine endsNumber_cons ?_ _
    by_contra hc
    rw [Bool.not_eq_false] at hc
    have hspace := h c List.mem_cons_self
    rw [isJsonSpace_of_isNumberChar hc] at hspace
    cases hspace

namespace ReadsAs

variable {t : Text} {v : Json}

theorem of_canonical (hv : v.Canonical) : ReadsAs (jsonText v) v :=
  fun depth hdepth _ => parseValue_jsonText v hv depth hdepth

/-- Blanks before a value. -/
theorem blanks {blank : Text} (hblank : Blank blank) (h : ReadsAs t v) : ReadsAs (blank ++ t) v := by
  intro depth hdepth rest hrest
  obtain ⟨depth, rfl⟩ : ∃ d, depth = d + 1 := ⟨depth - 1, by omega⟩
  rw [List.length_append] at hdepth
  have hvalue := h (depth + 1) (by omega) rest hrest
  rw [parseValue] at hvalue ⊢
  rw [List.append_assoc, skipSpace_blank hblank]
  exact hvalue

/-- **A text that reads as a value** is a JSON text. -/
theorem parseJson (h : ReadsAs t v) {blank : Text} (hblank : Blank blank) :
    FlinkExplorer.parseJson (t ++ blank) = some v := by
  have hends : EndsNumber blank := by
    rw [← List.append_nil blank]
    exact endsNumber_of_blank hblank fun c hc => absurd hc (by simp)
  have hvalue := h ((t ++ blank).length + 1) (by rw [List.length_append]; omega) blank hends
  rw [FlinkExplorer.parseJson, hvalue]
  dsimp only
  rw [← List.append_nil blank, skipSpace_blank hblank]
  rfl

end ReadsAs

/-! ### Arrays -/

/-- A value does not start with the bracket that ends an array. -/
theorem parseValue_head {depth : Nat} {t : Text} {r : Json × Text} (h : parseValue depth t = some r) :
    ∃ c t', skipSpace t = c :: t' ∧ c ≠ ']' := by
  obtain ⟨depth, rfl⟩ : ∃ d, depth = d + 1 := by
    cases depth with
    | zero => cases h
    | succ depth => exact ⟨depth, rfl⟩
  rw [parseValue] at h
  cases hskip : skipSpace t with
  | nil =>
    rw [hskip] at h
    cases h
  | cons c t' =>
    refine ⟨c, t', rfl, ?_⟩
    rintro rfl
    rw [hskip] at h
    have hbracket : parseNumber (']' :: t') = none := by
      rw [parseNumber, List.takeWhile_cons_of_neg (by decide), show numberOf [] = none by decide]
      rfl
    simp only [show (']' : Char) ≠ 'n' by decide, show (']' : Char) ≠ 't' by decide,
      show (']' : Char) ≠ 'f' by decide, show (']' : Char) ≠ '"' by decide,
      show (']' : Char) ≠ '[' by decide, show (']' : Char) ≠ '{' by decide, ↓reduceIte,
      hbracket] at h
    cases h

theorem length_le_commaSeparated (t : Text) (ts : List Text) :
    (t :: ts : List Text).length ≤ (commaSeparated (t :: ts)).length + 1 := by
  induction ts generalizing t with
  | nil => simp
  | cons u ts ih =>
    have hrest := ih u
    rw [commaSeparated]
    simp only [List.length_append, List.length_cons] at hrest ⊢
    omega

/-- The elements of an array, with blanks before its bracket. -/
theorem parseItems_commaSeparated {items : List (Text × Json)} (hne : items ≠ [])
    (hitems : ∀ i ∈ items, ReadsAs i.1 i.2) {blank : Text} (hblank : Blank blank) (depth turns : Nat)
    (hdepth : (commaSeparated (items.map Prod.fst)).length < depth) (hturns : items.length ≤ turns)
    (rest : Text) :
    parseItems (parseValue depth) turns
        (commaSeparated (items.map Prod.fst) ++ (blank ++ ']' :: rest))
      = some (items.map Prod.snd, rest) := by
  induction items generalizing turns with
  | nil => exact absurd rfl hne
  | cons item items ih =>
    obtain ⟨turns, rfl⟩ : ∃ d, turns = d + 1 := ⟨turns - 1, by simp at hturns; omega⟩
    have hitem := hitems item List.mem_cons_self
    cases items with
    | nil =>
      have hvalue := hitem depth hdepth (blank ++ ']' :: rest) (endsNumber_of_blank hblank
        (endsNumber_cons (show isNumberChar ']' = false from rfl) rest))
      rw [List.map_cons, List.map_nil, commaSeparated, parseItems, hvalue]
      simp only [Option.bind_eq_bind, Option.bind_some, skipSpace_blank hblank,
        skipSpace_cons _ (show isJsonSpace ']' = false from rfl)]
      rfl
    | cons item' items =>
      rw [List.map_cons, List.map_cons, commaSeparated, ← List.map_cons, List.length_append,
        List.length_cons] at hdepth
      have hvalue := hitem depth (by omega)
        (',' :: (commaSeparated ((item' :: items).map Prod.fst) ++ (blank ++ ']' :: rest)))
        (endsNumber_cons (show isNumberChar ',' = false from rfl) _)
      have hmore := ih (List.cons_ne_nil _ _) (fun i hi => hitems i (List.mem_cons_of_mem _ hi)) turns
        (by omega) (by simpa using hturns)
      rw [List.map_cons, List.map_cons, commaSeparated, ← List.map_cons, List.append_assoc,
        List.cons_append, parseItems, hvalue]
      simp only [Option.bind_eq_bind, Option.bind_some,
        skipSpace_cons _ (show isJsonSpace ',' = false from rfl)]
      rw [hmore]
      rfl

/-- **An array**, with blanks before its closing bracket. -/
theorem readsAs_array {items : List (Text × Json)} (hitems : ∀ i ∈ items, ReadsAs i.1 i.2)
    {blank : Text} (hblank : Blank blank) :
    ReadsAs ('[' :: (commaSeparated (items.map Prod.fst) ++ (blank ++ [']'])))
      (.array (items.map Prod.snd)) := by
  intro depth hdepth rest hrest
  obtain ⟨depth, rfl⟩ : ∃ d, depth = d + 1 := ⟨depth - 1, by omega⟩
  rw [List.cons_append, List.append_assoc, List.append_assoc, List.singleton_append, parseValue,
    skipSpace_cons _ (show isJsonSpace '[' = false from rfl)]
  simp only [show ('[' : Char) ≠ 'n' by decide, show ('[' : Char) ≠ 't' by decide,
    show ('[' : Char) ≠ 'f' by decide, show ('[' : Char) ≠ '"' by decide, ↓reduceIte]
  cases items with
  | nil =>
    rw [List.map_nil, commaSeparated, List.nil_append, skipSpace_blank hblank,
      skipSpace_cons rest (show isJsonSpace ']' = false from rfl)]
    rfl
  | cons item items =>
    have hlength := length_le_commaSeparated item.1 (items.map Prod.fst)
    simp only [List.length_append, List.length_cons, List.length_map, List.map_cons] at hdepth hlength
    have hparse := parseItems_commaSeparated (List.cons_ne_nil item items) hitems hblank depth
      ((commaSeparated ((item :: items).map Prod.fst) ++ (blank ++ ']' :: rest)).length + 1)
      (by rw [List.map_cons]; omega)
      (by simp only [List.map_cons, List.length_append, List.length_cons]; omega) rest
    -- what follows the opening bracket is an element
    obtain ⟨c, t', hskip, hc⟩ : ∃ c t', skipSpace
        (commaSeparated ((item :: items).map Prod.fst) ++ (blank ++ ']' :: rest)) = c :: t'
          ∧ c ≠ ']' := by
      have hsome := hparse
      rw [parseItems] at hsome
      obtain ⟨r, hr, -⟩ := Option.bind_eq_some_iff.mp hsome
      exact parseValue_head hr
    rw [hskip]
    split
    · next heq =>
      obtain ⟨rfl, -⟩ := List.cons.inj heq
      exact absurd rfl hc
    · rw [hparse]
      rfl

/-! ### Objects -/

/-- A member as it is laid out: blanks, its name, and what is written after the colon. -/
structure LaidMember where
  lead : Text
  key : Text
  text : Text
  value : Json

namespace LaidMember

def written (m : LaidMember) : Text := m.lead ++ (quoted m.key ++ ':' :: m.text)

/-- What the member is read as. -/
def member (m : LaidMember) : Text × Json := (m.key, m.value)

/-- Its value is read, and what stands before its name are blanks. -/
structure Reads (m : LaidMember) : Prop where
  lead : Blank m.lead
  value : ReadsAs m.text m.value

theorem length_text_le (m : LaidMember) : m.text.length < m.written.length := by
  unfold written
  simp only [List.length_append, List.length_cons]
  omega

theorem Reads.parseMember {m : LaidMember} (h : m.Reads) {depth : Nat}
    (hdepth : m.written.length < depth) {rest : Text} (hrest : EndsNumber rest) :
    FlinkExplorer.parseMember (parseValue depth) (m.written ++ rest) = some (m.member, rest) := by
  have hvalue := h.value depth (m.length_text_le.trans hdepth) rest hrest
  have hname := parseMember_text (parseValue depth) m.key (m.text ++ rest)
  have hlead : FlinkExplorer.parseMember (parseValue depth) (m.written ++ rest)
      = FlinkExplorer.parseMember (parseValue depth) (quoted m.key ++ ':' :: (m.text ++ rest)) := by
    unfold written FlinkExplorer.parseMember
    rw [List.append_assoc, skipSpace_blank h.lead, List.append_assoc, List.cons_append]
  rw [hlead, hname, hvalue]
  rfl

end LaidMember

/-- The members of an object, with blanks before its brace. -/
theorem parseMembers_commaSeparated {members : List LaidMember} (hne : members ≠ [])
    (hmembers : ∀ m ∈ members, m.Reads) {blank : Text} (hblank : Blank blank) (depth turns : Nat)
    (hdepth : (commaSeparated (members.map LaidMember.written)).length < depth)
    (hturns : members.length ≤ turns) (obj : List (Text × Json)) (rest : Text) :
    parseMembers (parseValue depth) turns obj
        (commaSeparated (members.map LaidMember.written) ++ (blank ++ '}' :: rest))
      = some (membersInto obj (members.map LaidMember.member), rest) := by
  induction members generalizing turns obj with
  | nil => exact absurd rfl hne
  | cons m members ih =>
    obtain ⟨turns, rfl⟩ : ∃ d, turns = d + 1 := ⟨turns - 1, by simp at hturns; omega⟩
    have hm := hmembers m List.mem_cons_self
    cases members with
    | nil =>
      have hmember := hm.parseMember hdepth (endsNumber_of_blank hblank
        (endsNumber_cons (show isNumberChar '}' = false from rfl) rest))
      rw [List.map_cons, List.map_nil, commaSeparated, parseMembers, hmember]
      simp only [Option.bind_eq_bind, Option.bind_some, skipSpace_blank hblank,
        skipSpace_cons _ (show isJsonSpace '}' = false from rfl)]
      rfl
    | cons m' members =>
      rw [List.map_cons, List.map_cons, commaSeparated, ← List.map_cons, List.length_append,
        List.length_cons] at hdepth
      have hless : m.written.length < depth := by omega
      have hmember := hm.parseMember hless (endsNumber_cons
        (show isNumberChar ',' = false from rfl)
        (commaSeparated ((m' :: members).map LaidMember.written) ++ (blank ++ '}' :: rest)))
      have hmore := ih (List.cons_ne_nil _ _) (fun i hi => hmembers i (List.mem_cons_of_mem _ hi))
        turns (by omega) (by simpa using hturns) (objInsert m.key m.value obj)
      rw [List.map_cons, List.map_cons, commaSeparated, ← List.map_cons, List.append_assoc,
        List.cons_append, parseMembers, hmember]
      simp only [Option.bind_eq_bind, Option.bind_some,
        skipSpace_cons _ (show isJsonSpace ',' = false from rfl)]
      exact hmore

/-- **An object**, with blanks before its closing brace: its members are inserted one by one. -/
theorem readsAs_object {members : List LaidMember} (hmembers : ∀ m ∈ members, m.Reads)
    {blank : Text} (hblank : Blank blank) :
    ReadsAs ('{' :: (commaSeparated (members.map LaidMember.written) ++ (blank ++ ['}'])))
      (.object (membersInto [] (members.map LaidMember.member))) := by
  intro depth hdepth rest hrest
  obtain ⟨depth, rfl⟩ : ∃ d, depth = d + 1 := ⟨depth - 1, by omega⟩
  rw [List.cons_append, List.append_assoc, List.append_assoc, List.singleton_append, parseValue,
    skipSpace_cons _ (show isJsonSpace '{' = false from rfl)]
  simp only [show ('{' : Char) ≠ 'n' by decide, show ('{' : Char) ≠ 't' by decide,
    show ('{' : Char) ≠ 'f' by decide, show ('{' : Char) ≠ '"' by decide,
    show ('{' : Char) ≠ '[' by decide, ↓reduceIte]
  cases members with
  | nil =>
    rw [List.map_nil, commaSeparated, List.nil_append, skipSpace_blank hblank,
      skipSpace_cons rest (show isJsonSpace '}' = false from rfl)]
    rfl
  | cons m members =>
    have hlength := length_le_commaSeparated m.written (members.map LaidMember.written)
    simp only [List.length_append, List.length_cons, List.length_map, List.map_cons] at hdepth hlength
    have hparse := parseMembers_commaSeparated (List.cons_ne_nil m members) hmembers hblank depth
      ((commaSeparated ((m :: members).map LaidMember.written) ++ (blank ++ '}' :: rest)).length + 1)
      (by rw [List.map_cons]; omega)
      (by simp only [List.map_cons, List.length_append, List.length_cons]; omega) [] rest
    -- what follows the opening brace is the name of a member
    obtain ⟨t', hskip⟩ : ∃ t', skipSpace
        (commaSeparated ((m :: members).map LaidMember.written) ++ (blank ++ '}' :: rest)) = '"' :: t' := by
      have hlead := (hmembers m List.mem_cons_self).lead
      cases members with
      | nil =>
        rw [List.map_cons, List.map_nil, commaSeparated, LaidMember.written, List.append_assoc,
          skipSpace_blank hlead, quoted]
        exact ⟨_, rfl⟩
      | cons m' members =>
        rw [List.map_cons, List.map_cons, commaSeparated, LaidMember.written, List.append_assoc,
          List.append_assoc, skipSpace_blank hlead, quoted]
        exact ⟨_, rfl⟩
    rw [hskip]
    split
    · next heq =>
      obtain ⟨hc, -⟩ := List.cons.inj heq
      exact absurd hc (by decide)
    · rw [hparse]
      rfl

theorem membersText_eq (ms : List (Text × Json)) :
    membersText ms = commaSeparated (ms.map fun m => quoted m.1 ++ ':' :: jsonText m.2) := by
  induction ms with
  | nil => rfl
  | cons m ms ih =>
    cases ms with
    | nil => rfl
    | cons m' ms =>
      rw [membersText, ih]
      simp [commaSeparated]

/-- Members that are not in order are read as what inserting them gives. -/
theorem readsAs_membersText {ms : List (Text × Json)} (hms : ∀ m ∈ ms, m.2.Canonical) :
    ReadsAs ('{' :: membersText ms ++ ['}']) (.object (membersInto [] ms)) := by
  let laid (m : Text × Json) : LaidMember := ⟨[], m.1, jsonText m.2, m.2⟩
  have hmembers : ∀ m ∈ ms.map laid, m.Reads := by
    intro m hm
    obtain ⟨m, hmem, rfl⟩ := List.mem_map.mp hm
    exact ⟨nofun, .of_canonical (hms m hmem)⟩
  have hread := readsAs_object hmembers (nofun : Blank [])
  have hwritten : (ms.map laid).map LaidMember.written
      = ms.map fun m => quoted m.1 ++ ':' :: jsonText m.2 := List.map_map
  have hmember : (ms.map laid).map LaidMember.member = ms := by
    rw [List.map_map]
    exact List.map_id ms
  rw [hwritten, hmember, ← membersText_eq, List.nil_append] at hread
  exact hread

end FlinkExplorer
