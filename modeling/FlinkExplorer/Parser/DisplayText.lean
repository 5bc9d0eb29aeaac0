import FlinkExplorer.Parser.KeyText

namespace FlinkExplorer

open Lib

/-!
# When the display text of a value tells it

`valueToDisplay` is meant for people: it escapes nothing.  It still tells a value whose strings
hold no quote and look like no marker (`Json.IsClear`), together with where the value ends
(`valueToDisplay_inj`).
-/

/-- A Java field name: not empty, without a blank or a colon. -/
def isFieldName (name : Text) : Bool := !name.isEmpty && name.all fun c => c != ' ' && c != ':'

mutual

/-- A value whose display text can be read back: no float, no string that holds a quote or looks
    like a marker (a lone quote does no harm). -/
def Json.IsClear : Json → Prop
  | .null | .bool _ | .number (.int _) => True
  | .number (.float _) => False
  | .string s => isMarker s = false ∧ ('"' ∉ s ∨ s = ['"'])
  | .array items => ItemsClear items
  | .object members => MembersClear members

/-- The items of an array are all clear. -/
def ItemsClear : List Json → Prop
  | [] => True
  | v :: vs => v.IsClear ∧ ItemsClear vs

/-- The members of an object are all clear, under names a field may have. -/
def MembersClear : List (Text × Json) → Prop
  | [] => True
  | (k, v) :: ms => isFieldName k = true ∧ v.IsClear ∧ MembersClear ms

end

/-- A character a displayed value can end before. -/
def isDisplayStop (c : Char) : Bool := c == ',' || c == ' ' || c == ']'

/-! ### How a value starts -/

section Head

/-- The kind of a value. -/
def Json.kind : Json → Nat
  | .null => 0
  | .bool _ => 1
  | .number _ => 2
  | .string _ => 3
  | .array _ => 4
  | .object _ => 5

/-- The kind of value that a character starts. -/
def headKind (c : Char) : Nat :=
  if c = 'n' then 0
  else if c = 't' || c = 'f' then 1
  else if c.isDigit || c = '-' then 2
  else if c = '"' then 3
  else if c = '[' then 4
  else if c = '{' then 5
  else 6

/-- A number starts like no other kind of value. -/
theorem headKind_of_mem_intText {v : Int} {c : Char} (h : c ∈ intText v) : headKind c = 2 := by
  have hne (d : Char) (hd : (d.isDigit || d == '-') = false) : c ≠ d := by
    rintro rfl
    rcases digit_or_minus_of_mem_intText h with hdigit | hminus
    · rw [hdigit] at hd
      cases hd
    · rw [hminus] at hd
      exact absurd hd (by decide)
  have hnumber : (c.isDigit || decide (c = '-')) = true := by
    rcases digit_or_minus_of_mem_intText h with hdigit | hminus
    · simp [hdigit]
    · simp [hminus]
  have ht : (decide (c = 't') || decide (c = 'f')) = false := by
    simp [hne 't' (by decide), hne 'f' (by decide)]
  rw [headKind, if_neg (hne 'n' (by decide)), if_neg (by simp [ht]), if_pos hnumber]

/-- A clear value starts as its kind does. -/
theorem valueToDisplay_head {v : Json} (hv : v.IsClear) :
    ∃ c t, valueToDisplay v = c :: t ∧ headKind c = v.kind := by
  match v with
  | .null => exact ⟨_, _, rfl, by decide⟩
  | .bool true | .bool false => exact ⟨_, _, rfl, by decide⟩
  | .number (.int n) =>
    obtain ⟨c, t, hc⟩ := List.exists_cons_of_ne_nil (intText_ne_nil n)
    exact ⟨c, t, hc, headKind_of_mem_intText (hc ▸ List.mem_cons_self)⟩
  | .string s =>
    have htext : valueToDisplay (.string s) = '"' :: s ++ ['"'] := by
      rw [valueToDisplay, if_neg (by simp [hv.1])]
    exact ⟨'"', _, htext, show headKind '"' = 3 by decide⟩
  | .array items => exact ⟨'[', _, rfl, show headKind '[' = 4 by decide⟩
  | .object members => exact ⟨'{', _, rfl, show headKind '{' = 5 by decide⟩

/-- There are six kinds of values. -/
theorem Json.kind_lt (v : Json) : v.kind < 6 := by
  cases v <;> simp [Json.kind]

/-- **Values that display alike are of one kind**: their first characters say which. -/
theorem kind_eq_of_append {a b : Json} (ha : a.IsClear) (hb : b.IsClear) {x y : Text}
    (h : valueToDisplay a ++ x = valueToDisplay b ++ y) : a.kind = b.kind := by
  obtain ⟨c, t, hc, hkc⟩ := valueToDisplay_head ha
  obtain ⟨d, u, hd, hkd⟩ := valueToDisplay_head hb
  rw [hc, hd, List.cons_append, List.cons_append] at h
  rw [← hkc, ← hkd, (List.cons.inj h).1]

end Head

/-! ### Leaves -/

section Leaves

/-- Nothing in a number ends it. -/
theorem no_stop_of_mem_intText {v : Int} : ∀ c ∈ intText v, isDisplayStop c = false := by
  intro c hc
  by_contra hstop
  simp only [isDisplayStop, Bool.not_eq_false, Bool.or_eq_true, beq_iff_eq] at hstop
  have hkind := headKind_of_mem_intText hc
  rcases hstop with (rfl | rfl) | rfl <;> exact absurd hkind (by decide)

/-- Numbers that display alike up to a stop are equal. -/
theorem number_inj {a b : Int} {x y : Text} (hx : ∀ c ∈ x.head?, isDisplayStop c = true)
    (hy : ∀ c ∈ y.head?, isDisplayStop c = true) (h : intText a ++ x = intText b ++ y) :
    a = b ∧ x = y := by
  obtain ⟨hab, hxy⟩ := append_stop_inj no_stop_of_mem_intText no_stop_of_mem_intText hx hy h
  exact ⟨intText_inj hab, hxy⟩

/-- A clear string ends at its closing quote. -/
theorem string_inj {s t x y : Text} (hs : '"' ∉ s ∨ s = ['"']) (ht : '"' ∉ t ∨ t = ['"'])
    (hx : ∀ c ∈ x.head?, isDisplayStop c = true) (hy : ∀ c ∈ y.head?, isDisplayStop c = true)
    (h : s ++ '"' :: x = t ++ '"' :: y) : s = t ∧ x = y := by
  have hmixed {s x y : Text} (hs : '"' ∉ s) (hy : ∀ c ∈ y.head?, isDisplayStop c = true)
      (hx : ∀ c ∈ x.head?, isDisplayStop c = true) (h : s ++ '"' :: x = '"' :: '"' :: y) :
      False := by
    cases s with
    | nil =>
      -- An empty string: a quote would follow its closing quote.
      have hxy := (List.cons.inj h).2
      exact absurd (hx '"' (by rw [hxy]; rfl)) (by decide)
    | cons c s => exact hs ((List.cons.inj h).1 ▸ List.mem_cons_self)
  rcases hs with hs | rfl <;> rcases ht with ht | rfl
  · exact append_sep_inj hs ht h
  · exact (hmixed hs hy hx h).elim
  · exact (hmixed ht hx hy h.symm).elim
  · exact ⟨rfl, by simpa using h⟩

end Leaves

/-! ### Composites -/

section Composites

/-- Two parts and a comma between them. -/
theorem joinDisplay_cons (p q : Text) (ps : List Text) :
    joinDisplay (p :: q :: ps) = p ++ ',' :: ' ' :: joinDisplay (q :: ps) := by
  simp [joinDisplay]

/-- One part has none. -/
theorem joinDisplay_singleton (p : Text) : joinDisplay [p] = p := by simp [joinDisplay]

/-- What follows the first item of an array. -/
def itemsTail (vs : List Json) (x : Text) : Text :=
  match vs with
  | [] => ']' :: x
  | v :: vs => ',' :: ' ' :: (joinDisplay (itemsToDisplay (v :: vs)) ++ ']' :: x)

/-- An array from an item on: the item, then what follows it. -/
theorem items_cons (v : Json) (vs : List Json) (x : Text) :
    joinDisplay (itemsToDisplay (v :: vs)) ++ ']' :: x = valueToDisplay v ++ itemsTail vs x := by
  cases vs with
  | nil => rw [itemsToDisplay, itemsToDisplay, joinDisplay_singleton]; rfl
  | cons w ws =>
    rw [itemsToDisplay, itemsToDisplay, joinDisplay_cons, List.append_assoc]
    rfl

/-- What follows an item starts with a stop. -/
theorem itemsTail_stop (vs : List Json) (x : Text) :
    ∀ c ∈ (itemsTail vs x).head?, isDisplayStop c = true := by
  cases vs <;> · rintro c ⟨⟩; rfl

/-- What follows the first member of an object. -/
def membersTail (ms : List (Text × Json)) (x : Text) : Text :=
  match ms with
  | [] => ' ' :: '}' :: x
  | m :: ms => ',' :: ' ' :: (joinDisplay (membersToDisplay (m :: ms)) ++ ' ' :: '}' :: x)

/-- An object from a member on: its name, its value, then what follows it. -/
theorem members_cons (k : Text) (v : Json) (ms : List (Text × Json)) (x : Text) :
    joinDisplay (membersToDisplay ((k, v) :: ms)) ++ ' ' :: '}' :: x
      = k ++ ':' :: ' ' :: (valueToDisplay v ++ membersTail ms x) := by
  have hsep : ": ".toList = [':', ' '] := rfl
  cases ms with
  | nil =>
    rw [membersToDisplay, membersToDisplay, joinDisplay_singleton, hsep]
    simp [membersTail]
  | cons m ms =>
    obtain ⟨k', v'⟩ := m
    rw [membersToDisplay, membersToDisplay, joinDisplay_cons, hsep]
    simp [membersTail, membersToDisplay, hsep]

/-- What follows a member starts with a stop. -/
theorem membersTail_stop (ms : List (Text × Json)) (x : Text) :
    ∀ c ∈ (membersTail ms x).head?, isDisplayStop c = true := by
  cases ms <;> · rintro c ⟨⟩; rfl

/-- A field name holds no colon and no blank. -/
theorem not_mem_of_isFieldName {k : Text} (h : isFieldName k = true) : ':' ∉ k ∧ ' ' ∉ k := by
  simp only [isFieldName, Bool.and_eq_true, List.all_eq_true, bne_iff_ne] at h
  exact ⟨fun hc => (h.2 _ hc).2 rfl, fun hc => (h.2 _ hc).1 rfl⟩

/-- A field has a name. -/
theorem ne_nil_of_isFieldName {k : Text} (h : isFieldName k = true) : k ≠ [] := by
  rintro rfl
  cases h

mutual

/-- **The display text of a clear value determines it**, and where it ends. -/
theorem valueToDisplay_inj (a b : Json) (ha : a.IsClear) (hb : b.IsClear) (x y : Text)
    (hx : ∀ c ∈ x.head?, isDisplayStop c = true) (hy : ∀ c ∈ y.head?, isDisplayStop c = true)
    (h : valueToDisplay a ++ x = valueToDisplay b ++ y) : a = b ∧ x = y := by
  -- the first character tells the kinds apart
  have hkind := kind_eq_of_append ha hb h
  match a, b with
  | .null, .null => exact ⟨rfl, List.append_cancel_left h⟩
  | .bool true, .bool true => exact ⟨rfl, List.append_cancel_left h⟩
  | .bool false, .bool false => exact ⟨rfl, List.append_cancel_left h⟩
  | .bool true, .bool false => exact absurd (List.cons.inj h).1 (by decide)
  | .bool false, .bool true => exact absurd (List.cons.inj h).1 (by decide)
  | .number (.int n), .number (.int m) =>
    obtain ⟨rfl, hxy⟩ := number_inj hx hy h
    exact ⟨rfl, hxy⟩
  | .string s, .string t =>
    have htext {s : Text} (hs : isMarker s = false) (x : Text) :
        valueToDisplay (.string s) ++ x = '"' :: (s ++ '"' :: x) := by
      rw [valueToDisplay, if_neg (by simp [hs])]
      simp
    rw [htext ha.1, htext hb.1] at h
    obtain ⟨rfl, hxy⟩ := string_inj ha.2 hb.2 hx hy (List.cons.inj h).2
    exact ⟨rfl, hxy⟩
  | .array as, .array bs =>
    have htext (vs : List Json) (x : Text) : valueToDisplay (.array vs) ++ x
        = '[' :: (joinDisplay (itemsToDisplay vs) ++ ']' :: x) := by
      simp [valueToDisplay]
    rw [htext, htext] at h
    obtain ⟨rfl, hxy⟩ := itemsToDisplay_inj as bs ha hb x y (List.cons.inj h).2
    exact ⟨rfl, hxy⟩
  | .object ms, .object ns =>
    have htext (ms : List (Text × Json)) (x : Text) : valueToDisplay (.object ms) ++ x
        = '{' :: ' ' :: (joinDisplay (membersToDisplay ms) ++ ' ' :: '}' :: x) := by
      have hopen : "\x7b ".toList = ['{', ' '] := rfl
      have hclose : " \x7d".toList = [' ', '}'] := rfl
      rw [valueToDisplay, hopen, hclose]
      simp
    rw [htext, htext] at h
    obtain ⟨rfl, hxy⟩ := membersToDisplay_inj ms ns ha hb x y
      (List.cons.inj (List.cons.inj h).2).2
    exact ⟨rfl, hxy⟩
  | .number (.float _), _ => exact ha.elim
  | .number (.int _), .number (.float _) => exact hb.elim

/-- The same for the items of an array, up to its closing bracket. -/
theorem itemsToDisplay_inj (as bs : List Json) (ha : ItemsClear as) (hb : ItemsClear bs)
    (x y : Text)
    (h : joinDisplay (itemsToDisplay as) ++ ']' :: x = joinDisplay (itemsToDisplay bs) ++ ']' :: y) :
    as = bs ∧ x = y := by
  have hempty {v : Json} {vs : List Json} (hv : v.IsClear) {x y : Text}
      (h : ']' :: x = joinDisplay (itemsToDisplay (v :: vs)) ++ ']' :: y) : False := by
    obtain ⟨c, t, hc, hk⟩ := valueToDisplay_head hv
    rw [items_cons, hc] at h
    rw [← (List.cons.inj h).1, show headKind ']' = 6 by decide] at hk
    have := v.kind_lt
    omega
  match as, bs with
  | [], [] => exact ⟨rfl, (List.cons.inj h).2⟩
  | [], b :: bs => exact (hempty hb.1 h).elim
  | a :: as, [] => exact (hempty ha.1 h.symm).elim
  | a :: as, b :: bs =>
    rw [items_cons, items_cons] at h
    obtain ⟨rfl, htail⟩ := valueToDisplay_inj a b ha.1 hb.1 _ _ (itemsTail_stop as x)
      (itemsTail_stop bs y) h
    match as, bs with
    | [], [] => exact ⟨rfl, (List.cons.inj htail).2⟩
    | [], _ :: _ => exact absurd (List.cons.inj htail).1 (by decide)
    | _ :: _, [] => exact absurd (List.cons.inj htail).1 (by decide)
    | a' :: as, b' :: bs =>
      obtain ⟨hitems, hxy⟩ := itemsToDisplay_inj (a' :: as) (b' :: bs) ha.2 hb.2 x y
        (List.cons.inj (List.cons.inj htail).2).2
      exact ⟨by rw [hitems], hxy⟩

/-- The same for the members of an object, up to its closing brace. -/
theorem membersToDisplay_inj (ms ns : List (Text × Json)) (hm : MembersClear ms)
    (hn : MembersClear ns) (x y : Text)
    (h : joinDisplay (membersToDisplay ms) ++ ' ' :: '}' :: x
      = joinDisplay (membersToDisplay ns) ++ ' ' :: '}' :: y) : ms = ns ∧ x = y := by
  have hempty {k : Text} {v : Json} {ms : List (Text × Json)} (hk : isFieldName k = true)
      {x y : Text}
      (h : ' ' :: '}' :: x = joinDisplay (membersToDisplay ((k, v) :: ms)) ++ ' ' :: '}' :: y) :
      False := by
    obtain ⟨c, t, rfl⟩ := List.exists_cons_of_ne_nil (ne_nil_of_isFieldName hk)
    rw [members_cons] at h
    exact (not_mem_of_isFieldName hk).2 ((List.cons.inj h).1 ▸ List.mem_cons_self)
  match ms, ns with
  | [], [] =>
    exact ⟨rfl, by simpa using h⟩
  | [], (k, v) :: ns => exact (hempty hn.1 h).elim
  | (k, v) :: ms, [] => exact (hempty hm.1 h.symm).elim
  | (k, v) :: ms, (l, w) :: ns =>
    rw [members_cons, members_cons] at h
    obtain ⟨rfl, hvalue⟩ := append_sep_inj (not_mem_of_isFieldName hm.1).1
      (not_mem_of_isFieldName hn.1).1 h
    obtain ⟨rfl, htail⟩ := valueToDisplay_inj v w hm.2.1 hn.2.1 _ _ (membersTail_stop ms x)
      (membersTail_stop ns y) (List.cons.inj hvalue).2
    match ms, ns with
    | [], [] => exact ⟨rfl, by simpa [membersTail] using htail⟩
    | [], _ :: _ => exact absurd (List.cons.inj htail).1 (by decide)
    | _ :: _, [] => exact absurd (List.cons.inj htail).1 (by decide)
    | m :: ms, n :: ns =>
      obtain ⟨hmembers, hxy⟩ := membersToDisplay_inj (m :: ms) (n :: ns) hm.2.2 hn.2.2 x y
        (List.cons.inj (List.cons.inj htail).2).2
      exact ⟨by rw [hmembers], hxy⟩

end

end Composites

/-! ### Texts without quotes -/

section Unquoted

/-- A text without a quote or an opening bracket. -/
def Unquoted (t : Text) : Prop := ∀ c ∈ t, c ≠ '"' ∧ c ≠ '['

/-- The empty text holds no quote. -/
@[simp] theorem unquoted_nil : Unquoted [] := fun _ h => absurd h List.not_mem_nil

/-- A text holds no quote if its first character and the rest do not. -/
@[simp] theorem unquoted_cons {c : Char} {t : Text} :
    Unquoted (c :: t) ↔ (c ≠ '"' ∧ c ≠ '[') ∧ Unquoted t :=
  List.forall_mem_cons

/-- Two texts in a row hold no quote if neither does. -/
@[simp] theorem unquoted_append {a b : Text} : Unquoted (a ++ b) ↔ Unquoted a ∧ Unquoted b :=
  List.forall_mem_append

/-- A text of another's characters holds no quote either. -/
theorem Unquoted.of_subset {a b : Text} (hb : Unquoted b) (h : ∀ c ∈ a, c ∈ b) : Unquoted a :=
  fun c hc => hb c (h c hc)

/-- Digits and signs are no quotes, -/
theorem unquoted_of_digits {t : Text} (h : ∀ c ∈ t, c.isDigit = true ∨ c = '-') : Unquoted t := by
  intro c hc
  rcases h c hc with hdigit | rfl
  · exact ⟨ne_of_isDigit hdigit rfl, ne_of_isDigit hdigit rfl⟩
  · decide

/-- so a natural number holds none, -/
@[simp] theorem unquoted_natText (n : Nat) : Unquoted (natText n) :=
  unquoted_of_digits fun _ hc => .inl (isDigit_of_mem_natText hc)

/-- nor an integer, -/
@[simp] theorem unquoted_intText (v : Int) : Unquoted (intText v) :=
  unquoted_of_digits fun _ => digit_or_minus_of_mem_intText

/-- nor a number with zeros in front, -/
@[simp] theorem unquoted_padNat (w n : Nat) : Unquoted (padNat w n) :=
  unquoted_of_digits fun _ hc => .inl (isDigit_of_mem_padNat hc)

/-- nor one with a sign. -/
@[simp] theorem unquoted_padInt (w : Nat) (v : Int) : Unquoted (padInt w v) :=
  unquoted_of_digits fun _ => digit_or_minus_of_mem_padInt

/-- Dates hold no quote, -/
theorem unquoted_dateText (y : Int32) (mo d : UInt8) : Unquoted (dateText y mo d) := by
  simp [dateText]

/-- nor do instants, -/
theorem unquoted_millisToIso (millis : Int) : Unquoted (millisToIso millis) := by
  have hfraction (ms : Int) : Unquoted (isoFraction ms) := by
    unfold isoFraction
    split <;> simp
  rw [millisToIso_eq]
  simp [isoDate, isoTime, hfraction]

/-- nor decimals by their digits, -/
theorem unquoted_decimalText {digits : Text} (h : Unquoted digits) (scale : Int) :
    Unquoted (decimalText digits scale) := by
  have htake (k : Nat) : Unquoted (digits.take k) := h.of_subset fun _ => List.mem_of_mem_take
  have hdrop (k : Nat) : Unquoted (digits.drop k) := h.of_subset fun _ => List.mem_of_mem_drop
  have hzeros (k : Nat) : Unquoted (List.replicate k '0') := by
    intro c hc
    rw [List.eq_of_mem_replicate hc]
    decide
  unfold decimalText
  simp only
  split
  · split
    · exact h
    · split <;> simp [htake, hdrop, hzeros, h]
  · have htail : Unquoted digits.tail := h.of_subset fun _ => List.mem_of_mem_tail
    split <;> split_ifs <;> simp [htake, htail]

/-- nor big decimals. -/
theorem unquoted_bigDecimalToString (v scale : Int) :
    Unquoted (bigDecimalToString (intText v) scale) := by
  unfold bigDecimalToString
  rcases hcases : stripPrefix ['-'] (intText v) with _ | digits
  · exact unquoted_decimalText (unquoted_intText v) scale
  · have hdigits : Unquoted digits := (unquoted_intText v).of_subset fun c hc => by
      rw [stripPrefix_eq_some.mp hcases]
      exact List.mem_append_right _ hc
    simp [unquoted_decimalText hdigits]

/-- A text without a bracket is no marker. -/
theorem isMarker_eq_false {t : Text} (h : '[' ∉ t) : isMarker t = false := by
  have hcut (p : Text) (hp : '[' ∈ p) : p.isPrefixOf t = false := by
    rw [Bool.eq_false_iff]
    intro hpre
    exact h ((List.isPrefixOf_iff_prefix.mp hpre).subset hp)
  have hkryo : (t == kryoMarker) = false := by
    rw [beq_eq_false_iff_ne]
    rintro rfl
    exact absurd h (by decide)
  rw [isMarker, hkryo, hcut "[undecodable: ".toList (by decide),
    hcut "[not decoded: ".toList (by decide)]
  simp

/-- A text without quotes or brackets is clear as a string. -/
theorem Unquoted.isClear {t : Text} (h : Unquoted t) : (Json.string t).IsClear :=
  ⟨isMarker_eq_false fun hc => (h _ hc).2 rfl, .inl fun hc => (h _ hc).1 rfl⟩

/-- A character is clear, a lone surrogate included. -/
theorem isClear_charValue (unit : UInt16) : (charValue unit).IsClear := by
  unfold charValue
  by_cases hu : isSurrogate unit = true
  · rw [if_pos hu]
    refine Unquoted.isClear ?_
    have hunit := unit.toNat_lt
    have hdigit {n : Nat} (h : n < 16) : hexDigitUpper n ≠ '"' ∧ hexDigitUpper n ≠ '[' := by
      have hhex := (hexDigitUpper_spec h).1
      constructor <;>
        · intro hc
          rw [hc] at hhex
          exact absurd hhex (by decide)
    simp only [unquoted_cons, hexUnit, unquoted_nil, and_true]
    exact ⟨by decide, by decide, hdigit (by omega), hdigit (by omega), hdigit (by omega),
      hdigit (by omega)⟩
  · rw [if_neg hu]
    -- One character: even a quote or a bracket is told.
    refine ⟨?_, ?_⟩
    · have hshort (c : Char) : isMarker [c] = false := by
        simp [isMarker, kryoMarker, List.isPrefixOf]
      exact hshort _
    · by_cases hc : Char.ofNat unit.toNat = '"'
      · exact .inr (by rw [hc])
      · exact .inl (by simpa using Ne.symm hc)

end Unquoted

end FlinkExplorer
