import FlinkExplorer.Reader.StateReader

namespace FlinkExplorer.Web

open Lib

/-!
# `web/pages.rs` — previews

A value in a table cell is shown by its first characters, and so is the row of a key.  The
text is cut while it is built: a large value costs the characters it is cut at.

* `Preview` — a text that takes at most so many more characters;
* `Emits f t` — running `f` is pushing the text `t`;
* `previews_cut` — a preview is the whole display text, cut.
-/

/-! ### The bounded text -/

/-- A text that takes at most `left` more characters. -/
structure Preview where
  out : Text
  left : Nat
  cut : Bool

/-- What writes to a preview: `false` once it is full. -/
abbrev Put : Type := Preview → Bool × Preview

namespace Preview

/-- `Preview::new`. -/
def new (max : Nat) : Preview := ⟨[], max, false⟩

/-- The loop of `push`. -/
def pushChars : Text → Put
  | [], p => (true, p)
  | c :: s, p =>
    if p.left = 0 then (false, { p with cut := true })
    else pushChars s { p with out := p.out ++ [c], left := p.left - 1 }

def push (s : Text) : Put := fun p => if p.cut then (false, p) else pushChars s p

/-- `f && g`: what follows a full text is not written. -/
def andThen (f g : Put) : Put := fun p =>
  match f p with
  | (true, p') => g p'
  | (false, p') => (false, p')

/-- Nothing to write. -/
def done : Put := fun p => (true, p)

/-- A text that only the first of several leaves out. -/
def unlessFirst (i : Nat) (s : Text) : Put := if i = 0 then done else push s

mutual

/-- `Preview::value`. -/
def value : Json → Put
  | .null => push "null".toList
  | .bool b => push (if b then "true".toList else "false".toList)
  | .number n => push (numberText n)
  | .string s =>
    if isMarker s then push s
    else andThen (push ['"']) (andThen (push s) (push ['"']))
  | .array items => andThen (push ['[']) (andThen (values 0 items) (push [']']))
  | .object members =>
    andThen (push ['{', ' ']) (andThen (pairs 0 members) (push [' ', '}']))

/-- The items of an array from index `i` on. -/
def values : Nat → List Json → Put
  | _, [] => done
  | i, v :: vs =>
    andThen (andThen (unlessFirst i ", ".toList) (value v)) (values (i + 1) vs)

/-- The members of an object from index `i` on. -/
def pairs : Nat → List (Text × Json) → Put
  | _, [] => done
  | i, (k, v) :: ms =>
    andThen (andThen (unlessFirst i ", ".toList)
        (andThen (push k) (andThen (push ": ".toList) (value v))))
      (pairs (i + 1) ms)

end

def finish (p : Preview) : Text := if p.cut then p.out ++ ['…'] else p.out

end Preview

/-- `preview`. -/
def preview (v : Json) (max : Nat) : Text := (Preview.value v (Preview.new max)).2.finish

open Preview in
/-- One entry of a record, from index `i` on: `state[map key] = value`. -/
def summaryEntry (i : Nat) (e : StateEntry) : Put :=
  andThen (unlessFirst i " · ".toList)
    (andThen (push e.state)
      (andThen
        (match e.mapKey with
          | some key => andThen (push ['[']) (andThen (push key) (push [']']))
          | none => done)
        (andThen (push " = ".toList) (value e.value))))

/-- The loop of `summary`: it breaks once the text is full. -/
def summaryEntries : Nat → List StateEntry → Preview → Preview
  | _, [], p => p
  | i, e :: es, p =>
    match summaryEntry i e p with
    | (true, p') => summaryEntries (i + 1) es p'
    | (false, p') => p'

/-- `summary`: `state = value · state[map key] = value · …` for a row of the keys page. -/
def summary (rec : KeyRecord) (max : Nat) : Text :=
  (summaryEntries 0 rec.entries (Preview.new max)).finish

/-! ### What is shown -/

/-- The first `max` characters of a text and the cut sign, or all of a text that is not longer. -/
def cutAt (max : Nat) (t : Text) : Text :=
  if t.length ≤ max then t else t.take max ++ ['…']

/-- The whole text of an entry. -/
def entryText (e : StateEntry) : Text :=
  e.state ++ (e.mapKey.elim [] fun key => '[' :: key ++ [']']) ++ " = ".toList
    ++ valueToDisplay e.value

/-- The whole text of the entries of a record. -/
def entriesText (es : List StateEntry) : Text :=
  ((es.map entryText).intersperse " · ".toList).flatten

/-! ### Pushing -/

namespace Preview

/-- Pushing takes as many characters as there is room for. -/
theorem pushChars_eq (s : Text) (p : Preview) :
    pushChars s p
      = if s.length ≤ p.left then (true, { p with out := p.out ++ s, left := p.left - s.length })
        else (false, ⟨p.out ++ s.take p.left, 0, true⟩) := by
  induction s generalizing p with
  | nil => simp [pushChars]
  | cons c s ih =>
    rw [pushChars]
    split_ifs with h0 hle hle
    · rw [h0, List.length_cons] at hle
      omega
    · rw [h0, List.take_zero, List.append_nil]
    · rw [List.length_cons] at hle
      rw [ih, if_pos (by show s.length ≤ p.left - 1; omega)]
      simp [Nat.sub_sub, Nat.add_comm]
    · rw [List.length_cons] at hle
      rw [ih, if_neg (by show ¬ s.length ≤ p.left - 1; omega)]
      obtain ⟨n, hn⟩ := Nat.exists_eq_succ_of_ne_zero h0
      simp [hn]

theorem push_of_not_cut {p : Preview} (hp : p.cut = false) (s : Text) :
    push s p = pushChars s p := by
  rw [push, if_neg (by simp [hp])]

/-- Two texts are pushed one after the other. -/
theorem push_append {p : Preview} (hp : p.cut = false) (s t : Text) :
    push (s ++ t) p = andThen (push s) (push t) p := by
  induction s generalizing p with
  | nil =>
    rw [andThen, push_of_not_cut hp [], pushChars]
    rfl
  | cons c s ih =>
    rw [andThen, push_of_not_cut hp, push_of_not_cut hp, List.cons_append, pushChars, pushChars]
    split
    · rfl
    · have hp' : Preview.cut { p with out := p.out ++ [c], left := p.left - 1 } = false := hp
      have h := ih hp'
      rw [andThen, push_of_not_cut hp', push_of_not_cut hp'] at h
      exact h

/-- `f` writes the text `t`: from any preview that is not cut, it pushes it. -/
def Emits (f : Put) (t : Text) : Prop := ∀ p, p.cut = false → f p = push t p

theorem emits_push (t : Text) : Emits (push t) t := fun _ _ => rfl

theorem emits_done : Emits done [] := by
  intro p hp
  rw [push_of_not_cut hp]
  rfl

/-- A push that does not fill the preview leaves it uncut. -/
theorem push_cut {s : Text} {p p' : Preview} (hp : p.cut = false) (h : push s p = (true, p')) :
    p'.cut = false := by
  rw [push_of_not_cut hp, pushChars_eq] at h
  split_ifs at h
  · rw [← (Prod.mk.inj h).2]
    exact hp
  · cases (Prod.mk.inj h).1

/-- **What is written one after the other is one text.** -/
theorem Emits.andThen {f g : Put} {s t : Text} (hf : Emits f s) (hg : Emits g t) :
    Emits (andThen f g) (s ++ t) := by
  intro p hp
  rw [push_append hp, Preview.andThen, Preview.andThen, hf p hp]
  split
  · rename_i p' h
    exact hg p' (push_cut hp h)
  · rfl

theorem Emits.congr {f : Put} {s t : Text} (hf : Emits f s) (h : s = t) : Emits f t := h ▸ hf

/-- What stands before the text of any but the first. -/
def separator (i : Nat) (s : Text) : Text := if i = 0 then [] else s

theorem emits_unlessFirst (i : Nat) (s : Text) : Emits (unlessFirst i s) (separator i s) := by
  unfold unlessFirst separator
  split
  · exact emits_done
  · exact emits_push s

/-- Parts from index `i` on, each but the first after the separator. -/
def joinedFrom (sep : Text) : Nat → List Text → Text
  | _, [] => []
  | i, x :: xs => separator i sep ++ x ++ joinedFrom sep (i + 1) xs

theorem joinedFrom_succ (sep : Text) (i : Nat) (xs : List Text) :
    joinedFrom sep (i + 1) xs = xs.flatMap (sep ++ ·) := by
  induction xs generalizing i with
  | nil => rfl
  | cons x xs ih =>
    rw [joinedFrom, ih, separator, if_neg (Nat.succ_ne_zero i), List.flatMap_cons]

/-- From the first on, they are joined by the separator. -/
theorem joinedFrom_zero (sep : Text) (xs : List Text) :
    joinedFrom sep 0 xs = (xs.intersperse sep).flatten := by
  cases xs with
  | nil => rfl
  | cons x xs =>
    rw [joinedFrom, joinedFrom_succ, separator, if_pos rfl, List.nil_append]
    induction xs generalizing x with
    | nil => simp
    | cons y ys ih => rw [List.flatMap_cons, List.append_assoc, ih]; simp

/-! ### Values -/

mutual

/-- **A value writes its display text.** -/
theorem value_emits (v : Json) : Emits (value v) (valueToDisplay v) := by
  match v with
  | .null => rw [value, valueToDisplay]; exact emits_push _
  | .bool b => rw [value, valueToDisplay]; exact emits_push _
  | .number n => rw [value, valueToDisplay]; exact emits_push _
  | .string s =>
    rw [value, valueToDisplay]
    split
    · exact emits_push s
    · exact (emits_push ['"']).andThen ((emits_push s).andThen (emits_push ['"']))
  | .array items =>
    rw [value, valueToDisplay]
    have h := (emits_push ['[']).andThen ((values_emits 0 items).andThen (emits_push [']']))
    refine h.congr ?_
    rw [joinedFrom_zero]
    rfl
  | .object members =>
    rw [value, valueToDisplay]
    have h := (emits_push ['{', ' ']).andThen
      ((pairs_emits 0 members).andThen (emits_push [' ', '}']))
    refine h.congr ?_
    rw [joinedFrom_zero]
    rfl

theorem values_emits (i : Nat) (vs : List Json) :
    Emits (values i vs) (joinedFrom ", ".toList i (itemsToDisplay vs)) := by
  match vs with
  | [] => rw [values, itemsToDisplay]; exact emits_done
  | v :: vs =>
    rw [values, itemsToDisplay, joinedFrom]
    exact ((emits_unlessFirst i _).andThen (value_emits v)).andThen (values_emits (i + 1) vs)

theorem pairs_emits (i : Nat) (ms : List (Text × Json)) :
    Emits (pairs i ms) (joinedFrom ", ".toList i (membersToDisplay ms)) := by
  match ms with
  | [] => rw [pairs, membersToDisplay]; exact emits_done
  | (k, v) :: ms =>
    rw [pairs, membersToDisplay, joinedFrom, List.append_assoc k]
    exact ((emits_unlessFirst i _).andThen
      ((emits_push k).andThen ((emits_push _).andThen (value_emits v)))).andThen
        (pairs_emits (i + 1) ms)

end

/-- A text pushed on a new preview is the text, cut. -/
theorem finish_push (t : Text) (max : Nat) : (push t (new max)).2.finish = cutAt max t := by
  rw [push_of_not_cut rfl, pushChars_eq]
  show (if t.length ≤ max then _ else _ : Bool × Preview).2.finish = _
  unfold cutAt
  split
  · rfl
  · rfl

end Preview

open Preview

/-- One entry writes its text. -/
theorem summaryEntry_emits (i : Nat) (e : StateEntry) :
    Emits (summaryEntry i e) (separator i " · ".toList ++ entryText e) := by
  have hkey : Emits
      (match e.mapKey with
        | some key => andThen (push ['[']) (andThen (push key) (push [']']))
        | none => done)
      (e.mapKey.elim [] fun key => '[' :: key ++ [']']) := by
    split
    · rename_i key hkey
      rw [hkey]
      exact (emits_push ['[']).andThen ((emits_push key).andThen (emits_push [']']))
    · rename_i hkey
      rw [hkey]
      exact emits_done
  refine ((emits_unlessFirst i _).andThen ((emits_push e.state).andThen
    (hkey.andThen ((emits_push " = ".toList).andThen (value_emits e.value))))).congr ?_
  rw [entryText, List.append_assoc e.state, List.append_assoc e.state,
    List.append_assoc _ " = ".toList]

/-- The loop writes the entries joined, or stops where the text is full. -/
theorem summaryEntries_eq (i : Nat) (es : List StateEntry) {p : Preview} (hp : p.cut = false) :
    summaryEntries i es p = (push (joinedFrom " · ".toList i (es.map entryText)) p).2 := by
  induction es generalizing i p with
  | nil =>
    rw [List.map_nil, joinedFrom, push_of_not_cut hp]
    rfl
  | cons e es ih =>
    rw [List.map_cons, joinedFrom, push_append hp, summaryEntries, andThen,
      summaryEntry_emits i e p hp]
    split
    · rename_i p' h
      exact ih (i + 1) (push_cut hp h)
    · rfl

/-- **A preview is the display text, cut**, and the row of a key is its entries' text, cut: for
    every value, every record and every length. -/
theorem previews_cut (max : Nat) :
    (∀ v, preview v max = cutAt max (valueToDisplay v))
      ∧ ∀ rec : KeyRecord, summary rec max = cutAt max (entriesText rec.entries) := by
  constructor
  · intro v
    rw [preview, value_emits v (new max) rfl, finish_push]
  · intro rec
    rw [summary, summaryEntries_eq 0 rec.entries rfl, joinedFrom_zero, finish_push]
    rfl

example : preview (.array [.bool true, .null, .string ['x']]) 7 = "[true, …".toList := by
  decide

end FlinkExplorer.Web
