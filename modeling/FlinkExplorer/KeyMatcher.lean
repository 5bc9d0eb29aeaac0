import FlinkExplorer.Glob
import FlinkExplorer.Lib.Lowercase

namespace FlinkExplorer

open Lib

/-!
# `glob.rs` — a query against a key

A search lowercases its query once and every key it is tested on, each as a whole.

* `KeyMatcher` — the prepared query; `KeyMatcher.matchesKey` — the test;
* `FoundWherever` — every key that contains the query is found;
* `FoundMasked` — a key is found with any of its characters replaced by `?`;
* `contained_found_iff` — where both hold: the sigmas of the query are settled, and the masked
  characters keep the others as they are.
-/

/-! ### `KeyMatcher` -/

/-- How a search compares a rendered key with its query. -/
inductive MatchMode
  | glob
  | substring
  | exact
  deriving DecidableEq

def MatchMode.parse (s : Text) : Option MatchMode :=
  if s = "glob".toList then some .glob
  else if s = "substring".toList then some .substring
  else if s = "exact".toList then some .exact
  else none

/-- `MatchMode::as_str`. -/
def MatchMode.asStr : MatchMode → Text
  | .glob => "glob".toList
  | .substring => "substring".toList
  | .exact => "exact".toList

/-- A query prepared once and tested on many keys. -/
structure KeyMatcher where
  mode : MatchMode
  query : Text
  lowered : List Char

/-- `windows(n)`: every part of `n` elements. -/
def windows {α : Type} (n : Nat) (s : List α) : List (List α) :=
  (List.range (s.length + 1 - n)).map fun i => (s.drop i).take n

section Match

variable (T : CaseTables)

/-- `glob_match`. -/
def globMatch (pattern text : Text) : Bool :=
  globChars (toLowercase T pattern) (toLowercase T text)

namespace KeyMatcher

/-- `KeyMatcher::new`. -/
def new (mode : MatchMode) (query : Text) : KeyMatcher := ⟨mode, query, toLowercase T query⟩

/-- `KeyMatcher::matches`. -/
def matchesKey (m : KeyMatcher) (key : Text) : Bool :=
  match m.mode with
  | .exact => key == m.query
  | .glob => globChars m.lowered (toLowercase T key)
  | .substring =>
    if m.lowered.isEmpty then true
    else (windows m.lowered.length (toLowercase T key)).any (· == m.lowered)

end KeyMatcher

end Match

theorem any_windows {α : Type} [DecidableEq α] (q s : List α) :
    (windows q.length s).any (· == q) = true ↔ q <:+: s := by
  rw [List.any_eq_true]
  constructor
  · rintro ⟨w, hw, heq⟩
    obtain ⟨i, -, rfl⟩ := List.mem_map.mp hw
    rw [← beq_iff_eq.mp heq]
    exact (List.take_prefix _ _).isInfix.trans (List.drop_suffix _ _).isInfix
  · rintro ⟨a, b, rfl⟩
    refine ⟨q, List.mem_map.mpr ⟨a.length, ?_, ?_⟩, beq_self_eq_true q⟩
    · rw [List.mem_range, List.length_append, List.length_append]
      omega
    · rw [List.append_assoc, List.drop_left, List.take_left]

/-! ### Keys that contain the query -/

/-- No `*` and no `?`. -/
def NoWildcard (s : Text) : Prop := ∀ w, isWildcard w = true → w ∉ s

/-- Every key that contains the query is found, as a part and, where the query has no wildcard, by
    the query between two stars. -/
def FoundWherever (T : CaseTables) (q : Text) : Prop :=
  ∀ a b : Text, (KeyMatcher.new T .substring q).matchesKey T (a ++ q ++ b) = true
    ∧ (NoWildcard q →
        (KeyMatcher.new T .glob ('*' :: (q ++ ['*']))).matchesKey T (a ++ q ++ b) = true)

/-- A key without wildcards is found with any one of its characters replaced by `?`. -/
def FoundMasked (T : CaseTables) (k : Text) : Prop :=
  NoWildcard k → ∀ u c v, k = u ++ c :: v →
    (KeyMatcher.new T .glob (u ++ '?' :: v)).matchesKey T k = true

/-- Each character maps to one, and a `?` in its place leaves every other sigma final or not. -/
def MaskKeeps (T : CaseTables) (k : Text) : Prop :=
  NoWildcard k → ∀ u c v, k = u ++ c :: v →
    (c = 'Σ' ∨ (T.lower c).length = 1)
      ∧ SigmasAgree T u [] ('?' :: v) [] (c :: v)
      ∧ SigmasAgree T v ('?' :: u.reverse) [] (c :: u.reverse) []

section Found

variable {T : CaseTables}

theorem NoWildcard.lowerIn {s : Text} (h : NoWildcard s) (before after : List Char) :
    NoWildcard (lowerIn T before s after) := fun w hw => not_mem_lowerIn hw (h w hw) before after

theorem substring_iff (q k : Text) :
    (KeyMatcher.new T .substring q).matchesKey T k = true
      ↔ toLowercase T q <:+: toLowercase T k := by
  show (if (toLowercase T q).isEmpty = true then true else _) = true ↔ _
  by_cases hempty : (toLowercase T q).isEmpty = true
  · rw [if_pos hempty, List.isEmpty_iff.mp hempty]
    simp
  · rw [if_neg hempty]
    exact any_windows _ _

theorem lowerIn_star (w : Char) (hw : isWildcard w = true) (before s after : List Char) :
    lowerIn T before (w :: s) after = w :: lowerIn T (w :: before) s after := by
  rw [lowerIn, lowerChar_wildcard hw]
  rfl

theorem casedNext_wildcard {w : Char} (hw : isWildcard w = true) (t : List Char) :
    casedNext T (w :: t) = false := by
  obtain ⟨hcased, hignorable⟩ := T.uncased_wildcard w hw
  rw [casedNext_cons hignorable, hcased]

/-- Two stars around a query leave its lower case as it is. -/
theorem toLowercase_stars (q : Text) :
    toLowercase T ('*' :: (q ++ ['*'])) = '*' :: (toLowercase T q ++ ['*']) := by
  have hstar : isWildcard '*' = true := rfl
  rw [toLowercase, lowerIn_star '*' hstar, lowerIn_append, List.append_nil,
    lowerIn_star '*' hstar, lowerIn_uncased q (casedNext_wildcard hstar _)
      (casedNext_wildcard hstar _)]
  rfl

/-- A query without wildcards between two stars is found where it is a part. -/
theorem glob_stars_iff {q : Text} (hq : NoWildcard q) (k : Text) :
    (KeyMatcher.new T .glob ('*' :: (q ++ ['*']))).matchesKey T k = true
      ↔ toLowercase T q <:+: toLowercase T k := by
  have hplain : NoWildcard (toLowercase T q) := hq.lowerIn [] []
  show globChars (toLowercase T ('*' :: (q ++ ['*']))) (toLowercase T k) = true ↔ _
  rw [globChars_iff, toLowercase_stars, matches_infix (hplain '*' rfl) (hplain '?' rfl)]

theorem foundWherever_iff_within (q : Text) :
    FoundWherever T q ↔ ∀ a b : Text, toLowercase T q <:+: toLowercase T (a ++ q ++ b) := by
  constructor
  · intro h a b
    exact (substring_iff q _).mp (h a b).1
  · intro h a b
    exact ⟨(substring_iff q _).mpr (h a b), fun hq => (glob_stars_iff hq _).mpr (h a b)⟩

/-- Of two letters, one is not the given character. -/
theorem exists_other_letter (c : Option Char) :
    ∃ x, isPlainLetter x = true ∧ c ≠ some x := by
  by_cases h : c = some 'a'
  · refine ⟨'b', rfl, ?_⟩
    rw [h]
    decide
  · exact ⟨'a', rfl, h⟩

theorem casedNext_letter {x : Char} (hx : isPlainLetter x = true) (t : List Char) :
    casedNext T (x :: t) = true := by
  obtain ⟨hcased, hignorable⟩ := T.cased_letter x hx
  rw [casedNext_cons hignorable, hcased]

/-- A part that is as long as the text but for its first letter is the rest, or starts with it. -/
theorem infix_cons_cases {l m : List Char} {x : Char} (h : l <:+: x :: m)
    (hlen : l.length = m.length) : l = m ∨ l.head? = some x ∨ l = [] := by
  rcases List.infix_cons_iff.mp h with hprefix | hwithin
  · right
    rcases l with _ | ⟨c, l⟩
    · exact .inr rfl
    · left
      obtain ⟨rest, hrest⟩ := hprefix
      rw [List.cons_append] at hrest
      rw [(List.cons.inj hrest).1]
      rfl
  · exact .inl (hwithin.eq_of_length hlen)

/-- The same with the last letter. -/
theorem infix_concat_cases {l m : List Char} {x : Char} (h : l <:+: m ++ [x])
    (hlen : l.length = m.length) : l = m ∨ l.getLast? = some x ∨ l = [] := by
  have hreverse : l.reverse <:+: x :: m.reverse := by
    rw [show x :: m.reverse = (m ++ [x]).reverse by simp]
    exact List.reverse_infix.mpr h
  rcases infix_cons_cases hreverse (by rw [List.length_reverse, List.length_reverse, hlen])
    with heq | hhead | hnil
  · exact .inl (List.reverse_injective heq)
  · rw [List.head?_reverse] at hhead
    exact .inr (.inl hhead)
  · exact .inr (.inr (List.reverse_eq_nil_iff.mp hnil))

/-- **Every key that contains the query is found** exactly when its sigmas are settled. -/
theorem foundWherever_iff (q : Text) : FoundWherever T q ↔ SigmasSettled T q := by
  rw [foundWherever_iff_within]
  constructor
  · intro hfound
    by_contra hnot
    have hlen (before after : List Char) :
        (toLowercase T q).length = (lowerIn T before q after).length :=
      length_lowerIn [] before q [] after
    -- a query whose lower case is empty has no sigma
    have hne : toLowercase T q ≠ [] := by
      intro hempty
      apply hnot
      intro u v hq
      have hlength := congrArg List.length hempty
      rw [toLowercase, hq, lowerIn_append, List.length_append] at hlength
      rw [lowerIn, lowerChar, if_pos rfl, List.length_append, List.length_singleton,
        List.length_nil] at hlength
      omega
    rcases not_settled_cases hnot with hbefore | hafter
    · obtain ⟨x, hx, hhead⟩ := exists_other_letter (toLowercase T q).head?
      have htext : toLowercase T ([x] ++ q ++ []) = x :: lowerIn T [x] q [] := by
        rw [List.append_nil, List.singleton_append, toLowercase, lowerIn, lowerChar_letter hx,
          List.singleton_append]
      have hwithin := hfound [x] []
      rw [htext] at hwithin
      rcases infix_cons_cases hwithin (hlen [x] []) with heq | heq | heq
      · exact hbefore [x] (casedNext_letter hx []) (lowerIn_eq_iff.mp heq.symm)
      · exact hhead heq
      · exact hne heq
    · obtain ⟨x, hx, hlast⟩ := exists_other_letter (toLowercase T q).getLast?
      have htext : toLowercase T ([] ++ q ++ [x]) = lowerIn T [] q [x] ++ [x] := by
        rw [List.nil_append, toLowercase, lowerIn_append, lowerIn, lowerChar_letter hx, lowerIn]
        rfl
      have hwithin := hfound [] [x]
      rw [htext] at hwithin
      rcases infix_concat_cases hwithin (hlen [] [x]) with heq | heq | heq
      · exact hafter [x] (casedNext_letter hx []) (lowerIn_eq_iff.mp heq.symm)
      · exact hlast heq
      · exact hne heq
  · intro hsettled a b
    have hmiddle : lowerIn T a.reverse q b = toLowercase T q :=
      lowerIn_eq_iff.mpr (hsettled.agree a.reverse b)
    rw [toLowercase_append, hmiddle]
    exact ⟨_, _, rfl⟩

/-! ### Keys with a character masked -/

theorem length_lowerChar_eq_one {before after : List Char} {c : Char} :
    (lowerChar T before c after).length = 1 ↔ c = 'Σ' ∨ (T.lower c).length = 1 := by
  unfold lowerChar
  by_cases hc : c = 'Σ'
  · rw [if_pos hc]
    simp [hc]
  · rw [if_neg hc]
    simp [hc]

/-- A key in lower case around one of its characters. -/
theorem toLowercase_around (u : Text) (c : Char) (v : Text) :
    toLowercase T (u ++ c :: v)
      = lowerIn T [] u (c :: v) ++ lowerChar T u.reverse c v ++ lowerIn T (c :: u.reverse) v [] := by
  rw [toLowercase, lowerIn_append, lowerIn, List.append_nil, List.append_nil, List.append_nil,
    List.append_assoc]

/-- One masked character. -/
theorem masked_iff {u v : Text} {c : Char} (h : NoWildcard (u ++ c :: v)) :
    (KeyMatcher.new T .glob (u ++ '?' :: v)).matchesKey T (u ++ c :: v) = true
      ↔ (c = 'Σ' ∨ (T.lower c).length = 1)
        ∧ SigmasAgree T u [] ('?' :: v) [] (c :: v)
        ∧ SigmasAgree T v ('?' :: u.reverse) [] (c :: u.reverse) [] := by
  have hu : NoWildcard u := fun w hw hmem => h w hw (List.mem_append_left _ hmem)
  have hv : NoWildcard v := fun w hw hmem =>
    h w hw (List.mem_append_right _ (List.mem_cons_of_mem c hmem))
  have hplain : ∀ w, isWildcard w = true →
      w ∉ lowerIn T [] u ('?' :: v) ++ lowerIn T ('?' :: u.reverse) v [] := by
    intro w hw
    rw [List.mem_append, not_or]
    exact ⟨hu.lowerIn _ _ w hw, hv.lowerIn _ _ w hw⟩
  show globChars (toLowercase T (u ++ '?' :: v)) (toLowercase T (u ++ c :: v)) = true ↔ _
  rw [globChars_iff, toLowercase_around, toLowercase_around, lowerChar_wildcard rfl,
    List.append_assoc (lowerIn T [] u ('?' :: v)), List.singleton_append,
    matches_around (hplain '*' rfl) (hplain '?' rfl) (by decide) (length_lowerIn _ _ _ _ _)
      (length_lowerIn _ _ _ _ _), length_lowerChar_eq_one, lowerIn_eq_iff, lowerIn_eq_iff]
  constructor
  · rintro ⟨hbefore, hone, hafter⟩
    exact ⟨hone, hbefore, hafter⟩
  · rintro ⟨hone, hbefore, hafter⟩
    exact ⟨hbefore, hone, hafter⟩

/-- **A key is found with any of its characters masked** exactly when each maps to one and keeps
    the sigmas around it. -/
theorem foundMasked_iff (k : Text) : FoundMasked T k ↔ MaskKeeps T k := by
  unfold FoundMasked MaskKeeps
  refine forall_congr' fun hk => forall₃_congr fun u c v => ?_
  refine forall_congr' ?_
  rintro rfl
  exact masked_iff hk

end Found

/-- **A key that contains the query is found**, whatever stands around it, exactly where no
    context makes another of the query's sigmas final; and a masked key is found exactly where
    its characters map one to one and no mask makes another sigma final. -/
theorem contained_found_iff (T : CaseTables) :
    (∀ q, FoundWherever T q ↔ SigmasSettled T q) ∧ ∀ k, FoundMasked T k ↔ MaskKeeps T k :=
  ⟨foundWherever_iff, foundMasked_iff⟩

/-- Tables for Greek letters and the dotted capital I. -/
def greekTables : CaseTables where
  lower c := if c = 'Α' then ['α'] else if c = 'İ' then ['i', '\u0307'] else [c]
  cased c := c == 'a' || c == 'b' || c == 'Α' || c == 'α' || c == 'Σ' || c == 'İ'
  caseIgnorable c := c == '\u0307' || c == '.'
  lower_ne_nil c := by
    split
    · decide
    · split
      · decide
      · exact List.cons_ne_nil _ _
  lower_letter c h := by
    have hne : c ≠ 'Α' ∧ c ≠ 'İ' := by
      constructor
      · rintro rfl
        exact absurd h (by decide)
      · rintro rfl
        exact absurd h (by decide)
    rw [if_neg hne.1, if_neg hne.2]
  cased_letter c h := by
    rcases Bool.or_eq_true_iff.mp h with h | h
    · rw [beq_iff_eq.mp h]
      decide
    · rw [beq_iff_eq.mp h]
      decide
  lower_wildcard c w hw := by
    have hne : w ≠ 'α' ∧ w ≠ 'Α' ∧ w ≠ 'i' ∧ w ≠ '\u0307' ∧ w ≠ 'İ' := by
      rcases Bool.or_eq_true_iff.mp hw with h | h
      · rw [beq_iff_eq.mp h]
        decide
      · rw [beq_iff_eq.mp h]
        decide
    obtain ⟨h₁, h₂, h₃, h₄, h₅⟩ := hne
    split
    · rename_i hc
      rw [hc]
      simp [h₁, h₂.symm]
    · split
      · rename_i hc
        rw [hc]
        simp [h₃, h₄, h₅.symm]
      · rw [List.mem_singleton]
        exact eq_comm
  length_lower_wildcard w hw := by
    rcases Bool.or_eq_true_iff.mp hw with h | h
    · rw [beq_iff_eq.mp h]
      decide
    · rw [beq_iff_eq.mp h]
      decide
  uncased_wildcard w hw := by
    rcases Bool.or_eq_true_iff.mp hw with h | h
    · rw [beq_iff_eq.mp h]
      decide
    · rw [beq_iff_eq.mp h]
      decide

/-- `ΑΣΑ` contains `ΑΣ`, whose sigma ends a word only where it stands alone; `İ` has two
    characters in lower case, and `?` takes one. -/
theorem contained_not_found :
    ¬ FoundWherever greekTables ['Α', 'Σ']
      ∧ (KeyMatcher.new greekTables .substring ['Α', 'Σ']).matchesKey greekTables
          ['Α', 'Σ', 'Α'] = false
      ∧ ¬ FoundMasked greekTables ['İ'] := by
  have hmiss : (KeyMatcher.new greekTables .substring ['Α', 'Σ']).matchesKey greekTables
      ['Α', 'Σ', 'Α'] = false := by decide
  refine ⟨?_, hmiss, ?_⟩
  · intro h
    have hfound := (h [] ['Α']).1
    rw [show [] ++ ['Α', 'Σ'] ++ ['Α'] = ['Α', 'Σ', 'Α'] from rfl, hmiss] at hfound
    cases hfound
  · intro h
    have hplain : NoWildcard ['İ'] := by
      intro w hw hmem
      rw [List.mem_singleton.mp hmem] at hw
      exact absurd hw (by decide)
    exact absurd (h hplain [] 'İ' [] rfl) (by decide)

end FlinkExplorer
