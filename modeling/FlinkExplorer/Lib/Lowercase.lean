import Mathlib.Data.List.Basic
import Mathlib.Data.List.Infix
import Mathlib.Tactic.Common

namespace FlinkExplorer.Lib

/-!
# Lowercasing a text

A text is put in lower case character by character, but for the capital sigma: at the end of a
word it becomes `ς`, elsewhere `σ`, and where a word ends is told by the characters around it.

* `CaseTables` — the tables of the character database;
* `finalSigma` — the rule of the end of a word;
* `lowerIn` — a part of a text in lower case, what stands before and after it given;
* `lowerIn_append` — the parts of a text in lower case are those of the whole;
* `lowerIn_eq_iff` — two contexts give a part the same lower case exactly where each sigma of it
  is final in both or in neither.
-/

/-- The letters whose case is spelled out here. -/
def isPlainLetter (c : Char) : Bool := c == 'a' || c == 'b'

/-- The punctuation whose case is spelled out here. -/
def isWildcard (c : Char) : Bool := c == '*' || c == '?'

/-- The tables a lowercasing takes from the character database, and what it says there: no mapping
    is empty; a small letter is cased and its own lower case; punctuation is not cased, not ignored
    by casing, and the lower case of itself only. -/
structure CaseTables where
  /-- The lower case of a character other than the capital sigma. -/
  lower : Char → List Char
  cased : Char → Bool
  caseIgnorable : Char → Bool
  lower_ne_nil : ∀ c, lower c ≠ []
  lower_letter : ∀ c, isPlainLetter c = true → lower c = [c]
  cased_letter : ∀ c, isPlainLetter c = true → cased c = true ∧ caseIgnorable c = false
  lower_wildcard : ∀ c w, isWildcard w = true → (w ∈ lower c ↔ c = w)
  length_lower_wildcard : ∀ w, isWildcard w = true → (lower w).length = 1
  uncased_wildcard : ∀ w, isWildcard w = true → cased w = false ∧ caseIgnorable w = false

section Lowercase

variable (T : CaseTables)

/-- Whether, past what casing ignores, a cased character comes next. -/
def casedNext (s : List Char) : Bool := (s.dropWhile T.caseIgnorable).head?.any T.cased

/-- Whether a sigma ends a word: a cased character comes before it, and none after.  What comes
    before is read from the sigma back. -/
def finalSigma (before after : List Char) : Bool := casedNext T before && !casedNext T after

/-- One character in lower case. -/
def lowerChar (before : List Char) (c : Char) (after : List Char) : List Char :=
  if c = 'Σ' then [if finalSigma T before after then 'ς' else 'σ'] else T.lower c

/-- A part of a text in lower case; what comes before is reversed. -/
def lowerIn (before : List Char) : List Char → List Char → List Char
  | [], _ => []
  | c :: s, after => lowerChar T before c (s ++ after) ++ lowerIn (c :: before) s after

/-- `str::to_lowercase`. -/
def toLowercase (s : List Char) : List Char := lowerIn T [] s []

variable {T}

/-! ### Parts -/

theorem lowerIn_append (before s t after : List Char) :
    lowerIn T before (s ++ t) after
      = lowerIn T before s (t ++ after) ++ lowerIn T (s.reverse ++ before) t after := by
  induction s generalizing before with
  | nil => rfl
  | cons c s ih =>
    rw [List.cons_append, lowerIn, lowerIn, ih, List.append_assoc s, List.append_assoc,
      List.reverse_cons, List.append_assoc]
    rfl

theorem toLowercase_append (a q b : List Char) :
    toLowercase T (a ++ q ++ b)
      = lowerIn T [] a (q ++ b) ++ lowerIn T a.reverse q b
        ++ lowerIn T (q.reverse ++ a.reverse) b [] := by
  rw [toLowercase, lowerIn_append, lowerIn_append, List.append_nil, List.append_nil,
    List.append_nil, List.reverse_append]

theorem length_lowerChar (before before' : List Char) (c : Char) (after after' : List Char) :
    (lowerChar T before c after).length = (lowerChar T before' c after').length := by
  unfold lowerChar
  split
  · rfl
  · rfl

/-- The context does not change how many characters a part has. -/
theorem length_lowerIn (before before' s after after' : List Char) :
    (lowerIn T before s after).length = (lowerIn T before' s after').length := by
  induction s generalizing before before' with
  | nil => rfl
  | cons c s ih =>
    rw [lowerIn, lowerIn, List.length_append, List.length_append,
      length_lowerChar before before' c (s ++ after) (s ++ after'), ih]

/-! ### Sigmas -/

/-- Each sigma of a part is final in both contexts or in neither. -/
def SigmasAgree (T : CaseTables) (s before after before' after' : List Char) : Prop :=
  ∀ u v, s = u ++ 'Σ' :: v →
    finalSigma T (u.reverse ++ before) (v ++ after)
      = finalSigma T (u.reverse ++ before') (v ++ after')

theorem lowerChar_eq_iff {before before' after after' : List Char} {c : Char} :
    lowerChar T before c after = lowerChar T before' c after'
      ↔ (c = 'Σ' → finalSigma T before after = finalSigma T before' after') := by
  unfold lowerChar
  by_cases hc : c = 'Σ'
  · rw [if_pos hc, if_pos hc]
    cases finalSigma T before after <;> cases finalSigma T before' after' <;> simp [hc]
  · rw [if_neg hc, if_neg hc]
    simp [hc]

/-- **Two contexts give a part the same lower case** exactly where its sigmas agree. -/
theorem lowerIn_eq_iff {s before after before' after' : List Char} :
    lowerIn T before s after = lowerIn T before' s after'
      ↔ SigmasAgree T s before after before' after' := by
  induction s generalizing before before' with
  | nil =>
    constructor
    · intro _ u v h
      exact absurd h (by simp)
    · intro _
      rfl
  | cons c s ih =>
    rw [lowerIn, lowerIn]
    constructor
    · intro h
      obtain ⟨hchar, hrest⟩ := List.append_inj h
        (length_lowerChar before before' c (s ++ after) (s ++ after'))
      intro u v huv
      rcases u with _ | ⟨d, u⟩
      · obtain ⟨rfl, rfl⟩ := List.cons.inj huv
        exact lowerChar_eq_iff.mp hchar rfl
      · obtain ⟨rfl, hs⟩ := List.cons.inj huv
        have hagree := ih.mp hrest u v hs
        rw [List.reverse_cons, List.append_assoc, List.append_assoc]
        exact hagree
    · intro h
      have hchar : lowerChar T before c (s ++ after) = lowerChar T before' c (s ++ after') := by
        apply lowerChar_eq_iff.mpr
        rintro rfl
        exact h [] s rfl
      have hrest : lowerIn T (c :: before) s after = lowerIn T (c :: before') s after' := by
        apply ih.mpr
        intro u v hs
        have hagree := h (c :: u) v (by rw [hs]; rfl)
        rw [List.reverse_cons, List.append_assoc, List.append_assoc] at hagree
        exact hagree
      rw [hchar, hrest]

/-! ### Sigmas that no context changes -/

/-- Past what casing ignores nothing is left. -/
def AllIgnorable (T : CaseTables) (s : List Char) : Prop := s.dropWhile T.caseIgnorable = []

/-- Behind ignorable characters, what follows decides. -/
theorem casedNext_append_of_ignorable {s : List Char} (h : AllIgnorable T s) (t : List Char) :
    casedNext T (s ++ t) = casedNext T t := by
  unfold casedNext
  rw [List.dropWhile_append, h]
  rfl

/-- Elsewhere what follows does not count. -/
theorem casedNext_append_of_not {s : List Char} (h : ¬ AllIgnorable T s) (t : List Char) :
    casedNext T (s ++ t) = casedNext T s := by
  unfold casedNext
  rw [List.dropWhile_append, List.isEmpty_eq_false_iff.mpr h, if_neg (by decide)]
  obtain ⟨c, rest, hc⟩ := List.exists_cons_of_ne_nil h
  rw [hc]
  rfl

theorem casedNext_of_allIgnorable {s : List Char} (h : AllIgnorable T s) :
    casedNext T s = false := by
  rw [casedNext, h]
  rfl

/-- A character that is not ignored decides. -/
theorem casedNext_cons {c : Char} (h : T.caseIgnorable c = false) (t : List Char) :
    casedNext T (c :: t) = T.cased c := by
  rw [casedNext, List.dropWhile_cons_of_neg (by simp [h])]
  rfl

/-- What is not cased itself does not count behind a text. -/
theorem casedNext_append_uncased (s : List Char) {t : List Char} (h : casedNext T t = false) :
    casedNext T (s ++ t) = casedNext T s := by
  by_cases hs : AllIgnorable T s
  · rw [casedNext_append_of_ignorable hs, casedNext_of_allIgnorable hs, h]
  · exact casedNext_append_of_not hs t

/-- Between uncased characters a text is in lower case as it is alone. -/
theorem lowerIn_uncased (s : List Char) {before after : List Char}
    (hbefore : casedNext T before = false) (hafter : casedNext T after = false) :
    lowerIn T before s after = toLowercase T s := by
  apply lowerIn_eq_iff.mpr
  intro u v _
  rw [finalSigma, finalSigma, List.append_nil, List.append_nil,
    casedNext_append_uncased _ hbefore, casedNext_append_uncased _ hafter]

/-! ### Letters and punctuation -/

theorem lowerChar_letter {c : Char} (h : isPlainLetter c = true) (before after : List Char) :
    lowerChar T before c after = [c] := by
  have hne : c ≠ 'Σ' := by
    rintro rfl
    exact absurd h (by decide)
  rw [lowerChar, if_neg hne, T.lower_letter c h]

theorem lowerChar_wildcard {w : Char} (h : isWildcard w = true) (before after : List Char) :
    lowerChar T before w after = [w] := by
  have hne : w ≠ 'Σ' := by
    rintro rfl
    exact absurd h (by decide)
  obtain ⟨c, hc⟩ := List.length_eq_one_iff.mp (T.length_lower_wildcard w h)
  have hmem := (T.lower_wildcard w w h).mpr rfl
  rw [hc, List.mem_singleton] at hmem
  rw [lowerChar, if_neg hne, hc, hmem]

/-- Lowercasing makes no punctuation. -/
theorem not_mem_lowerIn {w : Char} (hw : isWildcard w = true) {s : List Char} (hs : w ∉ s)
    (before after : List Char) : w ∉ lowerIn T before s after := by
  induction s generalizing before with
  | nil => exact List.not_mem_nil
  | cons c s ih =>
    rw [lowerIn, List.mem_append, not_or]
    refine ⟨?_, ih (fun h => hs (List.mem_cons_of_mem c h)) _⟩
    unfold lowerChar
    split
    · rw [List.mem_singleton]
      rintro rfl
      revert hw
      split
      · decide
      · decide
    · intro hmem
      exact hs ((T.lower_wildcard c w hw).mp hmem ▸ List.mem_cons_self)

/-- Each sigma is final in every context or in none: what comes before it in the part is not
    cased, or what comes after it is, or both sides are decided in the part. -/
def SigmasSettled (T : CaseTables) (s : List Char) : Prop :=
  ∀ u v, s = u ++ 'Σ' :: v →
    (¬ AllIgnorable T u.reverse ∧ casedNext T u.reverse = false)
      ∨ casedNext T v = true
      ∨ (¬ AllIgnorable T u.reverse ∧ ¬ AllIgnorable T v)

/-- A settled sigma is final in a context exactly when it is without one. -/
theorem SigmasSettled.agree {s : List Char} (h : SigmasSettled T s) (before after : List Char) :
    SigmasAgree T s before after [] [] := by
  intro u v hs
  have hv : casedNext T v = true → ¬ AllIgnorable T v := by
    intro hcased hall
    rw [casedNext_of_allIgnorable hall] at hcased
    cases hcased
  unfold finalSigma
  rw [List.append_nil, List.append_nil]
  rcases h u v hs with ⟨hu, hfalse⟩ | hcased | ⟨hu, hv'⟩
  · rw [casedNext_append_of_not hu, hfalse, Bool.false_and, Bool.false_and]
  · rw [casedNext_append_of_not (hv hcased), hcased, Bool.not_true, Bool.and_false, Bool.and_false]
  · rw [casedNext_append_of_not hu, casedNext_append_of_not hv']

/-- A sigma that is not settled is told apart by a letter before the part or one after it. -/
theorem not_settled_cases {s : List Char} (h : ¬ SigmasSettled T s) :
    (∀ before, casedNext T before = true → ¬ SigmasAgree T s before [] [] [])
      ∨ ∀ after, casedNext T after = true → ¬ SigmasAgree T s [] after [] [] := by
  unfold SigmasSettled at h
  push Not at h
  obtain ⟨u, v, hs, hu, hv, hboth⟩ := h
  have hv : casedNext T v = false := by simpa using hv
  by_cases hignorable : AllIgnorable T u.reverse
  · -- alone it is not final, behind a letter it is
    left
    intro before hbefore hagree
    have heq := hagree u v hs
    rw [finalSigma, finalSigma, List.append_nil, List.append_nil,
      casedNext_append_of_ignorable hignorable, hbefore, casedNext_of_allIgnorable hignorable,
      hv] at heq
    cases heq
  · -- alone it is final, before a letter it is not
    right
    intro after hafter hagree
    have heq := hagree u v hs
    have hcased : casedNext T u.reverse = true := by simpa using hu hignorable
    rw [finalSigma, finalSigma, List.append_nil, List.append_nil,
      casedNext_append_of_ignorable (hboth hignorable), hafter, hcased, hv] at heq
    cases heq

end Lowercase

end FlinkExplorer.Lib
