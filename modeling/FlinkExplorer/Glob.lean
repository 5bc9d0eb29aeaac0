import FlinkExplorer.Lib.Utf
import FlinkExplorer.Lib.Wildcard

namespace FlinkExplorer

open Lib

/-!
# `glob.rs` — matching keys

A search compares a rendered key with its query: as a glob, as a part of the key, or exactly.
`glob_chars` is a loop that goes back to the last `*` only.

* `globTurn_spec` — a turn keeps whether what is left of the text matches, and comes closer to the
  end;
* `globRun_spec` — so does a run of turns;
* `globChars_decides` — the loop ends, and accepts exactly the texts of the pattern.
-/

/-! ### The loop -/

/-- The variables of `glob_chars`; `usize::MAX` for "no star yet" is `none`. -/
structure GlobState where
  pi : Nat
  ti : Nat
  starPi : Option Nat
  starTi : Nat

/-- The variables before the first turn. -/
def GlobState.start : GlobState := ⟨0, 0, none, 0⟩

/-- What a turn of the loop does. -/
inductive GlobTurn where
  | again (s : GlobState)
  | ended (accepted : Bool)

variable (pattern text : List Char)

/-- The last star takes one more character. -/
def globBack (s : GlobState) : GlobTurn :=
  match s.starPi with
  | some star => .again ⟨star + 1, s.starTi + 1, s.starPi, s.starTi + 1⟩
  | none => .ended false

/-- One turn of the loop, or what follows it once the text is used up. -/
def globTurn (s : GlobState) : GlobTurn :=
  match text[s.ti]? with
  | some c =>
    if pattern[s.pi]? = some '*' then .again ⟨s.pi + 1, s.ti, some s.pi, s.ti⟩
    else if pattern[s.pi]? = some '?' ∨ pattern[s.pi]? = some c then
      .again { s with pi := s.pi + 1, ti := s.ti + 1 }
    else globBack s
  -- only stars may be left of the pattern
  | none => .ended ((pattern.drop s.pi).dropWhile (· == '*')).isEmpty

/-- Turn after turn; `none` where the turns run out first. -/
def globRun : Nat → GlobState → Option Bool
  | 0, _ => none
  | n + 1, s =>
    match globTurn pattern text s with
    | .ended b => some b
    | .again s' => globRun n s'

/-- More turns than the loop takes: a star is met or goes back once for each character, and
    between two such turns both indices only grow. -/
def globTurns : Nat := (text.length + 2) * (pattern.length + text.length + 1)

/-- `glob_chars`. -/
def globChars : Bool :=
  (globRun pattern text (globTurns pattern text) GlobState.start).getD false

/-! ### What is left to match -/

variable {pattern text}

/-- Whether the rest of the text matches the rest of the pattern, or the last star can take
    more of it. -/
def GlobState.Left (pattern text : List Char) (s : GlobState) : Prop :=
  Matches '*' '?' (pattern.drop s.pi) (text.drop s.ti)
    ∨ ∃ star ∈ s.starPi, ∃ k, s.starTi < k ∧ k ≤ text.length
        ∧ Matches '*' '?' (pattern.drop (star + 1)) (text.drop k)

/-- The indices are within the texts, and what follows the last star is what was matched since,
    character by character, and then the rest of the pattern. -/
structure GlobState.Within (pattern text : List Char) (s : GlobState) : Prop where
  pi_le : s.pi ≤ pattern.length
  ti_le : s.ti ≤ text.length
  star_lt : ∀ star ∈ s.starPi, star < pattern.length
  since : ∀ star ∈ s.starPi, ∃ q, pattern.drop (star + 1) = q ++ pattern.drop s.pi
    ∧ '*' ∉ q ∧ s.starTi + q.length = s.ti

theorem GlobState.start_within : GlobState.start.Within pattern text :=
  ⟨Nat.zero_le _, Nat.zero_le _, fun _ h => (Option.not_mem_none _ h).elim,
    fun _ h => (Option.not_mem_none _ h).elim⟩

theorem GlobState.start_left :
    GlobState.start.Left pattern text ↔ Matches '*' '?' pattern text := by
  constructor
  · intro h
    rcases h with h | ⟨star, hstar, -⟩
    · exact h
    · cases hstar
  · intro h
    exact .inl h

/-- Where the last star takes more, the rest of the pattern matches further on. -/
theorem GlobState.Within.further {s : GlobState} (hs : s.Within pattern text) {star k : Nat}
    (hstar : star ∈ s.starPi) (hk : s.starTi < k) (hkn : k ≤ text.length)
    (h : Matches '*' '?' (pattern.drop (star + 1)) (text.drop k)) :
    ∃ k', s.ti < k' ∧ k' ≤ text.length ∧ Matches '*' '?' (pattern.drop s.pi) (text.drop k') := by
  obtain ⟨q, hq, hnostar, hti⟩ := hs.since star hstar
  rw [hq] at h
  obtain ⟨hlen, h⟩ := matches_append_drop hnostar h
  rw [List.drop_drop] at h
  rw [List.length_drop] at hlen
  exact ⟨k + q.length, by omega, by omega, h⟩

/-- With the text used up, only stars may be left. -/
theorem GlobState.Within.left_ended {s : GlobState} (hs : s.Within pattern text)
    (hti : text.length ≤ s.ti) :
    s.Left pattern text ↔ (pattern.drop s.pi).dropWhile (· == '*') = [] := by
  have hdrop : text.drop s.ti = [] := List.drop_eq_nil_of_le hti
  rw [← matches_empty '?', ← hdrop]
  constructor
  · intro h
    rcases h with h | ⟨star, hstar, k, hk, hkn, h⟩
    · exact h
    -- nothing is left for the star to take
    · obtain ⟨k', hk', hkn', -⟩ := hs.further hstar hk hkn h
      omega
  · intro h
    exact .inl h

/-- A star forgets the one before: what the earlier one could take, it can take as well. -/
theorem GlobState.Within.left_star {s : GlobState} (hs : s.Within pattern text)
    (hpi : pattern[s.pi]? = some '*') :
    s.Left pattern text ↔ GlobState.Left pattern text ⟨s.pi + 1, s.ti, some s.pi, s.ti⟩ := by
  obtain ⟨hlt, hget⟩ := List.getElem?_eq_some_iff.mp hpi
  have hdrop : pattern.drop s.pi = '*' :: pattern.drop (s.pi + 1) := by
    rw [List.drop_eq_getElem_cons hlt, hget]
  have hruns : ∀ t, Matches '*' '?' (pattern.drop s.pi) t
      ↔ ∃ k, k ≤ t.length ∧ Matches '*' '?' (pattern.drop (s.pi + 1)) (t.drop k) := by
    intro t
    rw [hdrop, matches_any_iff]
  constructor
  · intro h
    have hmore : ∃ k, s.ti ≤ k ∧ k ≤ text.length
        ∧ Matches '*' '?' (pattern.drop s.pi) (text.drop k) := by
      rcases h with h | ⟨star, hstar, k, hk, hkn, h⟩
      · exact ⟨s.ti, Nat.le_refl _, hs.ti_le, h⟩
      · obtain ⟨k', hk', hkn', h⟩ := hs.further hstar hk hkn h
        exact ⟨k', Nat.le_of_lt hk', hkn', h⟩
    obtain ⟨k, hk, hkn, h⟩ := hmore
    obtain ⟨j, hj, h⟩ := (hruns _).mp h
    rw [List.length_drop] at hj
    rw [List.drop_drop] at h
    rcases Nat.eq_or_lt_of_le (show s.ti ≤ k + j by omega) with heq | hlt'
    · rw [← heq] at h
      exact .inl h
    · exact .inr ⟨s.pi, rfl, k + j, hlt', by omega, h⟩
  · intro h
    left
    rw [hruns]
    rcases h with h | ⟨star, hstar, k, hk, hkn, h⟩
    · exact ⟨0, Nat.zero_le _, h⟩
    · obtain rfl : s.pi = star := Option.some.inj hstar
      have hk' : s.ti < k := hk
      refine ⟨k - s.ti, by rw [List.length_drop]; omega, ?_⟩
      rw [List.drop_drop, show s.ti + (k - s.ti) = k by omega]
      exact h

/-- A character that is taken is taken on both sides. -/
theorem GlobState.left_taken {s : GlobState} {c : Char} (hti : text[s.ti]? = some c)
    (hnostar : pattern[s.pi]? ≠ some '*')
    (hpi : pattern[s.pi]? = some '?' ∨ pattern[s.pi]? = some c) :
    s.Left pattern text
      ↔ GlobState.Left pattern text { s with pi := s.pi + 1, ti := s.ti + 1 } := by
  obtain ⟨d, hd, htakes⟩ : ∃ d, pattern[s.pi]? = some d ∧ Takes '?' d c := by
    rcases hpi with h | h
    · exact ⟨'?', h, .inl rfl⟩
    · exact ⟨c, h, .inr rfl⟩
  have hne : d ≠ '*' := fun h => hnostar (h ▸ hd)
  obtain ⟨hplt, hpget⟩ := List.getElem?_eq_some_iff.mp hd
  obtain ⟨htlt, htget⟩ := List.getElem?_eq_some_iff.mp hti
  have hmatch : Matches '*' '?' (pattern.drop s.pi) (text.drop s.ti)
      ↔ Matches '*' '?' (pattern.drop (s.pi + 1)) (text.drop (s.ti + 1)) := by
    rw [List.drop_eq_getElem_cons hplt, List.drop_eq_getElem_cons htlt, hpget, htget,
      matches_cons_cons hne]
    exact and_iff_right htakes
  exact or_congr hmatch Iff.rfl

/-- Where the character is not taken, only the last star can help. -/
theorem GlobState.not_matches {s : GlobState} {c : Char} (hti : text[s.ti]? = some c)
    (hnostar : pattern[s.pi]? ≠ some '*')
    (hpi : ¬ (pattern[s.pi]? = some '?' ∨ pattern[s.pi]? = some c)) :
    ¬ Matches '*' '?' (pattern.drop s.pi) (text.drop s.ti) := by
  obtain ⟨htlt, htget⟩ := List.getElem?_eq_some_iff.mp hti
  rw [List.drop_eq_getElem_cons htlt, htget]
  intro h
  by_cases hplt : s.pi < pattern.length
  · have hd : pattern[s.pi]? = some pattern[s.pi] := List.getElem?_eq_getElem hplt
    have hne : pattern[s.pi] ≠ '*' := by
      intro heq
      rw [heq] at hd
      exact hnostar hd
    rw [List.drop_eq_getElem_cons hplt, matches_cons_cons hne] at h
    rcases h.1 with heq | heq
    · exact hpi (.inl (hd.trans (congrArg some heq)))
    · exact hpi (.inr (hd.trans (congrArg some heq)))
  · rw [List.drop_eq_nil_of_le (Nat.le_of_not_lt hplt)] at h
    cases h

/-- What the last star can take starts at its next character. -/
theorem GlobState.left_back {s : GlobState} {star : Nat} (hs : s.starPi = some star)
    (hlt : s.starTi < text.length)
    (hno : ¬ Matches '*' '?' (pattern.drop s.pi) (text.drop s.ti)) :
    s.Left pattern text
      ↔ GlobState.Left pattern text ⟨star + 1, s.starTi + 1, some star, s.starTi + 1⟩ := by
  constructor
  · intro h
    rcases h with h | ⟨star', hstar, k, hk, hkn, h⟩
    · exact absurd h hno
    · obtain rfl : star = star' := Option.some.inj (hs.symm.trans hstar)
      rcases Nat.eq_or_lt_of_le (Nat.succ_le_of_lt hk) with heq | hlt'
      · subst heq
        exact .inl h
      · exact .inr ⟨star, rfl, k, hlt', hkn, h⟩
  · intro h
    rcases h with h | ⟨star', hstar, k, hk, hkn, h⟩
    · exact .inr ⟨star, hs, s.starTi + 1, Nat.lt_succ_self _, hlt, h⟩
    · obtain rfl : star = star' := Option.some.inj hstar
      exact .inr ⟨star, hs, k, Nat.lt_of_succ_lt hk, hkn, h⟩

/-! ### The turns -/

/-- How often the last star can still go back; before any star, once more than from the start. -/
def GlobState.goesBack (text : List Char) (s : GlobState) : Nat :=
  match s.starPi with
  | none => text.length + 1
  | some _ => text.length - s.starTi

/-- How far the loop is from its end: going back costs more than both indices can regain. -/
def GlobState.measure (pattern text : List Char) (s : GlobState) : Nat :=
  s.goesBack text * (pattern.length + text.length + 1)
    + ((text.length - s.ti) + (pattern.length - s.pi))

/-- A turn that leaves the star where it is, or meets a new one, comes closer by its indices. -/
theorem GlobState.measure_lt_of_le {s s' : GlobState}
    (hstar : s'.goesBack text ≤ s.goesBack text)
    (hindex : (text.length - s'.ti) + (pattern.length - s'.pi)
      < (text.length - s.ti) + (pattern.length - s.pi)) :
    s'.measure pattern text < s.measure pattern text :=
  Nat.add_lt_add_of_le_of_lt (Nat.mul_le_mul_right _ hstar) hindex

/-- A turn that goes back comes closer whatever its indices are. -/
theorem GlobState.measure_lt_of_lt {s s' : GlobState}
    (hstar : s'.goesBack text < s.goesBack text) :
    s'.measure pattern text < s.measure pattern text := by
  have hmul : (s'.goesBack text + 1) * (pattern.length + text.length + 1)
      ≤ s.goesBack text * (pattern.length + text.length + 1) := Nat.mul_le_mul_right _ hstar
  rw [Nat.add_mul, Nat.one_mul] at hmul
  unfold GlobState.measure
  omega

/-- The last star was met at or before the character the loop is at. -/
theorem GlobState.Within.starTi_le {s : GlobState} (hs : s.Within pattern text) {star : Nat}
    (hstar : s.starPi = some star) : s.starTi ≤ s.ti := by
  obtain ⟨q, -, -, hti⟩ := hs.since star hstar
  omega

/-- Meeting a star. -/
theorem GlobState.Within.star {s : GlobState} (hs : s.Within pattern text)
    (hti : s.ti < text.length) (hpi : s.pi < pattern.length) :
    GlobState.Within pattern text ⟨s.pi + 1, s.ti, some s.pi, s.ti⟩
      ∧ GlobState.measure pattern text ⟨s.pi + 1, s.ti, some s.pi, s.ti⟩
          < s.measure pattern text := by
  refine ⟨⟨hpi, hs.ti_le, ?_, ?_⟩, ?_⟩
  · intro star h
    obtain rfl : s.pi = star := Option.some.inj h
    exact hpi
  · intro star h
    obtain rfl : s.pi = star := Option.some.inj h
    exact ⟨[], rfl, List.not_mem_nil, rfl⟩
  · refine GlobState.measure_lt_of_le ?_
      (by show text.length - s.ti + (pattern.length - (s.pi + 1)) < _; omega)
    show text.length - s.ti ≤ _
    unfold GlobState.goesBack
    split
    · omega
    · rename_i star hstar
      have hle := hs.starTi_le hstar
      omega

/-- Taking a character. -/
theorem GlobState.Within.taken {s : GlobState} (hs : s.Within pattern text)
    (hti : s.ti < text.length) (hpi : s.pi < pattern.length)
    (hnostar : pattern[s.pi]? ≠ some '*') :
    GlobState.Within pattern text { s with pi := s.pi + 1, ti := s.ti + 1 }
      ∧ GlobState.measure pattern text { s with pi := s.pi + 1, ti := s.ti + 1 }
          < s.measure pattern text := by
  refine ⟨⟨hpi, hti, hs.star_lt, ?_⟩, ?_⟩
  · intro star hstar
    obtain ⟨q, hq, hq', hlen⟩ := hs.since star hstar
    refine ⟨q ++ [pattern[s.pi]], ?_, ?_, ?_⟩
    · rw [hq, List.drop_eq_getElem_cons hpi, List.append_assoc]
      rfl
    · rw [List.mem_append, List.mem_singleton, not_or]
      refine ⟨hq', ?_⟩
      intro heq
      exact hnostar ((List.getElem?_eq_getElem hpi).trans (congrArg some heq.symm))
    · rw [List.length_append, List.length_singleton, ← Nat.add_assoc, hlen]
  · exact GlobState.measure_lt_of_le (Nat.le_refl _)
      (by show _ - (s.ti + 1) + (_ - (s.pi + 1)) < _; omega)

/-- Going back. -/
theorem GlobState.Within.back {s : GlobState} (hs : s.Within pattern text) {star : Nat}
    (hstar : s.starPi = some star) (hti : s.ti < text.length) :
    GlobState.Within pattern text ⟨star + 1, s.starTi + 1, some star, s.starTi + 1⟩
      ∧ GlobState.measure pattern text ⟨star + 1, s.starTi + 1, some star, s.starTi + 1⟩
          < s.measure pattern text := by
  have hle := hs.starTi_le hstar
  refine ⟨⟨hs.star_lt star hstar, by show s.starTi + 1 ≤ _; omega, ?_, ?_⟩, ?_⟩
  · intro star' h
    obtain rfl : star = star' := Option.some.inj h
    exact hs.star_lt star hstar
  · intro star' h
    obtain rfl : star = star' := Option.some.inj h
    exact ⟨[], rfl, List.not_mem_nil, rfl⟩
  · refine GlobState.measure_lt_of_lt ?_
    show text.length - (s.starTi + 1) < s.goesBack text
    rw [show s.goesBack text = text.length - s.starTi by rw [GlobState.goesBack, hstar]]
    omega

/-- A character that is not taken: the last star takes one more, or nothing matches. -/
theorem globBack_spec {s : GlobState} (hs : s.Within pattern text) (hti : s.ti < text.length)
    (hno : ¬ Matches '*' '?' (pattern.drop s.pi) (text.drop s.ti)) :
    (∃ b, globBack s = .ended b ∧ (b = true ↔ s.Left pattern text))
      ∨ ∃ s', globBack s = .again s' ∧ s'.Within pattern text
          ∧ (s.Left pattern text ↔ s'.Left pattern text)
          ∧ s'.measure pattern text < s.measure pattern text := by
  unfold globBack
  split
  · rename_i star hstar
    have hle := hs.starTi_le hstar
    have ⟨hwithin, hless⟩ := hs.back hstar hti
    refine .inr ⟨_, rfl, ?_⟩
    rw [hstar]
    exact ⟨hwithin, GlobState.left_back hstar (by omega) hno, hless⟩
  · rename_i hstar
    refine .inl ⟨false, rfl, ?_⟩
    constructor
    · intro h
      cases h
    · intro h
      rcases h with h | ⟨star, hstar', -⟩
      · exact absurd h hno
      · rw [hstar] at hstar'
        cases hstar'

/-- One turn: it ends with the answer, or goes on with the same left to match, within the texts
    and closer to the end. -/
theorem globTurn_spec {s : GlobState} (hs : s.Within pattern text) :
    (∃ b, globTurn pattern text s = .ended b ∧ (b = true ↔ s.Left pattern text))
      ∨ ∃ s', globTurn pattern text s = .again s' ∧ s'.Within pattern text
          ∧ (s.Left pattern text ↔ s'.Left pattern text)
          ∧ s'.measure pattern text < s.measure pattern text := by
  unfold globTurn
  split
  · rename_i c hti
    obtain ⟨htlt, -⟩ := List.getElem?_eq_some_iff.mp hti
    split_ifs with hstar htaken
    · obtain ⟨hplt, -⟩ := List.getElem?_eq_some_iff.mp hstar
      have ⟨hwithin, hless⟩ := hs.star htlt hplt
      exact .inr ⟨_, rfl, hwithin, hs.left_star hstar, hless⟩
    · have hplt : s.pi < pattern.length := by
        rcases htaken with h | h
        · exact (List.getElem?_eq_some_iff.mp h).1
        · exact (List.getElem?_eq_some_iff.mp h).1
      have ⟨hwithin, hless⟩ := hs.taken htlt hplt hstar
      exact .inr ⟨_, rfl, hwithin, GlobState.left_taken hti hstar htaken, hless⟩
    · exact globBack_spec hs htlt (GlobState.not_matches hti hstar htaken)
  · rename_i hti
    refine .inl ⟨_, rfl, ?_⟩
    rw [List.isEmpty_iff, hs.left_ended (List.getElem?_eq_none_iff.mp hti)]

/-- The loop from any state of it: with as many turns as it is far from its end, it answers
    whether what is left matches. -/
theorem globRun_spec {s : GlobState} (hs : s.Within pattern text) {n : Nat}
    (hn : s.measure pattern text < n) :
    ∃ b, globRun pattern text n s = some b ∧ (b = true ↔ s.Left pattern text) := by
  induction n generalizing s with
  | zero => exact absurd hn (Nat.not_lt_zero _)
  | succ n ih =>
    rw [globRun]
    rcases globTurn_spec hs with ⟨b, hturn, hb⟩ | ⟨s', hturn, hwithin, hleft, hless⟩
    · exact ⟨b, by rw [hturn], hb⟩
    · rw [hturn, hleft]
      exact ih hwithin (by omega)

theorem GlobState.start_measure :
    GlobState.start.measure pattern text < globTurns pattern text := by
  show (text.length + 1) * (pattern.length + text.length + 1)
    + (text.length - 0 + (pattern.length - 0)) < (text.length + 2) * _
  rw [Nat.add_mul text.length 2, Nat.add_mul text.length 1]
  omega

/-- With `globTurns` turns or more the loop ends, with the answer. -/
theorem globRun_enough (pattern text : List Char) {n : Nat} (hn : globTurns pattern text ≤ n) :
    ∃ b, globRun pattern text n GlobState.start = some b
      ∧ (b = true ↔ Matches '*' '?' pattern text) := by
  rw [← GlobState.start_left]
  exact globRun_spec GlobState.start_within (Nat.lt_of_lt_of_le GlobState.start_measure hn)

theorem globChars_iff (pattern text : List Char) :
    globChars pattern text = true ↔ Matches '*' '?' pattern text := by
  obtain ⟨b, hb, hiff⟩ := globRun_enough pattern text (Nat.le_refl _)
  rw [globChars, hb]
  exact hiff

/-- **The loop decides the language**: on every pattern and text it ends, in `globTurns` turns
    or fewer, and accepts the text exactly when the pattern matches it. -/
theorem globChars_decides (pattern text : List Char) :
    (∀ n, globTurns pattern text ≤ n →
        globRun pattern text n GlobState.start = some (globChars pattern text))
      ∧ (globChars pattern text = true ↔ Matches '*' '?' pattern text) := by
  refine ⟨?_, globChars_iff pattern text⟩
  intro n hn
  obtain ⟨b, hb, hiff⟩ := globRun_enough pattern text hn
  rw [hb, Bool.eq_iff_iff.mpr (hiff.trans (globChars_iff pattern text).symm)]

example : globChars "*ab*b".toList "aababcb".toList = true := by decide
example : globChars "*ab?b".toList "aababcbc".toList = false := by decide

end FlinkExplorer
