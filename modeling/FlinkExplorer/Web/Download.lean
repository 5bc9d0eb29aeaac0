import Mathlib.Data.List.Chain
import FlinkExplorer.Lib.Text

namespace FlinkExplorer.Web

open Lib

/-!
# `web/tools.rs` — the name of a download

`downloadFilename` names the file a browser saves: the operator's id, cut, the state's name, reduced
to characters that are safe on every system, and the extension of the format.

* `nameLoop_eq` — the loop keeps the first 100 characters of the name, its extra dots left out;
* `safeFilename_iff` — the name is safe, unless a dot is the last character kept.
-/

/-- The formats of an export. -/
inductive ExportFormat
  | ndjson
  | parquet
  deriving DecidableEq

def ExportFormat.extension : ExportFormat → Text
  | .ndjson => "jsonl".toList
  | .parquet => "parquet".toList

/-- A character that is safe in a file name. -/
def isSafeChar (c : Char) : Bool := c.isAlphanum || c == '-' || c == '_' || c == '.'

/-- What a character of a state's name becomes. -/
def safeChar (c : Char) : Char := if isSafeChar c then c else '_'

/-- How many characters of a state's name are kept. -/
def maxStateChars : Nat := 100

/-- The loop of `download_filename`. -/
def nameLoop (name : Text) : Text → Text
  | [] => name
  | c :: rest =>
    -- No leading dot (a hidden file), no `..`.
    if safeChar c = '.' ∧ (name = [] ∨ name.getLast? = some '.') then nameLoop name rest
    else if (name ++ [safeChar c]).length = maxStateChars then name ++ [safeChar c]
    else nameLoop (name ++ [safeChar c]) rest

/-- The part of a download's name that is made of the state's. -/
def statePart (state : Text) : Text :=
  let name := nameLoop [] state
  if name.isEmpty then "state".toList else name

/-- `<operator id prefix>-<state>.<ext>`. -/
def downloadFilename (opId state ext : Text) : Text :=
  (opId.filter isHexDigit).take 8 ++ '-' :: statePart state ++ '.' :: ext

/-! ### What a safe name is -/

/-- A name that can stand in a header and on every system: safe characters only, not too long, not
    hidden, no `..`, and the extension at its end. -/
structure SafeFilename (opId state ext : Text) : Prop where
  chars : ∀ c ∈ downloadFilename opId state ext, isSafeChar c = true
  short : (statePart state).length ≤ maxStateChars
  visible : (downloadFilename opId state ext).head? ≠ some '.'
  single : ¬ ['.', '.'] <:+: downloadFilename opId state ext
  ending : '.' :: ext <:+ downloadFilename opId state ext

/-- A text after a character, each dot that follows a dot left out. -/
def keptAfter (last : Char) : Text → Text
  | [] => []
  | c :: rest => if c = '.' ∧ last = '.' then keptAfter last rest else c :: keptAfter c rest

/-- A state's name without its leading dots, each run of dots taken as one. -/
def withoutExtraDots (state : Text) : Text := keptAfter '.' state

/-- Whether the part of a state's name that a download's name has room for ends in a dot. -/
def CutAtDot (state : Text) : Prop :=
  ((withoutExtraDots state).take maxStateChars).getLast? = some '.'

/-! ### The loop -/

theorem isSafeChar_safeChar (c : Char) : isSafeChar (safeChar c) = true := by
  unfold safeChar
  by_cases h : isSafeChar c = true
  · rw [if_pos h]
    exact h
  · rw [if_neg h]
    rfl

@[simp] theorem safeChar_eq_dot {c : Char} : safeChar c = '.' ↔ c = '.' := by
  unfold safeChar
  by_cases h : isSafeChar c = true
  · rw [if_pos h]
  · rw [if_neg h]
    constructor
    · intro hdot
      exact absurd hdot (by decide)
    · rintro rfl
      exact absurd rfl h

/-- **The loop keeps the characters that are left when extra dots are gone**, as far as there is
    room.  `last` stands for the last character of the name so far, a dot when there is none. -/
theorem nameLoop_eq {name state : Text} {last : Char}
    (hlast : name = [] ∨ name.getLast? = some '.' ↔ last = '.')
    (hroom : name.length < maxStateChars) :
    nameLoop name state
      = name ++ ((keptAfter last state).take (maxStateChars - name.length)).map safeChar := by
  induction state generalizing name last with
  | nil => simp [nameLoop, keptAfter]
  | cons c rest ih =>
    unfold nameLoop keptAfter
    by_cases hskip : c = '.' ∧ last = '.'
    · rw [if_pos ⟨safeChar_eq_dot.mpr hskip.1, hlast.mpr hskip.2⟩, if_pos hskip]
      exact ih hlast hroom
    · rw [if_neg fun h => hskip ⟨safeChar_eq_dot.mp h.1, hlast.mp h.2⟩, if_neg hskip]
      have hlength : (name ++ [safeChar c]).length = name.length + 1 := by simp
      obtain ⟨room, hr⟩ : ∃ room, maxStateChars - name.length = room + 1 :=
        ⟨maxStateChars - name.length - 1, by omega⟩
      rw [hr, List.take_succ_cons, List.map_cons]
      by_cases hfull : (name ++ [safeChar c]).length = maxStateChars
      · -- The name is full: nothing more of the state is looked at.
        have hzero : room = 0 := by omega
        rw [if_pos hfull, hzero, List.take_zero, List.map_nil]
      · have hnext : name ++ [safeChar c] = [] ∨ (name ++ [safeChar c]).getLast? = some '.'
            ↔ c = '.' := by simp
        have hroom' : maxStateChars - (name ++ [safeChar c]).length = room := by omega
        rw [if_neg hfull, ih hnext (by omega), hroom', List.append_assoc, List.singleton_append]

/-- The name the loop gives, from an empty one. -/
theorem nameLoop_nil (state : Text) :
    nameLoop [] state = ((withoutExtraDots state).take maxStateChars).map safeChar :=
  nameLoop_eq (by simp) (by decide)

/-! ### Dots side by side -/

/-- Two characters that may stand side by side. -/
def MayFollow (a b : Char) : Prop := ¬ (a = '.' ∧ b = '.')

theorem isChain_iff {t : Text} : t.IsChain MayFollow ↔ ¬ ['.', '.'] <:+: t := by
  constructor
  · intro h hwithin
    have hdots := h.infix hwithin
    rw [List.isChain_cons_cons] at hdots
    exact hdots.1 ⟨rfl, rfl⟩
  · intro h
    rw [List.isChain_iff_forall_rel_of_append_cons_cons]
    rintro a b before after rfl ⟨rfl, rfl⟩
    exact h ⟨before, after, by simp⟩

theorem isChain_keptAfter (last : Char) (t : Text) : (last :: keptAfter last t).IsChain MayFollow := by
  induction t generalizing last with
  | nil => exact List.isChain_singleton last
  | cons c rest ih =>
    unfold keptAfter
    by_cases hskip : c = '.' ∧ last = '.'
    · rw [if_pos hskip]
      exact ih last
    · rw [if_neg hskip, List.isChain_cons_cons]
      exact ⟨fun h => hskip ⟨h.2, h.1⟩, ih c⟩

/-- Characters other than a dot may follow one another. -/
theorem isChain_of_not_mem {t : Text} (h : '.' ∉ t) : t.IsChain MayFollow := by
  rw [isChain_iff]
  intro hwithin
  exact h (hwithin.subset List.mem_cons_self)

theorem isChain_dot_cons {t : Text} (h : '.' ∉ t) : ('.' :: t).IsChain MayFollow := by
  refine List.isChain_cons.mpr ⟨fun c hc hdots => ?_, isChain_of_not_mem h⟩
  exact h (hdots.2 ▸ List.mem_of_head? hc)

theorem isChain_map_safeChar {t : Text} (h : t.IsChain MayFollow) :
    (t.map safeChar).IsChain MayFollow := by
  rw [List.isChain_map]
  refine h.imp fun a b hab hdots => ?_
  exact hab ⟨safeChar_eq_dot.mp hdots.1, safeChar_eq_dot.mp hdots.2⟩

/-! ### The parts of a name -/

theorem statePart_cases (state : Text) :
    statePart state = "state".toList ∧ withoutExtraDots state = []
      ∨ statePart state = ((withoutExtraDots state).take maxStateChars).map safeChar := by
  unfold statePart
  rw [nameLoop_nil]
  cases h : withoutExtraDots state with
  | nil => exact Or.inl ⟨rfl, rfl⟩
  | cons c rest => exact Or.inr rfl

theorem isSafeChar_of_mem_statePart {state : Text} {c : Char} (hc : c ∈ statePart state) :
    isSafeChar c = true := by
  rcases statePart_cases state with ⟨heq, -⟩ | heq
  · rw [heq] at hc
    have hsafe : "state".toList.all isSafeChar = true := by decide
    exact List.all_eq_true.mp hsafe c hc
  · rw [heq] at hc
    obtain ⟨d, -, rfl⟩ := List.mem_map.mp hc
    exact isSafeChar_safeChar d

theorem length_statePart_le (state : Text) : (statePart state).length ≤ maxStateChars := by
  rcases statePart_cases state with ⟨heq, -⟩ | heq
  · rw [heq]
    decide
  · rw [heq, List.length_map]
    exact List.length_take_le maxStateChars _

/-- The state's part has no two dots side by side, and does not start with one. -/
theorem isChain_statePart (state : Text) : ('.' :: statePart state).IsChain MayFollow := by
  rcases statePart_cases state with ⟨heq, -⟩ | heq
  · rw [heq]
    exact isChain_dot_cons (by decide)
  · rw [heq]
    have hkept := (isChain_keptAfter '.' state).take (maxStateChars + 1)
    rw [List.take_succ_cons] at hkept
    exact isChain_map_safeChar hkept

/-- The state's part ends in a dot when it is cut at one. -/
theorem getLast_statePart_iff (state : Text) :
    (statePart state).getLast? = some '.' ↔ CutAtDot state := by
  unfold CutAtDot
  rcases statePart_cases state with ⟨heq, hnil⟩ | heq
  · rw [heq, hnil]
    decide
  · rw [heq, List.getLast?_map, Option.map_eq_some_iff]
    simp

theorem isAlphanum_of_isHexDigit {c : Char} (h : isHexDigit c = true) : c.isAlphanum = true := by
  simp only [isHexDigit, Bool.or_eq_true, Bool.and_eq_true, decide_eq_true_eq] at h
  delta Char.isAlphanum Char.isAlpha Char.isUpper Char.isLower Char.isDigit
  simp only [Bool.or_eq_true, Bool.and_eq_true, decide_eq_true_eq, ge_iff_le,
    UInt32.le_iff_toNat_le]
  have hval : c.val.toNat = c.toNat := rfl
  rw [hval]
  show ((65 ≤ c.toNat ∧ c.toNat ≤ 90) ∨ (97 ≤ c.toNat ∧ c.toNat ≤ 122))
    ∨ (48 ≤ c.toNat ∧ c.toNat ≤ 57)
  omega

theorem isHexDigit_of_mem_opPart {opId : Text} {c : Char}
    (hc : c ∈ (opId.filter isHexDigit).take 8) : isHexDigit c = true :=
  (List.mem_filter.mp (List.mem_of_mem_take hc)).2

/-- Two dots come together only where the state's part ends. -/
theorem isChain_downloadFilename_iff (opId state : Text) (format : ExportFormat) :
    (downloadFilename opId state format.extension).IsChain MayFollow ↔ ¬ CutAtDot state := by
  have hop : ((opId.filter isHexDigit).take 8 ++ ['-']).IsChain MayFollow := by
    apply isChain_of_not_mem
    intro hmem
    rcases List.mem_append.mp hmem with hhex | hdash
    · exact absurd (isHexDigit_of_mem_opPart hhex) (by decide)
    · exact absurd hdash (by decide)
  have hstate : ('-' :: statePart state).IsChain MayFollow := by
    refine List.isChain_cons.mpr ⟨fun y _ hdots => absurd hdots.1 (by decide), ?_⟩
    exact (isChain_statePart state).of_cons
  have hext : ('.' :: format.extension).IsChain MayFollow := by
    apply isChain_dot_cons
    cases format <;> decide
  have hlast : ('-' :: statePart state).getLast? = some '.' ↔ CutAtDot state := by
    rw [← getLast_statePart_iff, List.getLast?_cons]
    cases (statePart state).getLast? <;> simp
  unfold downloadFilename
  rw [List.append_assoc, List.cons_append, List.isChain_split, and_iff_right hop,
    ← List.cons_append, List.isChain_append, ← hlast]
  constructor
  · rintro ⟨-, -, hjoin⟩ hdot
    exact hjoin '.' hdot '.' rfl ⟨rfl, rfl⟩
  · intro hdot
    refine ⟨hstate, hext, fun x hx y _ hdots => ?_⟩
    rw [hdots.1] at hx
    exact hdot hx

/-- **A download's name is safe unless it is cut at a dot**: the extension's dot then follows
    another one. -/
theorem safeFilename_iff (opId state : Text) (format : ExportFormat) :
    SafeFilename opId state format.extension ↔ ¬ CutAtDot state := by
  have hchain := isChain_downloadFilename_iff opId state format
  constructor
  · intro h
    exact hchain.mp (isChain_iff.mpr h.single)
  · intro h
    refine ⟨?_, length_statePart_le state, ?_, isChain_iff.mp (hchain.mpr h), ?_⟩
    · intro c hc
      have hext : ('.' :: format.extension).all isSafeChar = true := by
        cases format <;> decide
      unfold downloadFilename at hc
      rcases List.mem_append.mp hc with hname | hend
      · rcases List.mem_append.mp hname with hop | hpart
        · simp [isSafeChar, isAlphanum_of_isHexDigit (isHexDigit_of_mem_opPart hop)]
        · rcases List.mem_cons.mp hpart with rfl | hstate
          · rfl
          · exact isSafeChar_of_mem_statePart hstate
      · exact List.all_eq_true.mp hext c hend
    · unfold downloadFilename
      cases hop : (opId.filter isHexDigit).take 8 with
      | nil => exact (by decide : some '-' ≠ some '.')
      | cons c cs =>
        have hhex : isHexDigit c = true := isHexDigit_of_mem_opPart (hop ▸ List.mem_cons_self)
        intro hdot
        rw [Option.some.inj hdot] at hhex
        exact absurd hhex (by decide)
    · exact List.suffix_append _ _

/-- A state whose name ends in a dot: the two dots come together before the extension. -/
theorem unsafe_dotted : ¬ SafeFilename "0123456789abcdef0123456789abcdef".toList "a.".toList
    ExportFormat.ndjson.extension := by
  intro h
  exact h.single ⟨"01234567-a".toList, "jsonl".toList, by decide⟩

end FlinkExplorer.Web
