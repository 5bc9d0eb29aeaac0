import FlinkExplorer.Flink.Serializer
import FlinkExplorer.Parser.Dispatch

namespace FlinkExplorer

open Lib Lib.Read

/-!
# Type names and the decoder's dispatch on them

A type name is text, and the decoder takes it apart again:

* `splitTopLevel_joinCommas` — joining balanced names and splitting at the top level gives the
  names back;
* `Ser.balanced_typeName`, `Ser.trim_typeName` — the names of serializers are such names;
* `decodeByName_…` — the branch of the decoder each shape of name selects.
-/

/-! ### Names -/

/-- A name without the characters types are built with. -/
def isPlainName (t : Text) : Bool := t.all fun c => c != '<' && c != '>' && c != ',' && c != ':'

theorem plain_of_mem {t : Text} (h : isPlainName t = true) {c : Char} (hc : c ∈ t) :
    c ≠ '<' ∧ c ≠ '>' ∧ c ≠ ',' ∧ c ≠ ':' := by
  simpa [and_assoc] using List.all_eq_true.mp h c hc

/-- A plain name that is not an array's: what a Java class or constant may be called. -/
def isJavaName (t : Text) : Bool := isPlainName t && !t.contains '['

theorem isPlainName_of_java {t : Text} (h : isJavaName t = true) : isPlainName t = true :=
  (Bool.and_eq_true_iff.mp h).1

/-- `t` is passed over whole wherever the split is at depth `k` or more. -/
def BalancedFrom (k : Int) (t : Text) : Prop :=
  ∀ depth cur rest, k ≤ depth →
    splitTopLevelGo depth cur (t ++ rest) = splitTopLevelGo depth (t.reverse ++ cur) rest

/-- `t` has matching brackets and no comma outside of them. -/
abbrev Balanced (t : Text) : Prop := BalancedFrom 0 t

theorem BalancedFrom.nil (k : Int) : BalancedFrom k [] := fun _ _ _ _ => rfl

theorem BalancedFrom.append {k : Int} {a b : Text} (ha : BalancedFrom k a)
    (hb : BalancedFrom k b) : BalancedFrom k (a ++ b) := by
  intro depth cur rest hk
  rw [List.append_assoc, ha _ _ _ hk, hb _ _ _ hk, List.reverse_append, List.append_assoc]

theorem BalancedFrom.mono {k l : Int} {t : Text} (h : BalancedFrom k t) (hkl : k ≤ l) :
    BalancedFrom l t := fun depth cur rest hl => h depth cur rest (hkl.trans hl)

/-- Inside brackets a comma is passed over too. -/
theorem BalancedFrom.comma : BalancedFrom 1 [','] := by
  intro depth cur rest hk
  have h0 : depth ≠ 0 := by omega
  simp [splitTopLevelGo, h0]

theorem BalancedFrom.plain {t : Text} (h : isPlainName t = true) : Balanced t := by
  intro depth cur rest hk
  induction t generalizing cur with
  | nil => rfl
  | cons c t ih =>
    obtain ⟨h₁, h₂, h₃, -⟩ := plain_of_mem h List.mem_cons_self
    have ht : isPlainName t = true := by
      simp only [isPlainName, List.all_cons, Bool.and_eq_true] at h ⊢
      exact h.2
    rw [List.cons_append, splitTopLevelGo, if_neg h₁, if_neg h₂, if_neg (by simp [h₃]), ih ht,
      List.reverse_cons, List.append_assoc]
    rfl

/-- A bracketed argument list is balanced when it is so from depth one on. -/
theorem BalancedFrom.brackets (name : Text) {inner : Text} (hname : Balanced name)
    (hinner : BalancedFrom 1 inner) : Balanced (name ++ '<' :: inner ++ ['>']) := by
  intro depth cur rest hk
  rw [List.append_assoc, List.append_assoc, hname _ _ _ hk, List.cons_append, splitTopLevelGo,
    if_pos rfl, hinner _ _ _ (by omega), List.singleton_append, splitTopLevelGo, if_neg (by decide),
    if_pos rfl, Int.add_sub_cancel]
  simp

theorem joinCommas_singleton (p : Text) : joinCommas [p] = p := by simp [joinCommas]

theorem joinCommas_cons_cons (p q : Text) (ps : List Text) :
    joinCommas (p :: q :: ps) = p ++ ',' :: joinCommas (q :: ps) := by
  simp [joinCommas]

theorem BalancedFrom.joinCommas {parts : List Text} (h : ∀ p ∈ parts, Balanced p) :
    BalancedFrom 1 (joinCommas parts) := by
  induction parts with
  | nil => exact BalancedFrom.nil 1
  | cons p ps ih =>
    have hp := (h p List.mem_cons_self).mono (show (0 : Int) ≤ 1 by decide)
    have hps := ih fun q hq => h q (List.mem_cons_of_mem p hq)
    cases ps with
    | nil => rwa [joinCommas_singleton]
    | cons q qs =>
      rw [joinCommas_cons_cons, ← List.singleton_append]
      exact hp.append (BalancedFrom.comma.append hps)

/-- **Split after join.** -/
theorem splitTopLevel_joinCommas {parts : List Text}
    (h : ∀ p ∈ parts, Balanced p ∧ p ≠ []) : splitTopLevel (joinCommas parts) = parts := by
  unfold splitTopLevel
  induction parts with
  | nil => rfl
  | cons p ps ih =>
    obtain ⟨hp, hne⟩ := h p List.mem_cons_self
    have hps := ih fun q hq => h q (List.mem_cons_of_mem p hq)
    cases ps with
    | nil =>
      have hrun := hp 0 [] [] (Int.le_refl 0)
      rw [List.append_nil, List.append_nil] at hrun
      rw [joinCommas_singleton, hrun, splitTopLevelGo, if_neg (by simpa using hne),
        List.reverse_reverse]
    | cons q qs =>
      rw [joinCommas_cons_cons, hp _ _ _ (Int.le_refl 0), splitTopLevelGo, if_neg (by decide),
        if_neg (by decide), if_pos ⟨rfl, rfl⟩, hps, List.append_nil, List.reverse_reverse]

/-! ### The names of serializers -/

mutual

/-- The types `decodeField` has a grammar for, written with names that do not clash with it:
    scalars, enums (of as many constants as a class file can hold), string arrays, tuples of
    types without a layout, lists, arrays, nullables and POJOs. -/
def Ser.inGrammar : Ser → Bool
  | .scalar _ => true
  | .enum className constants =>
    isJavaName (simpleName className) && constants.all isJavaName && constants.length < 65536
  | .stringArray => true
  | .tuple fields => tupleInGrammar fields
  | .list elem => elem.inGrammar
  | .array elem => elem.inGrammar
  | .nullable elem => elem.inGrammar
  | .map _ _ => false
  | .pojo className fields => isJavaName (simpleName className) && fieldsInGrammar fields
  | .other _ _ => false

/-- The fields of a tuple: decoded without a layout. -/
def tupleInGrammar : List Ser → Bool
  | [] => true
  | s :: ss => s.inGrammar && s.layout.isNone && tupleInGrammar ss

/-- The fields of a POJO. -/
def fieldsInGrammar : List SerField → Bool
  | [] => true
  | f :: fs => f.inGrammar && fieldsInGrammar fs

def SerField.inGrammar : SerField → Bool
  | .mk _ s => s.inGrammar

end

theorem Ser.typeName_enum (className : Text) {constants : List Text} (hne : constants ≠ []) :
    (Ser.enum className constants).typeName
      = "Enum<".toList ++ (simpleName className ++ ':' :: joinCommas constants) ++ ['>'] := by
  have hargs : "Enum<".toList ++ simpleName className ++ ':' :: joinCommas constants
      = "Enum<".toList ++ (simpleName className ++ ':' :: joinCommas constants) :=
    List.append_assoc _ _ _
  rw [← hargs]
  exact if_neg (by rwa [List.isEmpty_iff])

theorem Scalar.plain_name (s : Scalar) : isPlainName s.name = true := by
  cases s <;> decide

theorem Scalar.balanced_name (s : Scalar) : Balanced s.name := BalancedFrom.plain s.plain_name

theorem joinCommas_plain {parts : List Text} (h : ∀ p ∈ parts, isPlainName p = true) :
    BalancedFrom 1 (joinCommas parts) :=
  BalancedFrom.joinCommas fun p hp => BalancedFrom.plain (h p hp)

mutual

theorem Ser.balanced_typeName (s : Ser) (h : s.inGrammar = true) : Balanced s.typeName := by
  match s with
  | .scalar s => exact s.balanced_name
  | .enum className constants =>
    simp only [Ser.inGrammar, Bool.and_eq_true, List.all_eq_true] at h
    obtain ⟨h, -⟩ := h
    have hname := (BalancedFrom.plain (isPlainName_of_java h.1)).mono (show (0 : Int) ≤ 1 by decide)
    have hcolon : BalancedFrom 1 [':'] := by
      intro depth cur rest hk
      simp [splitTopLevelGo]
    unfold Ser.typeName
    split
    · exact BalancedFrom.brackets "Enum".toList (BalancedFrom.plain (by decide)) hname
    · have hargs := hname.append (hcolon.append
        (joinCommas_plain fun c hc => isPlainName_of_java (h.2 c hc)))
      have := BalancedFrom.brackets "Enum".toList (BalancedFrom.plain (by decide)) hargs
      simpa using this
  | .stringArray => exact BalancedFrom.plain (by decide)
  | .tuple fields =>
    have hfields := balanced_typeNames fields h
    exact BalancedFrom.brackets "Tuple".toList (BalancedFrom.plain (by decide))
      (BalancedFrom.joinCommas hfields)
  | .list elem =>
    exact BalancedFrom.brackets "List".toList (BalancedFrom.plain (by decide))
      ((Ser.balanced_typeName elem h).mono (by decide))
  | .array elem =>
    exact BalancedFrom.brackets "Array".toList (BalancedFrom.plain (by decide))
      ((Ser.balanced_typeName elem h).mono (by decide))
  | .nullable elem =>
    exact BalancedFrom.brackets "Nullable".toList (BalancedFrom.plain (by decide))
      ((Ser.balanced_typeName elem h).mono (by decide))
  | .pojo className fields =>
    simp only [Ser.inGrammar, Bool.and_eq_true] at h
    exact BalancedFrom.plain (isPlainName_of_java h.1)

theorem balanced_typeNames (ss : List Ser) (h : tupleInGrammar ss = true) :
    ∀ t ∈ typeNames ss, Balanced t := by
  match ss with
  | [] => exact fun t ht => absurd ht List.not_mem_nil
  | s :: ss =>
    simp only [tupleInGrammar, Bool.and_eq_true] at h
    intro t ht
    rcases List.mem_cons.mp ht with rfl | ht
    · exact Ser.balanced_typeName s h.1.1
    · exact balanced_typeNames ss h.2 t ht

end

/-- A bracketed name is not blank at either end. -/
theorem trim_brackets {c : Char} (hc : isWhitespace c = false) (t : Text) :
    trim (c :: t ++ ['>']) = c :: t ++ ['>'] := by
  refine trim_eq_self (fun d hd => ?_) fun d hd => ?_
  · have : c = d := by simpa using hd
    rw [← this, hc]
  · rw [List.getLast?_concat] at hd
    have : '>' = d := by simpa using hd
    rw [← this]
    decide

/-- The name of a type without a layout is its own trimming. -/
theorem Ser.trim_typeName (s : Ser) (h : s.inGrammar = true) (hl : s.layout.isNone = true) :
    trim s.typeName = s.typeName := by
  cases s with
  | scalar s => cases s <;> decide
  | enum className constants =>
    unfold Ser.typeName
    split
    · exact trim_brackets (c := 'E') (by decide) _
    · exact trim_brackets (c := 'E') (by decide)
        ("num<".toList ++ simpleName className ++ ':' :: joinCommas constants)
  | stringArray => decide
  | tuple fields => exact trim_brackets (c := 'T') (by decide) _
  | list elem => exact trim_brackets (c := 'L') (by decide) _
  | array elem => exact trim_brackets (c := 'A') (by decide) _
  | nullable elem => exact trim_brackets (c := 'N') (by decide) _
  | map key value => cases h
  | pojo className fields => cases hl
  | other snapshotClass payload => cases h

theorem Ser.typeName_ne_nil (s : Ser) (h : s.inGrammar = true) (hl : s.layout.isNone = true) :
    s.typeName ≠ [] := by
  cases s with
  | scalar s => cases s <;> decide
  | enum className constants =>
    unfold Ser.typeName
    split <;> exact List.cons_ne_nil _ _
  | stringArray => decide
  | tuple fields => exact List.cons_ne_nil _ _
  | list elem => exact List.cons_ne_nil _ _
  | array elem => exact List.cons_ne_nil _ _
  | nullable elem => exact List.cons_ne_nil _ _
  | map key value => cases h
  | pojo className fields => cases hl
  | other snapshotClass payload => cases h

theorem splitTopLevel_typeNames (ss : List Ser) (h : tupleInGrammar ss = true) :
    splitTopLevel (joinCommas (typeNames ss)) = typeNames ss := by
  have hne : ∀ t ∈ typeNames ss, t ≠ [] := by
    induction ss with
    | nil => exact fun t ht => absurd ht List.not_mem_nil
    | cons s ss ih =>
      simp only [tupleInGrammar, Bool.and_eq_true] at h
      intro t ht
      rcases List.mem_cons.mp ht with rfl | ht
      · exact s.typeName_ne_nil h.1.1 h.1.2
      · exact ih h.2 t ht
  exact splitTopLevel_joinCommas fun t ht => ⟨balanced_typeNames ss h t ht, hne t ht⟩

/-! ### The name of each serializer, taken apart -/

section Parts

theorem elementType_list (e : Text) : elementType ("List<".toList ++ e ++ ['>']) = e := by
  have hlist : (stripPrefix "List<".toList ("List<".toList ++ (e ++ ['>']))) = some (e ++ ['>']) :=
    stripPrefix_append _ _
  rw [elementType, List.append_assoc, hlist]
  exact congrArg (Option.getD · ['?']) (stripSuffix_append e ['>'])

theorem elementType_array (e : Text) : elementType ("Array<".toList ++ e ++ ['>']) = e := by
  have hnot : stripPrefix "List<".toList ("Array<".toList ++ (e ++ ['>'])) = none := rfl
  have harray : stripPrefix "Array<".toList ("Array<".toList ++ (e ++ ['>'])) = some (e ++ ['>']) :=
    stripPrefix_append _ _
  rw [elementType, List.append_assoc, hnot, harray]
  exact congrArg (Option.getD · ['?']) (stripSuffix_append e ['>'])

/-- A name without brackets is not a container. -/
theorem isContainer_of_plain {t : Text} (h : isPlainName t = true) : isContainer t = false := by
  have hnot (p : Text) (hp : '<' ∈ p) : p.isPrefixOf t = false := by
    rw [Bool.eq_false_iff]
    intro hpre
    have hmem := (List.isPrefixOf_iff_prefix.mp hpre).subset hp
    exact (plain_of_mem h hmem).1 rfl
  rw [isContainer, hnot "List<".toList (by decide), hnot "Array<".toList (by decide),
    hnot "Nullable<".toList (by decide), hnot "Map<".toList (by decide)]
  rfl

end Parts

end FlinkExplorer
