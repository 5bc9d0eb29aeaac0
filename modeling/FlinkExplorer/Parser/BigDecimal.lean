import FlinkExplorer.Parser.BigNumber

namespace FlinkExplorer

open Lib

/-!
# `big_decimal_to_string` against Java's grammar

Java documents `BigDecimal.toString()` as one-to-one.  The text is read back here by the grammar
of the constructor `BigDecimal(String)`, which rejects what is no number:

* `javaBigDecimal` — the grammar: a sign, digits with a point among them, an exponent;
* `javaBigDecimal_parts` — a text put together from these parts is read part by part;
* `bigDecimals_read_back` — every unscaled value and every scale is read back from its text.
-/

/-! ### The grammar -/

/-- An optional sign, and what follows it. -/
def javaSign : Text → Int × Text
  | '+' :: t => (1, t)
  | '-' :: t => (-1, t)
  | t => (1, t)

/-- One or more digits. -/
def javaDigits (t : Text) : Option Nat :=
  if t ≠ [] ∧ t.all Char.isDigit then some (digitsValue t) else none

/-- Digits, a point after, among or before them; with the number of digits after it. -/
def javaSignificand (t : Text) : Option (Nat × Nat) := do
  let whole := t.takeWhile (· != '.')
  let fraction := (t.dropWhile (· != '.')).drop 1
  let n ← javaDigits (whole ++ fraction)
  pure (n, fraction.length)

/-- Nothing, or the indicator and a signed number. -/
def javaExponent : Text → Option Int
  | [] => some 0
  | _ :: t => (javaDigits (javaSign t).2).map fun n : Nat => (javaSign t).1 * n

/-- `e` or `E`. -/
def isExponentIndicator (c : Char) : Bool := c == 'e' || c == 'E'

/-- `BigDecimal(String)`: the unscaled value and the scale; `none` is a `NumberFormatException`. -/
def javaBigDecimal (t : Text) : Option (Int × Int) := do
  let body := (javaSign t).2
  let (n, places) ← javaSignificand (body.takeWhile (!isExponentIndicator ·))
  let e ← javaExponent (body.dropWhile (!isExponentIndicator ·))
  pure ((javaSign t).1 * n, places - e)

/-! ### Reading the parts -/

theorem javaDigits_eq {t : Text} (hne : t ≠ []) (h : AllDigits t) :
    javaDigits t = some (digitsValue t) :=
  if_pos ⟨hne, List.all_eq_true.mpr h⟩

/-- A digit is no sign. -/
theorem javaSign_digits {t : Text} (h : ∀ c ∈ t.head?, c.isDigit = true) :
    javaSign t = (1, t) := by
  unfold javaSign
  split
  · exact absurd (h '+' rfl) (by decide)
  · exact absurd (h '-' rfl) (by decide)
  · rfl

/-- A signed number is read back, with its sign or without one when it is positive. -/
theorem javaDigits_natText (n : Nat) : javaDigits (natText n) = some n := by
  rw [javaDigits_eq (natText_ne_nil n) (AllDigits.natText n), digitsValue_natText]

theorem javaExponent_exponentText (e : Int) : javaExponent (exponentText e) = some e := by
  unfold exponentText
  split
  · rename_i h
    rw [h]
    rfl
  · split
    · rename_i hne hpos
      rw [intText, if_neg (by omega)]
      show (javaDigits (natText e.natAbs)).map (fun n : Nat => (1 : Int) * n) = _
      rw [javaDigits_natText, Option.map_some]
      congr 1
      omega
    · rename_i hne hpos
      rw [intText, if_pos (by omega)]
      show (javaDigits (natText e.natAbs)).map (fun n : Nat => (-1 : Int) * n) = _
      rw [javaDigits_natText, Option.map_some]
      congr 1
      omega

/-- The digits before and after the point. -/
theorem javaSignificand_parts {whole fraction point : Text} (hwhole : AllDigits whole)
    (hfraction : AllDigits fraction) (hpoint : point = '.' :: fraction ∨ point = [] ∧ fraction = [])
    (hne : whole ≠ []) :
    javaSignificand (whole ++ point)
      = some (digitsValue (whole ++ fraction), fraction.length) := by
  have hstop : ∀ c ∈ point.head?, (c != '.') = false := by
    intro c hc
    rcases hpoint with rfl | ⟨rfl, -⟩
    · rw [← Option.some.inj hc]
      rfl
    · cases hc
  obtain ⟨htake, hdrop⟩ := takeWhile_stop point (hwhole.ne '.' rfl) hstop
  have hrest : point.drop 1 = fraction := by
    rcases hpoint with rfl | ⟨rfl, rfl⟩
    · rfl
    · rfl
  unfold javaSignificand
  simp only [htake, hdrop, hrest]
  rw [javaDigits_eq (by simp [hne]) (hwhole.append hfraction)]
  rfl

/-- No digit and no point starts an exponent. -/
theorem not_isExponentIndicator {whole fraction point : Text} (hwhole : AllDigits whole)
    (hfraction : AllDigits fraction)
    (hpoint : point = '.' :: fraction ∨ point = [] ∧ fraction = []) :
    ∀ c ∈ whole ++ point, (!isExponentIndicator c) = true := by
  have hdigit {t : Text} (ht : AllDigits t) : ∀ c ∈ t, (!isExponentIndicator c) = true := by
    intro c hc
    have he := ht.ne 'e' rfl c hc
    have hE := ht.ne 'E' rfl c hc
    rw [bne_iff_ne] at he hE
    simp [isExponentIndicator, he, hE]
  intro c hc
  rcases List.mem_append.mp hc with hc | hc
  · exact hdigit hwhole c hc
  · rcases hpoint with rfl | ⟨rfl, -⟩
    · rcases List.mem_cons.mp hc with rfl | hc
      · decide
      · exact hdigit hfraction c hc
    · exact absurd hc List.not_mem_nil

/-- **A decimal is read part by part**: the sign, the digits around the point, the exponent. -/
theorem javaBigDecimal_parts {t whole fraction point : Text} {e sign : Int}
    (hwhole : AllDigits whole) (hfraction : AllDigits fraction)
    (hpoint : point = '.' :: fraction ∨ point = [] ∧ fraction = []) (hne : whole ≠ [])
    (hsign : javaSign t = (sign, whole ++ point ++ exponentText e)) :
    javaBigDecimal t
      = some (sign * (digitsValue (whole ++ fraction) : Int), (fraction.length : Int) - e) := by
  have hstop : ∀ c ∈ (exponentText e).head?, (!isExponentIndicator c) = false := by
    intro c hc
    rw [exponentText_head e c hc]
    rfl
  obtain ⟨htake, hdrop⟩ := takeWhile_stop (exponentText e)
    (not_isExponentIndicator hwhole hfraction hpoint) hstop
  unfold javaBigDecimal
  simp only [hsign, htake, hdrop]
  rw [javaSignificand_parts hwhole hfraction hpoint hne, javaExponent_exponentText]
  rfl

/-- A text of either sign is read back. -/
theorem javaBigDecimal_toString (v scale : Int) :
    javaBigDecimal (bigDecimalToString (intText v) scale) = some (v, scale) := by
  obtain ⟨whole, fraction, point, e, htext, hwhole, hfraction, hpoint, hne, hvalue, hscale⟩ :=
    decimalText_parts v.natAbs scale
  have hparts {t : Text} {sign : Int} (hsign : javaSign t = (sign, whole ++ point ++ exponentText e)) :
      javaBigDecimal t = some (sign * (v.natAbs : Int), scale) := by
    rw [javaBigDecimal_parts hwhole hfraction hpoint hne hsign, hvalue, hscale]
  unfold intText
  by_cases hneg : v < 0
  · rw [if_pos hneg, bigDecimalToString,
      show stripPrefix ['-'] ('-' :: natText v.natAbs) = some (natText v.natAbs) from
        stripPrefix_append ['-'] _]
    simp only
    rw [htext, hparts rfl]
    congr 2
    omega
  · rw [if_neg hneg, bigDecimalToString, stripPrefix_minus_natText]
    simp only
    rw [htext]
    have hhead : ∀ c ∈ (whole ++ point ++ exponentText e).head?, c.isDigit = true := by
      obtain ⟨d, ds, rfl⟩ := List.exists_cons_of_ne_nil hne
      intro c hc
      rw [← Option.some.inj hc]
      exact hwhole d List.mem_cons_self
    rw [hparts (javaSign_digits hhead)]
    congr 2
    omega

/-- A text tells the unscaled value and the scale apart. -/
theorem bigDecimalToString_inj {v w s t : Int}
    (h : bigDecimalToString (intText v) s = bigDecimalToString (intText w) t) : v = w ∧ s = t := by
  have hread := javaBigDecimal_toString v s
  rw [h, javaBigDecimal_toString] at hread
  obtain ⟨hvalue, hscale⟩ := Prod.mk.inj (Option.some.inj hread)
  exact ⟨hvalue.symm, hscale.symm⟩

/-- **Decimal text is one-to-one.**  Every unscaled value and every scale is read back from its
    text by Java's grammar; so two decimals with one text have the same unscaled value and the
    same scale. -/
theorem bigDecimals_read_back :
    (∀ (v : Int) (scale : Int32),
        javaBigDecimal (bigDecimalToString (intText v) scale.toInt) = some (v, scale.toInt))
      ∧ ∀ (v w : Int) (s t : Int32),
          bigDecimalToString (intText v) s.toInt = bigDecimalToString (intText w) t.toInt
            ↔ v = w ∧ s = t := by
  constructor
  · intro v scale
    exact javaBigDecimal_toString v scale.toInt
  · intro v w s t
    refine ⟨?_, by rintro ⟨rfl, rfl⟩; rfl⟩
    intro h
    obtain ⟨hvalue, hscale⟩ := bigDecimalToString_inj h
    exact ⟨hvalue, Int32.toInt.inj hscale⟩

end FlinkExplorer
