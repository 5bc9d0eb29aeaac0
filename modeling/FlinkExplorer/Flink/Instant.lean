import FlinkExplorer.Flink.RoundTrip
import FlinkExplorer.Parser.IsoMillis

namespace FlinkExplorer

open Lib Lib.Read

/-!
# Instants at the ends of their range

`decode_scalar` turns the seconds of an `Instant` into milliseconds, on `i64`.  Java's instants
reach further than that product.

* `Checked.instant` — the code's own steps, which abort where an operation overflows;
* `DecodesInstant` — a pair of seconds and nanoseconds is decoded without overflow, to the ISO
  text of its instant;
* `InstantFits` — the milliseconds fit;
* `instants_decode_iff` — the one holds exactly where the other does.
-/

/-- The pairs that are a `java.time.Instant`: from `Instant.MIN` to `Instant.MAX`. -/
def IsJavaInstant (seconds : Int64) (nano : Int32) : Prop :=
  (-31557014167219200 ≤ seconds.toInt ∧ seconds.toInt ≤ 31556889864403199)
    ∧ 0 ≤ nano.toInt ∧ nano.toInt < 1000000000

/-- The bytes of an `Instant`: `InstantSerializer`. -/
def instantBytes (seconds : Int64) (nano : Int32) : Bytes := writeLong seconds ++ writeInt nano

namespace Checked

/-- The milliseconds of the `"Instant"` arm; a quotient of an `i32` by a constant does not
    overflow. -/
def instantMillis (epochSec : Int64) (nano : Int32) : Option Int := do
  let millis ← inI64 (epochSec.toInt * 1000)
  inI64 (millis + nano.toInt.tdiv 1000000)

/-- The `"Instant"` arm of `decode_scalar`. -/
def instant (epochSec : Int64) (nano : Int32) : Option Text := do
  let millis ← instantMillis epochSec nano
  millisToIso (Int64.ofInt millis)

end Checked

/-- Seconds and nanoseconds are decoded without overflow, an instant of Java's to its ISO text,
    rounded down to milliseconds. -/
structure DecodesInstant (F : FloatText) (seconds : Int64) (nano : Int32) : Prop where
  returns : (Checked.instant seconds nano).isSome = true
  exact : IsJavaInstant seconds nano → ∃ text,
    Reads (readScalar F .instant) (instantBytes seconds nano) (.string text)
      ∧ Checked.instant seconds nano = some text
      ∧ IsIso (seconds.toInt * 1000 + nano.toInt / 1000000) text

/-- The seconds fit as milliseconds, and still do with those of the nanoseconds. -/
def InstantFits (seconds : Int64) (nano : Int32) : Prop :=
  (-9223372036854775 ≤ seconds.toInt ∧ seconds.toInt ≤ 9223372036854775)
    ∧ -2 ^ 63 ≤ seconds.toInt * 1000 + nano.toInt.tdiv 1000000
    ∧ seconds.toInt * 1000 + nano.toInt.tdiv 1000000 < 2 ^ 63

section Instants

variable {seconds : Int64} {nano : Int32}

theorem InstantFits.instantMillis (h : InstantFits seconds nano) :
    Checked.instantMillis seconds nano
      = some (seconds.toInt * 1000 + nano.toInt.tdiv 1000000) := by
  obtain ⟨⟨hlo, hhi⟩, hlo', hhi'⟩ := h
  rw [Checked.instantMillis, inI64_eq (by omega) (by omega), Option.bind_eq_bind,
    Option.bind_some, inI64_eq hlo' hhi']

/-- Where the milliseconds do not fit, one of the two operations overflows. -/
theorem instantFits_of_instantMillis {millis : Int}
    (h : Checked.instantMillis seconds nano = some millis) : InstantFits seconds nano := by
  rw [Checked.instantMillis, Option.bind_eq_bind, Option.bind_eq_some_iff] at h
  obtain ⟨product, hproduct, hsum⟩ := h
  obtain ⟨rfl, hlo, hhi⟩ := inI64_eq_some hproduct
  obtain ⟨rfl, hlo', hhi'⟩ := inI64_eq_some hsum
  exact ⟨⟨by omega, by omega⟩, hlo', hhi'⟩

/-- Where they fit, the wrapping operations compute them. -/
theorem InstantFits.toInt_wrapping (h : InstantFits seconds nano) :
    (seconds * 1000 + (nano / 1000000).toInt64).toInt
      = seconds.toInt * 1000 + nano.toInt.tdiv 1000000 := by
  obtain ⟨-, hlo, hhi⟩ := h
  have hn := nano.le_toInt
  have hn' := nano.toInt_lt
  have habs : (nano.toInt.tdiv 1000000).natAbs = nano.toInt.natAbs / 1000000 :=
    Int.natAbs_tdiv _ _
  have hdiv : (nano / 1000000).toInt = nano.toInt.tdiv 1000000 := by
    rw [Int32.toInt_div, show (1000000 : Int32).toInt = 1000000 from rfl,
      Int.bmod_eq_of_le (by omega) (by omega)]
  rw [Int64.toInt_add, Int64.toInt_mul, Int32.toInt_toInt64, hdiv,
    show (1000 : Int64).toInt = 1000 from rfl, Int.bmod_add_bmod,
    Int.bmod_eq_of_le (by omega) (by omega)]

theorem InstantFits.instant (h : InstantFits seconds nano) :
    Checked.instant seconds nano
      = some (millisToIso (seconds.toInt * 1000 + nano.toInt.tdiv 1000000)) := by
  rw [Checked.instant, h.instantMillis, Option.bind_eq_bind, Option.bind_some,
    checked_millisToIso, Int64.toInt_ofInt_of_le h.2.1 h.2.2]

/-- What the decoder reads from the bytes of any pair, in wrapping arithmetic. -/
theorem reads_instant (F : FloatText) (seconds : Int64) (nano : Int32) :
    Reads (readScalar F .instant) (instantBytes seconds nano)
      (.string (millisToIso (seconds * 1000 + (nano / 1000000).toInt64).toInt)) :=
  (reads_ok (reads_readLong seconds)).bind
    ((reads_ok (reads_readInt nano)).bind_nil (Reads.pure _))

/-- **Instants are decoded exactly where their milliseconds fit**: there without overflow and to
    the ISO text, elsewhere an operation overflows. -/
theorem instants_decode_iff (F : FloatText) (seconds : Int64) (nano : Int32) :
    DecodesInstant F seconds nano ↔ InstantFits seconds nano := by
  constructor
  · intro h
    obtain ⟨text, htext⟩ := Option.isSome_iff_exists.mp h.returns
    rw [Checked.instant, Option.bind_eq_bind, Option.bind_eq_some_iff] at htext
    obtain ⟨millis, hmillis, -⟩ := htext
    exact instantFits_of_instantMillis hmillis
  · intro h
    refine ⟨by rw [h.instant]; rfl, ?_⟩
    intro hjava
    have hreads := reads_instant F seconds nano
    rw [h.toInt_wrapping] at hreads
    refine ⟨_, hreads, h.instant, ?_⟩
    rw [Int.tdiv_eq_ediv_of_nonneg hjava.2.1]
    exact isIso_millisToIso _

end Instants

/-- An instant of the year 292278994: its milliseconds wrap around to a date before Christ, or the
    multiplication aborts. -/
theorem instant_overflows :
    IsJavaInstant 9223372036854776 0
      ∧ ¬ DecodesInstant ⟨fun _ => none, fun _ => none⟩ 9223372036854776 0
      ∧ Checked.instant 9223372036854776 0 = none
      ∧ Reads (readScalar ⟨fun _ => none, fun _ => none⟩ .instant)
          (instantBytes 9223372036854776 0)
          (.string "-292275055-05-16T16:47:04.384Z".toList) := by
  refine ⟨⟨by decide, by decide⟩, ?_, by rfl, ?_⟩
  · intro h
    have hnone : Checked.instant 9223372036854776 0 = none := rfl
    have hreturns := h.returns
    rw [hnone] at hreturns
    cases hreturns
  · exact reads_instant _ 9223372036854776 0

end FlinkExplorer
