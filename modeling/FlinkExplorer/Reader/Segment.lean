import FlinkExplorer.Reader.Open

namespace FlinkExplorer

open Lib

/-!
# `reader/source.rs` — a segment of a file

A segment handle points at a region of a shared file; offsets inside it are relative to its start.
Start and size come from the metadata as they are.  `source_for` takes a negative one as 0, adds the
two as `u64` and has the sum checked as `i64`, where one from 2^63 on is negative and passes for a
size nobody knows.

`StaysInside` is what a segment's source should do; `staysInside_iff` says of which handles it does.
-/

/-- A path names a regular file with these bytes. -/
structure Environment.HasFile (env : Environment) (path : Text) (data : Bytes) : Prop where
  opens : env.openRegular path = .ok data.length
  reads : ∀ offset len, offset + len ≤ data.length →
    env.files path offset len = .ok ((data.drop offset).take len)
  fails : ∀ offset len, data.length < offset + len → ∃ e, env.files path offset len = .error e

namespace SegmentFileStateHandle

variable (h : SegmentFileStateHandle)

/-- Where the segment starts and stops in its file. -/
def first : Int := h.startPos.toInt
def stop : Int := h.startPos.toInt + h.stateSize.toInt

/-- The bytes read from an offset on are the file's at the same place of the segment. -/
def Holds (data : Bytes) (offset : Nat) (bytes : Bytes) : Prop :=
  ∀ (i : Nat) (b : UInt8), bytes[i]? = some b → h.first + offset + i < h.stop
    ∧ 0 ≤ h.first + offset + i ∧ data[(h.first + offset + i).toNat]? = some b

/-- A source of the segment lies within the file, and every range read through it, clamped to the
    size, lies within the segment and has the file's bytes. -/
def StaysInside (env : Environment) (data : Bytes) : Prop :=
  ∀ src, sourceFor env (.segment h) = .ok (some src) →
    h.stop ≤ data.length ∧ ∀ start last, ∃ bytes, src.read env.files start last = .ok bytes
      ∧ bytes.length = min last h.stateSize.toInt.toNat - start ∧ h.Holds data start bytes

/-- An empty segment, one that starts at 0 or later and whose end is an `i64` or inside the file, or
    one that starts before 0 and is longer than the file, and refused. -/
def InRange (fileLen : Nat) : Prop :=
  h.stateSize.toInt ≤ 0 ∨ (0 ≤ h.first ∧ (h.stop < 2 ^ 63 ∨ h.stop ≤ fileLen))
    ∨ (h.first < 0 ∧ (fileLen : Int) < h.stateSize.toInt)

instance (fileLen : Nat) : Decidable (h.InRange fileLen) := by
  unfold InRange
  infer_instance

end SegmentFileStateHandle

/-! ### The check -/

/-- A sum of two `i64` that are not negative, cast back to `i64`. -/
theorem toInt_ofNat_sum (n : Nat) (hn : n < 2 ^ 64) :
    (Int64.ofNat n).toInt = if n < 2 ^ 63 then (n : Int) else n - 2 ^ 64 := by
  have hsize : ((2 : Nat) ^ 64 : Nat) = 18446744073709551616 := rfl
  rw [Int64.toInt_ofNat', show Int64.size = 18446744073709551616 from rfl, Int.bmod_def]
  split_ifs <;> omega

theorem checkLen_eq_ok_iff (path : Text) (actual : Nat) (expected : Int) :
    checkLen path actual expected = .ok () ↔ expected < 0 ∨ expected ≤ actual := by
  unfold checkLen
  by_cases h : 0 ≤ expected ∧ (actual : Int) < expected
  · rw [if_pos h]
    constructor
    · intro hok
      cases hok
    · omega
  · rw [if_neg h]
    exact iff_of_true rfl (by omega)

section Source

variable {env : Environment} {path : Text} {data : Bytes} {h : SegmentFileStateHandle}

theorem openStateFile_eq (hfile : env.HasFile path data) (expected : Int) :
    openStateFile env path expected
      = (checkLen path data.length expected).map fun _ => data.length := by
  unfold openStateFile
  rw [hfile.opens]
  show (do checkLen path data.length expected; pure data.length) = _
  cases checkLen path data.length expected <;> rfl

/-- **What a segment's source is**, when its file is there: one of the clamped start and size, if
    their sum passes the check. -/
theorem sourceFor_segment_iff (hpath : localPath h.filePath = .ok path)
    (hfile : env.HasFile path data) (src : Source) :
    sourceFor env (.segment h) = .ok (some src) ↔
      src = .file path h.startPos.toInt.toNat h.stateSize.toInt.toNat
        ∧ (2 ^ 63 ≤ h.startPos.toInt.toNat + h.stateSize.toInt.toNat
          ∨ h.startPos.toInt.toNat + h.stateSize.toInt.toNat ≤ data.length) := by
  have hstart := h.startPos.toInt_lt
  have hsize := h.stateSize.toInt_lt
  have hsum : h.startPos.toInt.toNat + h.stateSize.toInt.toNat < 2 ^ 64 := by omega
  simp only [sourceFor, hpath]
  show (do
      let _ ← openStateFile env path
        (Int64.ofNat (h.startPos.toInt.toNat + h.stateSize.toInt.toNat)).toInt
      pure (some (Source.file path h.startPos.toInt.toNat h.stateSize.toInt.toNat))) = _ ↔ _
  generalize h.startPos.toInt.toNat = base at hsum ⊢
  generalize h.stateSize.toInt.toNat = len at hsum ⊢
  have hpasses : checkLen path data.length (Int64.ofNat (base + len)).toInt = .ok ()
      ↔ 2 ^ 63 ≤ base + len ∨ base + len ≤ data.length := by
    rw [checkLen_eq_ok_iff, toInt_ofNat_sum _ hsum]
    split_ifs <;> omega
  rw [← hpasses, openStateFile_eq hfile]
  cases checkLen path data.length (Int64.ofNat (base + len)).toInt with
  | error e =>
    refine iff_of_false (fun hok => ?_) fun hok => ?_
    · cases hok
    · cases hok.2
  | ok _ =>
    constructor
    · intro hok
      obtain rfl := Option.some.inj (Except.ok.inj hok)
      exact ⟨rfl, rfl⟩
    · rintro ⟨rfl, -⟩
      rfl

/-- Reading a range of a file that lies within it. -/
theorem read_file_eq (hfile : env.HasFile path data) {base len : Nat}
    (hlen : base + len ≤ data.length) (start last : Nat) :
    (Source.file path base len).read env.files start last
      = .ok ((data.drop (base + start)).take (min last len - start)) := by
  unfold Source.read
  show (if min last len ≤ start then pure []
    else env.files path (base + start) (min last len - start)) = _
  by_cases hempty : min last len ≤ start
  · rw [if_pos hempty, Nat.sub_eq_zero_of_le hempty, List.take_zero]
    rfl
  · rw [if_neg hempty]
    exact hfile.reads _ _ (by omega)

/-- **A segment stays inside its file exactly when its start and size are in range.** -/
theorem staysInside_iff (hpath : localPath h.filePath = .ok path) (hfile : env.HasFile path data) :
    h.StaysInside env data ↔ h.InRange data.length := by
  have hsource := sourceFor_segment_iff hpath hfile
  have hsize := h.stateSize.toInt_lt
  have hstart := h.startPos.toInt_lt
  unfold SegmentFileStateHandle.InRange SegmentFileStateHandle.first SegmentFileStateHandle.stop
  constructor
  · intro hinside
    by_contra hrange
    have hsum : 2 ^ 63 ≤ h.startPos.toInt.toNat + h.stateSize.toInt.toNat
        ∨ h.startPos.toInt.toNat + h.stateSize.toInt.toNat ≤ data.length := by omega
    obtain ⟨hstop, hreads⟩ := hinside _ ((hsource _).mpr ⟨rfl, hsum⟩)
    unfold SegmentFileStateHandle.stop at hstop
    -- The end is inside the file, so it is the start that is negative: the first byte shows it.
    obtain ⟨bytes, -, hlength, hholds⟩ := hreads 0 1
    have hone : 0 < bytes.length := by omega
    obtain ⟨-, hneg, -⟩ := hholds 0 _ (List.getElem?_eq_getElem hone)
    unfold SegmentFileStateHandle.first at hneg
    omega
  · intro hrange src hsrc
    obtain ⟨rfl, hsum⟩ := (hsource src).mp hsrc
    have hlen : h.startPos.toInt.toNat + h.stateSize.toInt.toNat ≤ data.length := by omega
    refine ⟨?_, fun start last => ⟨_, read_file_eq hfile hlen start last, ?_, ?_⟩⟩
    · unfold SegmentFileStateHandle.stop
      omega
    · rw [List.length_take, List.length_drop]
      omega
    · intro i b hb
      have hi : i < min last h.stateSize.toInt.toNat - start := by
        obtain ⟨hlt, -⟩ := List.getElem?_eq_some_iff.mp hb
        exact hlt.trans_le (List.length_take_le _ _)
      rw [List.getElem?_take_of_lt hi, List.getElem?_drop] at hb
      unfold SegmentFileStateHandle.first SegmentFileStateHandle.stop
      have hplace : (h.startPos.toInt + start + i).toNat = h.startPos.toInt.toNat + start + i := by
        omega
      exact ⟨by omega, by omega, hplace ▸ hb⟩

end Source

/-! ### A segment that does not -/

/-- An environment with one file, of three bytes. -/
def threeBytes : Environment where
  dir := []
  openRegular path := if path = ['/', 'f'] then .ok 3 else .error []
  files path offset len :=
    if path = ['/', 'f'] ∧ offset + len ≤ 3 then .ok (([1, 2, 3].drop offset).take len)
    else .error []
  inflate := .ok
  resolve _ := ⟨false, [], none, [], [], [], [], 0⟩
  host := ⟨⟨fun _ => none, fun _ => none⟩, fun _ => none, fun _ => none, fun _ => none, id⟩
  proto := none
  entryLimit := 10
  entryLimit_pos := tenEntries_pos
  keyedEntrySize := 1
  rawKeySize := 1

theorem hasFile_threeBytes : threeBytes.HasFile ['/', 'f'] [1, 2, 3] where
  opens := rfl
  reads _ _ h := if_pos ⟨rfl, h⟩
  fails _ _ h := ⟨[], if_neg fun hle => absurd hle.2 (not_le.mpr h)⟩

/-- The second byte of the file. -/
def oneByte : SegmentFileStateHandle := ⟨1, 1, 0, ['/', 'f'], []⟩

theorem staysInside_oneByte : oneByte.StaysInside threeBytes [1, 2, 3] :=
  (staysInside_iff rfl hasFile_threeBytes).mpr (by decide)

/-- The largest start and one more byte: the sum is negative as `i64`. -/
def wrapped : SegmentFileStateHandle := ⟨9223372036854775807, 1, 0, ['/', 'f'], []⟩

theorem not_staysInside_wrapped : ¬ wrapped.StaysInside threeBytes [1, 2, 3] := by
  intro hinside
  obtain ⟨hstop, -⟩ := hinside (.file ['/', 'f'] 9223372036854775807 1) rfl
  exact absurd hstop (by decide)

end FlinkExplorer
