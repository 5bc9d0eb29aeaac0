import FlinkExplorer.Lib.Bytes
import FlinkExplorer.Lib.Read
import FlinkExplorer.Lib.Utf

namespace FlinkExplorer

open Lib Lib.Read

/-!
# `parser/java_deser.rs` — the reader of Java's `DataOutput` encodings

`JavaReader` is a cursor over bytes.  Every fixed-width read is big-endian; `readVint` and the
`StringValue` readers on top of it are Flink's own variable-length formats.

For each reader two facts are stated next to it: what it reads back (`reads_…`) and that its
success depends on the consumed bytes alone (`stable_…`).
-/

/-- `error.rs`: the errors of parsing.  The readers here report the first two. -/
inductive ParseError
  | unexpectedEof (pos : Nat)
  | invalidUtf8 (offset : Nat)
  | invalidMagic (magic : UInt32)
  | unsupportedVersion (version : UInt32)
  | unknownStateHandleTag (tag : UInt8) (position : Nat)
  | unknownStreamHandleTag (tag : UInt8) (position : Nat)
  deriving DecidableEq, Repr

/-- A reader over bytes that tracks its position. -/
abbrev JavaReader := Cursor UInt8

/-- A read from a `JavaReader`. -/
abbrev ReadBytes := Read UInt8

namespace JavaReader

/-- A reader at the start of `bytes`. -/
def new (bytes : Bytes) : JavaReader := ⟨bytes, 0⟩

/-- How many bytes were read. -/
def position (r : JavaReader) : Nat := r.pos

end JavaReader

/-! ### Fixed-width reads -/

/-- Read `n` bytes whole.  On a short stream `Read::read_exact` for a slice drops what is left,
    and the position stays. -/
def readExactBytes (n : Nat) : ReadBytes ParseError Bytes := fun r =>
  if n ≤ r.inner.length then (.ok (r.inner.take n), ⟨r.inner.drop n, r.pos + n⟩)
  else (.error (.unexpectedEof r.pos), ⟨[], r.pos⟩)

/-- Read a single byte. -/
def readByte : ReadBytes ParseError UInt8 := do
  let buf ← readExactBytes 1
  pure (buf.headD 0)

/-- Read a boolean: zero is false, anything else true. -/
def readBoolean : ReadBytes ParseError Bool := do
  let b ← readByte
  pure (b != 0)

/-- Read a big-endian signed 16-bit short. -/
def readShort : ReadBytes ParseError Int16 := do
  let buf ← readExactBytes 2
  pure (Int16.ofBitVec (BitVec.ofNat 16 (beNat buf)))

/-- Read a big-endian signed 32-bit integer. -/
def readInt : ReadBytes ParseError Int32 := do
  let buf ← readExactBytes 4
  pure (Int32.ofBitVec (BitVec.ofNat 32 (beNat buf)))

/-- Read a big-endian signed 64-bit long. -/
def readLong : ReadBytes ParseError Int64 := do
  let buf ← readExactBytes 8
  pure (Int64.ofBitVec (BitVec.ofNat 64 (beNat buf)))

/-- Read a big-endian UTF-16 code unit. -/
def readChar : ReadBytes ParseError UInt16 := do
  let buf ← readExactBytes 2
  pure (UInt16.ofNat (beNat buf))

/-- Read a fixed number of raw bytes. -/
def readBytes (len : Nat) : ReadBytes ParseError Bytes := readExactBytes len

/-- Skip a given number of bytes. -/
def skip (len : Nat) : ReadBytes ParseError Unit := do
  let _ ← readExactBytes len
  pure ()

/-- Decode the bytes of a `writeUTF` string, which end where the reader is. -/
def utf8At (bytes : Bytes) : ReadBytes ParseError Text := fun r =>
  match decodeUtf8 bytes with
  | some s => (.ok s, r)
  | none => (.error (.invalidUtf8 (r.pos - bytes.length)), r)

/-- Read a string with a 2-byte length prefix. -/
def readUtf : ReadBytes ParseError Text := do
  let len ← readExactBytes 2
  let buf ← readExactBytes (beNat len)
  utf8At buf

/-! ### Variable-length reads -/

/-- Report the end of the data here. -/
def eof {β : Type} : ReadBytes ParseError β := fun r => (.error (.unexpectedEof r.pos), r)

/-- The continuation bytes of a variable-length integer; at most `groups` more are accepted,
    the first of them at bit `shift`. -/
def readVintLoop : Nat → UInt32 → UInt32 → ReadBytes ParseError UInt32
  | 0, _, _ => eof
  | groups + 1, value, shift => do
    let b ← readByte
    let value := value ||| ((b &&& 0x7f).toUInt32 <<< shift)
    if b &&& 0x80 = 0 then pure value
    else readVintLoop groups value (shift + 7)

/-- Read a variable-length integer: 7 bits per byte, the high bit set when more follow, at most
    five bytes.  The value is the bit pattern of the `i32` the source returns. -/
def readVint : ReadBytes ParseError UInt32 := do
  let first ← readByte
  if first &&& 0x80 = 0 then pure first.toUInt32
  else readVintLoop 4 (first &&& 0x7f).toUInt32 7

/-- Read `n` variable-length UTF-16 units, keeping the low 16 bits of each. -/
def readUnits : Nat → ReadBytes ParseError (List UInt16)
  | 0 => pure []
  | n + 1 => do
    let u ← readVint
    let us ← readUnits n
    pure (u.toUInt16 :: us)

/-- The UTF-16 units of a `StringValue` string, `none` being a null string: a variable-length
    unit count plus one, then the units. -/
def readNullableStringUnits : ReadBytes ParseError (Option (List UInt16)) := do
  let lenPlusOne ← readVint
  if lenPlusOne = 0 then pure none
  else do
    let units ← readUnits (lenPlusOne.toNat - 1)
    pure (some units)

/-- Units as text, an unpaired surrogate becoming U+FFFD. -/
def textOfUnits (units : List UInt16) : Text :=
  (decodeUtf16 units).map fun
    | .ok c => c
    | .error _ => Char.ofNat 0xFFFD

/-- Read a `StringValue` string, `none` being a null string. -/
def readNullableStringValue : ReadBytes ParseError (Option Text) := do
  let units ← readNullableStringUnits
  pure (units.map textOfUnits)

/-! ### What is written, is read -/

section Reads

/-- The bytes `DataOutput.writeShort`, `writeInt` and `writeLong` write. -/
def writeShort (v : Int16) : Bytes := beBytes 2 v.toBitVec.toNat
def writeInt (v : Int32) : Bytes := beBytes 4 v.toBitVec.toNat
def writeLong (v : Int64) : Bytes := beBytes 8 v.toBitVec.toNat

/-- The bytes `DataOutput.writeChar` writes. -/
def writeChar (u : UInt16) : Bytes := beBytes 2 u.toNat

/-- The byte `DataOutput.writeBoolean` writes. -/
def writeBoolean (b : Bool) : Bytes := [if b then 1 else 0]

/-- The groups of a variable-length integer; `groups` bounds the continuation bytes. -/
def writeVarLoop : Nat → Nat → Bytes
  | 0, v => [UInt8.ofNat v]
  | groups + 1, v =>
    if v < 0x80 then [UInt8.ofNat v]
    else UInt8.ofNat (v % 0x80 + 0x80) :: writeVarLoop groups (v / 0x80)

/-- The bytes of a 32-bit variable-length integer. -/
def writeVar (v : UInt32) : Bytes := writeVarLoop 4 v.toNat

/-- The bytes `StringValue.writeString` writes for a string's UTF-16 units. -/
def writeUtf16Value (units : List UInt16) : Bytes :=
  writeVar (UInt32.ofNat (units.length + 1)) ++ units.flatMap fun u => writeVar u.toUInt32

/-- A possibly null `StringValue` string: null is the length 0. -/
def writeNullableString : Option (List UInt16) → Bytes
  | none => writeVar 0
  | some units => writeUtf16Value units

theorem reads_readExactBytes (bs : Bytes) : Reads (readExactBytes bs.length) bs bs := by
  intro rest pos
  simp [readExactBytes]

theorem stable_readExactBytes (n : Nat) : Stable (readExactBytes n) := by
  intro r v r' h
  simp only [readExactBytes] at h
  split at h
  · rename_i hle
    cases h
    refine ⟨r.inner.take n, (List.take_append_drop n r.inner).symm, ?_⟩
    have hlen : (r.inner.take n).length = n := by rw [List.length_take, Nat.min_eq_left hle]
    simpa [hlen] using reads_readExactBytes (r.inner.take n)
  · cases h

theorem reads_readByte (b : UInt8) : Reads readByte [b] b :=
  (reads_readExactBytes [b]).bind_nil (Reads.pure _)

theorem stable_readByte : Stable readByte := (stable_readExactBytes 1).bind fun _ => Stable.pure _

theorem reads_readBoolean_byte (b : UInt8) : Reads readBoolean [b] (b != 0) :=
  (reads_readByte b).bind_nil (Reads.pure _)

theorem reads_readBoolean (b : Bool) : Reads readBoolean (writeBoolean b) b := by
  cases b with
  | false => exact reads_readBoolean_byte 0
  | true => exact reads_readBoolean_byte 1

theorem stable_readBoolean : Stable readBoolean := stable_readByte.bind fun _ => Stable.pure _

theorem reads_readShort (v : Int16) : Reads readShort (writeShort v) v := by
  have hlt : v.toBitVec.toNat < 256 ^ 2 := v.toBitVec.isLt
  have hbytes := reads_readExactBytes (writeShort v)
  rw [show (writeShort v).length = 2 from length_beBytes 2 _] at hbytes
  refine hbytes.bind_nil ?_
  rw [writeShort, beNat_beBytes_of_lt hlt, BitVec.ofNat_toNat, BitVec.setWidth_eq]
  exact Reads.pure v

theorem stable_readShort : Stable readShort :=
  (stable_readExactBytes 2).bind fun _ => Stable.pure _

theorem reads_readInt (v : Int32) : Reads readInt (writeInt v) v := by
  have hlt : v.toBitVec.toNat < 256 ^ 4 := v.toBitVec.isLt
  have hbytes := reads_readExactBytes (writeInt v)
  rw [show (writeInt v).length = 4 from length_beBytes 4 _] at hbytes
  refine hbytes.bind_nil ?_
  rw [writeInt, beNat_beBytes_of_lt hlt, BitVec.ofNat_toNat, BitVec.setWidth_eq]
  exact Reads.pure v

theorem stable_readInt : Stable readInt := (stable_readExactBytes 4).bind fun _ => Stable.pure _

theorem reads_readLong (v : Int64) : Reads readLong (writeLong v) v := by
  have hlt : v.toBitVec.toNat < 256 ^ 8 := v.toBitVec.isLt
  have hbytes := reads_readExactBytes (writeLong v)
  rw [show (writeLong v).length = 8 from length_beBytes 8 _] at hbytes
  refine hbytes.bind_nil ?_
  rw [writeLong, beNat_beBytes_of_lt hlt, BitVec.ofNat_toNat, BitVec.setWidth_eq]
  exact Reads.pure v

theorem stable_readLong : Stable readLong := (stable_readExactBytes 8).bind fun _ => Stable.pure _

theorem reads_readChar (u : UInt16) : Reads readChar (writeChar u) u := by
  have hlt : u.toNat < 256 ^ 2 := u.toNat_lt
  have hbytes := reads_readExactBytes (writeChar u)
  rw [show (writeChar u).length = 2 from length_beBytes 2 _] at hbytes
  refine hbytes.bind_nil ?_
  rw [writeChar, beNat_beBytes_of_lt hlt, UInt16.ofNat_toNat]
  exact Reads.pure u

theorem stable_readChar : Stable readChar := (stable_readExactBytes 2).bind fun _ => Stable.pure _

theorem reads_readBytes {bs : Bytes} {n : Nat} (h : bs.length = n) : Reads (readBytes n) bs bs := by
  subst h
  exact reads_readExactBytes bs

theorem stable_readBytes (n : Nat) : Stable (readBytes n) := stable_readExactBytes n

theorem stable_utf8At (bytes : Bytes) : Stable (utf8At bytes) := by
  intro r v r' h
  unfold utf8At at h
  split at h
  · rename_i s hs
    cases h
    refine ⟨[], rfl, fun rest pos => ?_⟩
    simp [utf8At, hs]
  · cases h

theorem stable_readUtf : Stable readUtf :=
  (stable_readExactBytes 2).bind fun _ => (stable_readExactBytes _).bind fun _ => stable_utf8At _

theorem stable_eof {β : Type} : Stable (eof : ReadBytes ParseError β) := by
  intro r v r' h
  cases h

end Reads

/-! ### Variable-length integers -/

section Vint

/-- The payload and continuation bits of a group. -/
theorem vint_group_more (v : Nat) :
    (UInt8.ofNat (v % 0x80 + 0x80) &&& 0x7f).toUInt32.toNat = v % 0x80
      ∧ UInt8.ofNat (v % 0x80 + 0x80) &&& 0x80 ≠ 0 := by
  have hb : (UInt8.ofNat (v % 0x80 + 0x80)).toNat = v % 0x80 + 0x80 := by
    simp only [UInt8.toNat_ofNat']
    omega
  constructor
  · rw [UInt8.toNat_toUInt32, UInt8.toNat_and, hb, show (0x7f : UInt8).toNat = 2 ^ 7 - 1 from rfl,
      Nat.and_two_pow_sub_one_eq_mod]
    omega
  · intro h
    have h7 := congrArg (fun b : UInt8 => b.toNat.testBit 7) h
    simp only [UInt8.toNat_and, Nat.testBit_and, hb] at h7
    have hbit : (v % 0x80 + 0x80).testBit 7 = true := by
      rw [Nat.testBit_eq_decide_div_mod_eq]
      simp only [decide_eq_true_eq]
      omega
    rw [hbit] at h7
    exact absurd h7 (by decide)

theorem vint_group_last {v : Nat} (h : v < 0x80) :
    (UInt8.ofNat v &&& 0x7f).toUInt32.toNat = v ∧ UInt8.ofNat v &&& 0x80 = 0 := by
  have hb : (UInt8.ofNat v).toNat = v := by
    simp only [UInt8.toNat_ofNat']
    omega
  constructor
  · rw [UInt8.toNat_toUInt32, UInt8.toNat_and, hb, show (0x7f : UInt8).toNat = 2 ^ 7 - 1 from rfl,
      Nat.and_two_pow_sub_one_eq_mod]
    omega
  · apply UInt8.toNat_inj.mp
    rw [UInt8.toNat_and, hb]
    apply Nat.eq_of_testBit_eq
    intro i
    rw [Nat.testBit_and, show (0x80 : UInt8).toNat = 2 ^ 7 from rfl, Nat.testBit_two_pow]
    by_cases hi : 7 = i
    · subst hi
      have : v.testBit 7 = false := Nat.testBit_lt_two_pow (by simpa using h)
      simp [this]
    · simp [hi]

/-- Adding one group to the value read so far: the bits do not overlap, so `|` is `+`. -/
theorem vint_accumulate (value g shift : UInt32) (hs : shift.toNat < 32)
    (hv : value.toNat < 2 ^ shift.toNat) (hg : value.toNat + g.toNat * 2 ^ shift.toNat < 2 ^ 32) :
    (value ||| (g <<< shift)).toNat = value.toNat + g.toNat * 2 ^ shift.toNat := by
  have hlt : g.toNat * 2 ^ shift.toNat < 2 ^ 32 := by omega
  rw [UInt32.toNat_or, UInt32.toNat_shiftLeft, Nat.mod_eq_of_lt hs, Nat.shiftLeft_eq,
    Nat.mod_eq_of_lt hlt, Nat.or_comm, Nat.mul_comm, ← Nat.two_pow_add_eq_or_of_lt hv, Nat.add_comm]

/-- The loop reads back the groups the writer's loop wrote. -/
theorem reads_readVintLoop (groups : Nat) (value shift : UInt32) (v : Nat)
    (hshift : shift.toNat + 7 * groups = 35) (hv : value.toNat < 2 ^ shift.toNat)
    (hfit : value.toNat + v * 2 ^ shift.toNat < 2 ^ 32) (hg : 0 < groups) :
    Reads (readVintLoop groups value shift) (writeVarLoop (groups - 1) v)
      (UInt32.ofNat (value.toNat + v * 2 ^ shift.toNat)) := by
  -- On the groups of seven bits that are left; what was read so far is `value`.
  induction groups generalizing value shift v with
  | zero => omega
  | succ groups ih =>
    have hs : shift.toNat < 32 := by omega
    rw [readVintLoop, Nat.add_sub_cancel]
    by_cases hsmall : v < 0x80
    · -- The last group.
      have hw : writeVarLoop groups v = [UInt8.ofNat v] := by
        cases groups <;> simp [writeVarLoop, hsmall]
      obtain ⟨hlow, hstop⟩ := vint_group_last hsmall
      rw [hw]
      refine (reads_readByte _).bind_nil ?_
      simp only [hstop, ↓reduceIte]
      have hval := vint_accumulate value (UInt8.ofNat v &&& 0x7f).toUInt32 shift hs hv
        (by rw [hlow]; exact hfit)
      rw [hlow] at hval
      rw [← hval, UInt32.ofNat_toNat]
      exact Reads.pure _
    · -- A group with more to follow.
      have hpow : 0 < 2 ^ shift.toNat := Nat.two_pow_pos _
      -- a fifth group has room for four bits, so it is never followed by another
      have hgroups : 0 < groups := by
        rcases Nat.eq_zero_or_pos groups with h0 | h0
        · subst h0
          have h28 : shift.toNat = 28 := by omega
          rw [h28] at hfit
          omega
        · exact h0
      have hw : writeVarLoop groups v
          = UInt8.ofNat (v % 0x80 + 0x80) :: writeVarLoop (groups - 1) (v / 0x80) := by
        obtain ⟨k, rfl⟩ : ∃ k, groups = k + 1 := ⟨groups - 1, by omega⟩
        simp [writeVarLoop, hsmall]
      obtain ⟨hlow, hmore⟩ := vint_group_more v
      rw [hw, ← List.singleton_append]
      refine (reads_readByte _).bind ?_
      simp only [hmore, ↓reduceIte]
      have hsplit : v % 0x80 * 2 ^ shift.toNat + v / 0x80 * 2 ^ (shift.toNat + 7)
          = v * 2 ^ shift.toNat := by
        have hv7 : v % 0x80 + v / 0x80 * 0x80 = v := by omega
        calc v % 0x80 * 2 ^ shift.toNat + v / 0x80 * 2 ^ (shift.toNat + 7)
            = (v % 0x80 + v / 0x80 * 0x80) * 2 ^ shift.toNat := by rw [pow_add]; ring
          _ = v * 2 ^ shift.toNat := by rw [hv7]
      have hlow_lt : v % 0x80 < 2 ^ 7 := by omega
      have hval := vint_accumulate value
        (UInt8.ofNat (v % 0x80 + 0x80) &&& 0x7f).toUInt32 shift hs hv
        (by rw [hlow]; omega)
      rw [hlow] at hval
      have hshift7 : (shift + 7).toNat = shift.toNat + 7 := by
        rw [UInt32.toNat_add]
        have : (7 : UInt32).toNat = 7 := rfl
        omega
      -- what is accumulated stays below the next group
      have hval_lt : value.toNat + v % 0x80 * 2 ^ shift.toNat < 2 ^ (shift.toNat + 7) := by
        have : v % 0x80 * 2 ^ shift.toNat + 2 ^ shift.toNat ≤ 2 ^ 7 * 2 ^ shift.toNat := by
          nlinarith
        rw [pow_add]
        omega
      have hrec := ih (value ||| (UInt8.ofNat (v % 0x80 + 0x80) &&& 0x7f).toUInt32 <<< shift)
        (shift + 7) (v / 0x80) (by omega) (by rw [hval, hshift7]; exact hval_lt)
        (by rw [hval, hshift7]; omega) hgroups
      rw [hval, hshift7, Nat.add_assoc, hsplit] at hrec
      exact hrec

/-- **Variable-length round trip.** -/
theorem reads_readVint (v : UInt32) : Reads readVint (writeVar v) v := by
  have hlt := v.toNat_lt
  unfold readVint writeVar
  by_cases hsmall : v.toNat < 0x80
  · have hw : writeVarLoop 4 v.toNat = [UInt8.ofNat v.toNat] := by simp [writeVarLoop, hsmall]
    obtain ⟨-, hstop⟩ := vint_group_last hsmall
    rw [hw]
    refine (reads_readByte _).bind_nil ?_
    simp only [hstop, ↓reduceIte]
    have hval : (UInt8.ofNat v.toNat).toUInt32 = v := by
      apply UInt32.toNat_inj.mp
      rw [UInt8.toNat_toUInt32, UInt8.toNat_ofNat']
      omega
    rw [hval]
    exact Reads.pure _
  · obtain ⟨hlow, hmore⟩ := vint_group_more v.toNat
    have hw : writeVarLoop 4 v.toNat
        = UInt8.ofNat (v.toNat % 0x80 + 0x80) :: writeVarLoop 3 (v.toNat / 0x80) := by
      simp [writeVarLoop, hsmall]
    rw [hw, ← List.singleton_append]
    refine (reads_readByte _).bind ?_
    simp only [hmore, ↓reduceIte]
    have h7 : (7 : UInt32).toNat = 7 := rfl
    have hrec := reads_readVintLoop 4 (UInt8.ofNat (v.toNat % 0x80 + 0x80) &&& 0x7f).toUInt32 7
      (v.toNat / 0x80) rfl (by rw [hlow, h7]; omega) (by rw [hlow, h7]; omega) (by decide)
    have hval : v.toNat % 0x80 + v.toNat / 0x80 * 2 ^ 7 = v.toNat := by omega
    rw [hlow, h7, hval, UInt32.ofNat_toNat] at hrec
    exact hrec

theorem stable_readVintLoop (groups : Nat) (value shift : UInt32) :
    Stable (readVintLoop groups value shift) := by
  induction groups generalizing value shift with
  | zero => exact stable_eof
  | succ groups ih =>
    refine stable_readByte.bind fun b => ?_
    by_cases h : b &&& 0x80 = 0
    · simp only [h, ↓reduceIte]
      exact Stable.pure _
    · simp only [h, ↓reduceIte]
      exact ih _ _

theorem stable_readVint : Stable readVint := by
  refine stable_readByte.bind fun b => ?_
  by_cases h : b &&& 0x80 = 0
  · simp only [h, ↓reduceIte]
    exact Stable.pure _
  · simp only [h, ↓reduceIte]
    exact stable_readVintLoop _ _ _

theorem reads_readUnits (units : List UInt16) :
    Reads (readUnits units.length) (units.flatMap fun u => writeVar u.toUInt32) units := by
  induction units with
  | nil => exact Reads.pure []
  | cons u us ih =>
    rw [List.flatMap_cons]
    refine (reads_readVint u.toUInt32).bind (ih.bind_nil ?_)
    rw [show u.toUInt32.toUInt16 = u by simp]
    exact Reads.pure _

theorem stable_readUnits (n : Nat) : Stable (readUnits n) := by
  induction n with
  | zero => exact Stable.pure []
  | succ n ih => exact stable_readVint.bind fun _ => ih.bind fun _ => Stable.pure _

/-- **`StringValue` round trip**, null included, for every length a Java string can have. -/
theorem reads_readNullableStringUnits {s : Option (List UInt16)}
    (hlen : ∀ us, s = some us → us.length + 1 < 2 ^ 32) :
    Reads readNullableStringUnits (writeNullableString s) s := by
  cases s with
  | none => exact (reads_readVint 0).bind_nil (Reads.pure none)
  | some units =>
    have hfit := hlen units rfl
    have hnat : (UInt32.ofNat (units.length + 1)).toNat = units.length + 1 := by
      rw [UInt32.toNat_ofNat']
      omega
    have hne : UInt32.ofNat (units.length + 1) ≠ 0 := by
      intro h
      have := congrArg UInt32.toNat h
      rw [hnat] at this
      exact absurd this (by simp)
    refine (reads_readVint _).bind ?_
    simp only [hne, ↓reduceIte, hnat, Nat.add_sub_cancel]
    exact (reads_readUnits units).bind_nil (Reads.pure _)

theorem stable_readNullableStringUnits : Stable readNullableStringUnits := by
  refine stable_readVint.bind fun n => ?_
  by_cases h : n = 0
  · simp only [h, ↓reduceIte]
    exact Stable.pure _
  · simp only [h, ↓reduceIte]
    exact (stable_readUnits _).bind fun _ => Stable.pure _

theorem reads_readNullableStringValue {s : Option (List UInt16)}
    (hlen : ∀ us, s = some us → us.length + 1 < 2 ^ 32) :
    Reads readNullableStringValue (writeNullableString s) (s.map textOfUnits) :=
  (reads_readNullableStringUnits hlen).bind_nil (Reads.pure _)

theorem stable_readNullableStringValue : Stable readNullableStringValue :=
  stable_readNullableStringUnits.bind fun _ => Stable.pure _

end Vint

end FlinkExplorer
