import FlinkExplorer.Flink.Metadata

namespace FlinkExplorer

open Lib Lib.Read

/-!
# A whole `_metadata` file

The operators end the file for the parser: it reads until the data ends, and keeps what it read.
`Prefixed` says what a reader of such a tail does with every part of what is written: it fails, or it
returns the value cut to what is whole.

* `Prefixed.bind` — a `Written` part before the tail;
* `prefixed_untilEof` — the operators;
* `parseMetadata_written_iff` — the file round-trips, and its prefixes are cut to whole operators,
  exactly when no string has a null character.
-/

/-! ### Parts of what is written -/

section Prefixed

variable {β γ δ : Type} {fuel base : Nat}

/-- What a reader does with the parts of `used`, which `base` bytes come before: `v n` is the value
    of the first `n` bytes. -/
structure Prefixed (fuel base : Nat) (p : MetaRead β) (used : Bytes) (clean : Prop) (v : Nat → β) :
    Prop where
  reads : used.length ≤ fuel → clean → ∀ pos, ∃ r,
    p ⟨used, pos⟩ = (.ok (v (base + used.length)), r)
  refuses : used.length ≤ fuel → ¬ clean → ∀ pos, ∃ offset r,
    p ⟨used, pos⟩ = (.error (.error (.invalidUtf8 offset)), r)
  cut : ∀ a b, used = a ++ b → a.length ≤ fuel → ∀ pos,
    (∃ r, p ⟨a, pos⟩ = (.ok (v (base + a.length)), r)) ∨ ∃ e r, p ⟨a, pos⟩ = (.error (.error e), r)

/-- A value, then a tail. -/
theorem Prefixed.bind {p : MetaRead β} {f : β → MetaRead γ} {a b : Bytes} {c d : Prop} {w : β}
    {v : Nat → γ} (hp : Written fuel p a c w) (hf : Prefixed fuel (base + a.length) (f w) b d v) :
    Prefixed fuel base (p >>= f) (a ++ b) (c ∧ d) v where
  reads hfuel hc pos := by
    rw [List.length_append] at hfuel ⊢
    obtain ⟨r, h⟩ := hf.reads (by omega) hc.2 (pos + a.length)
    refine ⟨r, ?_⟩
    rw [bind_ok (hp.reads (by omega) hc.1 b pos), h, Nat.add_assoc]
  refuses hfuel hc pos := by
    rw [List.length_append] at hfuel
    by_cases hc₁ : c
    · obtain ⟨offset, r, h⟩ := hf.refuses (by omega) (fun hd => hc ⟨hc₁, hd⟩) (pos + a.length)
      exact ⟨offset, r, by rw [bind_ok (hp.reads (by omega) hc₁ b pos), h]⟩
    · obtain ⟨offset, r, h⟩ := hp.refuses (by omega) hc₁ b pos
      exact ⟨offset, r, bind_error h⟩
  cut x y hsplit hfuel pos := by
    rcases append_cut hsplit with ⟨x', rfl, hb⟩ | ⟨a', ha', hcut⟩
    · rcases hp.run x' pos with ⟨-, h⟩ | ⟨e, r, h⟩
      · rw [List.length_append] at hfuel ⊢
        rw [bind_ok h, ← Nat.add_assoc]
        exact hf.cut x' y hb (by omega) _
      · exact .inr ⟨e, r, bind_error h⟩
    · obtain ⟨e, r, h⟩ := hp.cut x a' hcut ha' pos
      exact .inr ⟨e, r, bind_error h⟩

/-- A value without strings, then a tail. -/
theorem Prefixed.then {p : MetaRead β} {f : β → MetaRead γ} {a b : Bytes} {d : Prop} {w : β}
    {v : Nat → γ} (hp : Written fuel p a True w) (hf : Prefixed fuel (base + a.length) (f w) b d v) :
    Prefixed fuel base (p >>= f) (a ++ b) d v := by
  have h := Prefixed.bind hp hf
  rwa [true_and] at h

/-- A step that reads nothing, then a tail. -/
theorem Prefixed.nil_bind {p : MetaRead β} {f : β → MetaRead γ} {b : Bytes} {d : Prop} {w : β}
    {v : Nat → γ} (hp : Written fuel p [] True w) (hf : Prefixed fuel base (f w) b d v) :
    Prefixed fuel base (p >>= f) b d v := Prefixed.then hp hf

/-- A tail, then a step that reads nothing. -/
theorem Prefixed.map {p : MetaRead β} {f : β → MetaRead γ} {used : Bytes} {clean : Prop}
    {v : Nat → β} {w : Nat → γ} (h : Prefixed fuel 0 p used clean v)
    (hf : ∀ n, f (v n) = pure (w (base + n))) : Prefixed fuel base (p >>= f) used clean w where
  reads hfuel hc pos := by
    obtain ⟨r, h⟩ := h.reads hfuel hc pos
    refine ⟨r, ?_⟩
    rw [bind_ok h, Nat.zero_add, hf]
    rfl
  refuses hfuel hc pos := by
    obtain ⟨offset, r, h⟩ := h.refuses hfuel hc pos
    exact ⟨offset, r, bind_error h⟩
  cut a b hsplit hfuel pos := by
    rcases h.cut a b hsplit hfuel pos with ⟨r, h⟩ | ⟨e, r, h⟩
    · refine .inl ⟨r, ?_⟩
      rw [bind_ok h, Nat.zero_add, hf]
      rfl
    · exact .inr ⟨e, r, bind_error h⟩

/-- The values that lie wholly in the first `n` bytes. -/
def wholeIn (enc : δ → Bytes) : List δ → Nat → List δ
  | [], _ => []
  | x :: xs, n => if (enc x).length ≤ n then x :: wholeIn enc xs (n - (enc x).length) else []

theorem wholeIn_length (enc : δ → Bytes) (xs : List δ) (more : Nat) :
    wholeIn enc xs ((xs.flatMap enc).length + more) = xs := by
  induction xs with
  | nil => rfl
  | cons x xs ih =>
    have hlen : (enc x).length ≤ ((x :: xs).flatMap enc).length + more := by
      rw [List.flatMap_cons, List.length_append]
      omega
    have hrest : ((x :: xs).flatMap enc).length + more - (enc x).length
        = (xs.flatMap enc).length + more := by
      rw [List.flatMap_cons, List.length_append]
      omega
    rw [wholeIn, if_pos hlen, hrest, ih]

section UntilEof

variable {p : MetaRead β}

theorem untilEof_ok {n : Nat} {r r' r'' : JavaReader} {v : β} {vs : List β} (h : p r = (.ok v, r'))
    (hvs : untilEof p n r' = (.ok vs, r'')) : untilEof p (n + 1) r = (.ok (v :: vs), r'') := by
  unfold untilEof
  rw [h]
  dsimp only
  rw [bind_ok hvs]
  rfl

theorem untilEof_error {n : Nat} {r r' r'' : JavaReader} {v : β} {e : Halt} (h : p r = (.ok v, r'))
    (hvs : untilEof p n r' = (.error e, r'')) : untilEof p (n + 1) r = (.error e, r'') := by
  unfold untilEof
  rw [h]
  exact bind_error hvs

theorem untilEof_refuses {n offset : Nat} {r r' : JavaReader}
    (h : p r = (.error (.error (.invalidUtf8 offset)), r')) :
    untilEof p (n + 1) r = (.error (.error (.invalidUtf8 offset)), r') := by
  unfold untilEof
  rw [h]

/-- The end of the data ends the list; another error is the answer. -/
theorem untilEof_stops {n : Nat} {r r' : JavaReader} {e : ParseError}
    (h : p r = (.error (.error e), r')) :
    untilEof p (n + 1) r = (.ok [], r') ∨ untilEof p (n + 1) r = (.error (.error e), r') := by
  unfold untilEof
  rw [h]
  cases e with
  | unexpectedEof _ => exact .inl rfl
  | _ => exact .inr rfl

variable {enc : δ → Bytes} {clean : δ → Prop} {val : δ → β}

/-- **Values read until the data ends**: of a part, those that are whole. -/
theorem prefixed_untilEof {xs : List δ} (h : ∀ x ∈ xs, Written fuel p (enc x) (clean x) (val x)) (tail : Bytes) :
    Prefixed fuel 0 (untilEof p xs.length) (xs.flatMap enc ++ tail) (∀ x ∈ xs, clean x)
      fun n => (wholeIn enc xs n).map val where
  reads hfuel hc pos := by
    rw [List.length_append, Nat.zero_add, wholeIn_length]
    rw [List.length_append] at hfuel
    induction xs generalizing pos with
    | nil => exact ⟨_, rfl⟩
    | cons x xs ih =>
      rw [List.flatMap_cons, List.length_append] at hfuel
      rw [List.flatMap_cons, List.append_assoc]
      have hx := (h x List.mem_cons_self).reads (by omega) (hc x List.mem_cons_self)
      obtain ⟨r, hxs⟩ := ih (fun y hy => h y (List.mem_cons_of_mem x hy))
        (by omega) (fun y hy => hc y (List.mem_cons_of_mem x hy)) (pos + (enc x).length)
      exact ⟨r, untilEof_ok (hx _ pos) hxs⟩
  refuses hfuel hc pos := by
    rw [List.length_append] at hfuel
    induction xs generalizing pos with
    | nil => exact absurd (List.forall_mem_nil clean) hc
    | cons x xs ih =>
      rw [List.flatMap_cons, List.length_append] at hfuel
      rw [List.flatMap_cons, List.append_assoc]
      by_cases hx : clean x
      · have hreads := (h x List.mem_cons_self).reads (by omega) hx
        have hxs : ¬ ∀ y ∈ xs, clean y := fun hxs => hc (List.forall_mem_cons.mpr ⟨hx, hxs⟩)
        obtain ⟨offset, r, hrefuses⟩ :=
          ih (fun y hy => h y (List.mem_cons_of_mem x hy)) (by omega) hxs (pos + (enc x).length)
        exact ⟨offset, r, untilEof_error (hreads _ pos) hrefuses⟩
      · obtain ⟨offset, r, hrefuses⟩ := (h x List.mem_cons_self).refuses (by omega) hx _ pos
        exact ⟨offset, r, untilEof_refuses hrefuses⟩
  cut a b hsplit hfuel pos := by
    rw [Nat.zero_add]
    induction xs generalizing a pos with
    | nil => exact .inl ⟨_, rfl⟩
    | cons x xs ih =>
      have hx := h x List.mem_cons_self
      rw [List.flatMap_cons, List.append_assoc] at hsplit
      -- The cut lies behind the first value, or in it.
      rcases append_cut hsplit with ⟨a', rfl, hb⟩ | ⟨x', hx', hcut⟩
      · rw [List.length_append] at hfuel ⊢
        have hwhole : wholeIn enc (x :: xs) ((enc x).length + a'.length)
            = x :: wholeIn enc xs a'.length := by
          rw [wholeIn, if_pos (Nat.le_add_right _ _), Nat.add_sub_cancel_left]
        rw [hwhole]
        by_cases hc : clean x
        · have hv := hx.reads (by omega) hc a' pos
          rcases ih (fun y hy => h y (List.mem_cons_of_mem x hy)) a' hb (by omega)
            (pos + (enc x).length) with ⟨r, hvs⟩ | ⟨e, r, hvs⟩
          · exact .inl ⟨r, untilEof_ok hv hvs⟩
          · exact .inr ⟨e, r, untilEof_error hv hvs⟩
        · obtain ⟨offset, r, hrefuses⟩ := hx.refuses (by omega) hc a' pos
          exact .inr ⟨_, r, untilEof_refuses hrefuses⟩
      · -- The first value is cut short.
        have hwhole : wholeIn enc (x :: xs) a.length = [] := by
          have hlen : ¬ (enc x).length ≤ a.length := by
            rw [hcut, List.length_append]
            have hpos := List.length_pos_iff.mpr hx'
            omega
          rw [wholeIn, if_neg hlen]
        obtain ⟨e, r, hv⟩ := hx.cut a x' hcut hx' pos
        rw [hwhole]
        rcases untilEof_stops hv with hstop | hstop
        · exact .inl ⟨r, hstop⟩
        · exact .inr ⟨e, r, hstop⟩

end UntilEof

end Prefixed

/-! ### Operators -/

/-- An operator as Flink writes it; its subtasks are absent when it is fully finished. -/
structure FlinkOperator where
  name : Text
  identifierName : Text
  lower : Int64
  upper : Int64
  parallelism : Int32
  maxParallelism : Int32
  coordinatorState : Option ByteStreamStateHandle
  subtaskStates : Option (List Subtask)

def FlinkOperator.toModel (o : FlinkOperator) : Operator where
  id := writeLong o.lower ++ writeLong o.upper
  name := o.name
  identifierName := o.identifierName
  parallelism := o.parallelism
  maxParallelism := o.maxParallelism
  coordinatorState := o.coordinatorState.map (·.data)
  subtaskStates := (o.subtaskStates.getD []).map (·.toModel)
  fullyFinished := o.subtaskStates.isNone

def coordinatorHandle : Option ByteStreamStateHandle → StreamStateHandle
  | none => .null
  | some h => .byteStream h

/-- The number of subtasks, then the subtasks; -1 when the operator is fully finished. -/
def writeSubtasks : Option (List Subtask) → Bytes
  | none => writeInt (-1)
  | some subtasks => writeInt (Int32.ofNat subtasks.length) ++ subtasks.flatMap writeSubtask

/-- Version 5 writes the names of an operator. -/
def writeOperatorNames (version : UInt32) (o : FlinkOperator) : Bytes :=
  if version ≥ 5 then writeUtf o.name ++ writeUtf o.identifierName else []

def writeOperator (version : UInt32) (o : FlinkOperator) : Bytes :=
  writeOperatorNames version o ++ (writeLong o.lower ++ (writeLong o.upper
    ++ (writeInt o.parallelism ++ (writeInt o.maxParallelism
    ++ (writeStreamHandle (coordinatorHandle o.coordinatorState)
    ++ writeSubtasks o.subtaskStates)))))

/-- An operator that Flink can write in a version: its names are empty where they are not written. -/
structure FlinkOperator.Writable (version : UInt32) (o : FlinkOperator) : Prop where
  name : Utf o.name
  identifierName : Utf o.identifierName
  unnamed : version < 5 → o.name = [] ∧ o.identifierName = []
  coordinatorState : ∀ h ∈ o.coordinatorState, StreamStateHandle.Writable (.byteStream h)
  subtaskStates : ∀ subtasks ∈ o.subtaskStates, WritableList Subtask.Writable subtasks

def FlinkOperator.Clean (o : FlinkOperator) : Prop :=
  (NoNull o.name ∧ NoNull o.identifierName) ∧ (∀ h ∈ o.coordinatorState, NoNull h.handleName)
    ∧ ∀ subtasks ∈ o.subtaskStates, ∀ s ∈ subtasks, s.Clean

section Operators

variable {fuel : Nat}

theorem written_readOperatorNames {version : UInt32} {o : FlinkOperator} (ho : o.Writable version) :
    Written fuel (readOperatorNames version) (writeOperatorNames version o)
      (NoNull o.name ∧ NoNull o.identifierName) (o.name, o.identifierName) := by
  unfold readOperatorNames writeOperatorNames
  by_cases hversion : version ≥ 5
  · rw [if_pos hversion, if_pos hversion]
    exact (Written.utf ho.name).bind ((Written.utf ho.identifierName).bind_nil (.pure _))
  · rw [if_neg hversion, if_neg hversion]
    obtain ⟨hname, hidentifier⟩ := ho.unnamed (UInt32.not_le.mp hversion)
    rw [hname, hidentifier]
    exact (Written.pure _).mono (by simp [NoNull])

theorem written_readCoordinatorState {c : Option ByteStreamStateHandle}
    (hc : ∀ h ∈ c, StreamStateHandle.Writable (.byteStream h)) :
    Written fuel (readCoordinatorState capacity fuel) (writeStreamHandle (coordinatorHandle c))
      (∀ h ∈ c, NoNull h.handleName) (c.map (·.data)) := by
  have hwritable : (coordinatorHandle c).Writable := by
    cases c with
    | none => unfold coordinatorHandle StreamStateHandle.Writable; trivial
    | some h => exact hc h rfl
  have hclean : (∀ h ∈ c, NoNull h.handleName) ↔ (coordinatorHandle c).Clean := by
    cases c <;> simp [coordinatorHandle, StreamStateHandle.Clean]
  refine ((written_readStreamStateHandle fuel hwritable).bind_nil ?_).mono hclean
  cases c <;> exact .pure _

/-- How `readOperatorState` ends: the number of subtasks, then the subtasks. -/
def readSubtasks {β : Type} (fuel : Nat) (make : Bool → List SubtaskState → β) : MetaRead β := do
  let raw ← readInt
  let numSubtasks := if raw == -1 then 0 else raw.toInt.natAbs
  capacity.alloc .subtask numSubtasks
  let subtaskStates ← many (readSubtaskState capacity fuel) numSubtasks
  pure (make (raw == -1) subtaskStates)

theorem ofNat_ne_neg_one {n : Nat} (h : n < 2 ^ 31) : (Int32.ofNat n == -1) = false := by
  refine beq_eq_false_iff_ne.mpr fun heq => ?_
  have hint := congrArg Int32.toInt heq
  rw [toInt_ofNat h] at hint
  have hneg : (-1 : Int32).toInt = -1 := by decide
  omega

theorem written_readSubtasks {β : Type} (subtasks : Option (List Subtask))
    (h : ∀ xs ∈ subtasks, WritableList Subtask.Writable xs) (make : Bool → List SubtaskState → β) :
    Written fuel (readSubtasks fuel make) (writeSubtasks subtasks)
      (∀ xs ∈ subtasks, ∀ s ∈ xs, s.Clean)
      (make subtasks.isNone ((subtasks.getD []).map (·.toModel))) := by
  cases subtasks with
  | none =>
    have hnone : Written fuel (readSubtasks fuel make) (writeInt (-1)) True (make true []) :=
      (Written.int (-1)).bind_nil ((Written.alloc (by decide)).nil_bind (.pure _))
    exact hnone.mono (by simp)
  | some xs =>
    have hxs := h xs rfl
    have hcount : (if Int32.ofNat xs.length == -1 then 0 else (Int32.ofNat xs.length).toInt.natAbs)
        = xs.length := by
      rw [ofNat_ne_neg_one hxs.length, toInt_ofNat hxs.length]
      rfl
    have hsome : Written fuel (readSubtasks fuel make)
        (writeInt (Int32.ofNat xs.length) ++ xs.flatMap writeSubtask) (∀ s ∈ xs, s.Clean)
        (make false (xs.map (·.toModel))) := by
      have hlen : xs.length < 2 ^ 63 := hxs.length.trans (by decide)
      refine (Written.int (Int32.ofNat xs.length)).then ?_
      dsimp only
      rw [hcount, ofNat_ne_neg_one hxs.length]
      exact (Written.alloc hlen).nil_bind
        ((Written.many fun s hs => written_readSubtaskState fuel (hxs.items s hs)).bind_nil (.pure _))
    exact hsome.mono (by simp)

/-- **Operators.** -/
theorem written_readOperatorState {version : UInt32} {o : FlinkOperator} (ho : o.Writable version) :
    Written fuel (readOperatorState capacity version fuel) (writeOperator version o) o.Clean
      o.toModel :=
  (written_readOperatorNames ho).bind ((Written.long _).then ((Written.long _).then
    ((Written.int _).then ((Written.int _).then
      ((written_readCoordinatorState ho.coordinatorState).bind
        (written_readSubtasks o.subtaskStates ho.subtaskStates fun fullyFinished subtaskStates =>
          { o.toModel with fullyFinished := fullyFinished, subtaskStates := subtaskStates }))))))

end Operators

/-! ### Master states -/

theorem utf8ByteSize_ascii {t : Text} (h : ∀ c ∈ t, c.toNat < 0x80) :
    (String.ofList t).utf8ByteSize = t.length := by
  induction t with
  | nil => rfl
  | cons c t ih =>
    have hc : c.utf8Size = 1 := by
      have hlt : c.val.toNat < 0x80 := h c List.mem_cons_self
      unfold Char.utf8Size
      rw [if_pos (UInt32.le_iff_toNat_le.mpr (Nat.le_of_lt_succ hlt))]
    rw [String.ofList_cons, String.utf8ByteSize_append, String.utf8ByteSize_singleton, hc,
      ih fun d hd => h d (List.mem_cons_of_mem c hd), List.length_cons, Nat.add_comm]

/-- The bytes of a master state after its magic number and their count. -/
def masterStateBody (m : MasterState) : Bytes :=
  writeInt m.version ++ (writeUtf m.name ++ (writeInt (Int32.ofNat m.data.length) ++ m.data))

def writeMasterState (m : MasterState) : Bytes :=
  writeInt masterStateMagicNumber.toInt32 ++ (writeInt (Int32.ofNat (masterStateBody m).length)
    ++ masterStateBody m)

structure MasterState.Writable (m : MasterState) : Prop where
  name : Utf m.name
  length : (masterStateBody m).length < 2 ^ 31

theorem length_masterStateBody (m : MasterState) : (masterStateBody m).length
    = 4 + 2 + (m.name.flatMap modifiedUtf8).length + 4 + m.data.length := by
  have hint (v : Int32) : (writeInt v).length = 4 := length_beBytes 4 _
  have hutf : (writeUtf m.name).length = 2 + (m.name.flatMap modifiedUtf8).length := by
    rw [writeUtf, List.length_append, length_beBytes]
  rw [masterStateBody, List.length_append, List.length_append, List.length_append, hint, hint, hutf]
  omega

/-- **Master states**: nothing is left to skip. -/
theorem written_readMasterState {fuel : Nat} {m : MasterState} (hm : m.Writable) :
    Written fuel (readMasterState capacity) (writeMasterState m) (NoNull m.name) m := by
  have hbody := length_masterStateBody m
  have hdata : m.data.length < 2 ^ 31 := by
    have hlt := hm.length
    omega
  refine (Written.int _).then ?_
  have hmagic : ¬ masterStateMagicNumber.toInt32.toUInt32 ≠ masterStateMagicNumber := by decide
  simp only [if_neg hmagic]
  refine (Written.int _).then ((Written.int _).then ?_)
  refine ((Written.utf hm.name).bind_if fun hclean => ?_).mono (iff_of_eq (and_true _)).symm
  refine (Written.int _).then ((Written.capacity hdata).nil_bind
    ((Written.bytes (asUsize_ofNat hdata).symm).bind_nil ?_))
  have hconsumed : ¬ asUsize (Int32.ofNat (masterStateBody m).length)
      > 4 + 2 + (String.ofList m.name).utf8ByteSize + 4 + asUsize (Int32.ofNat m.data.length) := by
    rw [asUsize_ofNat hm.length, asUsize_ofNat hdata, utf8ByteSize_ascii hm.name.ascii, hbody,
      modifiedUtf8_noNull hclean, asciiBytes, List.length_map]
    omega
  simp only [if_neg hconsumed]
  exact .pure _

/-! ### The file -/

/-- A savepoint as Flink writes it; its properties follow the operators from version 4 on. -/
structure FlinkSavepoint where
  version : UInt32
  checkpointId : Int64
  masterStates : List MasterState
  operators : List FlinkOperator
  properties : Bytes

def FlinkSavepoint.toModel (m : FlinkSavepoint) : Savepoint where
  version := m.version
  checkpointId := m.checkpointId
  operators := m.operators.map (·.toModel)
  masterStates := m.masterStates

/-- What comes before the operators. -/
def writeHeader (m : FlinkSavepoint) : Bytes :=
  writeInt headerMagicNumber.toInt32 ++ (writeInt m.version.toInt32 ++ (writeLong m.checkpointId
    ++ (writeInt (Int32.ofNat m.masterStates.length) ++ (m.masterStates.flatMap writeMasterState
    ++ writeInt (Int32.ofNat m.operators.length)))))

def writeSavepoint (m : FlinkSavepoint) : Bytes :=
  writeHeader m ++ (m.operators.flatMap (writeOperator m.version) ++ m.properties)

/-- A savepoint that Flink can write. -/
structure FlinkSavepoint.Writable (m : FlinkSavepoint) : Prop where
  supported : minSupportedVersion ≤ m.version ∧ m.version ≤ maxSupportedVersion
  properties : m.version < 4 → m.properties = []
  masterStates : WritableList MasterState.Writable m.masterStates
  operators : WritableList (FlinkOperator.Writable m.version) m.operators

/-- No string of the savepoint has a null character. -/
def FlinkSavepoint.Clean (m : FlinkSavepoint) : Prop :=
  (∀ x ∈ m.masterStates, NoNull x.name) ∧ ∀ o ∈ m.operators, o.Clean

/-- The savepoint with the operators that lie wholly in the first `n` bytes. -/
def FlinkSavepoint.cutTo (m : FlinkSavepoint) (n : Nat) : FlinkSavepoint :=
  { m with operators := wholeIn (writeOperator m.version) m.operators (n - (writeHeader m).length) }

theorem cutTo_all (m : FlinkSavepoint) : m.cutTo (writeSavepoint m).length = m := by
  have hlen : (writeSavepoint m).length - (writeHeader m).length
      = (m.operators.flatMap (writeOperator m.version)).length + m.properties.length := by
    rw [writeSavepoint, List.length_append, List.length_append]
    omega
  rw [FlinkSavepoint.cutTo, hlen, wholeIn_length]

/-- **The file**, of which every part is cut to whole operators. -/
theorem prefixed_readSavepoint (fuel : Nat) {m : FlinkSavepoint} (hm : m.Writable) :
    Prefixed fuel 0 (readSavepoint capacity fuel) (writeSavepoint m) m.Clean
      fun n => (m.cutTo n).toModel := by
  have hoperators : Prefixed fuel 0
      (untilEof (readOperatorState capacity m.version fuel) m.operators.length)
      (m.operators.flatMap (writeOperator m.version) ++ m.properties) (∀ o ∈ m.operators, o.Clean)
      fun n => (wholeIn (writeOperator m.version) m.operators n).map (·.toModel) :=
    prefixed_untilEof (fun o ho => written_readOperatorState (hm.operators.items o ho)) m.properties
  have hcount : (Int32.ofNat m.operators.length).toInt.toNat = m.operators.length := by
    rw [toInt_ofNat hm.operators.length, Int.toNat_natCast]
  have hmasters : Written fuel (repeated (Int32.ofNat m.masterStates.length) (readMasterState capacity))
      (m.masterStates.flatMap writeMasterState) (∀ x ∈ m.masterStates, NoNull x.name)
      m.masterStates :=
    .items hm.masterStates.length fun x hx => written_readMasterState (hm.masterStates.items x hx)
  have hmagic : ¬ headerMagicNumber.toInt32.toUInt32 ≠ headerMagicNumber := by decide
  have hsupported : ¬ ¬ (minSupportedVersion ≤ m.version.toInt32.toUInt32
      ∧ m.version.toInt32.toUInt32 ≤ maxSupportedVersion) := not_not.mpr hm.supported
  unfold readSavepoint writeSavepoint writeHeader
  simp only [List.append_assoc]
  refine .then (.int _) ?_
  simp only [if_neg hmagic]
  refine .then (.int _) ?_
  simp only [if_neg hsupported]
  refine .then (.long _) (.then (.int _) (.nil_bind (.capacity hm.masterStates.length)
    (.bind hmasters (.then (.int _) (.nil_bind (.capacity hm.operators.length) ?_)))))
  rw [hcount]
  refine Prefixed.map hoperators fun n => ?_
  congr 1
  unfold FlinkSavepoint.cutTo FlinkSavepoint.toModel
  have hlen : (writeHeader m).length = 0 + (writeInt headerMagicNumber.toInt32).length
      + (writeInt m.version.toInt32).length + (writeLong m.checkpointId).length
      + (writeInt (Int32.ofNat m.masterStates.length)).length
      + (m.masterStates.flatMap writeMasterState).length
      + (writeInt (Int32.ofNat m.operators.length)).length := by
    unfold writeHeader
    simp only [List.length_append]
    omega
  rw [← hlen, Nat.add_sub_cancel_left]
  rfl

/-- The savepoint is read back, and a part of its file is refused or cut to whole operators. -/
def FlinkSavepoint.RoundTrips (m : FlinkSavepoint) : Prop :=
  parseMetadata (writeSavepoint m) = .ok m.toModel
    ∧ ∀ a b, writeSavepoint m = a ++ b → b ≠ [] →
      (∃ e, parseMetadata a = .error (.error e)) ∨ parseMetadata a = .ok (m.cutTo a.length).toModel

/-- **A savepoint round-trips exactly when none of its strings has a null character.** -/
theorem parseMetadata_written_iff {m : FlinkSavepoint} (hm : m.Writable) :
    m.RoundTrips ↔ m.Clean := by
  have hwhole := prefixed_readSavepoint ((writeSavepoint m).length + 1) hm
  refine ⟨fun ⟨hreads, _⟩ => ?_, fun hclean => ⟨?_, fun a b hsplit _ => ?_⟩⟩
  · by_contra hnull
    obtain ⟨offset, r, hrun⟩ := hwhole.refuses (Nat.le_succ _) hnull 0
    have hrefused : parseMetadata (writeSavepoint m) = .error (.error (.invalidUtf8 offset)) :=
      congrArg Prod.fst hrun
    rw [hrefused] at hreads
    cases hreads
  · obtain ⟨r, hrun⟩ := hwhole.reads (Nat.le_succ _) hclean 0
    rw [Nat.zero_add, cutTo_all] at hrun
    exact congrArg Prod.fst hrun
  · have hpart := prefixed_readSavepoint (a.length + 1) hm
    rcases hpart.cut a b hsplit (Nat.le_succ _) 0 with ⟨r, hrun⟩ | ⟨e, r, hrun⟩
    · rw [Nat.zero_add] at hrun
      exact .inr (congrArg Prod.fst hrun)
    · exact .inl ⟨e, congrArg Prod.fst hrun⟩

/-- A savepoint of version 5 with one operator of a given name, fully finished. -/
def namedSavepoint (name : Text) : FlinkSavepoint where
  version := 5
  checkpointId := 1
  masterStates := []
  operators := [{
    name := name
    identifierName := []
    lower := 1
    upper := 2
    parallelism := 1
    maxParallelism := 128
    coordinatorState := none
    subtaskStates := none }]
  properties := []

theorem writable_namedSavepoint {name : Text} (h : Utf name) : (namedSavepoint name).Writable where
  supported := show minSupportedVersion ≤ 5 ∧ 5 ≤ maxSupportedVersion by decide
  properties _ := rfl
  masterStates := ⟨show 0 < 2 ^ 31 by decide, fun x hx => absurd hx List.not_mem_nil⟩
  operators := by
    refine ⟨show 1 < 2 ^ 31 by decide, fun o ho => ?_⟩
    obtain rfl := List.mem_singleton.mp ho
    exact {
      name := h
      identifierName := ⟨fun c hc => absurd hc List.not_mem_nil, show 0 < 2 ^ 16 by decide⟩
      unnamed := fun hv => absurd hv (show ¬ (5 : UInt32) < 5 by decide)
      coordinatorState := fun c hc => by cases hc
      subtaskStates := fun xs hxs => by cases hxs }

theorem parseMetadata_written_iff_named :
    (namedSavepoint ['m', 'a', 'p']).RoundTrips ↔ (namedSavepoint ['m', 'a', 'p']).Clean :=
  parseMetadata_written_iff (writable_namedSavepoint ⟨by simp, by decide⟩)

/-- Flink writes a null character as two bytes, and the parser refuses them. -/
theorem parseMetadata_nullName :
    (namedSavepoint [Char.ofNat 0]).Writable ∧ ¬ (namedSavepoint [Char.ofNat 0]).RoundTrips := by
  refine ⟨writable_namedSavepoint ⟨by simp, by decide⟩, fun ⟨hreads, _⟩ => ?_⟩
  have hrefused : parseMetadata (writeSavepoint (namedSavepoint [Char.ofNat 0]))
      = .error (.error (.invalidUtf8 26)) := rfl
  rw [hrefused] at hreads
  cases hreads

end FlinkExplorer
