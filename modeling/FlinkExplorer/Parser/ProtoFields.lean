import FlinkExplorer.Parser.Dispatch
import Mathlib.Data.List.Nodup
import Mathlib.Data.Set.Finite.List
import Mathlib.Data.Set.Finite.Range

namespace FlinkExplorer

open Lib Lib.Read

/-!
# `parser/value.rs` — protobuf patterns

A pattern names two fields of a POJO, one with the name of a message class and one with the bytes of
a message.  While the fields are read in order, `decode_pojo_fields` keeps the last class name and
the last bytes that any pattern names; once they are read it decodes these bytes by that class and
by the first pattern's rule, and stores the message under the first pattern's bytes field.

* `readFields` — the fields as they are read, whatever the patterns are;
* `decodePojoFields_eq` — what the patterns make of them;
* `FollowsPatterns` — what they should make of them: every byte[] field the message of a pattern of
  its own, everything else as without patterns;
* `PatternsAgree` — the last class name, the last bytes and the first rule belong together, and no
  other byte[] field has a message of its own;
* `followsPatterns_iff` — the patterns do what they should, whatever the messages read, exactly when
  they agree.

The results are about any list of fields and any reader, so about a POJO at any depth.
-/

/-! ### The fields, as they are read -/

/-- What a field of a POJO holds: nothing, the bytes of a byte[], another value, or a marker. -/
inductive FieldRead
  | null
  | bytes (b : Bytes)
  | value (v : Json)
  | lost (marker : Json)

namespace FieldRead

/-- A field as it is shown without patterns. -/
def plain : FieldRead → Json
  | .null => .null
  | .bytes b => bytesToValue b
  | .value v => v
  | .lost marker => marker

end FieldRead

/-- The fields of a POJO with their names. -/
abbrev FieldReads := List (Text × FieldRead)

/-- Read a field: a null flag, then, when not null, the field serializer's bytes. -/
def readField (dec : FieldDecoder) (field : PojoField) : ReadBytes Json FieldRead := do
  let isNull ← readBoolean.mapError fun _ => undecodable field.typeName
  if isNull then pure .null
  else if field.typeName = "byte[]".toList then do
    let b ← readLenBytes.mapError fun _ => undecodable field.typeName
    pure (.bytes b)
  else do
    let v ← dec field.typeName field.nestedPojo
    pure (.value v)

/-- The fields after `done`; once one cannot be decoded, it and every later one is a marker. -/
def readFields (dec : FieldDecoder) (done : FieldReads) :
    List PojoField → ReadBytes FieldReads FieldReads
  | [] => pure done
  | f :: fs => do
    let x ← (readField dec f).mapError fun failed =>
      done ++ (f.name, .lost failed) :: fs.map fun g => (g.name, .lost (notDecodedAfter f.name))
    readFields dec (done ++ [(f.name, x)]) fs

/-- What came of a reader that keeps what it has when it fails. -/
def valueOrPartial {α : Type} : Except α α → α
  | .ok a => a
  | .error a => a

/-- The fields of a POJO, read from `r`. -/
def fieldReads (dec : FieldDecoder) (fields : List PojoField) (r : JavaReader) : FieldReads :=
  valueOrPartial (readFields dec [] fields r).1

/-- The object a POJO's fields are shown as, whole or partial. -/
def shownObject (proto : Option ProtoContext) (dec : FieldDecoder) (fields : List PojoField)
    (r : JavaReader) : Json :=
  valueOrPartial (decodePojoFields proto dec ⟨[], none, none⟩ fields r).1

/-! ### What the patterns make of them -/

/-- How the bytes of a captured field are shown. -/
def byteCount (b : Bytes) : Json := .string ("[".toList ++ natText b.length ++ " bytes]".toList)

namespace ProtoContext

variable (ctx : ProtoContext)

def namesBytes (name : Text) : Bool := ctx.patterns.any (·.bytesField = name)

def namesClass (name : Text) : Bool := ctx.patterns.any (·.classField = name)

/-- A field as it is shown before any message is decoded. -/
def mark (x : Text × FieldRead) : Json :=
  match x.2 with
  | .bytes b => if ctx.namesBytes x.1 then byteCount b else bytesToValue b
  | other => other.plain

/-- The text of a field that is decoded as a string. -/
def decodedText (x : Text × FieldRead) : Option Text :=
  match x.2 with
  | .value (.string s) => some s
  | .bytes b =>
    if ctx.namesBytes x.1 then none
    else
      match bytesToValue b with
      | .string s => some s
      | _ => none
  | _ => none

/-- The class name of a field that some pattern takes it from. -/
def className (x : Text × FieldRead) : Option Text :=
  if ctx.namesClass x.1 then ctx.decodedText x else none

/-- The bytes of a field that some pattern takes them from. -/
def messageBytes (x : Text × FieldRead) : Option Bytes :=
  match x.2 with
  | .bytes b => if ctx.namesBytes x.1 then some b else none
  | _ => none

/-- One more field. -/
def capture (st : PojoState) (x : Text × FieldRead) : PojoState where
  obj := objInsert x.1 (ctx.mark x) st.obj
  protoClass := (ctx.className x).orElse fun _ => st.protoClass
  protoBytes := (ctx.messageBytes x).orElse fun _ => st.protoBytes

/-- The fields gathered. -/
def gather (reads : FieldReads) : PojoState := reads.foldl ctx.capture ⟨[], none, none⟩

end ProtoContext

/-! ### What they should make of them -/

namespace ProtoContext

variable (ctx : ProtoContext) (reads : FieldReads)

/-- A message of a byte[] field: a pattern names the field, the pattern's own class field is decoded
    as a string, and that class decodes the bytes by the pattern's own rule. -/
def Message (name : Text) (x : FieldRead) (msg : Text) : Prop :=
  ∃ b, x = .bytes b ∧ ∃ p ∈ ctx.patterns, p.bytesField = name
    ∧ ∃ y cn, (p.classField, y) ∈ reads ∧ ctx.decodedText (p.classField, y) = some cn
      ∧ ctx.decode cn b p.resolve = some msg

/-- The same decoding without patterns. -/
def withoutPatterns : ProtoContext := { ctx with patterns := [] }

/-- **What patterns should do** to an object: a field with a message shows one, every other field
    shows what it does in the object without patterns, and there are no other members. -/
def FollowsPatterns (shown plain : Json) : Prop :=
  ∃ obj obj₀, shown = .object obj ∧ plain = .object obj₀
    ∧ (∀ n x, (n, x) ∈ reads →
      (∃ msg, ctx.Message reads n x msg ∧ objGet n obj = some (.string msg))
        ∨ (∀ msg, ¬ ctx.Message reads n x msg) ∧ objGet n obj = objGet n obj₀)
    ∧ ∀ n, n ∉ reads.map Prod.fst → objGet n obj = objGet n obj₀

/-- The message of the last bytes that any pattern names, by the last class name that any pattern
    names and the first pattern's rule, with the first pattern's bytes field. -/
def stored : Option (Text × Text) := do
  let cn ← (reads.filterMap ctx.className).getLast?
  let b ← (reads.filterMap ctx.messageBytes).getLast?
  let p ← ctx.patterns.head?
  let msg ← ctx.decode cn b p.resolve
  pure (p.bytesField, msg)

end ProtoContext

/-! ### When they do -/

namespace ProtoContext

variable (ctx : ProtoContext) (reads : FieldReads)

/-- The types a class name is tried as: the one it is bound to, then the one it is resolved to. -/
def candidates (className resolve : Text) : List Text :=
  (ctx.bindings.lookup className).toList ++ (resolveType className resolve).toList

/-- The type that decodes the bytes of a class. -/
def messageType (className : Text) (bytes : Bytes) (resolve : Text) : Option Text :=
  (ctx.candidates className resolve).find? fun type => (ctx.decodeMessage type bytes).isSome

/-- The bytes of field `n` decode as a `type` for one pattern: it names the field, and its own class
    field and rule give that type. -/
def OwnType (n : Text) (bytes : Bytes) (type : Text) : Prop :=
  ∃ p ∈ ctx.patterns, p.bytesField = n
    ∧ ∃ y cn, (p.classField, y) ∈ reads ∧ ctx.decodedText (p.classField, y) = some cn
      ∧ ctx.messageType cn bytes p.resolve = some type

/-- The last class name and the last bytes that any pattern names decode as a `type` by the rule of
    the first pattern, which is `first`. -/
structure Joined (first : ProtoPattern) (bytes : Bytes) (type : Text) : Prop where
  head : ctx.patterns.head? = some first
  last : (reads.filterMap ctx.messageBytes).getLast? = some bytes
  resolved : ∃ cn, (reads.filterMap ctx.className).getLast? = some cn
    ∧ ctx.messageType cn bytes first.resolve = some type

/-- **When joining the patterns' fields does no harm.**  Where the last class name, the last bytes
    and the first rule join to a message, they belong together: the bytes are those of the field the
    first pattern names, and one pattern gives them this type.  No other byte[] field that a pattern
    names has a message of its own, and its bytes read as their number anyway. -/
structure PatternsAgree : Prop where
  joined : ∀ first bytes type, ctx.Joined reads first bytes type →
    (first.bytesField, .bytes bytes) ∈ reads ∧ ctx.OwnType reads first.bytesField bytes type
  others : ∀ n b, (n, .bytes b) ∈ reads → ctx.namesBytes n = true →
    (∀ first bytes type, ctx.Joined reads first bytes type → first.bytesField ≠ n) →
    (∀ type, ¬ ctx.OwnType reads n b type) ∧ bytesToValue b = byteCount b

/-- The same patterns over another pool. -/
def withPool (pool : Text → Bytes → Option Text) : ProtoContext := { ctx with decodeMessage := pool }

/-- A pool that decodes the same bytes as the same types, whatever the messages read. -/
def DecodesSame (pool : Text → Bytes → Option Text) : Prop :=
  ∀ type bytes, (pool type bytes).isSome = (ctx.decodeMessage type bytes).isSome

end ProtoContext

/-! ### Reading is the same with and without patterns -/

/-- A byte[] field is decoded as its bytes. -/
def ReadsBytes (dec : FieldDecoder) (f : PojoField) : Prop :=
  f.typeName = "byte[]".toList → dec f.typeName f.nestedPojo
    = (readLenBytes.mapError fun _ => undecodable f.typeName) >>= fun b => pure (bytesToValue b)

theorem readsBytes_decodeField (F : FloatText) (proto : Option ProtoContext) {f : PojoField}
    (h : f.typeName = "byte[]".toList → f.nestedPojo = none) :
    ReadsBytes (decodeField F proto) f := by
  intro htype
  rw [h htype, htype]
  exact (decodeField_scalar F proto .byteArray).trans (mapError_bind _ _ _)

section Gather

variable {ctx : ProtoContext} {dec : FieldDecoder}

/-- What a decoded value leaves behind for the patterns. -/
theorem captureProtoClass_eq (name : Text) (x : FieldRead) (st : PojoState) (v : Json)
    (hv : ctx.decodedText (name, x) = match v with | .string s => some s | _ => none) :
    captureProtoClass (some ctx) name v st
      = { st with protoClass := (ctx.className (name, x)).orElse fun _ => st.protoClass } := by
  unfold ProtoContext.className
  rw [hv]
  unfold captureProtoClass
  cases v with
  | string s =>
    show (if ctx.namesClass name = true then _ else st) = _
    by_cases hclass : ctx.namesClass name = true
    · rw [if_pos hclass, if_pos hclass]
      rfl
    · rw [if_neg hclass, if_neg hclass]
      rfl
  | null | bool _ | number _ | array _ | object _ =>
    show st = _
    by_cases hclass : ctx.namesClass name = true
    · rw [if_pos hclass]
      rfl
    · rw [if_neg hclass]
      rfl

theorem className_of_decodedText {x : Text × FieldRead} (h : ctx.decodedText x = none) :
    ctx.className x = none := by
  unfold ProtoContext.className
  rw [h]
  exact ite_self none

/-- **One field**: read, then marked and captured. -/
theorem decodePojoField_eq {f : PojoField} (hf : ReadsBytes dec f) (st : PojoState) :
    decodePojoField (some ctx) dec f st = readField dec f >>= fun x => pure (ctx.mark (f.name, x),
      { st with
        protoClass := (ctx.className (f.name, x)).orElse fun _ => st.protoClass
        protoBytes := (ctx.messageBytes (f.name, x)).orElse fun _ => st.protoBytes }) := by
  unfold decodePojoField readField
  rw [bind_assoc]
  refine congrArg (fun k => _ >>= k) (funext fun isNull => ?_)
  by_cases hnull : isNull = true
  · rw [if_pos hnull, if_pos hnull, pure_bind, className_of_decodedText rfl]
    rfl
  · rw [if_neg hnull, if_neg hnull]
    by_cases htype : f.typeName = "byte[]".toList
    · rw [if_pos htype, bind_assoc]
      by_cases hnamed : ctx.namesBytes f.name = true
      · -- Captured: its length is shown, its bytes are kept.
        rw [if_pos ⟨htype, hnamed⟩]
        unfold captureProtoBytes
        refine congrArg (fun k => _ >>= k) (funext fun b => ?_)
        have htext : ctx.decodedText (f.name, .bytes b) = none := if_pos hnamed
        have hmark : ctx.mark (f.name, .bytes b) = byteCount b := if_pos hnamed
        have hbytes : ctx.messageBytes (f.name, .bytes b) = some b := if_pos hnamed
        rw [pure_bind, className_of_decodedText htext, hmark, hbytes]
        rfl
      · -- A byte[] that no pattern names is a value like any other.
        rw [if_neg fun h => hnamed h.2, hf htype, bind_assoc]
        refine congrArg (fun k => _ >>= k) (funext fun b => ?_)
        have htext : ctx.decodedText (f.name, .bytes b)
            = match bytesToValue b with | .string s => some s | _ => none := if_neg hnamed
        have hmark : ctx.mark (f.name, .bytes b) = bytesToValue b := if_neg hnamed
        have hbytes : ctx.messageBytes (f.name, .bytes b) = none := if_neg hnamed
        rw [pure_bind, pure_bind, captureProtoClass_eq f.name (.bytes b) st _ htext, hmark, hbytes]
        rfl
    · rw [if_neg htype, if_neg fun h => htype h.1, bind_assoc]
      refine congrArg (fun k => _ >>= k) (funext fun v => ?_)
      have htext : ctx.decodedText (f.name, .value v)
          = match v with | .string s => some s | _ => none := by cases v <;> rfl
      rw [pure_bind, captureProtoClass_eq f.name (.value v) st v htext]
      rfl

theorem gather_append (reads : FieldReads) (x : Text × FieldRead) :
    ctx.gather (reads ++ [x]) = ctx.capture (ctx.gather reads) x := by
  rw [ProtoContext.gather, List.foldl_append]
  rfl

/-- The markers of the fields after a lost one leave nothing behind. -/
theorem gather_lost (reads : FieldReads) (name : Text) (failed : Json) (later : List PojoField) :
    ctx.gather (reads ++ (name, .lost failed) :: later.map fun g =>
        (g.name, .lost (notDecodedAfter name)))
      = markLost name failed later (ctx.gather reads) := by
  have hlost (st : PojoState) (fs : List PojoField) :
      (fs.map fun g => (g.name, FieldRead.lost (notDecodedAfter name))).foldl ctx.capture st
        = { st with obj := fs.foldl (fun o f => objInsert f.name (notDecodedAfter name) o) st.obj } := by
    induction fs generalizing st with
    | nil => rfl
    | cons f fs ih =>
      rw [List.map_cons, List.foldl_cons, ih]
      unfold ProtoContext.capture
      rw [className_of_decodedText rfl]
      rfl
  rw [ProtoContext.gather, List.foldl_append, List.foldl_cons, hlost]
  unfold ProtoContext.capture
  rw [className_of_decodedText rfl]
  rfl

/-- **What the patterns make of the fields**: they are read as they would be without patterns, then
    gathered, and the message is put in. -/
theorem decodePojoFields_eq {fs : List PojoField} (hfs : ∀ f ∈ fs, ReadsBytes dec f)
    (done : FieldReads) :
    decodePojoFields (some ctx) dec (ctx.gather done) fs
      = (readFields dec done fs).mapError (fun reads => applyProto (some ctx) (ctx.gather reads))
        >>= fun reads => pure (applyProto (some ctx) (ctx.gather reads)) := by
  induction fs generalizing done with
  | nil => rfl
  | cons f fs ih =>
    unfold decodePojoFields readFields
    rw [decodePojoField_eq (hfs f List.mem_cons_self), mapError_bind, mapError_bind, bind_assoc,
      bind_assoc, mapError_mapError]
    have herror : (fun failed => applyProto (some ctx) (markLost f.name failed fs (ctx.gather done)))
        = fun failed => applyProto (some ctx) (ctx.gather (done ++ (f.name, .lost failed)
          :: fs.map fun g => (g.name, .lost (notDecodedAfter f.name)))) := by
      funext failed
      rw [gather_lost]
    rw [herror]
    refine congrArg (fun k => _ >>= k) (funext fun x => ?_)
    rw [mapError_pure, pure_bind, ← ih (fun g hg => hfs g (List.mem_cons_of_mem f hg)),
      gather_append]
    rfl

/-! ### The object -/

theorem gather_protoClass (reads : FieldReads) :
    (ctx.gather reads).protoClass = (reads.filterMap ctx.className).getLast? := by
  induction reads using List.reverseRecOn with
  | nil => rfl
  | append_singleton reads x ih =>
    rw [gather_append, List.filterMap_append]
    show (ctx.className x).orElse (fun _ => (ctx.gather reads).protoClass) = _
    rw [ih]
    cases hx : ctx.className x with
    | none => simp [hx]
    | some cn => simp [hx]

theorem gather_protoBytes (reads : FieldReads) :
    (ctx.gather reads).protoBytes = (reads.filterMap ctx.messageBytes).getLast? := by
  induction reads using List.reverseRecOn with
  | nil => rfl
  | append_singleton reads x ih =>
    rw [gather_append, List.filterMap_append]
    show (ctx.messageBytes x).orElse (fun _ => (ctx.gather reads).protoBytes) = _
    rw [ih]
    cases hx : ctx.messageBytes x with
    | none => simp [hx]
    | some b => simp [hx]

theorem objGet_gather_of_not_mem {reads : FieldReads} {n : Text} (h : n ∉ reads.map Prod.fst) :
    objGet n (ctx.gather reads).obj = none := by
  induction reads using List.reverseRecOn with
  | nil => rfl
  | append_singleton reads x ih =>
    rw [List.map_append, List.mem_append, not_or, List.map_singleton, List.mem_singleton] at h
    rw [gather_append]
    show objGet n (objInsert x.1 (ctx.mark x) (ctx.gather reads).obj) = none
    rw [objGet_objInsert, if_neg fun heq => h.2 heq.symm]
    exact ih h.1

/-- A field is found under its name, as it is marked. -/
theorem objGet_gather {reads : FieldReads} (hnodup : (reads.map Prod.fst).Nodup) {n : Text}
    {x : FieldRead} (hmem : (n, x) ∈ reads) :
    objGet n (ctx.gather reads).obj = some (ctx.mark (n, x)) := by
  induction reads using List.reverseRecOn with
  | nil => exact absurd hmem List.not_mem_nil
  | append_singleton reads y ih =>
    rw [List.map_append, List.nodup_append] at hnodup
    obtain ⟨hfirst, -, hlast⟩ := hnodup
    rw [gather_append]
    show objGet n (objInsert y.1 (ctx.mark y) (ctx.gather reads).obj) = _
    rw [objGet_objInsert]
    rcases List.mem_append.mp hmem with hold | hnew
    · have hne : y.1 ≠ n := fun heq =>
        hlast n (List.mem_map.mpr ⟨_, hold, rfl⟩) y.1 (List.mem_singleton.mpr rfl) heq.symm
      rw [if_neg hne]
      exact ih hfirst hold
    · obtain rfl := List.mem_singleton.mp hnew
      rw [if_pos rfl]

/-- The message is put in under the first pattern's bytes field. -/
theorem applyProto_gather (reads : FieldReads) :
    applyProto (some ctx) (ctx.gather reads) = .object (match ctx.stored reads with
      | some (n, msg) => objInsert n (.string msg) (ctx.gather reads).obj
      | none => (ctx.gather reads).obj) := by
  unfold applyProto ProtoContext.stored
  rw [gather_protoClass, gather_protoBytes]
  cases hclass : (reads.filterMap ctx.className).getLast? with
  | none => rfl
  | some cn =>
    cases (reads.filterMap ctx.messageBytes).getLast? with
    | none => rfl
    | some b =>
      -- A pattern has named the class, so there is a first one.
      obtain ⟨x, -, hx⟩ := List.mem_filterMap.mp (List.mem_of_getLast? hclass)
      have hnames : ctx.namesClass x.1 = true := by
        by_contra hnot
        rw [ProtoContext.className, if_neg hnot] at hx
        cases hx
      obtain ⟨p, hp, -⟩ := List.any_eq_true.mp hnames
      cases hhead : ctx.patterns with
      | nil => exact absurd hp (hhead ▸ List.not_mem_nil)
      | cons q qs =>
        simp only [hhead, List.head?_cons, Option.map_some, Option.getD_some]
        cases hdecode : ctx.decode cn b q.resolve with
        | none => simp [hdecode]
        | some msg => simp [hdecode]

/-- The members of the object: the message, and the fields gathered. -/
theorem objGet_shown {reads : FieldReads} {obj : List (Text × Json)}
    (hobj : applyProto (some ctx) (ctx.gather reads) = .object obj) (n : Text) :
    (∃ msg, ctx.stored reads = some (n, msg) ∧ objGet n obj = some (.string msg))
      ∨ (∀ msg, ctx.stored reads ≠ some (n, msg))
        ∧ objGet n obj = objGet n (ctx.gather reads).obj := by
  rw [applyProto_gather] at hobj
  obtain rfl := Json.object.inj hobj
  cases ctx.stored reads with
  | none =>
    refine Or.inr ⟨fun msg h => ?_, rfl⟩
    cases h
  | some found =>
    obtain ⟨m, msg⟩ := found
    have hget := objGet_objInsert n m (.string msg) (ctx.gather reads).obj
    by_cases hm : m = n
    · rw [if_pos hm] at hget
      exact Or.inl ⟨msg, by rw [hm], hget⟩
    · rw [if_neg hm] at hget
      refine Or.inr ⟨fun msg' h => ?_, hget⟩
      exact hm (Prod.mk.inj (Option.some.inj h)).1

end Gather

/-! ### Without patterns -/

section Plain

variable {ctx : ProtoContext} {reads : FieldReads}

theorem stored_withoutPatterns : ctx.withoutPatterns.stored reads = none := by
  have hnone : reads.filterMap ctx.withoutPatterns.className = [] := by
    rw [List.filterMap_eq_nil_iff]
    intro x _
    rfl
  rw [ProtoContext.stored, hnone]
  rfl

theorem mark_withoutPatterns (x : Text × FieldRead) : ctx.withoutPatterns.mark x = x.2.plain := by
  obtain ⟨n, x⟩ := x
  cases x <;> rfl

end Plain

section Names

variable {dec : FieldDecoder}

/-- Every field is there, read or marked, under its name. -/
theorem names_readFields (fs : List PojoField) (done : FieldReads) (r : JavaReader) :
    (valueOrPartial (readFields dec done fs r).1).map Prod.fst
      = done.map Prod.fst ++ fs.map PojoField.name := by
  induction fs generalizing done r with
  | nil => exact (List.append_nil _).symm
  | cons f fs ih =>
    unfold readFields
    rcases hread : readField dec f r with ⟨failed | x, s⟩
    · rw [bind_error (mapError_error hread)]
      show List.map Prod.fst (done ++ (f.name, _) :: _) = _
      rw [List.map_append, List.map_cons, List.map_map]
      rfl
    · rw [bind_ok (mapError_ok.mpr hread), ih, List.map_append, List.append_assoc]
      rfl

/-- **The object of a POJO**: its fields, read, gathered, and the message put in. -/
theorem shownObject_eq (ctx : ProtoContext) {fields : List PojoField}
    (hfields : ∀ f ∈ fields, ReadsBytes dec f) (r : JavaReader) :
    shownObject (some ctx) dec fields r
      = applyProto (some ctx) (ctx.gather (fieldReads dec fields r)) := by
  have hall : decodePojoFields (some ctx) dec ⟨[], none, none⟩ fields = _ :=
    decodePojoFields_eq hfields []
  unfold shownObject fieldReads
  rw [hall]
  rcases hread : readFields dec [] fields r with ⟨reads | reads, s⟩
  · rw [bind_error (mapError_error hread)]
    rfl
  · rw [bind_ok (mapError_ok.mpr hread)]
    rfl

end Names

/-! ### Which type decodes a message -/

namespace ProtoContext

variable {ctx : ProtoContext} {reads : FieldReads}

theorem decode_eq_messageType (cn : Text) (b : Bytes) (resolve : Text) :
    ctx.decode cn b resolve
      = (ctx.messageType cn b resolve).bind fun type => ctx.decodeMessage type b := by
  unfold decode messageType candidates
  cases ctx.bindings.lookup cn with
  | none =>
    cases resolveType cn resolve with
    | none => rfl
    | some type => cases h : ctx.decodeMessage type b <;> simp [h]
  | some bound =>
    cases hbound : ctx.decodeMessage bound b with
    | some msg => simp [hbound]
    | none =>
      cases resolveType cn resolve with
      | none => simp [hbound]
      | some type => cases h : ctx.decodeMessage type b <;> simp [h, hbound]

theorem exists_decoded {cn : Text} {b : Bytes} {resolve type : Text}
    (h : ctx.messageType cn b resolve = some type) : ∃ msg, ctx.decodeMessage type b = some msg := by
  unfold messageType at h
  have hsome := List.find?_some h
  exact Option.isSome_iff_exists.mp hsome

theorem decode_eq_some {cn : Text} {b : Bytes} {resolve msg : Text} :
    ctx.decode cn b resolve = some msg
      ↔ ∃ type, ctx.messageType cn b resolve = some type ∧ ctx.decodeMessage type b = some msg := by
  rw [decode_eq_messageType, Option.bind_eq_some_iff]

/-- The messages of a byte[] field are those of its own types. -/
theorem message_iff {n : Text} {x : FieldRead} {msg : Text} : ctx.Message reads n x msg
    ↔ ∃ b, x = .bytes b ∧ ∃ type, ctx.OwnType reads n b type ∧ ctx.decodeMessage type b = some msg := by
  constructor
  · rintro ⟨b, hx, p, hp, hn, y, cn, hy, hcn, hdecode⟩
    obtain ⟨type, htype, hmsg⟩ := decode_eq_some.mp hdecode
    exact ⟨b, hx, type, ⟨p, hp, hn, y, cn, hy, hcn, htype⟩, hmsg⟩
  · rintro ⟨b, hx, type, ⟨p, hp, hn, y, cn, hy, hcn, htype⟩, hmsg⟩
    exact ⟨b, hx, p, hp, hn, y, cn, hy, hcn, decode_eq_some.mpr ⟨type, htype, hmsg⟩⟩

theorem OwnType.exists_message {n : Text} {b : Bytes} {type : Text}
    (h : ctx.OwnType reads n b type) : ∃ msg, ctx.Message reads n (.bytes b) msg := by
  obtain ⟨p, hp, hn, y, cn, hy, hcn, htype⟩ := h
  obtain ⟨msg, hmsg⟩ := exists_decoded htype
  exact ⟨msg, message_iff.mpr ⟨b, rfl, type, ⟨p, hp, hn, y, cn, hy, hcn, htype⟩, hmsg⟩⟩

/-- Only a byte[] that a pattern names has a message. -/
theorem Message.named {n : Text} {x : FieldRead} {msg : Text} (h : ctx.Message reads n x msg) :
    ∃ b, x = .bytes b ∧ ctx.namesBytes n = true := by
  obtain ⟨b, rfl, p, hp, rfl, -⟩ := h
  exact ⟨b, rfl, List.any_eq_true.mpr ⟨p, hp, decide_eq_true rfl⟩⟩

/-- A message is stored where the last class name, the last bytes and the first rule join to one. -/
theorem stored_iff {n msg : Text} : ctx.stored reads = some (n, msg)
    ↔ ∃ first b type, ctx.Joined reads first b type ∧ first.bytesField = n
      ∧ ctx.decodeMessage type b = some msg := by
  constructor
  · intro h
    obtain ⟨cn, hcn, h⟩ := Option.bind_eq_some_iff.mp h
    obtain ⟨b, hb, h⟩ := Option.bind_eq_some_iff.mp h
    obtain ⟨first, hfirst, h⟩ := Option.bind_eq_some_iff.mp h
    obtain ⟨msg', hdecode, h⟩ := Option.bind_eq_some_iff.mp h
    obtain ⟨hn, rfl⟩ := Prod.mk.inj (Option.some.inj h)
    obtain ⟨type, htype, hmsg⟩ := decode_eq_some.mp hdecode
    exact ⟨first, b, type, ⟨hfirst, hb, cn, hcn, htype⟩, hn, hmsg⟩
  · rintro ⟨first, b, type, ⟨hfirst, hb, cn, hcn, htype⟩, rfl, hmsg⟩
    simp [stored, hcn, hb, hfirst, decode_eq_some.mpr ⟨type, htype, hmsg⟩]

theorem Joined.exists_stored {first : ProtoPattern} {b : Bytes} {type : Text}
    (h : ctx.Joined reads first b type) :
    ∃ msg, ctx.decodeMessage type b = some msg ∧ ctx.stored reads = some (first.bytesField, msg) := by
  obtain ⟨cn, -, htype⟩ := h.resolved
  obtain ⟨msg, hmsg⟩ := exists_decoded htype
  exact ⟨msg, hmsg, stored_iff.mpr ⟨first, b, type, h, rfl, hmsg⟩⟩

theorem not_stored {n : Text} (h : ∀ first b type, ctx.Joined reads first b type →
    first.bytesField ≠ n) (msg : Text) : ctx.stored reads ≠ some (n, msg) := by
  intro hstored
  obtain ⟨first, b, type, hjoined, hn, -⟩ := stored_iff.mp hstored
  exact h first b type hjoined hn

/-! #### Another pool -/

variable {pool : Text → Bytes → Option Text}

theorem messageType_withPool (h : ctx.DecodesSame pool) (cn : Text) (b : Bytes) (resolve : Text) :
    (ctx.withPool pool).messageType cn b resolve = ctx.messageType cn b resolve := by
  unfold messageType
  congr 1
  funext type
  exact h type b

theorem ownType_withPool (h : ctx.DecodesSame pool) {n : Text} {b : Bytes} {type : Text} :
    (ctx.withPool pool).OwnType reads n b type ↔ ctx.OwnType reads n b type := by
  unfold OwnType
  simp only [messageType_withPool h]
  rfl

theorem joined_withPool (h : ctx.DecodesSame pool) {first : ProtoPattern} {b : Bytes} {type : Text} :
    (ctx.withPool pool).Joined reads first b type ↔ ctx.Joined reads first b type := by
  constructor
  · rintro ⟨hhead, hlast, cn, hcn, htype⟩
    exact ⟨hhead, hlast, cn, hcn, (messageType_withPool h ..).symm.trans htype⟩
  · rintro ⟨hhead, hlast, cn, hcn, htype⟩
    exact ⟨hhead, hlast, cn, hcn, (messageType_withPool h ..).trans htype⟩

theorem PatternsAgree.withPool (h : ctx.DecodesSame pool) (hagree : ctx.PatternsAgree reads) :
    (ctx.withPool pool).PatternsAgree reads where
  joined first b type hjoined := by
    obtain ⟨hb, hown⟩ := hagree.joined first b type ((joined_withPool h).mp hjoined)
    exact ⟨hb, (ownType_withPool h).mpr hown⟩
  others n b hb hnamed hnot := by
    obtain ⟨hown, hread⟩ := hagree.others n b hb hnamed fun first b' type hjoined =>
      hnot first b' type ((joined_withPool h).mpr hjoined)
    exact ⟨fun type htype => hown type ((ownType_withPool h).mp htype), hread⟩

end ProtoContext

/-! ### The exact condition -/

section Exact

variable {ctx : ProtoContext} {reads : FieldReads}

theorem eq_of_nodup (hnodup : (reads.map Prod.fst).Nodup) {n : Text} {x y : FieldRead}
    (hx : (n, x) ∈ reads) (hy : (n, y) ∈ reads) : x = y :=
  (Prod.mk.inj (List.inj_on_of_nodup_map hnodup hx hy rfl)).2

/-- A byte[] field that a pattern names shows the number of its bytes. -/
theorem mark_named {n : Text} (b : Bytes) (h : ctx.namesBytes n = true) :
    ctx.mark (n, .bytes b) = byteCount b := if_pos h

/-- Any other field shows what it does without patterns. -/
theorem mark_plain {n : Text} {x : FieldRead}
    (h : ¬ ∃ b, x = .bytes b ∧ ctx.namesBytes n = true) : ctx.mark (n, x) = x.plain := by
  cases x with
  | bytes b => exact if_neg fun hnamed => h ⟨b, rfl, hnamed⟩
  | null | value v | lost m => rfl

/-- The object without patterns. -/
theorem applyProto_withoutPatterns (reads : FieldReads) :
    applyProto (some ctx.withoutPatterns) (ctx.withoutPatterns.gather reads)
      = .object (ctx.withoutPatterns.gather reads).obj := by
  rw [applyProto_gather, stored_withoutPatterns]

theorem objGet_withoutPatterns (hnodup : (reads.map Prod.fst).Nodup) {n : Text} {x : FieldRead}
    (h : (n, x) ∈ reads) : objGet n (ctx.withoutPatterns.gather reads).obj = some x.plain := by
  rw [objGet_gather hnodup h, mark_withoutPatterns]

/-- Where the patterns agree, they do what they should. -/
theorem follows_of_agree (hnodup : (reads.map Prod.fst).Nodup) (hagree : ctx.PatternsAgree reads) :
    ctx.FollowsPatterns reads (applyProto (some ctx) (ctx.gather reads))
      (applyProto (some ctx.withoutPatterns) (ctx.withoutPatterns.gather reads)) := by
  obtain ⟨obj, hobj⟩ : ∃ obj, applyProto (some ctx) (ctx.gather reads) = .object obj :=
    ⟨_, applyProto_gather reads⟩
  have hshown := objGet_shown hobj
  refine ⟨obj, _, hobj, applyProto_withoutPatterns reads, fun n x hx => ?_, fun n hn => ?_⟩
  · have hmarked : objGet n (ctx.gather reads).obj = some (ctx.mark (n, x)) :=
      objGet_gather hnodup hx
    rcases hshown n with ⟨msg, hstored, hget⟩ | ⟨hnot, hget⟩
    · -- The message is stored here: the bytes are this field's, and the type is its own.
      obtain ⟨first, b, type, hjoined, rfl, hmsg⟩ := ProtoContext.stored_iff.mp hstored
      obtain ⟨hb, hown⟩ := hagree.joined first b type hjoined
      obtain rfl := eq_of_nodup hnodup hb hx
      exact Or.inl ⟨msg, ProtoContext.message_iff.mpr ⟨b, rfl, type, hown, hmsg⟩, hget⟩
    · rw [hmarked] at hget
      by_cases hnamed : ∃ b, x = .bytes b ∧ ctx.namesBytes n = true
      · obtain ⟨b, rfl, hnames⟩ := hnamed
        have hother : ∀ first b' type, ctx.Joined reads first b' type → first.bytesField ≠ n := by
          rintro first b' type hjoined rfl
          obtain ⟨msg, -, hstored⟩ := hjoined.exists_stored
          exact hnot msg hstored
        obtain ⟨hnone, hread⟩ := hagree.others n b hx hnames hother
        refine Or.inr ⟨fun msg hmsg => ?_, ?_⟩
        · obtain ⟨b', heq, type, hown, -⟩ := ProtoContext.message_iff.mp hmsg
          obtain rfl := FieldRead.bytes.inj heq
          exact hnone type hown
        · rw [hget, objGet_withoutPatterns hnodup hx, mark_named b hnames, ← hread]
          rfl
      · refine Or.inr ⟨fun msg hmsg => hnamed hmsg.named, ?_⟩
        rw [hget, objGet_withoutPatterns hnodup hx, mark_plain hnamed]
  · rw [objGet_gather_of_not_mem hn]
    rcases hshown n with ⟨msg, hstored, -⟩ | ⟨-, hget⟩
    · obtain ⟨first, b, type, hjoined, rfl, -⟩ := ProtoContext.stored_iff.mp hstored
      exact absurd (List.mem_map.mpr ⟨_, (hagree.joined first b type hjoined).1, rfl⟩) hn
    · rw [hget, objGet_gather_of_not_mem hn]

/-- A text that none of finitely many values is. -/
theorem exists_fresh_text (shown : List Json) : ∃ t : Text, Json.string t ∉ shown := by
  have hinfinite : (Set.range Json.string).Infinite :=
    Set.infinite_range_of_injective fun _ _ h => Json.string.inj h
  obtain ⟨v, ⟨t, rfl⟩, hfresh⟩ := hinfinite.exists_notMem_finite (List.finite_toSet shown)
  exact ⟨t, hfresh⟩

/-- The pool whose message of `type` and `bytes` reads `one`, and any other reads `other`. -/
def ProtoContext.relabelled (ctx : ProtoContext) (type : Text) (bytes : Bytes) (one other : Text)
    (type' : Text) (bytes' : Bytes) : Option Text :=
  (ctx.decodeMessage type' bytes').map fun _ => if type' = type ∧ bytes' = bytes then one else other

theorem decodesSame_relabelled (type : Text) (bytes : Bytes) (one other : Text) :
    ctx.DecodesSame (ctx.relabelled type bytes one other) := fun _ _ => Option.isSome_map ..

/-- The patterns do what they should with every pool that decodes the same bytes. -/
def ProtoContext.AlwaysFollows (ctx : ProtoContext) (reads : FieldReads) : Prop :=
  ∀ pool, ctx.DecodesSame pool → (ctx.withPool pool).FollowsPatterns reads
    (applyProto (some (ctx.withPool pool)) ((ctx.withPool pool).gather reads))
    (applyProto (some (ctx.withPool pool).withoutPatterns)
      ((ctx.withPool pool).withoutPatterns.gather reads))

/-- What the fields of the POJO read without any message. -/
def ProtoContext.plainValues (ctx : ProtoContext) (reads : FieldReads) : List Json :=
  reads.flatMap fun x => [x.2.plain, ctx.mark x]

theorem ProtoContext.plain_mem {n : Text} {x : FieldRead} (h : (n, x) ∈ reads) :
    x.plain ∈ ctx.plainValues reads := List.mem_flatMap.mpr ⟨_, h, List.mem_cons_self⟩

theorem ProtoContext.mark_mem {n : Text} {x : FieldRead} (h : (n, x) ∈ reads) :
    ctx.mark (n, x) ∈ ctx.plainValues reads :=
  List.mem_flatMap.mpr ⟨_, h, List.mem_cons_of_mem _ List.mem_cons_self⟩

/-- Two texts that nothing in the POJO reads like. -/
structure ProtoContext.Fresh (ctx : ProtoContext) (reads : FieldReads) (t t' : Text) : Prop where
  one : Json.string t ∉ ctx.plainValues reads
  other : Json.string t' ∉ ctx.plainValues reads
  ne : t' ≠ t

theorem ProtoContext.exists_fresh (ctx : ProtoContext) (reads : FieldReads) :
    ∃ one other, ctx.Fresh reads one other := by
  obtain ⟨one, hone⟩ := exists_fresh_text (ctx.plainValues reads)
  obtain ⟨other, hother⟩ := exists_fresh_text (.string one :: ctx.plainValues reads)
  rw [List.mem_cons, not_or] at hother
  exact ⟨one, other, hone, hother.2, fun h => hother.1 (congrArg Json.string h)⟩

/-- A relabelled message reads like nothing else in the POJO. -/
theorem ProtoContext.Fresh.not_mem {one other : Text} (h : ctx.Fresh reads one other)
    {type type' msg : Text} {b b' : Bytes}
    (hmsg : ctx.relabelled type b one other type' b' = some msg) :
    Json.string msg ∉ ctx.plainValues reads := by
  obtain ⟨-, -, rfl⟩ := Option.map_eq_some_iff.mp hmsg
  split
  · exact h.one
  · exact h.other

/-- Only the message of `type` and `b` reads `one`. -/
theorem ProtoContext.Fresh.eq_of_one {one other : Text} (h : ctx.Fresh reads one other)
    {type type' : Text} {b b' : Bytes}
    (hmsg : ctx.relabelled type b one other type' b' = some one) : type' = type ∧ b' = b := by
  obtain ⟨-, -, htext⟩ := Option.map_eq_some_iff.mp hmsg
  by_contra hne
  rw [if_neg hne] at htext
  exact h.ne htext

/-- Where the patterns do what they should whatever the messages read, what is joined belongs
    together: a text is taken for that message that nothing else in the POJO reads like. -/
theorem joined_of_follows (hnodup : (reads.map Prod.fst).Nodup) (hall : ctx.AlwaysFollows reads)
    {first : ProtoPattern} {b : Bytes} {type : Text} (hjoined : ctx.Joined reads first b type) :
    (first.bytesField, .bytes b) ∈ reads ∧ ctx.OwnType reads first.bytesField b type := by
  obtain ⟨one, other, hfresh⟩ := ctx.exists_fresh reads
  have hsame : ctx.DecodesSame (ctx.relabelled type b one other) :=
    decodesSame_relabelled type b one other
  obtain ⟨obj, obj₀, hobj, hobj₀, hfields, hothers⟩ := hall _ hsame
  obtain rfl := Json.object.inj ((applyProto_withoutPatterns reads).symm.trans hobj₀)
  obtain ⟨msg, hmsg, hstored⟩ := ((ProtoContext.joined_withPool hsame).mpr hjoined).exists_stored
  obtain rfl : msg = one := by
    obtain ⟨-, -, rfl⟩ := Option.map_eq_some_iff.mp hmsg
    exact if_pos ⟨rfl, rfl⟩
  have hget : objGet first.bytesField obj = some (.string msg) := by
    rcases objGet_shown hobj first.bytesField with ⟨msg', hstored', hget⟩ | ⟨hnot, -⟩
    · obtain rfl := (Prod.mk.inj (Option.some.inj (hstored.symm.trans hstored'))).2
      exact hget
    · exact absurd hstored (hnot msg)
  by_cases hmem : first.bytesField ∈ reads.map Prod.fst
  · obtain ⟨⟨n, x⟩, hx, hn⟩ := List.mem_map.mp hmem
    obtain rfl : n = first.bytesField := hn
    rcases hfields _ x hx with ⟨msg', hmessage, hget'⟩ | ⟨-, hget'⟩
    · -- It is shown as a message of its own, and only this one reads so.
      obtain rfl := Json.string.inj (Option.some.inj (hget.symm.trans hget'))
      obtain ⟨b', rfl, type', hown, hmsg'⟩ := ProtoContext.message_iff.mp hmessage
      obtain ⟨rfl, rfl⟩ := hfresh.eq_of_one hmsg'
      exact ⟨hx, (ProtoContext.ownType_withPool hsame).mp hown⟩
    · rw [hget, objGet_withoutPatterns hnodup hx] at hget'
      exact absurd (Option.some.inj hget' ▸ ProtoContext.plain_mem hx) (hfresh.not_mem hmsg)
  · have hnone := hothers _ hmem
    rw [hget, objGet_gather_of_not_mem hmem] at hnone
    cases hnone

/-- A byte[] field for which nothing is stored then has no message, and its bytes read as their
    number. -/
theorem others_of_follows (hnodup : (reads.map Prod.fst).Nodup) (hall : ctx.AlwaysFollows reads)
    {n : Text} {b : Bytes} (hb : (n, .bytes b) ∈ reads) (hnamed : ctx.namesBytes n = true)
    (hnot : ∀ first b' type, ctx.Joined reads first b' type → first.bytesField ≠ n) :
    (∀ type, ¬ ctx.OwnType reads n b type) ∧ bytesToValue b = byteCount b := by
  obtain ⟨one, other, hfresh⟩ := ctx.exists_fresh reads
  have hsame : ctx.DecodesSame (ctx.relabelled [] [] one other) :=
    decodesSame_relabelled [] [] one other
  obtain ⟨obj, obj₀, hobj, hobj₀, hfields, -⟩ := hall _ hsame
  obtain rfl := Json.object.inj ((applyProto_withoutPatterns reads).symm.trans hobj₀)
  have hget : objGet n obj = some (byteCount b) := by
    have hnowhere := ProtoContext.not_stored fun first b' type hjoined =>
      hnot first b' type ((ProtoContext.joined_withPool hsame).mp hjoined)
    rcases objGet_shown hobj n with ⟨msg, hstored, -⟩ | ⟨-, hget⟩
    · exact absurd hstored (hnowhere msg)
    · rw [hget, objGet_gather hnodup hb]
      exact congrArg some (mark_named b hnamed)
  have hcount : byteCount b ∈ ctx.plainValues reads :=
    mark_named b hnamed ▸ ProtoContext.mark_mem hb
  rcases hfields n _ hb with ⟨msg, hmessage, hget'⟩ | ⟨hnone, hget'⟩
  · obtain ⟨b', -, type, -, hmsg⟩ := ProtoContext.message_iff.mp hmessage
    rw [hget] at hget'
    exact absurd (Option.some.inj hget' ▸ hcount) (hfresh.not_mem hmsg)
  · refine ⟨fun type hown => ?_, ?_⟩
    · obtain ⟨msg, hmsg⟩ := ((ProtoContext.ownType_withPool hsame).mpr hown).exists_message
      exact hnone msg hmsg
    · rw [hget, objGet_withoutPatterns hnodup hb] at hget'
      exact (Option.some.inj hget').symm

/-- **Where the patterns do what they should whatever the messages read, they agree.** -/
theorem agree_of_follows (hnodup : (reads.map Prod.fst).Nodup) (hall : ctx.AlwaysFollows reads) :
    ctx.PatternsAgree reads where
  joined _ _ _ := joined_of_follows hnodup hall
  others _ _ := others_of_follows hnodup hall

end Exact

/-- **Protobuf patterns apply only where they match exactly when they agree** on the POJO: for any
    patterns and bindings, any layout whose fields have different names, any bytes, at any depth, and
    whatever the messages read that the pool can decode. -/
theorem followsPatterns_iff (F : FloatText) (ctx : ProtoContext) {fields : List PojoField}
    (hbytes : ∀ f ∈ fields, f.typeName = "byte[]".toList → f.nestedPojo = none)
    (hnames : (fields.map PojoField.name).Nodup) (r : JavaReader) :
    let dec := decodeField F (some ctx)
    (∀ pool, ctx.DecodesSame pool →
        (ctx.withPool pool).FollowsPatterns (fieldReads dec fields r)
          (shownObject (some (ctx.withPool pool)) dec fields r)
          (shownObject (some (ctx.withPool pool).withoutPatterns) dec fields r))
      ↔ ctx.PatternsAgree (fieldReads dec fields r) := by
  intro dec
  have hfields : ∀ f ∈ fields, ReadsBytes dec f := fun f hf =>
    readsBytes_decodeField F (some ctx) (hbytes f hf)
  have hnodup : ((fieldReads dec fields r).map Prod.fst).Nodup := by
    rw [fieldReads, names_readFields]
    exact hnames
  simp only [shownObject_eq _ hfields]
  constructor
  · exact agree_of_follows hnodup
  · intro hagree pool hsame
    exact follows_of_agree hnodup (hagree.withPool hsame)

section TwoMessages

/-- A POJO with two messages, its fields in the snapshot's order. -/
private def twoMessages : List PojoField :=
  [ .mk "bytes1".toList "byte[]".toList none, .mk "bytes2".toList "byte[]".toList none,
    .mk "class1".toList "String".toList none, .mk "class2".toList "String".toList none ]

/-- The messages `A { int32 x = 1; }` and `B { int32 y = 1; }` of one byte's value. -/
private def twoTypes (type : Text) (bytes : Bytes) : Option Text :=
  match type, bytes with
  | ['A'], [8, v] => if 0 < v ∧ v < 128 then some ("\x7b x: ".toList ++ natText v.toNat ++ " \x7d".toList)
    else none
  | ['B'], [8, v] => if 0 < v ∧ v < 128 then some ("\x7b y: ".toList ++ natText v.toNat ++ " \x7d".toList)
    else none
  | _, _ => none

/-- A pattern for each of the two. -/
private def twoPatterns : ProtoContext where
  patterns :=
    [ ⟨"class1".toList, "bytes1".toList, "direct".toList⟩,
      ⟨"class2".toList, "bytes2".toList, "direct".toList⟩ ]
  bindings := []
  decodeMessage := twoTypes

private def twoDecode : FieldDecoder :=
  decodeField ⟨fun _ => none, fun _ => none⟩ (some twoPatterns)

/-- A message of type A with 7 in it, and one of type B with 8. -/
private def twoBytes : JavaReader :=
  ⟨[0, 0, 0, 0, 2, 8, 7, 0, 0, 0, 0, 2, 8, 8, 0, 2, 65, 0, 2, 66], 0⟩

/-- The second message is decoded, and shown as the first. -/
private theorem shownObject_twoMessages :
    shownObject (some twoPatterns) twoDecode twoMessages twoBytes = .object
      [ ("bytes1".toList, .string "\x7b y: 8 \x7d".toList),
        ("bytes2".toList, .string "[2 bytes]".toList),
        ("class1".toList, .string ['A']), ("class2".toList, .string ['B']) ] :=
  rfl

/-- At the two messages the patterns do not agree. -/
theorem followsPatterns_iff_twoMessages :
    let reads := fieldReads twoDecode twoMessages twoBytes
    (∀ pool, twoPatterns.DecodesSame pool →
        (twoPatterns.withPool pool).FollowsPatterns reads
          (shownObject (some (twoPatterns.withPool pool)) twoDecode twoMessages twoBytes)
          (shownObject (some (twoPatterns.withPool pool).withoutPatterns) twoDecode twoMessages
            twoBytes))
      ↔ twoPatterns.PatternsAgree reads :=
  followsPatterns_iff _ twoPatterns
    (by simp [twoMessages, PojoField.nestedPojo]) (by decide) twoBytes

/-- The first field shows the message of the second. -/
theorem not_followsPatterns_twoMessages :
    let reads := fieldReads twoDecode twoMessages twoBytes
    ¬ twoPatterns.FollowsPatterns reads
      (shownObject (some twoPatterns) twoDecode twoMessages twoBytes)
      (shownObject (some twoPatterns.withoutPatterns) twoDecode twoMessages twoBytes) := by
  rintro reads ⟨obj, obj₀, hobj, -, hfields, -⟩
  rw [shownObject_twoMessages] at hobj
  obtain rfl := Json.object.inj hobj
  have hmem : ("bytes1".toList, FieldRead.bytes [8, 7]) ∈ reads := List.mem_cons_self
  rcases hfields _ _ hmem with ⟨msg, hmsg, hget⟩ | ⟨hnone, -⟩
  · -- What is shown is a message of class B, and this field's class is A.
    obtain rfl : msg = "\x7b y: 8 \x7d".toList := (Json.string.inj (Option.some.inj hget)).symm
    obtain ⟨b, heq, p, hp, hbytes, y, cn, hy, hcn, hdecode⟩ := hmsg
    obtain rfl := FieldRead.bytes.inj heq
    obtain rfl : p = ⟨"class1".toList, "bytes1".toList, "direct".toList⟩ := by
      rcases List.mem_cons.mp hp with rfl | hp
      · rfl
      · rw [List.mem_singleton.mp hp] at hbytes
        exact absurd hbytes (by decide)
    obtain rfl : y = .value (.string ['A']) := by
      have hnodup : (reads.map Prod.fst).Nodup := by decide
      refine eq_of_nodup hnodup hy ?_
      exact List.mem_cons_of_mem _ (List.mem_cons_of_mem _ List.mem_cons_self)
    obtain rfl : ['A'] = cn := Option.some.inj hcn
    have htext : "\x7b x: 7 \x7d".toList = "\x7b y: 8 \x7d".toList := Option.some.inj hdecode
    exact absurd htext (by decide)
  · refine hnone "\x7b x: 7 \x7d".toList ⟨[8, 7], rfl,
      ⟨"class1".toList, "bytes1".toList, "direct".toList⟩, List.mem_cons_self, rfl,
      .value (.string ['A']), ['A'], ?_, rfl, rfl⟩
    exact List.mem_cons_of_mem _ (List.mem_cons_of_mem _ List.mem_cons_self)

end TwoMessages

end FlinkExplorer
