import FlinkExplorer.Parser.MetadataFormat

namespace FlinkExplorer

open Lib Lib.Read

/-!
# Allocations for the counts of a `_metadata` file

The source allocates for the counts and lengths it reads before it looks at their sign, so it
answers only where the allocator grants all of them.

* `Ends`, `Leads`, `Follows` — a reader goes along the format: it comes to where the walk comes,
  halts at an allocation where the walk meets a count that is not granted, and fails where the walk
  stops; closed under the steps readers are made of;
* `parseMetadata_answers_iff` — `parseMetadata` answers exactly when every count and length of the
  file is granted.
-/

/-! ### Along the format -/

/-- The memory for the count or length that comes next is granted. -/
def FileWalk.Granted (A : Allocator) (w : FileWalk) : Prop :=
  ∀ e n, w.asks = some (e, n) → 0 ≤ n ∧ A.grants e n.toNat = true

/-- How a read ends that begins where `w` is: a value is read where the walk comes to a place as `P`
    says, an error is where the walk stops, and the halt at an allocation where it is not granted. -/
def Ends {β : Type} (A : Allocator) (P : FileWalk → JavaReader → Prop) (w : FileWalk) :
    Except Halt β × JavaReader → Prop
  | (.ok _, r) => ∃ w', Passes FileWalk.next (FileWalk.Granted A) w w' ∧ P w' r
  | (.error .allocation, _) => ∃ w', Passes FileWalk.next (FileWalk.Granted A) w w' ∧ ¬ w'.Granted A
  | (.error (.error _), _) =>
    ∃ w', Passes FileWalk.next (FileWalk.Granted A) w w' ∧ w'.Granted A ∧ w'.next = none

/-- A reader goes along the fields `fs` to a place as `P` says, from fewer than `bound` bytes. -/
def Leads {β : Type} (A : Allocator) (P : FileWalk → JavaReader → Prop) (bound : Nat) (p : MetaRead β)
    (fs : List Field) : Prop := ∀ r, r.inner.length < bound → Ends A P ⟨fs, r⟩ (p r)

/-- A reader goes along the fields `fs` to what is after them. -/
def Follows {β : Type} (A : Allocator) (bound : Nat) (p : MetaRead β) (fs : List Field) : Prop :=
  ∀ later, Leads A (fun w r => w = ⟨later, r⟩) bound p (fs ++ later)

/-- A reader goes along the fields that a value announces, and fails where it announces none. -/
def LeadsTo {β : Type} (A : Allocator) (P : FileWalk → JavaReader → Prop) (bound : Nat)
    (fs : List Field) (p : MetaRead β) : Option (List Field) → Prop
  | some announced => Leads A P bound p (announced ++ fs)
  | none => ∀ r, ∃ e r', p r = (.error (.error e), r')

/-- `k` elements are asked for where the file says `n`: a negative number is past `isize::MAX`. -/
structure AsksFor (k : Nat) (n : Int) : Prop where
  same : 0 ≤ n → k = n.toNat
  past : n < 0 → 2 ^ 63 ≤ k

/-- A count that is negative, cast to `usize`, asks for more than any `Vec` may hold. -/
theorem asksFor_asUsize (n : Int32) : AsksFor (asUsize n) n.toInt := by
  have hle := n.le_toInt
  have hlt := n.toInt_lt
  unfold asUsize
  exact ⟨fun h => by omega, fun h => by omega⟩

theorem asksFor_natCast (k : Nat) : AsksFor k k :=
  ⟨fun _ => (Int.toNat_natCast k).symm, fun h => absurd (Int.natCast_nonneg k) (not_le.mpr h)⟩

/-- Where nothing is asked for, nothing is refused. -/
theorem granted_of_asks {A : Allocator} {w : FileWalk} (h : w.asks = none) : w.Granted A := by
  intro e n hasks
  rw [h] at hasks
  cases hasks

/-- What a successful read leaves is not longer. -/
theorem length_le_of_stable {β : Type} {p : ReadBytes ParseError β} (hp : Stable p) {r r' : JavaReader}
    {v : β} (h : p r = (.ok v, r')) : r'.inner.length ≤ r.inner.length := by
  obtain ⟨used, hused, -⟩ := hp r v r' h
  rw [hused, List.length_append]
  exact Nat.le_add_left _ _

/-- A walk past a field leaves no more bytes than there were. -/
theorem length_past {β : Type} {p : ReadBytes ParseError β} (hp : Stable p)
    {table : β → Option (List Field)} {fs : List Field} {r : JavaReader} {w : FileWalk}
    (h : FileWalk.past p table fs r = some w) : w.reader.inner.length ≤ r.inner.length := by
  unfold FileWalk.past at h
  rcases hrun : p r with ⟨e | v, r'⟩
  · rw [hrun] at h
    cases h
  · rw [hrun] at h
    obtain ⟨announced, -, rfl⟩ := Option.map_eq_some_iff.mp h
    exact length_le_of_stable hp hrun

/-- No field gives bytes back. -/
theorem length_next (w w' : FileWalk) (h : w.next = some w') :
    w'.reader.inner.length ≤ w.reader.inner.length := by
  obtain ⟨fs, r⟩ := w
  cases fs with
  | nil => cases h
  | cons x fs =>
    cases x with
    | fixed width => exact length_past (stable_readExactBytes width) h
    | tag table => exact length_past stable_readByte h
    | number table => exact length_past stable_readInt h
    | text table => exact length_past stable_readUtf h
    | data n => exact length_past (stable_readExactBytes _) h
    | list e n fields =>
      cases h
      exact le_rfl
    | times n fields =>
      cases h
      exact le_rfl
    | stream =>
      cases h
      exact le_rfl
    | keyed =>
      cases h
      exact le_rfl

/-! ### Texts are short -/

/-- A text is at most as long as its bytes. -/
theorem length_decodeUtf8 (bytes : Bytes) :
    ∀ t, decodeUtf8 bytes = some t → t.length ≤ bytes.length := by
  -- a character takes a byte at least
  have hmore {bytes more : Bytes} {c : Char}
      (ih : ∀ t, decodeUtf8 bytes = some t → t.length ≤ bytes.length)
      (hlen : bytes.length < more.length) (t : Text)
      (h : (decodeUtf8 bytes).map (c :: ·) = some t) : t.length ≤ more.length := by
    obtain ⟨t', ht', rfl⟩ := Option.map_eq_some_iff.mp h
    exact (Nat.succ_le_succ (ih t' ht')).trans hlen
  fun_induction decodeUtf8 bytes with
  | case1 =>
    rintro _ ⟨⟩
    exact le_rfl
  | case2 b rest hascii ih => exact hmore ih (by simp only [List.length_cons]; omega)
  | case6 b hlong hfirst b₁ rest hsecond htwo ih => exact hmore ih (by simp only [List.length_cons]; omega)
  | case10 b hlong hfirst b₁ hsecond htwo b₂ rest n hthird hthree hrange ih =>
    exact hmore ih (by simp only [List.length_cons]; omega)
  | case13 b hlong hfirst b₁ hsecond htwo b₂ hthird hthree b₃ rest n hfourth ih =>
    exact hmore ih (by simp only [List.length_cons]; omega)
  | _ => exact nofun

/-- A character takes at most four bytes. -/
theorem utf8ByteSize_le (t : Text) : (String.ofList t).utf8ByteSize ≤ 4 * t.length := by
  induction t with
  | nil => exact le_rfl
  | cons c t ih =>
    rw [String.ofList_cons, String.utf8ByteSize_append, String.utf8ByteSize_singleton,
      List.length_cons]
    have hle := c.utf8Size_le_four
    omega

/-- A text is short: its length is two bytes in a file. -/
def Short (t : Text) : Prop := (String.ofList t).utf8ByteSize < 2 ^ 20

/-- A text that was read is as long as a `u16` lets it be. -/
theorem ensures_readUtf : Ensures readUtf Short := by
  have hexact (n : Nat) : Ensures (readExactBytes n) fun buf : Bytes => buf.length = n := by
    intro r buf r' h
    unfold readExactBytes at h
    split at h
    · rename_i hle
      cases h
      rw [List.length_take, Nat.min_eq_left hle]
    · cases h
  refine (hexact 2).bind fun len hlen => (hexact _).bind fun buf hbuf r t r' h => ?_
  have hlen' := beNat_lt len
  rw [hlen] at hlen'
  unfold utf8At at h
  split at h
  · rename_i s hs
    cases h
    have hchars := length_decodeUtf8 buf _ hs
    have hbytes := utf8ByteSize_le t
    unfold Short
    omega
  · cases h

section Rules

variable {A : Allocator} {P : FileWalk → JavaReader → Prop} {n : Nat} {β γ : Type} {fs : List Field}

/-- A read that ends as a later walk does ends as the earlier one. -/
theorem Ends.trans {w w' : FileWalk} {x : Except Halt β × JavaReader}
    (hpass : Passes FileWalk.next (FileWalk.Granted A) w w') (h : Ends A P w' x) : Ends A P w x := by
  rcases x with ⟨(e | _) | v, r⟩
  · obtain ⟨w'', hpass', hstop⟩ := h
    exact ⟨w'', hpass.trans hpass', hstop⟩
  · obtain ⟨w'', hpass', hrefused⟩ := h
    exact ⟨w'', hpass.trans hpass', hrefused⟩
  · obtain ⟨w'', hpass', hplace⟩ := h
    exact ⟨w'', hpass.trans hpass', hplace⟩

/-- One field first. -/
theorem Ends.head {w w' : FileWalk} {x : Except Halt β × JavaReader} (hgranted : w.Granted A)
    (hnext : w.next = some w') (h : Ends A P w' x) : Ends A P w x :=
  h.trans (.head hgranted hnext (.refl w'))

/-- What leads somewhere with some fuel does with less to read. -/
theorem Leads.mono {m : Nat} {p : MetaRead β} (h : Leads A P m p fs) (hle : n ≤ m) :
    Leads A P n p fs := fun r hr => h r (hr.trans_le hle)

theorem Follows.mono {m : Nat} {p : MetaRead β} (h : Follows A m p fs) (hle : n ≤ m) :
    Follows A n p fs := fun later => (h later).mono hle

/-- A read that is over leaves the walk where it is. -/
theorem Leads.pure (v : β) : Leads A (fun w r => w = ⟨fs, r⟩) n (Pure.pure v : MetaRead β) fs :=
  fun r _ => ⟨⟨fs, r⟩, .refl _, rfl⟩

/-- One read after another walks past the fields of both. -/
theorem Follows.bind {p : MetaRead β} {f : β → MetaRead γ} {gs : List Field} (hp : Follows A n p gs)
    (hf : ∀ v, Leads A P n (f v) fs) : Leads A P n (p >>= f) (gs ++ fs) := by
  intro r hr
  have hends := hp fs r hr
  rcases hrun : p r with ⟨(e | _) | v, r'⟩
  · rw [hrun] at hends
    rw [bind_error hrun]
    exact hends
  · rw [hrun] at hends
    rw [bind_error hrun]
    exact hends
  · rw [hrun] at hends
    rw [bind_ok hrun]
    obtain ⟨w', hpass, rfl⟩ := hends
    have hle : r'.inner.length ≤ r.inner.length :=
      hpass.measure_le (m := fun w => w.reader.inner.length) length_next
    exact (hf v r' (hle.trans_lt hr)).trans hpass

/-- A read repeated walks past its fields as often. -/
theorem Follows.many {p : MetaRead β} (hp : Follows A n p fs) (k : Nat) :
    Follows A n (many p k) (List.replicate k fs).flatten := by
  induction k with
  | zero => exact fun later => .pure []
  | succ k ih =>
    intro later
    rw [List.replicate_succ, List.flatten_cons, List.append_assoc]
    exact hp.bind fun v => ih.bind fun vs => .pure (v :: vs)

/-- A value that announces fields. -/
theorem Leads.read {p : ReadBytes ParseError β} {f : β → MetaRead γ}
    {table : β → Option (List Field)} {x : Field} {m : Nat} {Q : β → Prop}
    (hnext : ∀ r, FileWalk.next ⟨x :: fs, r⟩ = FileWalk.past p table fs r)
    (hasks : ∀ r, FileWalk.asks ⟨x :: fs, r⟩ = none) (hQ : Ensures p Q)
    (hlen : ∀ r v r', p r = (.ok v, r') → r.inner.length < m → r'.inner.length < n)
    (hf : ∀ v, Q v → LeadsTo A P n fs (f v) (table v)) :
    Leads A P m ((liftM p : MetaRead β) >>= f) (x :: fs) := by
  intro r hr
  have hgranted : FileWalk.Granted A ⟨x :: fs, r⟩ := granted_of_asks (hasks r)
  rcases hrun : p r with ⟨e | v, r'⟩
  · have hlift : (liftM p : MetaRead β) r = (.error (.error e), r') := mapError_error hrun
    rw [bind_error hlift]
    refine ⟨_, .refl _, hgranted, ?_⟩
    rw [hnext, FileWalk.past, hrun]
  · have hlift : (liftM p : MetaRead β) r = (.ok v, r') := mapError_ok.mpr hrun
    rw [bind_ok hlift]
    have hto := hf v (hQ r v r' hrun)
    rcases htable : table v with _ | announced
    · rw [htable] at hto
      obtain ⟨e, r'', hfail⟩ := hto r'
      rw [hfail]
      refine ⟨_, .refl _, hgranted, ?_⟩
      rw [hnext, FileWalk.past, hrun]
      exact congrArg (Option.map _) htable
    · rw [htable] at hto
      refine Ends.head hgranted ?_ (hto r' (hlen r v r' hrun hr))
      rw [hnext, FileWalk.past, hrun]
      exact congrArg (Option.map _) htable

/-- Bytes that decide nothing. -/
theorem Leads.fixed {k : Nat} {f : Bytes → MetaRead γ} (hf : ∀ v, Leads A P n (f v) fs) :
    Leads A P n ((liftM (readExactBytes k) : MetaRead Bytes) >>= f) (.fixed k :: fs) :=
  .read (fun _ => rfl) (fun _ => rfl) (.trivial _)
    (fun _ _ _ h hr => (length_le_of_stable (stable_readExactBytes k) h).trans_lt hr) fun v _ => hf v

/-- A value made of bytes. -/
theorem liftM_map_bind {α : Type} (p : ReadBytes ParseError α) (g : α → β) (f : β → MetaRead γ) :
    (liftM (p >>= fun a => Pure.pure (g a)) : MetaRead β) >>= f
      = (liftM p : MetaRead α) >>= fun a => f (g a) := by
  show (p >>= fun a => Pure.pure (g a)).mapError Halt.error >>= f = _
  rw [mapError_bind, bind_assoc]
  rfl

theorem Leads.int {f : Int32 → MetaRead γ} (hf : ∀ v, Leads A P n (f v) fs) :
    Leads A P n ((liftM readInt : MetaRead Int32) >>= f) (.fixed 4 :: fs) := by
  unfold readInt
  rw [liftM_map_bind]
  exact .fixed fun buf => hf _

theorem Leads.long {f : Int64 → MetaRead γ} (hf : ∀ v, Leads A P n (f v) fs) :
    Leads A P n ((liftM readLong : MetaRead Int64) >>= f) (.fixed 8 :: fs) := by
  unfold readLong
  rw [liftM_map_bind]
  exact .fixed fun buf => hf _

theorem Leads.byte {f : UInt8 → MetaRead γ} (hf : ∀ v, Leads A P n (f v) fs) :
    Leads A P n ((liftM readByte : MetaRead UInt8) >>= f) (.fixed 1 :: fs) := by
  unfold readByte
  rw [liftM_map_bind]
  exact .fixed fun buf => hf _

theorem Leads.boolean {f : Bool → MetaRead γ} (hf : ∀ v, Leads A P n (f v) fs) :
    Leads A P n ((liftM readBoolean : MetaRead Bool) >>= f) (.fixed 1 :: fs) := by
  unfold readBoolean
  rw [liftM_map_bind]
  exact .byte fun b => hf _

/-- A number that decides what follows is walked past with it. -/
theorem Leads.number {f : Int32 → MetaRead γ} {table : Int32 → Option (List Field)}
    (hf : ∀ v, LeadsTo A P n fs (f v) (table v)) :
    Leads A P n ((liftM readInt : MetaRead Int32) >>= f) (.number table :: fs) :=
  .read (fun _ => rfl) (fun _ => rfl) (.trivial _)
    (fun _ _ _ h hr => (length_le_of_stable stable_readInt h).trans_lt hr) fun v _ => hf v

theorem Leads.count {f : Int32 → MetaRead γ} {table : Int32 → List Field}
    (hf : ∀ v, Leads A P n (f v) (table v ++ fs)) :
    Leads A P n ((liftM readInt : MetaRead Int32) >>= f) (.count table :: fs) := .number hf

/-- A tag is a byte less to read. -/
theorem Leads.tag {f : UInt8 → MetaRead γ} {table : UInt8 → Option (List Field)}
    (hf : ∀ v, LeadsTo A P n fs (f v) (table v)) :
    Leads A P (n + 1) ((liftM readByte : MetaRead UInt8) >>= f) (.tag table :: fs) := by
  refine .read (fun _ => rfl) (fun _ => rfl) (.trivial _) (fun r v r' h hr => ?_) fun v _ => hf v
  obtain ⟨buf, s, hbuf, hpure⟩ := bind_eq_ok h
  cases hpure
  unfold readExactBytes at hbuf
  by_cases hlen : 1 ≤ r.inner.length
  · rw [if_pos hlen] at hbuf
    cases hbuf
    show (r.inner.drop 1).length < n
    rw [List.length_drop]
    omega
  · rw [if_neg hlen] at hbuf
    cases hbuf

/-- A text that decides what follows is walked past with it; it is short, whatever it says. -/
theorem Leads.text {f : Text → MetaRead γ} {table : Text → List Field}
    (hf : ∀ v, Short v → Leads A P n (f v) (table v ++ fs)) :
    Leads A P n ((liftM readUtf : MetaRead Text) >>= f) (.text table :: fs) :=
  .read (fun _ => rfl) (fun _ => rfl) ensures_readUtf
    (fun _ _ _ h hr => (length_le_of_stable stable_readUtf h).trans_lt hr) fun v hv => hf v hv

theorem Leads.name {f : Text → MetaRead γ} (hf : ∀ v, Leads A P n (f v) fs) :
    Leads A P n ((liftM readUtf : MetaRead Text) >>= f) (.name :: fs) := .text fun v _ => hf v

/-! ### Allocations -/

theorem alloc_granted {e : VecItem} {k : Nat} (h : A.grants e k = true) :
    A.alloc e k = Pure.pure () := if_pos h

/-- A count the allocator does not grant ends the read there. -/
theorem alloc_refused {e : VecItem} {k : Nat} {m : Int} (hasks : AsksFor k m)
    (h : ¬ (0 ≤ m ∧ A.grants e m.toNat = true)) : A.alloc e k = Read.throw .allocation := by
  refine if_neg fun hgrants => ?_
  by_cases hm : 0 ≤ m
  · exact h ⟨hm, hasks.same hm ▸ hgrants⟩
  · rw [A.overflow e k (hasks.past (not_le.mp hm))] at hgrants
    cases hgrants

/-- The memory asked for where a walk is: granted, the reader goes on; else both end here. -/
theorem Ends.alloc {w : FileWalk} {e : VecItem} {k : Nat} {m : Int} {g : Unit → MetaRead γ}
    (hw : w.asks = some (e, m)) (hasks : AsksFor k m)
    (hg : 0 ≤ m → w.Granted A → Ends A P w (g () w.reader)) :
    Ends A P w ((A.alloc e k >>= g) w.reader) := by
  by_cases hm : 0 ≤ m ∧ A.grants e m.toNat = true
  · have hgranted : w.Granted A := by
      intro e' m' hasks'
      rw [hw] at hasks'
      cases hasks'
      exact hm
    rw [alloc_granted (hasks.same hm.1 ▸ hm.2)]
    exact hg hm.1 hgranted
  · rw [alloc_refused hasks hm]
    exact ⟨w, .refl w, fun hgranted => hm (hgranted e m hw)⟩

/-- A `Vec` of a count that is granted is filled with as many items; of any other the read ends. -/
theorem Leads.alloc {e : VecItem} {k : Nat} {m : Int} {fields : List Field} {g : Unit → MetaRead γ}
    (hasks : AsksFor k m)
    (hg : 0 ≤ m → Leads A P n (g ()) ((List.replicate m.toNat fields).flatten ++ fs)) :
    Leads A P n (A.alloc e k >>= g) (.list e m fields :: fs) := fun r hr =>
  .alloc (w := ⟨.list e m fields :: fs, r⟩) rfl hasks fun hm hgranted =>
    .head hgranted rfl (hg hm r hr)

/-- A vector behind its count. -/
theorem Leads.listOf {e : VecItem} {fields : List Field} {p : MetaRead β}
    {f : Int32 → List β → MetaRead γ} (hp : Follows A n p fields)
    (hf : ∀ m vs, Leads A P n (f m vs) fs) :
    Leads A P n ((liftM readInt : MetaRead Int32) >>= fun m => A.alloc e (asUsize m) >>= fun _ =>
      repeated m p >>= f m) (.listOf e fields :: fs) :=
  .count fun m => .alloc (asksFor_asUsize m) fun _ => (hp.many _).bind fun vs => hf m vs

/-- Elements that are not kept. -/
theorem Leads.times {fields : List Field} {p : MetaRead β} {m : Int32} {f : List β → MetaRead γ}
    (hp : Follows A n p fields) (hf : ∀ vs, Leads A P n (f vs) fs) :
    Leads A P n (repeated m p >>= f) (.times m.toInt fields :: fs) := fun r hr =>
  .head (granted_of_asks rfl) rfl (((hp.many _).bind hf) r hr)

/-- Bytes behind their length. -/
theorem Leads.data {k : Nat} {m : Int} {f : Bytes → MetaRead γ} (hasks : AsksFor k m)
    (hf : 0 ≤ m → ∀ v, Leads A P n (f v) fs) :
    Leads A P n (A.alloc .byte k >>= fun _ => (liftM (readExactBytes k) : MetaRead Bytes) >>= f)
      (.data m :: fs) := by
  intro r hr
  refine .alloc (w := ⟨.data m :: fs, r⟩) rfl hasks fun hm hgranted => ?_
  obtain rfl := hasks.same hm
  rcases hrun : readExactBytes m.toNat r with ⟨e | v, r'⟩
  · have hlift : (liftM (readExactBytes m.toNat) : MetaRead Bytes) r = (.error (.error e), r') :=
      mapError_error hrun
    rw [bind_error hlift]
    refine ⟨_, .refl _, hgranted, ?_⟩
    show FileWalk.past _ _ _ _ = none
    rw [FileWalk.past, hrun]
  · have hlift : (liftM (readExactBytes m.toNat) : MetaRead Bytes) r = (.ok v, r') :=
      mapError_ok.mpr hrun
    rw [bind_ok hlift]
    have hlen : r'.inner.length ≤ r.inner.length :=
      length_le_of_stable (stable_readExactBytes _) hrun
    have hpast : FileWalk.next ⟨.data m :: fs, r⟩ = some ⟨fs, r'⟩ := by
      show FileWalk.past _ _ _ _ = _
      rw [FileWalk.past, hrun]
      rfl
    exact .head hgranted hpast (hf hm v r' (hlen.trans_lt hr))

/-- Bytes that are skipped are allocated first, as `read_exact` into a `Vec` is. -/
theorem Leads.skip {k : Nat} {m : Int} {f : Unit → MetaRead γ} (hasks : AsksFor k m)
    (hf : Leads A P n (f ()) fs) :
    Leads A P n (A.alloc .byte k >>= fun _ => (liftM (FlinkExplorer.skip k) : MetaRead Unit) >>= f)
      (.data m :: fs) := by
  unfold FlinkExplorer.skip
  simp only [liftM_map_bind]
  exact .data hasks fun _ _ => hf

theorem Leads.stream {p : MetaRead β}
    (h : Leads A P n p (.tag (fun tag => streamFields tag.toNat) :: fs)) :
    Leads A P n p (.stream :: fs) := fun r hr => .head (granted_of_asks rfl) rfl (h r hr)

theorem Leads.keyed {p : MetaRead β}
    (h : Leads A P n p (.tag (fun tag => keyedFields tag.toNat) :: fs)) :
    Leads A P n p (.keyed :: fs) := fun r hr => .head (granted_of_asks rfl) rfl (h r hr)

/-- A tag, where there is no need to see that it is a byte less. -/
theorem Leads.tag_le {f : UInt8 → MetaRead γ} {table : UInt8 → Option (List Field)}
    (hf : ∀ v, LeadsTo A P n fs (f v) (table v)) :
    Leads A P n ((liftM readByte : MetaRead UInt8) >>= f) (.tag table :: fs) :=
  (Leads.tag hf).mono (Nat.le_succ n)

/-- A tag that has no fields is refused. -/
theorem leadsTo_unknownTag (error : Nat → ParseError) :
    LeadsTo A P n fs (unknownTag error : MetaRead β) none := fun _ => ⟨_, _, rfl⟩

/-- A value that is made of what was read. -/
theorem Ends.map {w : FileWalk} {p : MetaRead β} {r : JavaReader} (g : β → γ) (h : Ends A P w (p r)) :
    Ends A P w ((p >>= fun v => Pure.pure (g v)) r) := by
  rcases hrun : p r with ⟨(e | _) | v, r'⟩
  · rw [hrun] at h
    rw [bind_error hrun]
    exact h
  · rw [hrun] at h
    rw [bind_error hrun]
    exact h
  · rw [hrun] at h
    rw [bind_ok hrun]
    exact h

end Rules

/-! ### The readers of handles -/

section Handles

variable (A : Allocator) {n : Nat}

theorem follows_readLong : Follows A n (liftM readLong : MetaRead Int64) [.fixed 8] := by
  intro later
  have h : Leads A (fun w r => w = ⟨later, r⟩) n ((liftM readLong : MetaRead Int64) >>= Pure.pure)
      (.fixed 8 :: later) := .long fun v => .pure v
  rwa [bind_pure] at h

/-- The body of a key-groups handle, given that its delegate is walked past. -/
theorem follows_readKeyGroupsInner {p : MetaRead StreamStateHandle}
    (hp : Follows A n p [.stream]) : Follows A n (readKeyGroupsInner A p) keyGroupsFields :=
  fun _ => .int fun _ => .listOf (follows_readLong A) fun _ _ => hp.bind fun _ => .pure _

/-- The bytes of an inline handle: their length is looked at first. -/
theorem leads_inlineData {later : List Field} (name : Text) (m : Int32) :
    Leads A (fun w r => w = ⟨later, r⟩) n
      (do
        let data ← if 0 < m then do
            A.alloc .byte (asUsize m)
            readBytes (asUsize m)
          else pure []
        pure (StreamStateHandle.byteStream ⟨name, data⟩) : MetaRead StreamStateHandle)
      ((if 0 < m then [.data m.toInt] else []) ++ later) := by
  by_cases hm : 0 < m
  · simp only [if_pos hm]
    exact .data (asksFor_asUsize m) fun _ data => .pure _
  · simp only [if_neg hm]
    exact .pure _

/-- **Stream handles**, nested to any depth: each level has a tag, so there is fuel for all. -/
theorem follows_readStreamStateHandle (fuel : Nat) :
    Follows A fuel (readStreamStateHandle A fuel) [.stream] := by
  induction fuel with
  | zero => exact fun later r hr => absurd hr (Nat.not_lt_zero _)
  | succ fuel ih =>
    intro later
    unfold readStreamStateHandle
    refine .stream (.tag fun tag => ?_)
    generalize tag.toNat = t
    unfold streamFields
    split
    · exact .pure _
    · exact .name fun name => .count fun m => leads_inlineData A name m
    · exact .long fun _ => .name fun _ => .pure _
    · exact .name fun _ => .long fun _ => .pure _
    · exact (follows_readKeyGroupsInner A ih).bind fun _ => .pure _
    · exact .long fun _ => .long fun _ => .int fun _ => .name fun _ => .name fun _ => .pure _
    · exact .pure _
    -- the tags the reader knows are the tags that have fields
    · rename_i h₀ h₁ h₂ h₆ h₃ h₁₅ h₁₆
      split
      · exact absurd rfl h₀
      · exact absurd rfl h₁
      · exact absurd rfl h₂
      · exact absurd rfl h₃
      · exact absurd rfl h₆
      · exact absurd rfl h₁₅
      · exact absurd rfl h₁₆
      · exact leadsTo_unknownTag _

variable (fuel : Nat)

theorem follows_readHandleAndLocalPathList :
    Follows A fuel (readHandleAndLocalPathList A fuel) [localPathFields] := by
  have hentry : Follows A fuel (readHandleAndLocalPath A fuel) [.name, .stream] := fun _ =>
    .name fun _ => (follows_readStreamStateHandle A fuel).bind fun _ => .pure _
  intro later
  have h := Leads.listOf (P := fun w r => w = ⟨later, r⟩) (e := .localPath) hentry
    (f := fun _ vs => Pure.pure vs) fun _ _ => .pure _
  simp only [bind_pure] at h
  exact h

/-- A key-groups handle, of either version. -/
theorem follows_readKeyGroupsHandle (isV2 : Bool) :
    Follows A fuel (readKeyGroupsHandle A fuel isV2)
      (if isV2 then keyGroupsFields ++ [.name] else keyGroupsFields) := by
  have hinner : Follows A fuel (readKeyGroupsInner A (readStreamStateHandle A fuel)) keyGroupsFields :=
    follows_readKeyGroupsInner A (follows_readStreamStateHandle A fuel)
  intro later
  cases isV2 with
  | false => exact hinner.bind fun _ => .pure _
  | true =>
    rw [if_pos rfl, List.append_assoc]
    exact hinner.bind fun _ => .name fun _ => .pure _

/-- An incremental handle, of either version. -/
theorem leads_readIncrementalHandle {later : List Field} (isV2 : Bool) {fs : List Field}
    (hfs : keyedFields (if isV2 then 11 else 5) = some fs) :
    Leads A (fun w r => w = ⟨later, r⟩) fuel (readIncrementalHandle A fuel isV2) (fs ++ later) := by
  have hstream := follows_readStreamStateHandle A fuel
  have hlist := follows_readHandleAndLocalPathList A fuel
  cases isV2 with
  | false =>
    cases hfs
    exact .long fun _ => .name fun _ => .int fun _ => .int fun _ => hstream.bind fun _ =>
      hlist.bind fun _ => hlist.bind fun _ => .pure _
  | true =>
    cases hfs
    exact .long fun _ => .name fun _ => .int fun _ => .int fun _ => .long fun _ =>
      hstream.bind fun _ => hlist.bind fun _ => hlist.bind fun _ => .name fun _ => .pure _

/-- A changelog handle, given that the handles in it are walked past. -/
theorem leads_readChangelogHandle {later : List Field} (isV2 : Bool) {readKeyed : MetaRead StateHandle}
    (hkeyed : Follows A n readKeyed [.keyed]) {fs : List Field}
    (hfs : keyedFields (if isV2 then 14 else 8) = some fs) :
    Leads A (fun w r => w = ⟨later, r⟩) n (readChangelogHandle A isV2 readKeyed) (fs ++ later) := by
  cases isV2 with
  | false =>
    cases hfs
    exact .int fun _ => .int fun _ => .long fun _ => .listOf hkeyed fun _ _ =>
      .listOf hkeyed fun _ _ => .long fun _ => .name fun _ => .pure _
  | true =>
    cases hfs
    exact .int fun _ => .int fun _ => .long fun _ => .listOf hkeyed fun _ _ =>
      .listOf hkeyed fun _ _ => .long fun _ => .long fun _ => .name fun _ => .pure _

theorem leads_readChangelogByteHandle {later : List Field} {fs : List Field}
    (hfs : keyedFields 9 = some fs) :
    Leads A (fun w r => w = ⟨later, r⟩) n (readChangelogByteHandle A) (fs ++ later) := by
  have hchange : Follows A n (skipChange A) [.fixed 4, .count fun m => [.data m.toInt]] := by
    intro later
    have h (m : Int32) : Leads A (fun w r => w = ⟨later, r⟩) n
        (A.alloc .byte (asUsize m) >>= fun _ =>
          (liftM (skip (asUsize m)) : MetaRead Unit) >>= Pure.pure) (.data m.toInt :: later) :=
      .skip (asksFor_asUsize m) (.pure _)
    simp only [bind_pure] at h
    exact .int fun _ => .count h
  cases hfs
  exact .int fun _ => .int fun _ => .long fun _ => .long fun _ => .count fun _ => .times hchange
    fun _ => .name fun _ => .pure _

theorem leads_readChangelogFileHandle {later : List Field} (isV2 : Bool) {fs : List Field}
    (hfs : keyedFields (if isV2 then 13 else 10) = some fs) :
    Leads A (fun w r => w = ⟨later, r⟩) fuel (readChangelogFileHandle A fuel isV2) (fs ++ later) := by
  have hentry : Follows A fuel (readOffsetAndHandle A fuel) [.fixed 8, .stream] := fun _ =>
    .long fun _ => (follows_readStreamStateHandle A fuel).bind fun _ => .pure _
  cases isV2 with
  | false =>
    cases hfs
    exact .int fun _ => .int fun _ => .listOf hentry fun _ _ => .long fun _ => .long fun _ =>
      .name fun _ => .pure _
  | true =>
    cases hfs
    exact .int fun _ => .int fun _ => .listOf hentry fun _ _ => .long fun _ => .long fun _ =>
      .name fun _ => .name fun _ => .pure _

/-- **Keyed handles**, nested to any depth. -/
theorem follows_readKeyedStateHandle : Follows A fuel (readKeyedStateHandle A fuel) [.keyed] := by
  induction fuel with
  | zero => exact fun later r hr => absurd hr (Nat.not_lt_zero _)
  | succ fuel ih =>
    intro later
    unfold readKeyedStateHandle
    refine .keyed (.tag fun tag => ?_)
    generalize tag.toNat = t
    split
    · exact .pure _
    · exact follows_readKeyGroupsHandle A fuel false later
    · exact follows_readKeyGroupsHandle A fuel false later
    · exact follows_readKeyGroupsHandle A fuel true later
    · exact leads_readIncrementalHandle A fuel false rfl
    · exact leads_readIncrementalHandle A fuel true rfl
    · exact leads_readChangelogHandle A false ih rfl
    · exact leads_readChangelogHandle A true ih rfl
    · exact leads_readChangelogByteHandle A rfl
    · exact leads_readChangelogFileHandle A fuel false rfl
    · exact leads_readChangelogFileHandle A fuel true rfl
    -- the tags the reader knows are the tags that have fields
    · rename_i h₀ h₃ h₇ h₁₂ h₅ h₁₁ h₈ h₁₄ h₉ h₁₀ h₁₃
      unfold keyedFields
      split
      · exact absurd rfl h₀
      · exact absurd rfl h₃
      · exact absurd rfl h₅
      · exact absurd rfl h₇
      · exact absurd rfl h₈
      · exact absurd rfl h₉
      · exact absurd rfl h₁₀
      · exact absurd rfl h₁₁
      · exact absurd rfl h₁₂
      · exact absurd rfl h₁₃
      · exact absurd rfl h₁₄
      · exact leadsTo_unknownTag _

/-- A stream of operator state, with or without the merging of files. -/
theorem leads_readOperatorStreamStateHandle {later : List Field} (fileMerging : Bool)
    {fs : List Field} (hfs : operatorStateFields (if fileMerging then 17 else 4) = some fs) :
    Leads A (fun w r => w = ⟨later, r⟩) fuel (readOperatorStreamStateHandle A fuel fileMerging)
      (fs ++ later) := by
  have hentry : Follows A fuel (readPartitionOffsetEntry A)
      [.name, .fixed 1, .listOf .offset [.fixed 8]] := fun _ =>
    .name fun _ => .byte fun _ => .listOf (follows_readLong A) fun _ _ => .pure _
  have hstream := follows_readStreamStateHandle A fuel
  cases fileMerging with
  | false =>
    cases hfs
    exact .listOf hentry fun _ _ => hstream.bind fun _ => .pure _
  | true =>
    cases hfs
    exact .listOf hentry fun _ _ => .name fun _ => .name fun _ => .boolean fun _ =>
      hstream.bind fun _ => .pure _

theorem follows_readOperatorStateHandle :
    Follows A fuel (readOperatorStateHandle A fuel) [.tag fun tag => operatorStateFields tag.toNat] := by
  intro later
  refine .tag_le fun tag => ?_
  generalize tag.toNat = t
  split
  · exact .pure _
  · exact leads_readOperatorStreamStateHandle A fuel false rfl
  · exact leads_readOperatorStreamStateHandle A fuel true rfl
  · rename_i h₀ h₄ h₁₇
    unfold operatorStateFields
    split
    · exact absurd rfl h₀
    · exact absurd rfl h₄
    · exact absurd rfl h₁₇
    · exact leadsTo_unknownTag _

end Handles

/-! ### The readers of the file -/

section File

variable (A : Allocator) {n : Nat} (fuel : Nat)

/-- What is left of a master state's bytes: a negative number of them is past `isize::MAX`, even
    less what was read. -/
theorem rest_asks (numBytes : Int32) {dataLen : Int32} {name : Text} (hname : Short name)
    (hdata : 0 ≤ dataLen.toInt) :
    if asUsize numBytes > 4 + 2 + (String.ofList name).utf8ByteSize + 4 + asUsize dataLen then
      ∃ m, restFields numBytes.toInt name dataLen.toInt = [.data m]
        ∧ AsksFor (asUsize numBytes
          - (4 + 2 + (String.ofList name).utf8ByteSize + 4 + asUsize dataLen)) m
    else restFields numBytes.toInt name dataLen.toInt = [] := by
  have hle := numBytes.le_toInt
  have hlt := numBytes.toInt_lt
  have hlt' := dataLen.toInt_lt
  unfold Short at hname
  unfold restFields asUsize
  generalize (String.ofList name).utf8ByteSize = size at hname
  dsimp only
  split
  · rw [if_pos (by omega)]
    refine ⟨_, rfl, fun h => by omega, fun h => by omega⟩
  · rw [if_neg (by omega)]

theorem follows_readMasterState : Follows A n (readMasterState A) masterStateFields := by
  intro later
  refine .number fun magic => ?_
  by_cases hmagic : magic.toUInt32 = masterStateMagicNumber
  · simp only [if_pos hmagic, if_neg (not_not.mpr hmagic)]
    refine .count fun numBytes => .int fun _ => .text fun name hname => .count fun dataLen =>
      .data (asksFor_asUsize dataLen) fun hdata data => ?_
    have hrest := rest_asks numBytes hname hdata
    by_cases hmore : asUsize numBytes
        > 4 + 2 + (String.ofList name).utf8ByteSize + 4 + asUsize dataLen
    · rw [if_pos hmore] at hrest
      obtain ⟨m, hfields, hasks⟩ := hrest
      simp only [if_pos hmore, hfields]
      exact .skip hasks (.pure _)
    · rw [if_neg hmore] at hrest
      simp only [if_neg hmore, hrest]
      exact .pure _
  · simp only [if_neg hmagic, if_pos (show magic.toUInt32 ≠ masterStateMagicNumber from hmagic)]
    exact fun r => ⟨_, _, rfl⟩

/-- A channel handle, whatever is made of its numbers. -/
theorem follows_readChannelHandle {β : Type}
    (make : Int32 → Int32 → Int32 → List Int64 → Int64 → StreamStateHandle → β) :
    Follows A fuel (readChannelHandle A fuel make) channelFields := fun _ =>
  .int fun _ => .int fun _ => .int fun _ => .listOf (follows_readLong A) fun _ _ => .long fun _ =>
    (follows_readStreamStateHandle A fuel).bind fun _ => .pure _

theorem follows_readOptionalHandle : Follows A fuel (readOptionalHandle A fuel) [optionalFields] := by
  refine fun later => .count fun has => ?_
  by_cases hone : has = 1
  · simp only [if_pos hone]
    exact (follows_readOperatorStateHandle A fuel).bind fun _ => .pure _
  · simp only [if_neg hone]
    exact .pure _

/-- A subtask: its two operator states, two keyed states and two lists of channels. -/
theorem follows_readSubtaskState : Follows A fuel (readSubtaskState A fuel) subtaskFields := by
  have hoptional := follows_readOptionalHandle A fuel
  have hkeyed := follows_readKeyedStateHandle A fuel
  refine fun later => .count fun index => ?_
  by_cases hfinished : index < 0
  · simp only [if_pos hfinished]
    exact .pure _
  · simp only [if_neg hfinished]
    exact hoptional.bind fun _ => hoptional.bind fun _ => hkeyed.bind fun _ => hkeyed.bind fun _ =>
      .count fun _ => .times (follows_readChannelHandle A fuel _) fun _ =>
      .count fun _ => .times (follows_readChannelHandle A fuel _) fun _ => .pure _

theorem follows_readOperatorNames (version : UInt32) :
    Follows A n (liftM (readOperatorNames version) : MetaRead (Text × Text))
      (if version ≥ 5 then [.name, .name] else []) := by
  intro later
  unfold readOperatorNames
  by_cases hversion : version ≥ 5
  · simp only [if_pos hversion]
    exact .name fun _ => .name fun _ => .pure _
  · simp only [if_neg hversion]
    exact .pure _

theorem follows_readCoordinatorState : Follows A fuel (readCoordinatorState A fuel) [.stream] := by
  refine fun later => (follows_readStreamStateHandle A fuel).bind fun handle => ?_
  cases handle <;> exact .pure _

/-- An operator, with the names that version 5 puts in front of it. -/
theorem follows_readOperatorState (version : UInt32) :
    Follows A fuel (readOperatorState A version fuel) (operatorFields version) := by
  intro later
  unfold operatorFields
  rw [List.append_assoc]
  refine (follows_readOperatorNames A version).bind fun _ => .long fun _ => .long fun _ =>
    .int fun _ => .int fun _ => (follows_readCoordinatorState A fuel).bind fun _ =>
    .count fun m => ?_
  have hcount : (if (m == -1) = true then 0 else m.toInt.natAbs) = subtaskCount m := by
    simp only [subtaskCount, beq_iff_eq]
  simp only [hcount]
  refine .alloc (asksFor_natCast _) fun _ => ?_
  rw [Int.toNat_natCast]
  exact ((follows_readSubtaskState A fuel).many _).bind fun _ => .pure _

/-- The end of the data ends the list, and the walk. -/
theorem leads_untilEof {β : Type} {p : MetaRead β} {fs : List Field} (hp : Follows A n p fs)
    (k : Nat) : Leads A (fun w _ => w.Granted A ∧ w.next = none) n (untilEof p k)
      ((List.replicate k fs).flatten ++ []) := by
  rw [List.append_nil]
  induction k with
  | zero => exact fun r _ => ⟨_, .refl _, granted_of_asks rfl, rfl⟩
  | succ k ih =>
    intro r hr
    rw [List.replicate_succ, List.flatten_cons]
    have hends := hp (List.replicate k fs).flatten r hr
    unfold untilEof
    -- an error ends the walk, a value goes on
    rcases hrun : p r with ⟨(e | _) | v, r'⟩
    · rw [hrun] at hends
      cases e <;> exact hends
    · rw [hrun] at hends
      exact hends
    · rw [hrun] at hends
      obtain ⟨w', hpass, rfl⟩ := hends
      have hle : r'.inner.length ≤ r.inner.length :=
        hpass.measure_le (m := fun w => w.reader.inner.length) length_next
      exact ((ih r' (hle.trans_lt hr)).map (v :: ·)).trans hpass

/-- The metadata as a whole: it is read to its end, or what is asked for is not granted. -/
theorem leads_readSavepoint :
    Leads A (fun w _ => w.Granted A ∧ w.next = none) fuel (readSavepoint A fuel) metadataFields := by
  refine .number fun magic => ?_
  by_cases hmagic : magic.toUInt32 = headerMagicNumber
  · simp only [if_pos hmagic, if_neg (not_not.mpr hmagic)]
    refine .number fun version => ?_
    by_cases hversion : minSupportedVersion ≤ version.toUInt32
        ∧ version.toUInt32 ≤ maxSupportedVersion
    · simp only [if_pos hversion, if_neg (not_not.mpr hversion)]
      refine .long fun _ => .listOf (follows_readMasterState A) fun _ _ => .count fun m =>
        .alloc (asksFor_asUsize m) fun _ r hr => ?_
      exact (leads_untilEof A (follows_readOperatorState A fuel _) _ r hr).map _
    · simp only [if_neg hversion, if_pos hversion]
      exact fun r => ⟨_, _, rfl⟩
  · simp only [if_neg hmagic, if_pos (show magic.toUInt32 ≠ headerMagicNumber from hmagic)]
    exact fun r => ⟨_, _, rfl⟩

end File

/-! ### `parse_metadata` -/

/-- **`parseMetadata` answers** — with a savepoint or an error — exactly when no count or length of
    the file is negative, and the allocator grants that much. -/
theorem parseMetadata_answers_iff (A : Allocator) (source : Bytes) :
    ((∃ sp, parseMetadataWith A source = .ok sp)
        ∨ ∃ e, parseMetadataWith A source = .error (.error e))
      ↔ ∀ e n, MeetsCount source e n → 0 ≤ n ∧ A.grants e n.toNat = true := by
  unfold parseMetadataWith
  have hends := leads_readSavepoint A (source.length + 1) (JavaReader.new source)
    (Nat.lt_succ_self source.length)
  -- Where the walk stops it has been granted all it met.
  have hall {w : FileWalk} (hpass : Passes FileWalk.next (FileWalk.Granted A)
      ⟨metadataFields, JavaReader.new source⟩ w) (hgranted : w.Granted A) (hstop : w.next = none) :
      ∀ e n, MeetsCount source e n → 0 ≤ n ∧ A.grants e n.toNat = true := by
    rintro e n ⟨w', hreach, hasks⟩
    exact ok_of_reaches hpass hgranted hstop hreach e n hasks
  rcases hrun : readSavepoint A (source.length + 1) (JavaReader.new source) with ⟨(e | _) | sp, r⟩
  · rw [hrun] at hends
    obtain ⟨w, hpass, hgranted, hstop⟩ := hends
    exact iff_of_true (.inr ⟨e, rfl⟩) (hall hpass hgranted hstop)
  · rw [hrun] at hends
    obtain ⟨w, hpass, hrefused⟩ := hends
    refine iff_of_false (by simp) fun hcounts => hrefused fun e n hasks => ?_
    exact hcounts e n ⟨w, hpass.reaches, hasks⟩
  · rw [hrun] at hends
    obtain ⟨w, hpass, hgranted, hstop⟩ := hends
    exact iff_of_true (.inl ⟨sp, rfl⟩) (hall hpass hgranted hstop)

/-- A file that says it has -1 master states. -/
def negativeMasterStates : Bytes :=
  [0x49, 0x60, 0x67, 0x2D, 0, 0, 0, 3, 0, 0, 0, 0, 0, 0, 0, 1, 0xFF, 0xFF, 0xFF, 0xFF]

/-- `parseMetadata` does not answer on it. -/
theorem parseMetadata_negativeMasterStates :
    ¬ ((∃ sp, parseMetadata negativeMasterStates = .ok sp)
      ∨ ∃ e, parseMetadata negativeMasterStates = .error (.error e)) := by
  have hhalt : parseMetadata negativeMasterStates = .error .allocation := rfl
  rw [hhalt]
  simp

end FlinkExplorer
