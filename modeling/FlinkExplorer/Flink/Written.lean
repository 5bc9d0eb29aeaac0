import FlinkExplorer.Parser.Metadata

namespace FlinkExplorer

open Lib Lib.Read

/-!
# Reading what `MetadataSerializer` writes

Flink writes strings with `DataOutput.writeUTF`, whose modified UTF-8 has two bytes for the null
character; `readUtf` takes them for invalid.  `Written` says what a reader does with the bytes
written for a value: it reads the value when none of its strings has a null character, it refuses
them otherwise, and it refuses them when they are cut short.  `Written` is closed under the steps
readers are made of.
-/

/-! ### Strings -/

/-- The bytes of a character in modified UTF-8, up to U+007F. -/
def modifiedUtf8 (c : Char) : Bytes := if c = Char.ofNat 0 then [0xC0, 0x80] else [UInt8.ofNat c.toNat]

/-- `DataOutput.writeUTF`: the length of the bytes, then the bytes. -/
def writeUtf (t : Text) : Bytes :=
  beBytes 2 (t.flatMap modifiedUtf8).length ++ t.flatMap modifiedUtf8

/-- A string that `writeUTF` takes: ASCII, of at most 65535 bytes. -/
structure Utf (t : Text) : Prop where
  ascii : ∀ c ∈ t, c.toNat < 0x80
  short : (t.flatMap modifiedUtf8).length < 2 ^ 16

/-- A string without a null character. -/
def NoNull (t : Text) : Prop := Char.ofNat 0 ∉ t

instance (t : Text) : Decidable (NoNull t) := inferInstanceAs (Decidable (_ ∉ t))

theorem modifiedUtf8_noNull {t : Text} (h : NoNull t) : t.flatMap modifiedUtf8 = asciiBytes t := by
  induction t with
  | nil => rfl
  | cons c t ih =>
    have hc : c ≠ Char.ofNat 0 := fun hc => h (hc ▸ List.mem_cons_self)
    have ht : NoNull t := fun ht => h (List.mem_cons_of_mem c ht)
    have hhead : modifiedUtf8 c = [UInt8.ofNat c.toNat] := if_neg hc
    rw [List.flatMap_cons, ih ht, hhead]
    rfl

/-- The two bytes of a null character are not UTF-8. -/
theorem decodeUtf8_null {t : Text} (hascii : ∀ c ∈ t, c.toNat < 0x80) (h : ¬ NoNull t) :
    decodeUtf8 (t.flatMap modifiedUtf8) = none := by
  induction t with
  | nil => exact absurd List.not_mem_nil h
  | cons c t ih =>
    rw [List.flatMap_cons]
    by_cases hc : c = Char.ofNat 0
    · have hhead : modifiedUtf8 c = [0xC0, 0x80] := if_pos hc
      rw [hhead, decodeUtf8.eq_def]
      rfl
    · have hhead : modifiedUtf8 c = [UInt8.ofNat c.toNat] := if_neg hc
      have hlt : c.toNat < 0x80 := hascii c List.mem_cons_self
      have hb : (UInt8.ofNat c.toNat).toNat < 0x80 := by
        simp only [UInt8.toNat_ofNat']
        omega
      have ht : ¬ NoNull t := fun ht => h fun hmem =>
        (List.mem_cons.mp hmem).elim (fun heq => hc heq.symm) ht
      rw [hhead, List.singleton_append, decodeUtf8_cons_ascii hb,
        ih (fun d hd => hascii d (List.mem_cons_of_mem c hd)) ht]
      rfl

/-- A part of two pieces holds the first of them, or it cuts it. -/
theorem append_cut {δ : Type} {u v a b : List δ} (h : u ++ v = a ++ b) :
    (∃ x, a = u ++ x ∧ v = x ++ b) ∨ ∃ y, y ≠ [] ∧ u = a ++ y := by
  rcases List.append_eq_append_iff.mp h with ⟨x, ha, hv⟩ | ⟨y, hu, hb⟩
  · exact .inl ⟨x, ha, hv⟩
  · by_cases hy : y = []
    · subst hy
      rw [List.append_nil] at hu
      rw [List.nil_append] at hb
      exact .inl ⟨[], by rw [hu, List.append_nil], hb.symm⟩
    · exact .inr ⟨y, hy, hu⟩

/-! ### `Written` -/

section Written

variable {β γ δ : Type}

/-- What a reader does with the bytes `used` that are written for `v`.  `clean` says that no string
    of `v` has a null character; `fuel` bounds how deep the reader goes. -/
structure Written (fuel : Nat) (p : MetaRead β) (used : Bytes) (clean : Prop) (v : β) : Prop where
  run : ∀ rest pos, (clean ∧ p ⟨used ++ rest, pos⟩ = (.ok v, ⟨rest, pos + used.length⟩))
    ∨ ∃ e r, p ⟨used ++ rest, pos⟩ = (.error (.error e), r)
  reads : used.length ≤ fuel → clean → Reads p used v
  refuses : used.length ≤ fuel → ¬ clean → ∀ rest pos, ∃ offset r,
    p ⟨used ++ rest, pos⟩ = (.error (.error (.invalidUtf8 offset)), r)
  cut : ∀ a b, used = a ++ b → b ≠ [] → ∀ pos, ∃ e r, p ⟨a, pos⟩ = (.error (.error e), r)

variable {fuel : Nat}

theorem lift_ok {p : ReadBytes ParseError β} {r r' : JavaReader} {v : β} (h : p r = (.ok v, r')) :
    (liftM p : MetaRead β) r = (.ok v, r') := by
  have hlift : (liftM p : MetaRead β) r = p.mapError .error r := rfl
  rw [hlift]
  exact mapError_ok.mpr h

theorem lift_error {p : ReadBytes ParseError β} {r r' : JavaReader} {e : ParseError}
    (h : p r = (.error e, r')) : (liftM p : MetaRead β) r = (.error (.error e), r') := by
  have hlift : (liftM p : MetaRead β) r = p.mapError .error r := rfl
  rw [hlift, mapError, h]

/-- A reader that knows where its value ends. -/
theorem Written.of_stable {p : ReadBytes ParseError β} {used : Bytes} {v : β} (hr : Reads p used v)
    (hs : Stable p) : Written fuel (liftM p) used True v where
  run rest pos := .inl ⟨trivial, lift_ok (hr rest pos)⟩
  reads _ _ rest pos := lift_ok (hr rest pos)
  refuses _ h := absurd trivial h
  cut a b hsplit hb pos := by
    obtain ⟨e, r, h⟩ := hs.error_of_cut hr hsplit hb pos
    exact ⟨e, r, lift_error h⟩

theorem Written.pure (v : β) : Written fuel (pure v : MetaRead β) [] True v where
  run _ _ := .inl ⟨trivial, rfl⟩
  reads _ _ _ _ := rfl
  refuses _ h := absurd trivial h
  cut _ _ hsplit hb := absurd (List.append_eq_nil_iff.mp hsplit.symm).2 hb

theorem Written.mono {p : MetaRead β} {used : Bytes} {clean clean' : Prop} {v : β}
    (h : Written fuel p used clean v) (hclean : clean' ↔ clean) : Written fuel p used clean' v where
  run rest pos := (h.run rest pos).imp_left fun ⟨hc, hv⟩ => ⟨hclean.mpr hc, hv⟩
  reads hfuel hc := h.reads hfuel (hclean.mp hc)
  refuses hfuel hc := h.refuses hfuel fun hc' => hc (hclean.mpr hc')
  cut := h.cut

theorem Written.of_le {p : MetaRead β} {used : Bytes} {clean : Prop} {v : β} {more : Nat}
    (h : Written more p used clean v) (hle : fuel ≤ more) : Written fuel p used clean v where
  run := h.run
  reads hfuel := h.reads (hfuel.trans hle)
  refuses hfuel := h.refuses (hfuel.trans hle)
  cut := h.cut

/-- One value, then another: the second is read only when the first is clean, and with its own
    fuel. -/
theorem Written.bind_fuel {fuel₁ fuel₂ : Nat} {p : MetaRead β} {f : β → MetaRead γ} {a b : Bytes}
    {c d : Prop} {v : β} {w : γ} (hp : Written fuel₁ p a c v) (hf : c → Written fuel₂ (f v) b d w)
    (hle : a.length + b.length ≤ fuel → a.length ≤ fuel₁ ∧ b.length ≤ fuel₂) :
    Written fuel (p >>= f) (a ++ b) (c ∧ d) w where
  run rest pos := by
    rcases hp.run (b ++ rest) pos with ⟨hc, h⟩ | ⟨e, r, h⟩
    · rcases (hf hc).run rest (pos + a.length) with ⟨hd, h'⟩ | ⟨e, r, h'⟩
      · refine .inl ⟨⟨hc, hd⟩, ?_⟩
        rw [List.append_assoc, bind_ok h, h', List.length_append, Nat.add_assoc]
      · right
        exact ⟨e, r, by rw [List.append_assoc, bind_ok h, h']⟩
    · right
      exact ⟨e, r, by rw [List.append_assoc, bind_error h]⟩
  reads hfuel hc := by
    rw [List.length_append] at hfuel
    exact (hp.reads (hle hfuel).1 hc.1).bind ((hf hc.1).reads (hle hfuel).2 hc.2)
  refuses hfuel hc rest pos := by
    rw [List.length_append] at hfuel
    by_cases hc₁ : c
    · obtain ⟨offset, r, h⟩ :=
        (hf hc₁).refuses (hle hfuel).2 (fun hd => hc ⟨hc₁, hd⟩) rest (pos + a.length)
      refine ⟨offset, r, ?_⟩
      rw [List.append_assoc, bind_ok (hp.reads (hle hfuel).1 hc₁ (b ++ rest) pos), h]
    · obtain ⟨offset, r, h⟩ := hp.refuses (hle hfuel).1 hc₁ (b ++ rest) pos
      exact ⟨offset, r, by rw [List.append_assoc, bind_error h]⟩
  cut x y hsplit hy pos := by
    rcases append_cut hsplit with ⟨x', rfl, hb⟩ | ⟨a', ha', hcut⟩
    · rcases hp.run x' pos with ⟨hc, h⟩ | ⟨e, r, h⟩
      · obtain ⟨e, r, h'⟩ := (hf hc).cut x' y hb hy (pos + a.length)
        exact ⟨e, r, by rw [bind_ok h, h']⟩
      · exact ⟨e, r, bind_error h⟩
    · obtain ⟨e, r, h⟩ := hp.cut x a' hcut ha' pos
      exact ⟨e, r, bind_error h⟩

/-- One value, then another that may depend on the first being clean. -/
theorem Written.bind_if {p : MetaRead β} {f : β → MetaRead γ} {a b : Bytes} {c d : Prop} {v : β}
    {w : γ} (hp : Written fuel p a c v) (hf : c → Written fuel (f v) b d w) :
    Written fuel (p >>= f) (a ++ b) (c ∧ d) w := hp.bind_fuel hf fun _ => by omega

/-- One value, then another. -/
theorem Written.bind {p : MetaRead β} {f : β → MetaRead γ} {a b : Bytes} {c d : Prop} {v : β}
    {w : γ} (hp : Written fuel p a c v) (hf : Written fuel (f v) b d w) :
    Written fuel (p >>= f) (a ++ b) (c ∧ d) w := hp.bind_if fun _ => hf

/-- A value, then a step that reads nothing. -/
theorem Written.bind_nil {p : MetaRead β} {f : β → MetaRead γ} {a : Bytes} {c : Prop} {v : β} {w : γ}
    (hp : Written fuel p a c v) (hf : Written fuel (f v) [] True w) :
    Written fuel (p >>= f) a c w := by
  have h := hp.bind hf
  rw [List.append_nil] at h
  exact h.mono (iff_of_eq (and_true c)).symm

/-- Values written back to back. -/
theorem Written.many {p : MetaRead β} {enc : δ → Bytes} {clean : δ → Prop} {val : δ → β} {xs : List δ}
    (h : ∀ x ∈ xs, Written fuel p (enc x) (clean x) (val x)) :
    Written fuel (many p xs.length) (xs.flatMap enc) (∀ x ∈ xs, clean x) (xs.map val) := by
  induction xs with
  | nil => exact (Written.pure []).mono (by simp)
  | cons x xs ih =>
    have hx := h x List.mem_cons_self
    have hxs := ih fun y hy => h y (List.mem_cons_of_mem x hy)
    have hmore : Written fuel (do
        let vs ← Read.many p xs.length
        Pure.pure (val x :: vs)) (xs.flatMap enc) (∀ y ∈ xs, clean y) (val x :: xs.map val) :=
      hxs.bind_nil (.pure _)
    exact (hx.bind hmore).mono List.forall_mem_cons

/-- A value without strings, then another. -/
theorem Written.then {p : MetaRead β} {f : β → MetaRead γ} {a b : Bytes} {d : Prop} {v : β} {w : γ}
    (hp : Written fuel p a True v) (hf : Written fuel (f v) b d w) :
    Written fuel (p >>= f) (a ++ b) d w := (hp.bind hf).mono (iff_of_eq (true_and d)).symm

/-- A value, then one without strings. -/
theorem Written.bind_true {p : MetaRead β} {f : β → MetaRead γ} {a b : Bytes} {c : Prop} {v : β}
    {w : γ} (hp : Written fuel p a c v) (hf : Written fuel (f v) b True w) :
    Written fuel (p >>= f) (a ++ b) c w := (hp.bind hf).mono (iff_of_eq (and_true c)).symm

/-- A step that reads nothing, then a value. -/
theorem Written.nil_bind {p : MetaRead β} {f : β → MetaRead γ} {b : Bytes} {d : Prop} {v : β} {w : γ}
    (hp : Written fuel p [] True v) (hf : Written fuel (f v) b d w) : Written fuel (p >>= f) b d w :=
  hp.then hf

/-- A reader that is out of fuel. -/
theorem Written.eof {used : Bytes} (h : used ≠ []) (clean : Prop) (v : β) :
    Written 0 (liftM (eof : ReadBytes ParseError β)) used clean v where
  run _ _ := .inr ⟨_, _, rfl⟩
  reads hfuel := absurd (List.length_eq_zero_iff.mp (Nat.le_zero.mp hfuel)) h
  refuses hfuel := absurd (List.length_eq_zero_iff.mp (Nat.le_zero.mp hfuel)) h
  cut _ _ _ _ _ := ⟨_, _, rfl⟩

/-! ### Counts -/

theorem toInt_ofNat {n : Nat} (h : n < 2 ^ 31) : (Int32.ofNat n).toInt = n :=
  Int32.toInt_ofNat_of_lt h

theorem asUsize_ofNat {n : Nat} (h : n < 2 ^ 31) : asUsize (Int32.ofNat n) = n := by
  unfold asUsize
  rw [toInt_ofNat h]
  omega

theorem Written.alloc {e : VecItem} {n : Nat} (h : n < 2 ^ 63) :
    Written fuel (capacity.alloc e n) [] True () := by
  have hgrants : capacity.alloc e n = Pure.pure () := if_pos (decide_eq_true h)
  rw [hgrants]
  exact .pure ()

theorem Written.capacity {e : VecItem} {n : Nat} (h : n < 2 ^ 31) :
    Written fuel (capacity.alloc e (asUsize (Int32.ofNat n))) [] True () := by
  rw [asUsize_ofNat h]
  exact .alloc (by omega)

theorem Written.repeated {p : MetaRead β} {enc : δ → Bytes} {clean : δ → Prop} {val : δ → β}
    {xs : List δ} (hlen : xs.length < 2 ^ 31)
    (h : ∀ x ∈ xs, Written fuel p (enc x) (clean x) (val x)) :
    Written fuel (repeated (Int32.ofNat xs.length) p) (xs.flatMap enc) (∀ x ∈ xs, clean x)
      (xs.map val) := by
  unfold FlinkExplorer.repeated
  rw [toInt_ofNat hlen, Int.toNat_natCast]
  exact .many h

/-- Values that are read as they are. -/
theorem Written.items {p : MetaRead δ} {enc : δ → Bytes} {clean : δ → Prop} {xs : List δ}
    (hlen : xs.length < 2 ^ 31) (h : ∀ x ∈ xs, Written fuel p (enc x) (clean x) x) :
    Written fuel (FlinkExplorer.repeated (Int32.ofNat xs.length) p) (xs.flatMap enc)
      (∀ x ∈ xs, clean x) xs := by
  have hid : ∀ x ∈ xs, Written fuel p (enc x) (clean x) (id x) := h
  have hxs := Written.repeated hlen hid
  rwa [List.map_id] at hxs

/-! ### Fixed-width values and strings -/

theorem Written.int (v : Int32) : Written fuel (liftM readInt) (writeInt v) True v :=
  .of_stable (reads_readInt v) stable_readInt

theorem Written.long (v : Int64) : Written fuel (liftM readLong) (writeLong v) True v :=
  .of_stable (reads_readLong v) stable_readLong

theorem Written.byte (b : UInt8) : Written fuel (liftM readByte) [b] True b :=
  .of_stable (reads_readByte b) stable_readByte

/-- A tag, then what it stands for, which is one level deeper. -/
theorem Written.tagged {f : UInt8 → MetaRead γ} {b : Bytes} {d : Prop} {w : γ} (tag : UInt8)
    (hf : Written fuel (f tag) b d w) : Written (fuel + 1) (liftM readByte >>= f) (tag :: b) d w :=
  (Written.bind_fuel (Written.byte tag) (fun _ => hf) fun h => ⟨le_rfl, by simp at h; omega⟩).mono
    (iff_of_eq (true_and d)).symm

theorem Written.boolean (b : Bool) : Written fuel (liftM readBoolean) (writeBoolean b) True b :=
  .of_stable (reads_readBoolean b) stable_readBoolean

theorem Written.bytes {bs : Bytes} {n : Nat} (h : bs.length = n) :
    Written fuel (liftM (readBytes n)) bs True bs :=
  .of_stable (reads_readBytes h) (stable_readBytes n)

/-- The bytes of a string, before they are decoded. -/
theorem readUtf_written {t : Text} (h : Utf t) (rest : Bytes) (pos : Nat) :
    readUtf ⟨writeUtf t ++ rest, pos⟩
      = utf8At (t.flatMap modifiedUtf8) ⟨rest, pos + (writeUtf t).length⟩ := by
  have hlen : (beBytes 2 (t.flatMap modifiedUtf8).length).length = 2 := length_beBytes 2 _
  have hvalue : beNat (beBytes 2 (t.flatMap modifiedUtf8).length) = (t.flatMap modifiedUtf8).length :=
    beNat_beBytes_of_lt h.short
  unfold readUtf writeUtf
  have hcount := reads_readExactBytes (beBytes 2 (t.flatMap modifiedUtf8).length)
  rw [hlen] at hcount
  rw [List.append_assoc, bind_ok (hcount _ _), hvalue,
    bind_ok (reads_readExactBytes (t.flatMap modifiedUtf8) rest _), List.length_append, hlen,
    Nat.add_assoc]

theorem Written.utf {t : Text} (h : Utf t) :
    Written fuel (liftM readUtf) (writeUtf t) (NoNull t) t := by
  have hreads (hclean : NoNull t) : Reads readUtf (writeUtf t) t := by
    intro rest pos
    rw [readUtf_written h, utf8At, modifiedUtf8_noNull hclean, decodeUtf8_asciiBytes h.ascii]
  have hrefuses (hclean : ¬ NoNull t) (rest : Bytes) (pos : Nat) : ∃ offset r,
      readUtf ⟨writeUtf t ++ rest, pos⟩ = (.error (.invalidUtf8 offset), r) := by
    rw [readUtf_written h, utf8At, decodeUtf8_null h.ascii hclean]
    exact ⟨_, _, rfl⟩
  refine ⟨fun rest pos => ?_, fun _ hclean rest pos => lift_ok (hreads hclean rest pos),
    fun _ hclean rest pos => ?_, fun a b hsplit hb pos => ?_⟩
  · by_cases hclean : NoNull t
    · exact .inl ⟨hclean, lift_ok (hreads hclean rest pos)⟩
    · obtain ⟨offset, r, hr⟩ := hrefuses hclean rest pos
      exact .inr ⟨_, r, lift_error hr⟩
  · obtain ⟨offset, r, hr⟩ := hrefuses hclean rest pos
    exact ⟨offset, r, lift_error hr⟩
  · by_cases hclean : NoNull t
    · obtain ⟨e, r, hr⟩ := stable_readUtf.error_of_cut (hreads hclean) hsplit hb pos
      exact ⟨e, r, lift_error hr⟩
    · -- What succeeds on a part succeeds on the whole.
      rcases hrun : readUtf ⟨a, pos⟩ with ⟨e | v, r⟩
      · exact ⟨e, r, lift_error hrun⟩
      · obtain ⟨used, hused, hv⟩ := stable_readUtf _ _ _ hrun
        obtain ⟨offset, r', hr⟩ := hrefuses hclean [] pos
        have ha : a = used ++ r.inner := hused
        rw [List.append_nil, hsplit, ha, List.append_assoc, hv] at hr
        cases hr

end Written

end FlinkExplorer
