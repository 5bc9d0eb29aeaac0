import FlinkExplorer.Reader.CheckedCalls
import FlinkExplorer.Tui.Total

namespace FlinkExplorer

open Lib

/-!
# `tui/tree.rs` — a range of key-groups

The filter of a key-group range asks which subtask the start of the range belongs to, whatever that
start is.  With it, every use of an operator's parallelism, max parallelism and key-groups is modelled.

* `ArithmeticSafe` — what the arithmetic of an operator's key-groups should be like;
* `arithmeticSafe_iff` — when it is.
-/

/-- `rangeSeq`, the arithmetic of it checked. -/
def KeyedSnapshot.rangeSeqChecked (R : StateReader) (maxParallelism parallelism : Int)
    (k : KeyedSnapshot) (start stop : UInt16) (cache : BlockCache) : Option KeySeq := do
  let subtask ← subtaskForKeyGroupDiv maxParallelism parallelism start.toNat
  let from' : Cursor := ⟨subtask, start, 0⟩
  let (answer, _) ← R.keyPageChecked k.opHex from' 1 cache
  pure { KeySeq.browse (if answer.isOk then from' else .start) with
    stopKg := some stop, startKg := start }

/-- Whatever is asked of an operator, no sum, product, quotient or remainder of its integers goes
    wrong, every key-group handed on is the real one, and the answer is the one it would be with
    numbers that have no end; and every chain of calls ends. -/
structure ArithmeticSafe (R : StateReader) (o : OpenOperator) (op : Text) : Prop where
  get : ∀ keyText cache, R.Reached cache →
    R.getChecked op keyText cache = some (R.get op keyText cache)
  cursorAt : ∀ keyGroup, R.cursorAtChecked op keyGroup = some (R.cursorAt op keyGroup)
  keyPage : ∀ cursor limit cache, R.Reached cache →
    R.keyPageChecked op cursor limit cache = some (R.keyPage op cursor limit cache)
  scanWith : ∀ (τ : Type) cursor opts (test : τ → Text → τ × Bool) t cache, R.Reached cache →
    R.scanWithChecked op cursor opts test t cache = some (R.scanWith op cursor opts test t cache)
  count : ∀ cursor byteBudget cache, R.Reached cache →
    R.countChecked op cursor byteBudget cache = some (R.count op cursor byteBudget cache)
  range : ∀ k : KeyedSnapshot, k.opHex = op → ∀ start stop cache, R.Reached cache →
    k.rangeSeqChecked R o.maxParallelism o.parallelism start stop cache
      = some (k.rangeSeq R o.maxParallelism o.parallelism start stop cache)
  ends : ∀ cursors : Nat → Cursor, ¬ ∀ i, R.Follows op (cursors i) (cursors (i + 1))

section Safe

variable {R : StateReader} {o : OpenOperator} {op : Text}

theorem rangeSeqChecked_eq (hop : R.operator op = .ok o) (hfit : KeyGroupsFit R o) {k : KeyedSnapshot}
    (hk : k.opHex = op) (start stop : UInt16) (cache : BlockCache) :
    k.rangeSeqChecked R o.maxParallelism o.parallelism start stop cache
      = some (k.rangeSeq R o.maxParallelism o.parallelism start stop cache) := by
  have hlt : (start.toNat : Int) < 65536 := by
    have := start.toNat_lt
    omega
  have hsubtask := subtaskForKeyGroupDiv_eq hfit.maxParallelism hfit.parallelism.1
    hfit.parallelism.2 (Int.natCast_nonneg _) hlt
  unfold KeyedSnapshot.rangeSeqChecked KeyedSnapshot.rangeSeq StateReader.keyPageChecked
    StateReader.keyPage
  rw [hk, hsubtask, Option.bind_eq_bind, Option.bind_some]
  dsimp only
  rw [pageChecked_eq hop hfit.walked]
  rfl

/-- Key-groups that fit are safe. -/
theorem arithmeticSafe (hop : R.operator op = .ok o) (hsized : R.Sized o) (hfit : KeyGroupsFit R o) :
    ArithmeticSafe R o op where
  get keyText cache _ := getChecked_eq hop hfit keyText cache
  cursorAt keyGroup := cursorAtChecked_eq hop hfit keyGroup
  keyPage _ _ _ _ := pageChecked_eq hop hfit.walked _ _ _ _ _ _
  scanWith _ _ _ _ _ _ _ := pageChecked_eq hop hfit.walked _ _ _ _ _ _
  count _ _ _ _ := pageChecked_eq hop hfit.walked _ _ _ _ _ _
  range _ hk start stop cache _ := rangeSeqChecked_eq hop hfit hk start stop cache
  ends := follows_ends hop hsized hfit.walked

/-! ### What safe calls show -/

/-- Key-group 0 can be asked for, with the subtask that holds it. -/
theorem exists_accepted (o : OpenOperator) :
    ∃ c : Cursor, c.keyGroup = 0 ∧ o.checkCursor c = .ok () := by
  refine ⟨⟨(o.ctx.unitOf 0).elim 0 ReadUnit.subtask, 0, 0⟩, rfl, ?_⟩
  unfold OpenOperator.checkCursor
  have hbelow : ¬ (((0 : UInt16).toNat : Nat) : Int) ≥ max o.maxParallelism 1 := by
    have hzero : (((0 : UInt16).toNat : Nat) : Int) = 0 := rfl
    omega
  rw [if_neg hbelow]
  have hzero : (((0 : UInt16).toNat : Nat) : Int) = 0 := rfl
  rw [hzero]
  cases o.ctx.unitOf 0 with
  | none => rfl
  | some u => exact if_neg (not_not.mpr rfl)

theorem walked_of_safe (hop : R.operator op = .ok o) (h : ArithmeticSafe R o op) :
    WalkedFrom o.ctx.units 0 := by
  obtain ⟨c, hc, hcheck⟩ := exists_accepted o
  obtain ⟨least, hleast⟩ := loopChecked_whole (R.grouped o false) o.ctx.units
    ((Walk.endKeyGroup o.ctx.units - (c.keyGroup.toNat : Int)).toNat + 1) 0 0 .zero
    (BlockCache.empty 0)
  have hcount := h.count c least (.empty 0) ⟨0, [], rfl⟩
  unfold StateReader.countChecked StateReader.pageChecked at hcount
  rw [hop] at hcount
  obtain ⟨checked, hchecked, hcount⟩ := Option.bind_eq_some_iff.mp hcount
  obtain rfl : checked = .ok () := by
    unfold OpenOperator.checkCursorChecked at hchecked
    rw [hcheck] at hchecked
    split at hchecked
    · exact (Option.some.inj hchecked).symm
    · obtain ⟨_, -, hchecked⟩ := Option.bind_eq_some_iff.mp hchecked
      exact (Option.some.inj hchecked).symm
  dsimp only at hcount
  obtain ⟨pos, hpos, hcount⟩ := Option.bind_eq_some_iff.mp hcount
  obtain ⟨r, hr, -⟩ := Option.bind_eq_some_iff.mp hcount
  have hzero : (c.keyGroup.toNat : Int) = 0 := by rw [hc]; rfl
  rw [hzero] at hpos
  exact hleast least le_rfl _ pos r rfl hpos hr

/-- A start of a range whose subtask can be computed. -/
theorem divides_of_safe (h : ArithmeticSafe R o op) (start : UInt16) :
    o.maxParallelism ≠ 0 ∧ -2 ^ 31 ≤ start.toNat * o.parallelism
      ∧ start.toNat * o.parallelism < 2 ^ 31 := by
  have hrange := h.range (.new op [] []) rfl start 0 (.empty 0) ⟨0, [], rfl⟩
  obtain ⟨subtask, hsubtask, -⟩ := Option.bind_eq_some_iff.mp hrange
  obtain ⟨product, hproduct, hdiv⟩ := Option.bind_eq_some_iff.mp hsubtask
  obtain ⟨-, hlo, hhi⟩ := Checked.signed_isSome hproduct
  exact ⟨Checked.div_isSome hdiv, hlo, hhi⟩

theorem keyGroupsFit_of_safe (hop : R.operator op = .ok o) (h : ArithmeticSafe R o op) :
    KeyGroupsFit R o where
  maxParallelism := (divides_of_safe h 0).1
  parallelism := by
    obtain ⟨-, hlo, hhi⟩ := divides_of_safe h 65535
    have hlast : (((65535 : UInt16).toNat : Nat) : Int) = 65535 := rfl
    rw [hlast] at hlo hhi
    omega
  walked := walked_of_safe hop h
  lookedUp := by
    intro first hfirst keyText key canonical hparse
    have hget := h.get keyText (.empty 0) ⟨0, [], rfl⟩
    unfold StateReader.getChecked at hget
    rw [hop] at hget
    dsimp only at hget
    rw [hfirst] at hget
    dsimp only at hget
    rw [hparse] at hget
    obtain ⟨kg, hkg, hget⟩ := Option.bind_eq_some_iff.mp hget
    obtain ⟨keyGroup, hkeyGroup, -⟩ := Option.bind_eq_some_iff.mp hget
    rw [keyGroupForHashChecked_eq (divides_of_safe h 0).1] at hkg
    obtain rfl := Option.some.inj hkg
    exact (of_keyGroupU16 hkeyGroup).2.1
  headless := by
    intro hfirst u hu
    have hget := h.get [] (.empty 0) ⟨0, [], rfl⟩
    unfold StateReader.getChecked at hget
    rw [hop] at hget
    dsimp only at hget
    rw [hfirst] at hget
    dsimp only at hget
    rw [Option.mem_def.mp hu] at hget
    obtain ⟨why, hwhy, -⟩ := Option.bind_eq_some_iff.mp hget
    exact (ReadUnit.of_unreadableChecked hwhy).2.2.1

/-- **The arithmetic of an operator's key-groups is safe** exactly when its integers fit. -/
theorem arithmeticSafe_iff (hop : R.operator op = .ok o) (hsized : R.Sized o) :
    ArithmeticSafe R o op ↔ KeyGroupsFit R o :=
  ⟨keyGroupsFit_of_safe hop, arithmeticSafe hop hsized⟩

end Safe

/-! ### One key-group, and none -/

section Sole

private theorem fits_sole : KeyGroupsFit (soleReader sampleStream) (soleOperator sampleStream) where
  maxParallelism := Int.one_ne_zero
  parallelism := ⟨by decide, by decide⟩
  walked := by
    refine ⟨fun u hu => ?_, fun b _ => ?_⟩
    · obtain rfl := List.mem_singleton.mp hu
      exact ⟨by decide, by decide⟩
    · exact real_of_bounded (fun u hu => by
        obtain rfl := List.mem_singleton.mp hu
        exact ⟨by decide, by decide⟩) b
  lookedUp := by
    intro first _ keyText key canonical _
    have hone : keyGroupForHash key.hashCode (soleOperator sampleStream).maxParallelism = 0 :=
      Int.tmod_one _
    rw [hone]
    decide
  headless := by
    intro hfirst
    cases hfirst

/-- One key-group. -/
theorem arithmeticSafe_sole :
    ArithmeticSafe (soleReader sampleStream) (soleOperator sampleStream) "01".toList :=
  (arithmeticSafe_iff rfl sized_soleReader).mpr fits_sole

/-- The operator with a max parallelism of 0. -/
def emptyOperator : OpenOperator := { soleOperator sampleStream with maxParallelism := 0 }

def emptyReader : StateReader :=
  { sampleReader 1 with
    operators := [emptyOperator]
    opIndex_eq := by
      intro i o h
      rcases i with _ | i
      · cases h
        rfl
      · cases h }

/-- **A lookup divides by zero** where the max parallelism is 0, and so does a range of key-groups. -/
theorem not_arithmeticSafe_empty :
    emptyReader.operator "01".toList = .ok emptyOperator
      ∧ emptyReader.getChecked "01".toList "7".toList (.empty 0) = none
      ∧ (KeyedSnapshot.new "01".toList [] []).rangeSeqChecked emptyReader 0 1 0 0 (.empty 0) = none
      ∧ ¬ ArithmeticSafe emptyReader emptyOperator "01".toList := by
  have hget : emptyReader.getChecked "01".toList "7".toList (.empty 0) = none := by
    have hnone : (emptyReader.getChecked "01".toList "7".toList (.empty 0)).isNone = true := by
      decide +kernel
    exact Option.isNone_iff_eq_none.mp hnone
  have hsubtask : subtaskForKeyGroupDiv 0 1 (0 : UInt16).toNat = none := by decide
  refine ⟨rfl, hget, ?_, fun h => ?_⟩
  · unfold KeyedSnapshot.rangeSeqChecked
    rw [hsubtask]
    rfl
  · have hsome := h.get "7".toList (.empty 0) ⟨0, [], rfl⟩
    rw [hget] at hsome
    cases hsome

end Sole

end FlinkExplorer
