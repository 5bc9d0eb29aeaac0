import FlinkExplorer.Export.Ndjson

namespace FlinkExplorer

open Lib

/-!
# An export in either format

The reading side of an export does not depend on where its rows go.

* `Replays` — a step feeds some rows to its sink, and goes the same on any other sink that takes
  them; loops of such steps are steps of this kind;
* `exportStateRows_ok_iff` — so a state is exported into a sink exactly when it is to NDJSON and the
  sink takes its rows.
-/

section Feed

variable {σ : Type} {sink : RowSink σ}

theorem feed_append (rows rows' : List StateRow) (t : σ) :
    sink.feed (rows ++ rows') t = sink.feed rows t >>= sink.feed rows' := by
  unfold RowSink.feed
  rw [List.foldlM_append]

/-- Rows that are taken one after the other. -/
theorem feed_append_ok {rows rows' : List StateRow} {t t' : σ}
    (h : sink.feed (rows ++ rows') t = .ok t') :
    ∃ mid, sink.feed rows t = .ok mid ∧ sink.feed rows' mid = .ok t' := by
  rw [feed_append] at h
  cases hfeed : sink.feed rows t with
  | error e =>
    rw [hfeed] at h
    cases h
  | ok mid =>
    rw [hfeed] at h
    exact ⟨mid, rfl, h⟩

theorem feed_singleton (row : StateRow) (t : σ) : sink.feed [row] t = sink.row row t := by
  unfold RowSink.feed
  rw [List.foldlM_cons]
  cases sink.row row t <;> rfl

end Feed

/-- A step of an export, on a sink of any kind. -/
abbrev SinkStep (ι α : Type) := ∀ σ : Type, RowSink σ → ι × σ → α → Except Text (ι × σ)

/-- The rows that a step feeds to its sink decide all it does. -/
def Replays {ι α : Type} (step : SinkStep ι α) : Prop :=
  ∀ (σ : Type) (sink : RowSink σ) (n n' : ι) (t t' : σ) (x : α),
    step σ sink (n, t) x = .ok (n', t') → ∃ rows, sink.feed rows t = .ok t' ∧
      ∀ (τ : Type) (sink' : RowSink τ) (u u' : τ),
        sink'.feed rows u = .ok u' → step τ sink' (n, u) x = .ok (n', u')

/-- A loop of steps. -/
theorem Replays.loop {ι α : Type} {step : SinkStep ι α} (h : Replays step) :
    Replays fun σ sink st (xs : List α) => xs.foldlM (step σ sink) st := by
  intro σ sink n n' t t' xs hok
  induction xs generalizing n t with
  | nil =>
    obtain ⟨rfl, rfl⟩ := Prod.mk.inj (Except.ok.inj hok)
    refine ⟨[], rfl, fun τ sink' u u' hfeed => ?_⟩
    obtain rfl : u = u' := Except.ok.inj hfeed
    rfl
  | cons x xs ih =>
    obtain ⟨⟨mid, m⟩, hx, hrest⟩ := foldlM_cons_ok hok
    obtain ⟨rows₁, hfeed₁, hreplay₁⟩ := h σ sink n mid t m x hx
    obtain ⟨rows₂, hfeed₂, hreplay₂⟩ := ih mid m hrest
    refine ⟨rows₁ ++ rows₂, ?_, fun τ sink' u u' hfeed => ?_⟩
    · rw [feed_append, hfeed₁]
      exact hfeed₂
    · obtain ⟨v, hv, hu'⟩ := feed_append_ok hfeed
      show (x :: xs).foldlM (step τ sink') (n, u) = _
      rw [List.foldlM_cons, hreplay₁ τ sink' u v hv]
      exact hreplay₂ τ sink' v u' hu'

section Steps

variable (R : StateReader)

theorem exportEntry_replays (op : Text) (subtask : Int) (sub : ResolvedState) :
    Replays fun _ sink => exportEntry R sink op subtask sub := by
  intro σ sink n n' t t' e hok
  change exportEntry R sink op subtask sub (n, t) e = _ at hok
  unfold exportEntry at hok
  dsimp only at hok
  cases hrow : sink.row (rowOf R op subtask sub n e) t with
  | error error =>
    rw [hrow] at hok
    cases hok
  | ok mid =>
    rw [hrow] at hok
    obtain ⟨rfl, rfl⟩ := Prod.mk.inj (Except.ok.inj hok)
    refine ⟨[rowOf R op subtask sub n e], by rw [feed_singleton, hrow], ?_⟩
    intro τ sink' u u' hfeed
    rw [feed_singleton] at hfeed
    show exportEntry R sink' op subtask sub (n, u) e = _
    unfold exportEntry
    dsimp only
    rw [hfeed]
    rfl

theorem exportBlock_replays (o : OpenOperator) (s : SubtaskStream) (header : SubtaskHeader)
    (stateId : UInt16) (sub : ResolvedState) :
    Replays fun _ sink => exportBlock R sink o s header stateId sub := by
  intro σ sink stats stats' t t' i hok
  change exportBlock R sink o s header stateId sub (stats, t) i = _ at hok
  unfold exportBlock at hok
  cases hrange : s.blockRange i with
  | none =>
    rw [hrange] at hok
    obtain ⟨rfl, rfl⟩ := Prod.mk.inj (Except.ok.inj hok)
    refine ⟨[], rfl, fun τ sink' u u' hfeed => ?_⟩
    obtain rfl : u = u' := Except.ok.inj hfeed
    show exportBlock R sink' o s header stateId sub (stats, u) i = _
    unfold exportBlock
    rw [hrange]
    rfl
  | some range =>
    obtain ⟨start, last⟩ := range
    simp only [hrange] at hok
    cases hread : s.src.read R.files start last with
    | error e =>
      rw [hread] at hok
      cases hok
    | ok bytes =>
      rw [hread] at hok
      dsimp only [bind, Except.bind] at hok
      cases hinflate : R.keyGroupBlock bytes header.compressed with
      | error e =>
        rw [hinflate] at hok
        cases hok
      | ok block =>
        rw [hinflate] at hok
        dsimp only at hok
        -- the rows of the block are those its entries feed
        split at hok
        · cases hok
        · rename_i fed hfed
          obtain ⟨n, fed⟩ := fed
          obtain ⟨rows, hrows, hreplay⟩ :=
            (exportEntry_replays R (hexId o.id) s.subtaskIndex sub).loop σ sink _ _ _ _ _ hfed
          have hsame : t' = fed := by
            split at hok
            · exact (Prod.mk.inj (Except.ok.inj hok)).2.symm
            · exact (Prod.mk.inj (Except.ok.inj hok)).2.symm
          subst hsame
          refine ⟨rows, hrows, fun τ sink' u u' hfeed => ?_⟩
          have hfed' := hreplay τ sink' u u' hfeed
          dsimp only at hfed'
          show exportBlock R sink' o s header stateId sub (stats, u) i = _
          unfold exportBlock
          simp only [hrange, hread]
          dsimp only [bind, Except.bind]
          rw [hinflate]
          dsimp only
          rw [hfed']
          dsimp only
          split at hok
          · rw [← (Prod.mk.inj (Except.ok.inj hok)).1]
            rfl
          · rw [← (Prod.mk.inj (Except.ok.inj hok)).1]
            rfl

theorem exportStream_replays (o : OpenOperator) (stateName : Text) :
    Replays fun _ sink => exportStream R sink o stateName := by
  intro σ sink stats stats' t t' s hok
  change exportStream R sink o stateName (stats, t) s = _ at hok
  unfold exportStream at hok
  -- No bytes, an unreadable header, a state the header does not name, or a loop over blocks.
  by_cases hempty : s.src.len = 0
  · rw [if_pos hempty] at hok
    obtain ⟨rfl, rfl⟩ := Prod.mk.inj (Except.ok.inj hok)
    refine ⟨[], rfl, fun τ sink' u u' hfeed => ?_⟩
    obtain rfl : u = u' := Except.ok.inj hfeed
    show exportStream R sink' o stateName (stats, u) s = _
    unfold exportStream
    rw [if_pos hempty]
    rfl
  · rw [if_neg hempty] at hok
    cases hheader : s.header with
    | error e =>
      rw [hheader] at hok
      cases hok
    | ok header =>
      rw [hheader] at hok
      dsimp only [bind, Except.bind] at hok
      cases hresolved : header.resolved stateName with
      | none =>
        rw [hresolved] at hok
        obtain ⟨rfl, rfl⟩ := Prod.mk.inj (Except.ok.inj hok)
        refine ⟨[], rfl, fun τ sink' u u' hfeed => ?_⟩
        obtain rfl : u = u' := Except.ok.inj hfeed
        show exportStream R sink' o stateName (stats, u) s = _
        unfold exportStream
        rw [if_neg hempty, hheader]
        dsimp only [bind, Except.bind]
        rw [hresolved]
        rfl
      | some found =>
        rw [hresolved] at hok
        obtain ⟨rows, hrows, hreplay⟩ :=
          (exportBlock_replays R o s header found.1 found.2).loop σ sink _ _ _ _ _ hok
        refine ⟨rows, hrows, fun τ sink' u u' hfeed => ?_⟩
        show exportStream R sink' o stateName (stats, u) s = _
        unfold exportStream
        rw [if_neg hempty, hheader]
        dsimp only [bind, Except.bind]
        rw [hresolved]
        exact hreplay τ sink' u u' hfeed

end Steps

/-- A sink that keeps its rows. -/
def recorder : RowSink (List StateRow) where
  row row rows := .ok (rows ++ [row])
  finish := .ok

theorem feed_recorder (rows before : List StateRow) :
    recorder.feed rows before = .ok (before ++ rows) := by
  induction rows generalizing before with
  | nil => exact congrArg Except.ok (List.append_nil before).symm
  | cons row rows ih =>
    have hrow : recorder.feed [row] before = .ok (before ++ [row]) := feed_singleton row before
    rw [← List.singleton_append, feed_append, hrow]
    show recorder.feed rows (before ++ [row]) = _
    rw [ih, List.append_assoc]

section Export

variable {R : StateReader} {operator : Option Text} {stateName : Text} {stats : ExportStats} {σ : Type}
  {sink : RowSink σ}

/-- **An export goes the same on any sink that takes its rows.** -/
theorem exportStateRows_replays {t t' : σ}
    (hok : exportStateRows R sink operator stateName t = .ok (stats, t')) {τ : Type}
    {sink' : RowSink τ} {o : OpenOperator} {u fed u' : τ}
    (htarget : exportTarget R operator stateName = .ok o)
    (hfeed : sink'.feed (R.rowsOf o stateName) u = .ok fed) (hfinish : sink'.finish fed = .ok u') :
    exportStateRows R sink' operator stateName u = .ok (stats, u') := by
  unfold exportStateRows at hok
  rw [htarget] at hok
  dsimp only [bind, Except.bind] at hok
  split at hok
  · cases hok
  · rename_i st hloop
    split at hok
    · cases hok
    · obtain ⟨rfl, -⟩ := Prod.mk.inj (Except.ok.inj hok)
      obtain ⟨rows, -, hreplay⟩ :=
        (exportStream_replays R o stateName).loop σ sink _ _ _ _ _ hloop
      have hexport {υ : Type} {other : RowSink υ} {v mid v' : υ} (hmid : other.feed rows v = .ok mid)
          (hlast : other.finish mid = .ok v') :
          exportStateRows R other operator stateName v = .ok (st.1, v') := by
        have hloop' := hreplay υ other v mid hmid
        dsimp only at hloop'
        unfold exportStateRows
        rw [htarget]
        dsimp only [bind, Except.bind]
        rw [hloop']
        dsimp only
        rw [hlast]
        rfl
      -- on a sink that keeps its rows it is seen which they are
      obtain ⟨o', htarget', ⟨kept, hkept, hlast⟩, -⟩ :=
        exportStateRows_ok (hexport (feed_recorder rows []) rfl)
      obtain rfl : o = o' := Except.ok.inj (htarget.symm.trans htarget')
      rw [feed_recorder] at hkept
      have hrows : R.rowsOf o stateName = rows :=
        (Except.ok.inj hkept).trans (Except.ok.inj hlast)
      exact hexport (hrows ▸ hfeed) hfinish

/-- **A state is exported into a sink** exactly when it is exported to NDJSON — with the same
    counts — and the sink takes its rows, in order, and finishes. -/
theorem exportStateRows_ok_iff (R : StateReader) (operator : Option Text) (stateName : Text)
    (stats : ExportStats) (sink : RowSink σ) (t t' : σ) :
    exportStateRows R sink operator stateName t = .ok (stats, t')
      ↔ (∃ out, exportStateNdjson R operator stateName = .ok (stats, out))
        ∧ ∃ o fed, exportTarget R operator stateName = .ok o
          ∧ sink.feed (R.rowsOf o stateName) t = .ok fed ∧ sink.finish fed = .ok t' := by
  constructor
  · intro hok
    obtain ⟨o, htarget, ⟨fed, hfeed, hfinish⟩, -⟩ := exportStateRows_ok hok
    have hlines := feed_ndjsonSink (R.rowsOf o stateName) []
    exact ⟨⟨_, exportStateRows_replays hok htarget hlines rfl⟩, o, fed, htarget, hfeed, hfinish⟩
  · rintro ⟨⟨out, hout⟩, o, fed, htarget, hfeed, hfinish⟩
    exact exportStateRows_replays hout htarget hfeed hfinish

end Export

end FlinkExplorer
