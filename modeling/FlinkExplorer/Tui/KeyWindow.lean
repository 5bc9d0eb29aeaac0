import FlinkExplorer.Tui.Filtered

namespace FlinkExplorer

open Lib

/-!
# `tui/tree.rs` — the window of keys, over a run

The positions known, the rows loaded and the offset change apart from each other: pages, reports,
filters and readers come in any order, and the rows of one are kept for the next.

* `OperatorTree.Run` — runs with the filter in place, of steps that meet a condition;
* `WindowInOrder` — the window shows the reader's order;
* `KeyInv`, `Held` — what holds in every state; `Held.effect`, `Held.clear`, `Held.apply`,
  `Stepped.rebuilt` — steps keep it;
* `window_in_order` — in a run whose steps fit, the window is always in order.
-/

/-! ### Runs -/

namespace OperatorTree

variable (T : CaseTables)

/-- Runs from `t₀`, with the filter that is in place; every step meets a condition. -/
inductive Run (Meets : OperatorTree → OperatorTree → Prop) (t₀ : OperatorTree) :
    Option AppliedFilter → OperatorTree → Prop
  | start : Run Meets t₀ none t₀
  | effect {f : Option AppliedFilter} {t mid t' : OperatorTree} (h : Run Meets t₀ f t)
    (heffect : t.Effect mid) (hmeets : Meets t mid) (hrebuilt : mid.Rebuilt t') : Run Meets t₀ f t'
  | clear {f : Option AppliedFilter} {t t' : OperatorTree} (h : Run Meets t₀ f t)
    (cache : BlockCache) (hmeets : Meets t (t.filter none cache []))
    (hrebuilt : (t.filter none cache []).Rebuilt t') : Run Meets t₀ none t'
  | apply {f : Option AppliedFilter} {t t' : OperatorTree} (h : Run Meets t₀ f t)
    (f' : AppliedFilter) {cache : BlockCache} {caches : Nat → BlockCache}
    (hcache : t.reader.Reached cache) (hcaches : ∀ i, t.reader.Reached (caches i))
    {stepBytes maxMatches turns : Nat} {msgs : List SearchMsg}
    (hmsgs : t.reader.searchJob caches t.keyed.opHex (f'.test T) stepBytes maxMatches turns 0 .start
      .empty = some msgs)
    (hmeets : Meets t (t.filter (some f') cache msgs))
    (hrebuilt : (t.filter (some f') cache msgs).Rebuilt t') : Run Meets t₀ (some f') t'

variable (o : OpenOperator)

/-- **A step that fits.**  The matches of the reports that are taken are as the tree's reader decodes
    them, and where the operator is collapsed the rows that come fit in three pages. -/
structure Fits (t mid : OperatorTree) : Prop where
  decoded : ∀ n, mid = t.poll n → ∀ msg ∈ t.reports.take n, ∀ r ∈ msg.found,
    r ∈ t.reader.keysWhere o fun _ => true
  reports : t.expanded = false → ∀ n, mid = t.poll n →
    t.keyed.rows.length + min ((t.reports.take n).flatMap SearchMsg.found).length t.keyed.room
      ≤ 3 * partitionPageSize
  lookup : t.expanded = false → ∀ f cache msgs, mid = t.filter (some f) cache msgs →
    f.searches = true → t.keyed.rows.length < 3 * partitionPageSize

/-- The window scrolls forward by one key. -/
def Down (t t' : OperatorTree) : Prop :=
  (t.keyed.scroll true 1).2 ≠ 0
    ∧ ({ t with keyed := (t.keyed.scroll true 1).1 } : OperatorTree).Rebuilt t'

end OperatorTree

/-! ### What the window should show -/

section InOrder

variable (R : StateReader) (o : OpenOperator) (op : Text) (T : CaseTables)

/-- What `key_page` returns at a position, whatever is cached. -/
def StateReader.Returns (pos : Cursor) (r : KeyRecord) : Prop :=
  ∀ cache, R.Reached cache → ∃ page, (R.keyPage op pos 1 cache).1 = .ok page ∧ page.found = [r]

/-- The keys that a filter pages through. -/
def StateReader.orderOf : Option AppliedFilter → List Cursor
  | some (.keyGroupRange start stop) => R.rangeOrder o start (some stop)
  | _ => R.keyOrder o

/-- The keys of a sequence: for matches those found so far. -/
def StateReader.wholeOf (f : Option AppliedFilter) (k : KeyedSnapshot) : List Cursor :=
  if k.seq.isMatches then k.seq.positions else R.orderOf o f

/-- **The window is the reader's order.** -/
structure WindowInOrder (f : Option AppliedFilter) (t : OperatorTree) : Prop where
  /-- Browsed keys are the first ones of the order, without a gap or a repetition. -/
  all : t.keyed.all.positions <+: R.keyOrder o ∧ t.keyed.all.positions.Nodup
  filtered : t.keyed.descriptors ≠ [] → t.keyed.filtered.isSome = f.isSome
  range : ∀ start stop, f = some (.keyGroupRange start stop) → ∀ seq ∈ t.keyed.filtered,
    seq.positions <+: R.rangeOrder o start (some stop) ∧ seq.positions.Nodup
  /-- A search holds each key that matches once, and all of them when it has ended. -/
  search : ∀ f', f = some f' → f'.searches = true → ∀ seq ∈ t.keyed.filtered,
    seq.positions.Nodup
      ∧ (∀ pos ∈ seq.positions, ∃ r ∈ R.keysWhere o fun _ => true,
        r.position = pos ∧ (R.Named o f' r ∨ R.Takes o T f' r))
      ∧ (seq.next = none → ∀ r ∈ R.keysWhere o fun _ => true, R.Takes o T f' r →
        r.position ∈ seq.positions)
  /-- What the window shows at a position is what the reader returns there. -/
  shown : t.expanded = true → t.keyed.descriptors ≠ [] → ∀ pos ∈ t.keyed.visible,
    ∃ r, t.reader.Returns op pos r ∧ t.keyed.rows.get pos = some (.new r t.keyed.descriptors)
  few : t.keyed.rows.length ≤ 3 * partitionPageSize
  /-- Scrolling forward key by key comes to an end, and shows every key on the way. -/
  scrolled : t.expanded = true → t.keyed.descriptors ≠ [] →
    (∃ t', Relation.ReflTransGen OperatorTree.Down t t' ∧ (t'.keyed.scroll true 1).2 = 0)
      ∧ ∀ t', Relation.ReflTransGen OperatorTree.Down t t' → (t'.keyed.scroll true 1).2 = 0 →
        ∀ i pos, t.keyed.seq.offset ≤ i → (R.wholeOf o f t.keyed)[i]? = some pos →
          ∃ t₁, Relation.ReflTransGen OperatorTree.Down t t₁
            ∧ Relation.ReflTransGen OperatorTree.Down t₁ t' ∧ pos ∈ t₁.keyed.visible

end InOrder

/-! ### What holds in every state -/

section Inv

variable (R R' : StateReader) (o : OpenOperator) (op : Text) (T : CaseTables)
  (d : List StateDesc) (f : Option AppliedFilter)

/-- What is known of the sequence of a filter; `R` is any reader of the savepoint. -/
inductive Filtered (k : KeyedSnapshot) (msgs : List SearchMsg) : Prop
  | none (hf : f = none ∨ d = []) (h : k.filtered = none) (hmsgs : msgs = [])
  | range {start stop : UInt16} {seq : KeySeq} (hf : f = some (.keyGroupRange start stop))
    (hd : d ≠ []) (h : k.filtered = some seq) (hseq : seq.Browsed R o start (some stop))
    (hmsgs : msgs = [])
  | search {f' : AppliedFilter} {R₁ : StateReader} {seq : KeySeq} (hf : f = some f')
    (hsearches : f'.searches = true) (hd : d ≠ []) (hsame : R.SameSavepoint R₁)
    (h : Searched R₁ o (R₁.Named o f') (R₁.Takes o T f') k msgs seq)

/-- **What holds of a snapshot**, of which rows are decoded by `R'`. -/
structure KeyInv (k : KeyedSnapshot) (msgs : List SearchMsg) : Prop where
  opHex : k.opHex = op
  descriptors : k.descriptors = d
  all : k.all.Browsed R o 0 none
  filtered : Filtered R o T d f k msgs
  rows : k.rows.Of R' o d

end Inv

section Kept

variable {R R' R'' : StateReader} {o : OpenOperator} {op : Text} {T : CaseTables}
  {d : List StateDesc} {f : Option AppliedFilter} {k k' : KeyedSnapshot} {msgs : List SearchMsg}

theorem KeyedSnapshot.seq_none (h : k.filtered = none) : k.seq = k.all := by
  unfold KeyedSnapshot.seq
  rw [h]
  rfl

theorem KeyedSnapshot.seq_some {seq : KeySeq} (h : k.filtered = some seq) : k.seq = seq := by
  unfold KeyedSnapshot.seq
  rw [h]
  rfl

/-- What leaves the sequences alone keeps what is known of them. -/
theorem Filtered.same (h : Filtered R o T d f k msgs) (hk' : k'.filtered = k.filtered) :
    Filtered R o T d f k' msgs := by
  cases h with
  | none hf h hmsgs => exact .none hf (hk'.trans h) hmsgs
  | range hf hd h hseq hmsgs => exact .range hf hd (hk'.trans h) hseq hmsgs
  | search hf hsearches hd hsame h => exact .search hf hsearches hd hsame (h.same hk')

theorem KeyInv.same (h : KeyInv R R' o op T d f k msgs) (hkeeps : k.KeepsAll k')
    (hfiltered : k'.filtered = k.filtered) (hrows : k'.rows.Of R'' o d) :
    KeyInv R R'' o op T d f k' msgs := by
  obtain ⟨offset, hall⟩ := hkeeps.all
  refine ⟨hkeeps.opHex.trans h.opHex, hkeeps.descriptors.trans h.descriptors, ?_,
    h.filtered.same hfiltered, hrows⟩
  rw [hall]
  exact h.all.moved offset

/-- The positions of the sequence that is shown are those of keys. -/
theorem KeyInv.reads (ho : o.Regular) (hsized : R.Sized o) (h : KeyInv R R' o op T d f k msgs) :
    k.seq.Reads R o := by
  rcases h.filtered with ⟨-, hnone, -⟩ | ⟨-, -, hsome, hseq, -⟩ | ⟨-, -, -, hsame, hsearched⟩
  · rw [KeyedSnapshot.seq_none hnone]
    exact h.all.reads ho hsized
  · rw [KeyedSnapshot.seq_some hsome]
    exact hseq.reads ho hsized
  · rw [KeyedSnapshot.seq_some hsearched.filtered]
    refine ⟨fun pos hpos => ?_, fun hbrowse => ?_⟩
    · obtain ⟨r, hr, rfl, -⟩ := hsearched.shown pos hpos
      rw [← hsame.keyOrder ho]
      exact List.mem_map_of_mem hr
    · rw [hsearched.isMatches] at hbrowse
      cases hbrowse

/-- **A page keeps it.** -/
theorem KeyInv.pageIn (hop : R.operator op = .ok o) (ho : o.Regular) (hsized : R.Sized o)
    (hsame : R.SameSavepoint R') {caches : Nat → BlockCache} (hcaches : ∀ i, R'.Reached (caches i))
    (h : KeyInv R R' o op T d f k msgs) (hbrowse : k.seq.isMatches = false) (call limit : Nat)
    {c : Cursor} (hnext : k.seq.next = some c) :
    KeyInv R R' o op T d f (k.pageIn R' (k.pageAt R' caches call c limit)) msgs := by
  -- The rows of a page are of keys.
  have hrows {page : Page (List KeyRecord)} (hmem : ∀ r ∈ page.found, r ∈ R'.keysWhere o fun _ => true) :
      (k.pageIn R' (.ok page)).rows.Of R' o d := by
    rw [KeyedSnapshot.pageIn_ok]
    show (k.rows.insertAll k.descriptors (k.seq.inRange page.found)).Of R' o d
    rw [h.descriptors]
    refine h.rows.insertAll fun r hr => hmem r ?_
    exact (List.takeWhile_sublist _).subset (List.mem_of_mem_filter hr)
  obtain ⟨hhex, hdescriptors, -, -⟩ := k.pageIn_frame R' (k.pageAt R' caches call c limit)
  rcases h.filtered with ⟨hf, hnone, hmsgs⟩ | ⟨hf, hd, hsome, hseq, hmsgs⟩ | ⟨-, -, -, -, hsearched⟩
  · obtain ⟨hall, hstill⟩ := k.all_pageIn_none R' (k.pageAt R' caches call c limit) hnone
    have hbrowsed := h.all
    rw [← KeyedSnapshot.seq_none hnone] at hbrowsed
    obtain ⟨page, hpage, hmem, hbrowsed', -⟩ :=
      browsed_pageIn hop ho hsized hsame hcaches h.opHex hbrowsed call limit hnext
    rw [hpage] at hhex hdescriptors hall hstill ⊢
    exact ⟨hhex.trans h.opHex, hdescriptors.trans h.descriptors, hall ▸ hbrowsed',
      .none hf hstill hmsgs, hrows hmem⟩
  · obtain ⟨hall, hstill⟩ := k.all_pageIn R' (k.pageAt R' caches call c limit) hsome
    rw [← KeyedSnapshot.seq_some hsome] at hseq
    obtain ⟨page, hpage, hmem, hbrowsed', -⟩ :=
      browsed_pageIn hop ho hsized hsame hcaches h.opHex hseq call limit hnext
    rw [hpage] at hhex hdescriptors hall hstill ⊢
    exact ⟨hhex.trans h.opHex, hdescriptors.trans h.descriptors, hall.symm ▸ h.all,
      .range hf hd hstill hbrowsed' hmsgs, hrows hmem⟩
  · rw [KeyedSnapshot.seq_some hsearched.filtered, hsearched.isMatches] at hbrowse
    cases hbrowse

/-- **Making sure of the window keeps it**, and makes sure of the window. -/
theorem KeyInv.ensureWindow (hop : R.operator op = .ok o) (ho : o.Regular) (hsized : R.Sized o)
    (hsame : R.SameSavepoint R') {caches : Nat → BlockCache} (hcaches : ∀ i, R'.Reached (caches i))
    (h : KeyInv R R' o op T d f k msgs) (hd : d ≠ []) {turns : Nat}
    (hk' : k.ensureWindow R' caches turns = some k') :
    KeyInv R R' o op T d f k' msgs ∧ k'.Ensured := by
  have hsome : ¬ k.descriptors.isEmpty = true := by
    rw [h.descriptors, List.isEmpty_iff]
    exact hd
  unfold KeyedSnapshot.ensureWindow at hk'
  rw [if_neg hsome] at hk'
  obtain ⟨⟨mid, call⟩, hmid, rfl⟩ := Option.map_eq_some_iff.mp hk'
  have hpaged : KeyInv R R' o op T d f mid msgs
      ∧ (mid.seq.isMatches = false → mid.seq.next = none ∨ mid.wanted ≤ mid.seq.positions.length) := by
    -- Matches are paged by the search itself; a browse pages until the window is covered.
    by_cases hmatches : k.seq.isMatches = true
    · rw [if_pos hmatches] at hmid
      obtain ⟨rfl, rfl⟩ := Prod.mk.inj (Option.some.inj hmid)
      refine ⟨h, fun hbrowse => ?_⟩
      rw [hmatches] at hbrowse
      cases hbrowse
    · rw [if_neg hmatches] at hmid
      have hkept := KeyedSnapshot.discover_spec
        (P := fun k => KeyInv R R' o op T d f k msgs ∧ k.seq.isMatches = false) ?_
        ⟨h, (Bool.not_eq_true _).mp hmatches⟩ hmid
      · exact ⟨hkept.1.1, fun _ => hkept.2⟩
      · rintro k call next limit ⟨hk, hbrowse⟩ hnext
        exact ⟨hk.pageIn hop ho hsized hsame hcaches hbrowse call _ hnext,
          (k.isMatches_pageIn R' _).trans hbrowse⟩
  obtain ⟨hinv, hahead⟩ := hpaged
  have hop' : R'.operator op = .ok o := hsame.operator ▸ hop
  have hrows := hinv.rows
  rw [← hinv.descriptors] at hrows
  obtain ⟨hensured, hof⟩ := KeyedSnapshot.ensured_evict hop' ho (hsame.sized hsized) hcaches hinv.opHex
    hrows ((hinv.reads ho hsized).same ho hsame) hahead call
  rw [hinv.descriptors] at hof
  obtain ⟨errors, malformed, rows, hkept, hload⟩ := KeyedSnapshot.loadRuns_frame R' caches call
    (KeyedSnapshot.runs (!mid.seq.isMatches) mid.missing) mid
  dsimp only
  refine ⟨hinv.same ?_ ?_ hof, hensured⟩
  · rw [hload]
    exact ⟨rfl, rfl, rfl, ⟨_, rfl⟩, hkept⟩
  · rw [hload]
    rfl

/-- **Scrolling keeps it.** -/
theorem KeyInv.scroll (h : KeyInv R R' o op T d f k msgs) (forward : Bool) (amount : Nat) :
    KeyInv R R' o op T d f (k.scroll forward amount).1 msgs := by
  have hkeeps := KeyedSnapshot.keepsAll_scroll forward amount k
  have hrows : (k.scroll forward amount).1.rows = k.rows := k.rows_setSeq _
  obtain ⟨offset, hall⟩ := hkeeps.all
  refine ⟨hkeeps.opHex.trans h.opHex, hkeeps.descriptors.trans h.descriptors,
    hall ▸ h.all.moved offset, ?_, hrows ▸ h.rows⟩
  rcases h.filtered with ⟨hf, hnone, hmsgs⟩ | ⟨hf, hd, hsome, hseq, hmsgs⟩ |
    ⟨hf, hsearches, hd, hsame, hsearched⟩
  · exact .none hf (k.all_setSeq_none _ hnone).2 hmsgs
  · obtain ⟨offset', hoffset⟩ := KeyedSnapshot.filtered_scroll hsome forward amount
    exact .range hf hd hoffset (hseq.moved offset') hmsgs
  · obtain ⟨offset', hoffset⟩ := KeyedSnapshot.filtered_scroll hsearched.filtered forward amount
    exact .search hf hsearches hd hsame (hsearched.moved hoffset)

end Kept

/-! ### Steps -/

section Steps

variable (R : StateReader) (o : OpenOperator) (op : Text) (T : CaseTables) (d : List StateDesc)
  (f : Option AppliedFilter)

/-- What holds after a step, before the window is made sure of. -/
structure Stepped (t : OperatorTree) : Prop where
  same : R.SameSavepoint t.reader
  inv : KeyInv R t.reader o op T d f t.keyed t.reports
  few : t.keyed.rows.length ≤ 3 * partitionPageSize ∨ t.expanded = true ∧ d ≠ []

/-- **What holds in every state of a run.** -/
structure Held (t : OperatorTree) : Prop where
  same : R.SameSavepoint t.reader
  inv : KeyInv R t.reader o op T d f t.keyed t.reports
  few : t.keyed.rows.length ≤ 3 * partitionPageSize
  ensured : t.expanded = true → d ≠ [] → t.keyed.Ensured

variable {R o op T d f} {t mid t' : OperatorTree}

/-- Reports are taken: those of a search, by a snapshot that awaits them. -/
theorem KeyInv.poll {k : KeyedSnapshot} {msgs : List SearchMsg} {R' : StateReader}
    (h : KeyInv R R' o op T d f k msgs) (host : HostText) (n : Nat)
    (hdecoded : ∀ msg ∈ msgs.take n, ∀ r ∈ msg.found, r ∈ R'.keysWhere o fun _ => true) :
    KeyInv R R' o op T d f ((msgs.take n).foldl (fun k msg => k.applySearch host msg) k)
      (msgs.drop n) := by
  have hkeeps := KeyedSnapshot.keepsAll_poll host (msgs.take n) k
  obtain ⟨offset, hall⟩ := hkeeps.all
  obtain ⟨taken, htaken, hrows, -⟩ := KeyedSnapshot.rows_poll host (msgs.take n) k
  rw [h.descriptors] at hrows
  have hof : (k.rows.insertAll d taken).Of R' o d := by
    refine h.rows.insertAll fun r hr => ?_
    obtain ⟨msg, hmsg, hfound⟩ := htaken r hr
    exact hdecoded msg hmsg r hfound
  have hquiet (hmsgs : msgs = []) : (msgs.take n).foldl (fun k msg => k.applySearch host msg) k = k
      ∧ msgs.drop n = [] := by
    subst hmsgs
    rw [List.take_nil, List.drop_nil]
    exact ⟨rfl, rfl⟩
  refine ⟨hkeeps.opHex.trans h.opHex, hkeeps.descriptors.trans h.descriptors,
    hall ▸ h.all.moved offset, ?_, hrows ▸ hof⟩
  rcases h.filtered with ⟨hf, hnone, hmsgs⟩ | ⟨hf, hd, hsome, hseq, hmsgs⟩ |
    ⟨hf, hsearches, hd, hsame, hsearched⟩
  · obtain ⟨hkeyed, hnothing⟩ := hquiet hmsgs
    rw [hkeyed, hnothing]
    exact .none hf hnone rfl
  · obtain ⟨hkeyed, hnothing⟩ := hquiet hmsgs
    rw [hkeyed, hnothing]
    exact .range hf hd hsome hseq rfl
  · obtain ⟨seq', hsearched'⟩ := hsearched.poll host n
    exact .search hf hsearches hd hsame hsearched'

/-- **Whatever happens under a filter** keeps what holds. -/
theorem Held.effect (h : Held R o op T d f t) (heffect : t.Effect mid) (hfits : t.Fits o mid) :
    Stepped R o op T d f mid := by
  -- A count changes nothing of the window.
  have hcounted (count : KeyCount) :
      Stepped R o op T d f { t with keyed := { t.keyed with count := count } } :=
    ⟨h.same, ⟨h.inv.opHex, h.inv.descriptors, h.inv.all, h.inv.filtered.same rfl, h.inv.rows⟩,
      .inl h.few⟩
  cases heffect with
  | redraw => exact ⟨h.same, h.inv, .inl h.few⟩
  | expand expanded => exact ⟨h.same, h.inv, .inl h.few⟩
  | scroll _ forward amount =>
    refine ⟨h.same, h.inv.scroll forward amount, .inl ?_⟩
    have hrows : (t.keyed.scroll forward amount).1.rows = t.keyed.rows := t.keyed.rows_setSeq _
    rw [hrows]
    exact h.few
  | poll n =>
    refine ⟨h.same, h.inv.poll t.reader.host n (hfits.decoded n rfl), ?_⟩
    obtain ⟨taken, -, hrows, hlength⟩ :=
      KeyedSnapshot.rows_poll t.reader.host (t.reports.take n) t.keyed
    have hmore := t.keyed.rows.length_insertAll_le t.keyed.descriptors taken
    show ((t.reports.take n).foldl (fun k msg => k.applySearch t.reader.host msg) t.keyed).rows.length
        ≤ 3 * partitionPageSize ∨ t.expanded = true ∧ d ≠ []
    rw [hrows]
    -- an expanded operator is redrawn, which evicts rows; else the condition bounds them
    by_cases hexpanded : t.expanded = true
    · by_cases hd : d = []
      · -- Without states nothing is searched for.
        rcases h.inv.filtered with ⟨-, hnone, -⟩ | ⟨-, hne, -⟩ | ⟨-, -, hne, -⟩
        · have hroom : t.keyed.room = 0 := by
            unfold KeyedSnapshot.room
            rw [hnone]
          have hfew := h.few
          rw [hroom] at hlength
          exact .inl (by omega)
        · exact absurd hd hne
        · exact absurd hd hne
      · exact .inr ⟨hexpanded, hd⟩
    · have hroom := hfits.reports ((Bool.not_eq_true _).mp hexpanded) n rfl
      exact .inl (by omega)
  | cancelSearch =>
    refine ⟨h.same, ?_, .inl h.few⟩
    have hcancelled : Filtered R o T d f t.keyed [] := by
      rcases h.inv.filtered with ⟨hf, hnone, -⟩ | ⟨hf, hd, hsome, hseq, -⟩ |
        ⟨hf, hsearches, hd, hsame, hsearched⟩
      · exact .none hf hnone rfl
      · exact .range hf hd hsome hseq rfl
      · exact .search hf hsearches hd hsame hsearched.cancel
    exact { h.inv with filtered := hcancelled }
  | setReader hreader =>
    -- the rows of the old reader are dropped with it
    exact ⟨h.same.trans hreader,
      h.inv.same ⟨rfl, rfl, rfl, ⟨_, rfl⟩, List.Subset.refl _⟩ rfl .nil, .inl (Nat.zero_le _)⟩
  | @count _ _ _ _ _ msg _ =>
    cases msg with
    | progress keys percent => exact hcounted (.counting keys percent)
    | done keys complete => exact hcounted (if complete then .exact keys else .atLeast keys)
  | cancelCount =>
    show Stepped R o op T d f { t with keyed := t.keyed.cancelCount }
    unfold KeyedSnapshot.cancelCount
    cases t.keyed.keyCount with
    | counting keys percent => exact hcounted (.atLeast keys)
    | unknown | exact keys | atLeast keys => exact ⟨h.same, h.inv, .inl h.few⟩
  | entriesFailed e =>
    exact ⟨h.same, h.inv.same (KeyedSnapshot.keepsAll_noteError _ e _) rfl h.inv.rows, .inl h.few⟩

/-- No filter: the sequence of all keys is shown again. -/
theorem Held.clear (h : Held R o op T d f t) (cache : BlockCache) :
    Stepped R o op T d none (t.filter none cache []) := by
  have hkeeps := KeyedSnapshot.keepsAll_applyFilter t.reader t.maxParallelism t.parallelism none cache
    t.keyed
  obtain ⟨offset, hall⟩ := hkeeps.all
  exact ⟨h.same, ⟨hkeeps.opHex.trans h.inv.opHex, hkeeps.descriptors.trans h.inv.descriptors,
    hall ▸ h.inv.all.moved offset, .none (.inl rfl) rfl rfl, h.inv.rows⟩, .inl h.few⟩

/-- **Another filter** keeps what holds, for that filter. -/
theorem Held.apply (hop : R.operator op = .ok o) (ho : o.Regular) (hsized : R.Sized o)
    (hcheck : o.checkCursor .start = .ok ()) (h : Held R o op T d f t) (f' : AppliedFilter)
    {cache : BlockCache} (hcache : t.reader.Reached cache) {caches : Nat → BlockCache}
    (hcaches : ∀ i, t.reader.Reached (caches i)) {stepBytes maxMatches turns : Nat}
    {msgs : List SearchMsg}
    (hmsgs : t.reader.searchJob caches t.keyed.opHex (f'.test T) stepBytes maxMatches turns 0 .start
      .empty = some msgs)
    (hfits : t.Fits o (t.filter (some f') cache msgs)) :
    Stepped R o op T d (some f') (t.filter (some f') cache msgs) := by
  have hop' : t.reader.operator t.keyed.opHex = .ok o := by
    rw [h.inv.opHex, h.same.operator]
    exact hop
  -- What a filter leaves of the keys paged so far, and the rows it brings.
  have hkeeps := KeyedSnapshot.keepsAll_applyFilter t.reader t.maxParallelism t.parallelism (some f')
    cache t.keyed
  obtain ⟨offset, hall⟩ := hkeeps.all
  obtain ⟨rs, hmem, hrows, hlength⟩ := rows_applyFilter hop' hcache t.maxParallelism t.parallelism
    (some f')
  have hof := h.inv.rows.insertAll hmem
  rw [← h.inv.descriptors, ← hrows, h.inv.descriptors] at hof
  have hmore := t.keyed.rows.length_insertAll_le t.keyed.descriptors rs
  rw [← hrows] at hmore
  refine ⟨h.same, ⟨hkeeps.opHex.trans h.inv.opHex, hkeeps.descriptors.trans h.inv.descriptors,
    hall ▸ h.inv.all.moved offset, ?_, hof⟩, ?_⟩
  · by_cases hd : d = []
    · -- Without states there is nothing to filter.
      have hempty : t.keyed.descriptors.isEmpty = true := by
        rw [h.inv.descriptors, hd]
        rfl
      have hnone : (t.filter (some f') cache msgs).keyed.filtered = none
          ∧ (t.filter (some f') cache msgs).reports = [] := by
        unfold OperatorTree.filter KeyedSnapshot.applyFilter
        dsimp only
        rw [if_pos hempty]
        exact ⟨rfl, rfl⟩
      exact .none (.inr hd) hnone.1 hnone.2
    · have hkeyed : t.keyed.descriptors ≠ [] := h.inv.descriptors ▸ hd
      -- A pattern or a range starts a search; the bytes of a key are looked up at once.
      by_cases hsearches : f'.searches = true
      · obtain ⟨seq, hsearched⟩ := searched_search hop' ho (h.same.sized hsized) hcheck hkeyed hsearches
          hcache hcaches hmsgs
        exact .search rfl hsearches hd h.same hsearched
      · cases f' with
        | pattern p => exact absurd rfl hsearches
        | exact bytes => exact absurd rfl hsearches
        | keyGroupRange start stop =>
          have hsome : ¬ t.keyed.descriptors.isEmpty = true := fun h => hkeyed (List.isEmpty_iff.mp h)
          have hbrowsed := browsed_rangeSeq hop' ho (h.same.sized hsized) hcheck
            (rfl : ({ t.keyed with all := { t.keyed.all with offset := 0 }, filtered := none } :
              KeyedSnapshot).opHex = t.keyed.opHex) t.maxParallelism t.parallelism start stop cache
          have hfiltered : (t.filter (some (.keyGroupRange start stop)) cache msgs).keyed.filtered
              = some (({ t.keyed with all := { t.keyed.all with offset := 0 }, filtered := none } :
                KeyedSnapshot).rangeSeq t.reader t.maxParallelism t.parallelism start stop cache)
              ∧ (t.filter (some (.keyGroupRange start stop)) cache msgs).reports = [] := by
            unfold OperatorTree.filter KeyedSnapshot.applyFilter
            dsimp only
            rw [if_neg hsome]
            exact ⟨rfl, rfl⟩
          exact .range rfl hd hfiltered.1 (hbrowsed.same ho h.same.symm) hfiltered.2
  · show (t.keyed.applyFilter t.reader t.maxParallelism t.parallelism (some f') cache).1.rows.length
        ≤ 3 * partitionPageSize ∨ t.expanded = true ∧ d ≠ []
    have hfew := h.few
    by_cases hlooks : (some f').any AppliedFilter.searches = true ∧ t.keyed.descriptors ≠ []
    · rw [if_pos hlooks] at hlength
      obtain ⟨hsearches, hkeyed⟩ := hlooks
      rw [h.inv.descriptors] at hkeyed
      by_cases hexpanded : t.expanded = true
      · exact .inr ⟨hexpanded, hkeyed⟩
      · have hroom := hfits.lookup ((Bool.not_eq_true _).mp hexpanded) f' cache msgs rfl hsearches
        exact .inl (by omega)
    · rw [if_neg hlooks] at hlength
      exact .inl (by omega)

/-- **Making sure of the window** keeps what holds. -/
theorem Stepped.rebuilt (hop : R.operator op = .ok o) (ho : o.Regular) (hsized : R.Sized o)
    (h : Stepped R o op T d f mid) (hrebuilt : mid.Rebuilt t') :
    Held R o op T d f t' ∧ t'.expanded = mid.expanded := by
  obtain ⟨caches, turns, hcaches, hrebuild⟩ := hrebuilt
  unfold OperatorTree.rebuild at hrebuild
  by_cases hexpanded : mid.expanded = true
  · rw [if_pos hexpanded] at hrebuild
    obtain ⟨k, hk, rfl⟩ := Option.map_eq_some_iff.mp hrebuild
    refine ⟨?_, rfl⟩
    by_cases hd : d = []
    · -- An operator without states has no window.
      have hempty : mid.keyed.descriptors.isEmpty = true := by
        rw [h.inv.descriptors, hd]
        rfl
      unfold KeyedSnapshot.ensureWindow at hk
      rw [if_pos hempty] at hk
      obtain rfl := Option.some.inj hk
      exact ⟨h.same, h.inv, h.few.resolve_right fun h => h.2 hd, fun _ hne => absurd hd hne⟩
    · obtain ⟨hinv, hensured⟩ := h.inv.ensureWindow hop ho hsized h.same hcaches hd hk
      exact ⟨h.same, hinv, hensured.few, fun _ _ => hensured⟩
  · rw [if_neg hexpanded] at hrebuild
    obtain rfl := Option.some.inj hrebuild
    exact ⟨⟨h.same, h.inv, h.few.resolve_right fun h => hexpanded h.1,
      fun hyes => absurd hyes hexpanded⟩, rfl⟩

/-- **Over a run** whose steps fit. -/
theorem Held.run (hop : R.operator op = .ok o) (ho : o.Regular) (hsized : R.Sized o)
    (hcheck : o.checkCursor .start = .ok ()) {errors : List Text}
    (hrun : OperatorTree.Run T (OperatorTree.Fits o) (.start R o op d errors) f t) :
    Held R o op T d f t := by
  induction hrun with
  | start =>
    refine ⟨.refl R, ⟨rfl, rfl, browsed_start ho hcheck, .none (.inl rfl) rfl rfl, .nil⟩,
      Nat.zero_le _, fun hexpanded => ?_⟩
    cases hexpanded
  | effect _ heffect hfits hrebuilt ih => exact ((ih.effect heffect hfits).rebuilt hop ho hsized hrebuilt).1
  | clear _ cache _ hrebuilt ih => exact ((ih.clear cache).rebuilt hop ho hsized hrebuilt).1
  | apply _ f' hcache hcaches hmsgs hfits hrebuilt ih =>
    exact ((ih.apply hop ho hsized hcheck f' hcache hcaches hmsgs hfits).rebuilt hop ho hsized
      hrebuilt).1

end Steps

/-! ### Scrolling to the end -/

namespace KeyedSnapshot

variable {R : StateReader} {caches : Nat → BlockCache} {k k' : KeyedSnapshot}

/-- Making sure of the window leaves alone how far a sequence is scrolled, and its matches. -/
theorem seq_ensureWindow {turns : Nat} (hk' : k.ensureWindow R caches turns = some k') :
    k'.seq.offset = k.seq.offset ∧ k'.seq.isMatches = k.seq.isMatches
      ∧ (k.seq.isMatches = true → k'.seq.positions = k.seq.positions) := by
  refine ensureWindow_keeps (P := fun k' => k'.seq.offset = k.seq.offset
    ∧ k'.seq.isMatches = k.seq.isMatches ∧ (k.seq.isMatches = true → k'.seq.positions = k.seq.positions))
    ?_ (fun _ _ _ _ h _ => h) ⟨rfl, rfl, fun _ => rfl⟩ hk'
  rintro j call next limit ⟨hoffset, hmatches, -⟩ hbrowse hnext
  have hsame : (j.pageIn R (j.pageAt R caches call next (max limit partitionPageSize))).seq.offset
      = j.seq.offset := by
    rcases j.pageAt R caches call next (max limit partitionPageSize) with e | page
    · rw [seq_pageIn_error]
    · rw [seq_pageIn_ok]
      rfl
  refine ⟨hsame.trans hoffset, (j.isMatches_pageIn R _).trans hmatches, fun hmatch => ?_⟩
  rw [← hmatches, hbrowse] at hmatch
  cases hmatch

/-- **The window moves forward by a key** as long as there is one below it. -/
theorem scroll_moves : (k.scroll true 1).2 ≠ 0
    ↔ k.seq.offset + partitionPageSize < k.seq.positions.length := by
  unfold scroll
  dsimp only
  rw [if_pos rfl]
  omega

theorem seq_scroll (forward : Bool) (amount : Nat) (k : KeyedSnapshot) : ∃ offset,
    (k.scroll forward amount).1.seq = { k.seq with offset := offset } :=
  ⟨_, k.seq_setSeq _⟩

theorem offset_scroll (h : (k.scroll true 1).2 ≠ 0) :
    (k.scroll true 1).1.seq.offset = k.seq.offset + 1 := by
  have hbelow := scroll_moves.mp h
  have hseq : (k.scroll true 1).1.seq = _ := k.seq_setSeq _
  rw [hseq]
  dsimp only
  rw [if_pos rfl]
  omega

end KeyedSnapshot

section Scrolled

open Relation

variable {R : StateReader} {o : OpenOperator} {op : Text} {T : CaseTables} {d : List StateDesc}
  {f : Option AppliedFilter} {t mid t' : OperatorTree}

/-- What is known of a sequence: its first keys, and those of a page below the window unless it ends
    there. -/
theorem Held.known (h : Held R o op T d f t) (hexpanded : t.expanded = true) (hd : d ≠ []) :
    t.keyed.seq.positions <+: R.wholeOf o f t.keyed
      ∧ (t.keyed.seq.positions = R.wholeOf o f t.keyed
        ∨ t.keyed.wanted ≤ t.keyed.seq.positions.length) := by
  have hahead := (h.ensured hexpanded hd).ahead
  have hbrowsed {lo : UInt16} {hi : Option UInt16} (hseq : t.keyed.seq.Browsed R o lo hi)
      (horder : R.orderOf o f = R.rangeOrder o lo hi) :
      t.keyed.seq.positions <+: R.wholeOf o f t.keyed
        ∧ (t.keyed.seq.positions = R.wholeOf o f t.keyed
          ∨ t.keyed.wanted ≤ t.keyed.seq.positions.length) := by
    unfold StateReader.wholeOf
    rw [hseq.isMatches, if_neg Bool.false_ne_true, horder]
    refine ⟨hseq.front, (hahead hseq.isMatches).imp (fun hnext => ?_) id⟩
    rw [hseq.keys, hnext]
    exact (List.append_nil _).symm
  rcases h.inv.filtered with ⟨hf, hnone, -⟩ | ⟨hf, -, hsome, hseq, -⟩ | ⟨-, -, -, -, hsearched⟩
  · obtain rfl := hf.resolve_right hd
    have hall := h.inv.all
    rw [← KeyedSnapshot.seq_none hnone] at hall
    exact hbrowsed hall rangeOrder_all.symm
  · rw [← KeyedSnapshot.seq_some hsome] at hseq
    exact hbrowsed hseq (by rw [hf]; rfl)
  · have hmatches : t.keyed.seq.isMatches = true := by
      rw [KeyedSnapshot.seq_some hsearched.filtered]
      exact hsearched.isMatches
    unfold StateReader.wholeOf
    rw [if_pos hmatches]
    exact ⟨List.prefix_rfl, .inl rfl⟩

/-- A window that can be scrolled can be made sure of. -/
theorem Stepped.exists_rebuilt (hop : R.operator op = .ok o) (ho : o.Regular) (hsized : R.Sized o)
    (h : Stepped R o op T d f mid) : ∃ t', mid.Rebuilt t' := by
  have hreached (i : Nat) : mid.reader.Reached ((fun _ => .empty 0) i) := ⟨0, [], rfl⟩
  have hbrowsed {lo : UInt16} {hi : Option UInt16} (hseq : mid.keyed.seq.Browsed R o lo hi) :
      ∃ t', mid.Rebuilt t' := by
    obtain ⟨turns, k, hk⟩ := exists_discover hop ho hsized h.same hreached h.inv.opHex hseq 0
    by_cases hexpanded : mid.expanded = true
    · obtain ⟨k', hk'⟩ : ∃ k', mid.keyed.ensureWindow mid.reader (fun _ => .empty 0) turns = some k' := by
        unfold KeyedSnapshot.ensureWindow
        by_cases hempty : mid.keyed.descriptors.isEmpty = true
        · exact ⟨_, if_pos hempty⟩
        · rw [if_neg hempty, hseq.isMatches, if_neg Bool.false_ne_true, hk]
          exact ⟨_, rfl⟩
      refine ⟨{ mid with keyed := k' }, fun _ => .empty 0, turns, hreached, ?_⟩
      unfold OperatorTree.rebuild
      rw [if_pos hexpanded, hk']
      rfl
    · refine ⟨mid, fun _ => .empty 0, turns, hreached, ?_⟩
      unfold OperatorTree.rebuild
      exact if_neg hexpanded
  rcases h.inv.filtered with ⟨-, hnone, -⟩ | ⟨-, -, hsome, hseq, -⟩ | ⟨-, -, -, -, hsearched⟩
  · exact hbrowsed (KeyedSnapshot.seq_none hnone ▸ h.inv.all)
  · exact hbrowsed (KeyedSnapshot.seq_some hsome ▸ hseq)
  · obtain ⟨t', ht', -⟩ :=
      FlinkExplorer.exists_rebuilt hsearched.filtered hsearched.isMatches hreached
    exact ⟨t', ht'⟩

/-- **One key further** nothing else changes. -/
theorem Held.down (hop : R.operator op = .ok o) (ho : o.Regular) (hsized : R.Sized o)
    (h : Held R o op T d f t) (hexpanded : t.expanded = true) (hdown : t.Down t') :
    Held R o op T d f t' ∧ t'.expanded = true
      ∧ R.wholeOf o f t'.keyed = R.wholeOf o f t.keyed
      ∧ t'.keyed.seq.offset = t.keyed.seq.offset + 1 := by
  obtain ⟨hmoves, hrebuilt⟩ := hdown
  have hrows : (t.keyed.scroll true 1).1.rows = t.keyed.rows := t.keyed.rows_setSeq _
  have hstepped : Stepped R o op T d f { t with keyed := (t.keyed.scroll true 1).1 } :=
    ⟨h.same, h.inv.scroll true 1, .inl (hrows ▸ h.few)⟩
  obtain ⟨hheld, hstill⟩ := hstepped.rebuilt hop ho hsized hrebuilt
  obtain ⟨caches, turns, -, hrebuild⟩ := hrebuilt
  unfold OperatorTree.rebuild at hrebuild
  have htrue : ({ t with keyed := (t.keyed.scroll true 1).1 } : OperatorTree).expanded = true := hexpanded
  rw [if_pos htrue] at hrebuild
  obtain ⟨k', hk', rfl⟩ := Option.map_eq_some_iff.mp hrebuild
  obtain ⟨hoffset, hmatches, hpositions⟩ := KeyedSnapshot.seq_ensureWindow hk'
  obtain ⟨offset, hseq⟩ := KeyedSnapshot.seq_scroll true 1 t.keyed
  refine ⟨hheld, hexpanded, ?_, ?_⟩
  · rw [hseq] at hmatches hpositions
    unfold StateReader.wholeOf
    rw [hmatches]
    by_cases hmatch : t.keyed.seq.isMatches = true
    · rw [if_pos hmatch, if_pos hmatch, hpositions hmatch]
    · rw [if_neg hmatch, if_neg hmatch]
  · exact hoffset.trans (KeyedSnapshot.offset_scroll hmoves)

/-- **Scrolling forward key by key** comes to an end and has shown every key. -/
theorem Held.scrolled (hop : R.operator op = .ok o) (ho : o.Regular) (hsized : R.Sized o)
    (h : Held R o op T d f t) (hexpanded : t.expanded = true) (hd : d ≠ []) :
    (∃ t', ReflTransGen OperatorTree.Down t t' ∧ (t'.keyed.scroll true 1).2 = 0)
      ∧ ∀ t', ReflTransGen OperatorTree.Down t t' → (t'.keyed.scroll true 1).2 = 0 →
        ∀ i pos, t.keyed.seq.offset ≤ i → (R.wholeOf o f t.keyed)[i]? = some pos →
          ∃ t₁, ReflTransGen OperatorTree.Down t t₁ ∧ ReflTransGen OperatorTree.Down t₁ t'
            ∧ pos ∈ t₁.keyed.visible := by
  -- What holds holds all the way down, and it is the same sequence.
  have hway : ∀ s, ReflTransGen OperatorTree.Down t s → Held R o op T d f s ∧ s.expanded = true
      ∧ R.wholeOf o f s.keyed = R.wholeOf o f t.keyed := by
    intro s hs
    induction hs with
    | refl => exact ⟨h, hexpanded, rfl⟩
    | tail _ hdown ih =>
      obtain ⟨hheld, hopen, hwhole⟩ := ih
      obtain ⟨hheld', hopen', hwhole', -⟩ := hheld.down hop ho hsized hopen hdown
      exact ⟨hheld', hopen', hwhole'.trans hwhole⟩
  have hnext : ∀ s s', ReflTransGen OperatorTree.Down t s → s.Down s' →
      s'.keyed.seq.offset = s.keyed.seq.offset + 1 := by
    intro s s' hs hdown
    obtain ⟨hheld, hopen, -⟩ := hway s hs
    exact (hheld.down hop ho hsized hopen hdown).2.2.2
  have hshown : ∀ s, ReflTransGen OperatorTree.Down t s → ∀ i pos, s.keyed.seq.offset ≤ i →
      i < s.keyed.seq.offset + partitionPageSize → (R.wholeOf o f t.keyed)[i]? = some pos →
      pos ∈ s.keyed.visible := by
    intro s hs i pos hle hlt hi
    obtain ⟨hheld, hopen, hwhole⟩ := hway s hs
    obtain ⟨hfront, hknown⟩ := hheld.known hopen hd
    rw [hwhole] at hfront hknown
    refine KeyedSnapshot.mem_visible.mpr ⟨i, hle, hlt, ?_⟩
    rcases hknown with heq | hwanted
    · rw [heq]
      exact hi
    · obtain ⟨rest, hrest⟩ := hfront
      rw [← hrest, List.getElem?_append_left] at hi
      · exact hi
      · unfold KeyedSnapshot.wanted at hwanted
        omega
  constructor
  · have hprogress : ∀ s, ReflTransGen OperatorTree.Down t s → (s.keyed.scroll true 1).2 ≠ 0 →
        s.keyed.seq.offset < (R.wholeOf o f t.keyed).length
          ∧ ∃ s', s.Down s' ∧ s.keyed.seq.offset < s'.keyed.seq.offset := by
      intro s hs hmoves
      obtain ⟨hheld, hopen, hwhole⟩ := hway s hs
      have hbelow := KeyedSnapshot.scroll_moves.mp hmoves
      have hlength := (hheld.known hopen hd).1.length_le
      rw [hwhole] at hlength
      have hrows : (s.keyed.scroll true 1).1.rows = s.keyed.rows := s.keyed.rows_setSeq _
      have hstepped : Stepped R o op T d f { s with keyed := (s.keyed.scroll true 1).1 } :=
        ⟨hheld.same, hheld.inv.scroll true 1, .inl (hrows ▸ hheld.few)⟩
      obtain ⟨s', hs'⟩ := hstepped.exists_rebuilt hop ho hsized
      have hoffset := hnext s s' hs ⟨hmoves, hs'⟩
      exact ⟨by omega, s', ⟨hmoves, hs'⟩, by omega⟩
    obtain ⟨s, hs, hstill⟩ := exists_scrolled hprogress
    exact ⟨s, hs, not_not.mp hstill⟩
  · intro t' ht' hstill i pos hle hi
    have hpage : 0 < partitionPageSize := by decide
    refine scrolled_covers hpage hnext hshown ht' ?_ hle hi
    -- Where the window does not move there is nothing below it.
    obtain ⟨hheld, hopen, hwhole⟩ := hway t' ht'
    obtain ⟨-, hknown⟩ := hheld.known hopen hd
    rw [hwhole] at hknown
    have hend : ¬ t'.keyed.seq.offset + partitionPageSize < t'.keyed.seq.positions.length :=
      fun hmore => KeyedSnapshot.scroll_moves.mpr hmore hstill
    rcases hknown with heq | hwanted
    · rw [← heq]
      omega
    · unfold KeyedSnapshot.wanted at hwanted
      omega

end Scrolled

/-! ### The window of a run -/

section Window

variable {R : StateReader} {o : OpenOperator} {op : Text} {T : CaseTables} {d : List StateDesc}
  {f : Option AppliedFilter} {t : OperatorTree}

/-- A page of one key at the position of a key holds the key. -/
theorem returns_of_mem (hop : R.operator op = .ok o) (ho : o.Regular) (hsized : R.Sized o)
    {r : KeyRecord} (hr : r ∈ R.keysWhere o fun _ => true) : R.Returns op r.position r := by
  intro cache hcache
  obtain ⟨before, after, hkeys⟩ := List.append_of_mem hr
  obtain ⟨page, hpage, hfound⟩ := keyPage_position hop ho hsized hcache hkeys 1
  exact ⟨page, hpage, hfound⟩

theorem nodup_keyOrder (ho : o.Regular) (hsized : R.Sized o) : (R.keyOrder o).Nodup :=
  nodup_positions ho hsized

/-- **The window is the reader's order**, in every state of a run whose steps fit: reports are taken
    only by a reader that decodes their matches as they were decoded, and by a collapsed operator
    only while there is room for their rows. -/
theorem window_in_order (hop : R.operator op = .ok o) (ho : o.Regular) (hsized : R.Sized o)
    (hcheck : o.checkCursor .start = .ok ()) {errors : List Text}
    (hrun : OperatorTree.Run T (OperatorTree.Fits o) (.start R o op d errors) f t) :
    WindowInOrder R o op T f t := by
  have h := Held.run hop ho hsized hcheck hrun
  have hdescriptors := h.inv.descriptors
  have hnodup := nodup_keyOrder ho hsized (R := R)
  constructor
  · have hfront := h.inv.all.front
    rw [rangeOrder_all] at hfront
    exact ⟨hfront, hnodup.sublist hfront.sublist⟩
  · intro hkeyed
    rw [hdescriptors] at hkeyed
    rcases h.inv.filtered with ⟨hf, hnone, -⟩ | ⟨rfl, -, hsome, -, -⟩ | ⟨rfl, -, -, -, hsearched⟩
    · rw [hnone, hf.resolve_right hkeyed]
      rfl
    · rw [hsome]
      rfl
    · rw [hsearched.filtered]
      rfl
  · intro start stop hf seq hseq
    rcases h.inv.filtered with ⟨-, hnone, -⟩ | ⟨hf', -, hsome, hbrowsed, -⟩ |
      ⟨hf', hsearches, -, -, -⟩
    · rw [hnone] at hseq
      cases hseq
    · rw [hsome] at hseq
      cases hseq
      cases hf.symm.trans hf'
      exact ⟨hbrowsed.front, hnodup.sublist (hbrowsed.reads ho hsized |>.paged hbrowsed.isMatches).sublist⟩
    · cases hf.symm.trans hf'
      cases hsearches
  · intro f' hf hsearches seq hseq
    rcases h.inv.filtered with ⟨-, hnone, -⟩ | ⟨hf', -, -, -, -⟩ | ⟨hf', -, -, hsame, hsearched⟩
    · rw [hnone] at hseq
      cases hseq
    · cases hf.symm.trans hf'
      cases hsearches
    · rw [hsearched.filtered] at hseq
      cases hseq
      cases hf.symm.trans hf'
      refine ⟨hsearched.pushed.nodup, fun pos hpos => ?_, fun hnext r hr htakes => ?_⟩
      · obtain ⟨r, hr, rfl, hnamed | htakes⟩ := hsearched.shown pos hpos
        · obtain ⟨r', hr', hposition, hnamed'⟩ := hsame.symm.named hnamed
          exact ⟨r', hr', hposition, .inl hnamed'⟩
        · obtain ⟨r', hr', hposition, htakes'⟩ := hsame.symm.takes hr htakes
          exact ⟨r', hr', hposition, .inr htakes'⟩
      · obtain ⟨r', hr', hposition, htakes'⟩ := hsame.takes hr htakes
        rw [← hposition]
        exact hsearched.ended hnext hr' htakes'
  · intro hexpanded hkeyed pos hpos
    rw [hdescriptors] at hkeyed ⊢
    obtain ⟨r, hr, rfl, hrow⟩ := h.inv.rows.get ((h.ensured hexpanded hkeyed).loaded pos hpos)
    exact ⟨r, returns_of_mem (h.same.operator ▸ hop) ho (h.same.sized hsized) hr, hrow⟩
  · exact h.few
  · intro hexpanded hkeyed
    rw [hdescriptors] at hkeyed
    exact h.scrolled hop ho hsized hexpanded hkeyed

end Window

/-! ### The key 7 -/

section Sole

/-- A step of the operator of one key, with nothing cached. -/
def OperatorTree.after (t : OperatorTree) : Option OperatorTree := t.rebuild (fun _ => .empty 0) 3

theorem OperatorTree.rebuilt_after {t t' : OperatorTree} (h : t.after = some t') : t.Rebuilt t' :=
  ⟨fun _ => .empty 0, 3, fun _ => ⟨0, [], rfl⟩, h⟩

/-- The window of an operator that is expanded. -/
theorem window_in_order_sole : ∃ t, OperatorTree.Run greekTables
      (OperatorTree.Fits (soleOperator sampleStream)) (soleStart sampleStream) none t
    ∧ t.expanded = true ∧ t.keyed.visible.length = 1
    ∧ WindowInOrder (soleReader sampleStream) (soleOperator sampleStream) "01".toList greekTables none
      t := by
  have hwindow : ((({ soleStart sampleStream with expanded := true } : OperatorTree).after).any
      fun t => t.expanded && t.keyed.visible.length == 1) = true := by decide +kernel
  obtain ⟨t, ht, hshown⟩ := (Option.any_eq_true _ _).mp hwindow
  obtain ⟨hexpanded, hone⟩ := (Bool.and_eq_true _ _).mp hshown
  have hnothing : (soleStart sampleStream).reports = [] := rfl
  have hfits : (soleStart sampleStream).Fits (soleOperator sampleStream)
      { soleStart sampleStream with expanded := true } := by
    refine ⟨fun n _ msg hmsg => ?_, fun _ n _ => ?_, fun _ _ _ _ _ _ => by decide⟩
    · rw [hnothing, List.take_nil] at hmsg
      cases hmsg
    · rw [hnothing, List.take_nil]
      exact Nat.zero_le _
  have hrun : OperatorTree.Run greekTables (OperatorTree.Fits (soleOperator sampleStream))
      (soleStart sampleStream) none t :=
    .effect .start (.expand true) hfits (OperatorTree.rebuilt_after ht)
  exact ⟨t, hrun, hexpanded, beq_iff_eq.mp hone,
    window_in_order rfl regular_soleOperator sized_soleReader (by decide +kernel) hrun⟩

/-- The operator's one key has two entries of a state.  It is expanded and searched, the reader is
    replaced by one that returns one entry of a state with a key, and then the search reports. -/
def staleRun : Option OperatorTree := do
  let expanded ← ({ soleStart (cutStream 0) with expanded := true } : OperatorTree).after
  let msgs ← expanded.reader.searchJob (fun _ => .empty 0) expanded.keyed.opHex
    ((AppliedFilter.pattern ['*']).test greekTables) 1 1 3 0 .start .empty
  let filtered ← (expanded.filter (some (.pattern ['*'])) (.empty 0) msgs).after
  let replaced ← (filtered.setReader { filtered.reader with
    entryLimit := 1, entryLimit_pos := Nat.one_pos }).after
  (replaced.poll 1).after

/-- How many entries a row has for the first state. -/
def KeyRow.firstEntries (row : KeyRow) : Option Nat := row.slots.head?.map (·.entries.length)

/-- What the window shows at a position, and what the reader returns there. -/
def shownEntries (t : OperatorTree) (pos : Cursor) : Option (Option Nat) × Option (Option Nat) :=
  ((t.keyed.rows.get pos).map KeyRow.firstEntries,
    match (t.reader.keyPage "01".toList pos 1 (.empty 0)).1 with
    | .ok page => page.found.head?.map fun r => (KeyRow.new r t.keyed.descriptors).firstEntries
    | .error _ => none)

/-- **A search that goes on with the old reader** shows rows that the new one does not return. -/
theorem not_window_in_order_stale : ¬ ∀ f t,
    OperatorTree.Run greekTables (fun _ _ => True) (soleStart (cutStream 0)) f t →
      WindowInOrder (soleReader (cutStream 0)) (soleOperator (cutStream 0)) "01".toList greekTables
        f t := by
  intro hall
  have hstale : (staleRun.any fun t => t.expanded && !t.keyed.descriptors.isEmpty
      && t.keyed.visible.any fun pos => (shownEntries t pos).1 != (shownEntries t pos).2) = true := by
    decide +kernel
  obtain ⟨t, ht, hshown⟩ := (Option.any_eq_true _ _).mp hstale
  simp only [Bool.and_eq_true, Bool.not_eq_true', List.any_eq_true] at hshown
  obtain ⟨⟨hexpanded, hsome⟩, pos, hpos, hne⟩ := hshown
  -- The run, step by step.
  unfold staleRun at ht
  obtain ⟨expanded, hexpand, ht⟩ := Option.bind_eq_some_iff.mp ht
  obtain ⟨msgs, hmsgs, ht⟩ := Option.bind_eq_some_iff.mp ht
  obtain ⟨filtered, hfilter, ht⟩ := Option.bind_eq_some_iff.mp ht
  obtain ⟨replaced, hreplace, ht⟩ := Option.bind_eq_some_iff.mp ht
  have hreached (R : StateReader) (i : Nat) : R.Reached ((fun _ => .empty 0) i) := ⟨0, [], rfl⟩
  have hrun : OperatorTree.Run greekTables (fun _ _ => True) (soleStart (cutStream 0))
      (some (.pattern ['*'])) t :=
    .effect (.effect (.apply (.effect .start (.expand true) trivial (OperatorTree.rebuilt_after hexpand))
      (.pattern ['*']) ⟨0, [], rfl⟩ (hreached _) hmsgs trivial (OperatorTree.rebuilt_after hfilter))
      (.setReader ⟨_, 1, Nat.one_pos, rfl⟩) trivial (OperatorTree.rebuilt_after hreplace))
      (.poll 1) trivial (OperatorTree.rebuilt_after ht)
  have hkeyed : t.keyed.descriptors ≠ [] := by
    intro h
    rw [h] at hsome
    cases hsome
  obtain ⟨r, hreturns, hrow⟩ := (hall _ t hrun).shown hexpanded hkeyed pos hpos
  obtain ⟨page, hpage, hfound⟩ := hreturns (.empty 0) ⟨0, [], rfl⟩
  refine absurd ?_ (bne_iff_ne.mp hne)
  unfold shownEntries
  rw [hrow, hpage]
  dsimp only
  rw [hfound]
  rfl

end Sole

end FlinkExplorer
