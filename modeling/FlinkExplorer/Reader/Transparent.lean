import FlinkExplorer.Reader.StateReader

namespace FlinkExplorer

open Lib

/-!
# The cache changes no answer

`StateReader.readBlock` is `grouped` without a cache.  A cache is `Sound` when every block it holds
is the one reading gives:

* `Fetch.Agrees`, `Walk.run_agrees` — a walk that asks for blocks in two ways that agree gives one
  page, up to what was read from storage;
* `grouped_agrees` — with a sound cache `grouped` agrees with `readBlock`, and the cache stays
  sound;
* `answer_agrees` — so every call answers alike with two sound caches, and keeps them sound.
-/

/-! ### Statistics aside -/

/-- What was visited, whether it was cached or not. -/
def ReadStats.visited (stats : ReadStats) : ReadStats := { stats with cacheHits := 0, bytesRead := 0 }

@[simp] theorem ReadStats.blockBytes_visited (stats : ReadStats) :
    stats.visited.blockBytes = stats.blockBytes := rfl

/-- A page without what the cache saved. -/
def Page.visited {α : Type} (page : Page α) : Page α := { page with stats := page.stats.visited }

/-- Two ways to ask for blocks agree on the streams `on`, as long as the state of the first is
    `ok`. -/
def Fetch.Agrees {σ : Type} (f : Fetch σ) (g : Fetch Unit) (ok : σ → Prop)
    (on : SubtaskStream → Prop) : Prop :=
  ∀ s, on s → ∀ kg stats st, ok st →
    (f s kg stats st).1 = (g s kg stats.visited ()).1
    ∧ (f s kg stats st).2.1.visited = (g s kg stats.visited ()).2.1
    ∧ ok (f s kg stats st).2.2

/-! ### Walks -/

/-- A position in one of the units. -/
def Position.Among (units : List ReadUnit) : Position → Prop
  | .block s _ _ => ReadUnit.stream s ∈ units
  | _ => True

theorem Position.Among.mono {units units' : List ReadUnit} (h : units ⊆ units') {pos : Position}
    (hpos : pos.Among units) : pos.Among units' := by
  cases pos with
  | block s kg ordinal => exact h hpos
  | unreadable u from' => trivial
  | ended => trivial

theorem seekUnits_among (from' : Int) (ordinal : UInt32) (units : List ReadUnit) :
    (seekUnits from' ordinal units).Among units := by
  induction units with
  | nil => trivial
  | cons u units ih =>
    have hlater := ih.mono (List.subset_cons_self u units)
    unfold seekUnits
    by_cases hlast : u.last < from'
    · rw [if_pos hlast]
      exact hlater
    · rw [if_neg hlast]
      by_cases herror : u.error.isSome = true
      · rw [if_pos herror]
        trivial
      · rw [if_neg herror]
        cases u with
        | failed f => exact hlater
        | stream s =>
          dsimp only
          cases (keyGroups (max (ReadUnit.stream s).first from') (ReadUnit.stream s).last).find?
              s.holds with
          | none => exact hlater
          | some kg => exact List.mem_cons_self

section Walks

variable {α σ : Type} {w : Walk α} {f : Fetch σ} {g : Fetch Unit} {ok : σ → Prop}
  {units : List ReadUnit}

theorem Walk.clip_among {pos : Position} (hpos : pos.Among units) : (w.clip pos).Among units := by
  cases pos with
  | block s kg ordinal =>
    rw [Walk.clip]
    by_cases hpast : w.past kg = true
    · rw [if_pos hpast]
      trivial
    · rw [if_neg hpast]
      exact hpos
  | unreadable u from' =>
    rw [Walk.clip]
    by_cases hpast : w.past from' = true
    · rw [if_pos hpast]
      trivial
    · rw [if_neg hpast]
      trivial
  | ended => trivial

/-- One loop, whichever way the blocks come. -/
theorem Walk.loop_agrees (hfetch : f.Agrees g ok fun s => ReadUnit.stream s ∈ units) (turns : Nat)
    (pos : Position) (hpos : pos.Among units) (visited : Nat) (page : Page α) (st : σ)
    (hst : ok st) :
    (w.loop f units turns pos visited page st).1.visited
        = (w.loop g units turns pos visited page.visited ()).1
      ∧ ok (w.loop f units turns pos visited page st).2 := by
  induction turns generalizing pos visited page st with
  | zero => exact ⟨rfl, hst⟩
  | succ turns ih =>
    have hlater (kg : Int) := seekUnits_among kg 0 units
    have hclip := Walk.clip_among (w := w) hpos
    unfold Walk.loop
    cases hpos' : w.clip pos with
    | ended => exact ⟨rfl, hst⟩
    | unreadable u from' =>
      dsimp only
      have hstops : w.stops visited page.visited.stats page.visited.found
          = w.stops visited page.stats page.found := rfl
      rw [hstops]
      by_cases hstop : w.stops visited page.stats page.found = true
      · rw [if_pos hstop, if_pos hstop]
        exact ⟨rfl, hst⟩
      · rw [if_neg hstop, if_neg hstop]
        exact ih _ (hlater _) _ { page with unreadable := page.unreadable ++ [u.unreadable from'] }
          st hst
    | block s kg ordinal =>
      dsimp only
      have hstops : w.stops visited page.visited.stats page.visited.found
          = w.stops visited page.stats page.found := rfl
      rw [hstops]
      by_cases hstop : w.stops visited page.stats page.found = true
      · rw [if_pos hstop, if_pos hstop]
        exact ⟨rfl, hst⟩
      · rw [if_neg hstop, if_neg hstop]
        rw [hpos'] at hclip
        obtain ⟨hblock, hstats, hst'⟩ := hfetch s hclip kg page.stats st hst
        rcases hf : f s kg page.stats st with ⟨block, stats, st'⟩
        rcases hg : g s kg page.stats.visited () with ⟨block', stats', u⟩
        have hvisited : page.visited.stats = page.stats.visited := rfl
        rw [hvisited, hg]
        rw [hf, hg] at hblock hstats
        rw [hf] at hst'
        simp only at hblock hstats hst'
        subst hblock hstats
        -- The page of the second way is that of the first, up to what was read.
        rcases block with e | block
        · exact ih _ (hlater _) _ { page with
            stats := stats, unreadable := page.unreadable ++ [unreadableBlock s kg e] } st' hst'
        · rcases block with _ | ⟨header, block⟩
          · exact ih _ (hlater _) _ { page with stats := stats } st' hst'
          · dsimp only
            have hfound : page.visited.found = page.found := rfl
            rw [hfound]
            rcases w.keys s header kg ordinal.toNat (block.keys.drop ordinal.toNat) page.found
              with ⟨found, _ | ord⟩
            · exact ih _ (hlater _) _ { page with
                stats := stats, malformed := page.malformed ++ block.defect.toList, found := found }
                st' hst'
            · exact ⟨rfl, hst'⟩

/-- **One call**, whichever way the blocks come. -/
theorem Walk.run_agrees {ctx : OpContext}
    (hfetch : f.Agrees g ok fun s => ReadUnit.stream s ∈ ctx.units) (from' : Int)
    (ordinal : UInt32) (found : α) (st : σ) (hst : ok st) :
    (w.run f ctx from' ordinal found st).1.visited = (w.run g ctx from' ordinal found ()).1
      ∧ ok (w.run f ctx from' ordinal found st).2 :=
  Walk.loop_agrees hfetch _ _ (seekUnits_among _ _ _) _ _ st hst

end Walks

/-! ### Blocks -/

section Blocks

variable (R : StateReader)

/-- `grouped` without a cache. -/
def StateReader.readBlock (o : OpenOperator) : Fetch Unit := fun s kg stats _ =>
  match s.blockRange (kg - s.startKeyGroup).toNat with
  | none => (.ok none, stats, ())
  | some (start, last) =>
    match s.header with
    | .error e => (.error e, stats, ())
    | .ok header =>
      let stats := { stats with
        blocks := stats.blocks + 1, blockBytes := stats.blockBytes + (last - start) }
      match R.readGrouped o s header kg start last with
      | .error e => (.error e, stats, ())
      | .ok b =>
        (.ok (some (header, b)),
          { stats with maxBlockBytes := max stats.maxBlockBytes b.inflatedLen }, ())

/-- Whether a block is the one that reading its key gives. -/
def StateReader.Holds (key : BlockKey) (block : GroupedBlock) : Prop :=
  ∀ o, R.operators[key.1]? = some o → ∀ s ∈ o.ctx.streams, s.statePos = key.2.1 →
    ∀ start last header, s.blockRange (key.2.2 - s.startKeyGroup).toNat = some (start, last) →
      s.header = .ok header → R.readGrouped o s header key.2.2 start last = .ok block

/-- A cache that lies about no block. -/
structure StateReader.Sound (c : BlockCache) : Prop where
  good : c.Good
  holds : ∀ b ∈ c.blocks, R.Holds b.key b.block

variable {R}

theorem sound_empty (capacity : Nat) : R.Sound (BlockCache.empty capacity) :=
  ⟨BlockCache.good_empty capacity, fun _ h => absurd h List.not_mem_nil⟩

theorem StateReader.Sound.get {c : BlockCache} (hc : R.Sound c) (key : BlockKey) :
    R.Sound (c.get key).2 := by
  refine ⟨hc.good.get key, fun b hb => ?_⟩
  obtain ⟨b', hb', hkey, hblock⟩ := BlockCache.mem_get hb
  rw [← hkey, ← hblock]
  exact hc.holds b' hb'

theorem StateReader.Sound.insert {c : BlockCache} (hc : R.Sound c) {key : BlockKey}
    {block : GroupedBlock} (hblock : R.Holds key block) : R.Sound (c.insert key block) := by
  refine ⟨hc.good.insert key block, fun b hb => ?_⟩
  rcases BlockCache.mem_insert hc.good hb with ⟨hkey, heq⟩ | ⟨-, hmem⟩
  · rw [hkey, heq]
    exact hblock
  · exact hc.holds b hmem

/-- A block that was read is the one its key stands for: the key names the operator and the
    stream. -/
theorem holds_readGrouped {op : Nat} {o : OpenOperator} (ho : R.operators[op]? = some o)
    {s : SubtaskStream} (hs : s ∈ o.ctx.streams) {kg : Int} {start last : Nat}
    {header : SubtaskHeader} {block : GroupedBlock}
    (hrange : s.blockRange (kg - s.startKeyGroup).toNat = some (start, last))
    (hheader : s.header = .ok header)
    (hread : R.readGrouped o s header kg start last = .ok block) :
    R.Holds (o.ctx.opIndex, s.statePos, kg) block := by
  intro o' ho' s' hs' hpos start' last' header' hrange' hheader'
  rw [R.opIndex_eq op o ho, ho] at ho'
  obtain rfl := Option.some.inj ho'
  obtain rfl := List.inj_on_of_nodup_map o.ctx.statePos_nodup hs' hs hpos
  rw [hrange] at hrange'
  rw [hheader] at hheader'
  cases hrange'
  cases hheader'
  exact hread

/-- **With a sound cache a block is what reading it gives**, and the cache stays sound. -/
theorem grouped_agrees {op : Nat} {o : OpenOperator} (ho : R.operators[op]? = some o)
    (keep : Bool) :
    (R.grouped o keep).Agrees (R.readBlock o) R.Sound fun s => .stream s ∈ o.ctx.units := by
  intro s hunit kg stats c hc
  have hs : s ∈ o.ctx.streams := by
    rcases (OpContext.mem_units _).mp hunit with ⟨s', hs', heq⟩ | ⟨f, -, heq⟩
    · cases heq
      exact hs'
    · cases heq
  unfold StateReader.grouped StateReader.readBlock
  rcases hrange : s.blockRange (kg - s.startKeyGroup).toNat with _ | ⟨start, last⟩
  · exact ⟨rfl, rfl, hc⟩
  · rcases hheader : s.header with e | header
    · exact ⟨rfl, rfl, hc⟩
    · dsimp only
      have hsound := hc.get (o.ctx.opIndex, s.statePos, kg)
      rcases hget : c.get (o.ctx.opIndex, s.statePos, kg) with ⟨_ | block, c'⟩
      · -- Not held: it is read.
        rw [hget] at hsound
        dsimp only
        rcases hread : R.readGrouped o s header kg start last with e | block
        · exact ⟨rfl, rfl, hsound⟩
        · refine ⟨rfl, rfl, ?_⟩
          by_cases hkeep : keep = true
          · simp only [hkeep, ↓reduceIte]
            exact hsound.insert (holds_readGrouped ho hs hrange hheader hread)
          · simp only [hkeep, Bool.false_eq_true, ↓reduceIte]
            exact hsound
      · -- Held: it is the block that reading gives.
        rw [hget] at hsound
        have hfind : c.find (o.ctx.opIndex, s.statePos, kg) = some block :=
          congrArg Prod.fst hget
        obtain ⟨b, hb, hkey, hblock⟩ := BlockCache.find_eq_some hfind
        have hholds := hc.holds b hb
        rw [hkey, hblock] at hholds
        have hop : R.operators[o.ctx.opIndex]? = some o := by rw [R.opIndex_eq op o ho, ho]
        have hread := hholds o hop s hs rfl start last header hrange hheader
        dsimp only
        rw [hread]
        exact ⟨rfl, rfl, hsound⟩

end Blocks

/-! ### Calls -/

/-- A lookup without what the cache saved. -/
def Lookup.visited : Lookup → Lookup
  | .found record stats malformed => .found record stats.visited malformed
  | .absent keyGroup subtask stats => .absent keyGroup subtask stats.visited
  | .needsScan reason => .needsScan reason

/-- A page of entries without what the cache saved. -/
def EntryPage.visited (page : EntryPage) : EntryPage := { page with stats := page.stats.visited }

/-- A call of a reader. -/
inductive Request : Type 1
  | keyPage (op : Text) (cursor : Cursor) (limit : Nat)
  | get (op keyText : Text)
  | entries (op : Text) (position : Cursor) (state : Text) (offset limit : Nat)
  | scanWith (op : Text) (cursor : Cursor) (opts : ScanOptions) {τ : Type}
    (test : τ → Text → τ × Bool) (t : τ)
  | count (op : Text) (cursor : Cursor) (byteBudget : Nat)

/-- What a call answers when it does not fail. -/
def Request.Answer : Request → Type
  | .keyPage .. => Page (List KeyRecord)
  | .get .. => Lookup
  | .entries .. => EntryPage
  | .scanWith (τ := τ) .. => Page (List KeyRecord × τ)
  | .count .. => Page Counts

/-- An answer without what the cache saved. -/
def Request.visited : (q : Request) → q.Answer → q.Answer
  | .keyPage .., (page : Page (List KeyRecord)) => page.visited
  | .get .., (found : Lookup) => found.visited
  | .entries .., (page : EntryPage) => page.visited
  | .scanWith .., (page : Page _) => page.visited
  | .count .., (page : Page Counts) => page.visited

namespace StateReader

/-- A call, with the cache before and after it. -/
def answer (R : StateReader) : (q : Request) → BlockCache →
    Except ReaderError q.Answer × BlockCache
  | .keyPage op cursor limit => R.keyPage op cursor limit
  | .get op keyText => R.get op keyText
  | .entries op position state offset limit => R.entries op position state offset limit
  | .scanWith op cursor opts test t => R.scanWith op cursor opts test t
  | .count op cursor byteBudget => R.count op cursor byteBudget

/-- The cache after a list of calls. -/
def cacheAfter (R : StateReader) (c : BlockCache) (calls : List Request) : BlockCache :=
  calls.foldl (fun c q => (R.answer q c).2) c

variable {R : StateReader}

theorem operator_eq_ok {op : Text} {o : OpenOperator} (h : R.operator op = .ok o) :
    ∃ i : Nat, R.operators[i]? = some o := by
  unfold operator at h
  rcases hindex : R.operatorIndex op with e | i
  · rw [hindex] at h
    cases h
  · simp only [hindex, bind, Except.bind] at h
    rcases hget : R.operators[i]? with _ | o'
    · rw [hget] at h
      cases h
    · rw [hget] at h
      cases h
      exact ⟨i, hget⟩

/-- A walk through the cache is the walk without it. -/
theorem run_grouped {α : Type} {op : Text} {o : OpenOperator} (ho : R.operator op = .ok o)
    (w : Walk α) (keep : Bool) (from' : Int) (ordinal : UInt32) (found : α) {c : BlockCache}
    (hc : R.Sound c) :
    (w.run (R.grouped o keep) o.ctx from' ordinal found c).1.visited
        = (w.run (R.readBlock o) o.ctx from' ordinal found ()).1
      ∧ R.Sound (w.run (R.grouped o keep) o.ctx from' ordinal found c).2 := by
  obtain ⟨i, hi⟩ := operator_eq_ok ho
  exact Walk.run_agrees (grouped_agrees hi keep) from' ordinal found c hc

/-- A block of a unit, through the cache and without it. -/
theorem blockOf_agrees {op : Text} {o : OpenOperator} (ho : R.operator op = .ok o) {u : ReadUnit}
    (hu : u ∈ o.ctx.units) (kg : Int) {c c' : BlockCache} (hc : R.Sound c) (hc' : R.Sound c') :
    (R.blockOf o u kg c).1 = (R.blockOf o u kg c').1
      ∧ (R.blockOf o u kg c).2.1.visited = (R.blockOf o u kg c').2.1.visited
      ∧ R.Sound (R.blockOf o u kg c).2.2 := by
  obtain ⟨i, hi⟩ := operator_eq_ok ho
  unfold blockOf
  cases u with
  | failed f => exact ⟨rfl, rfl, hc⟩
  | stream s =>
    dsimp only
    by_cases herror : (ReadUnit.stream s).error.isSome = true
    · rw [if_pos herror, if_pos herror]
      exact ⟨rfl, rfl, hc⟩
    · rw [if_neg herror, if_neg herror]
      obtain ⟨h₁, h₂, h₃⟩ := grouped_agrees hi true s hu kg .zero c hc
      obtain ⟨h₁', h₂', -⟩ := grouped_agrees hi true s hu kg .zero c' hc'
      rw [← h₁'] at h₁
      rw [← h₂'] at h₂
      rcases hg : R.grouped o true s kg .zero c with ⟨block, stats, d⟩
      rcases hg' : R.grouped o true s kg .zero c' with ⟨block', stats', d'⟩
      rw [hg, hg'] at h₁ h₂
      rw [hg] at h₃
      simp only at h₁ h₂ h₃
      subst h₁
      rcases block with e | _ | ⟨header, block⟩
      · exact ⟨rfl, h₂, h₃⟩
      · exact ⟨rfl, h₂, h₃⟩
      · exact ⟨rfl, h₂, h₃⟩

theorem mem_units_of_unitOf {ctx : OpContext} {kg : Int} {u : ReadUnit}
    (h : ctx.unitOf kg = some u) : u ∈ ctx.units := List.mem_of_find?_eq_some h

/-- A page, through the cache and without it. -/
theorem page_agrees {α : Type} (op : Text) (cursor : Cursor) (w : Walk α) (keep : Bool)
    (ordinal : UInt32) (found : α) {c c' : BlockCache} (hc : R.Sound c) (hc' : R.Sound c') :
    (R.page op cursor w keep ordinal found c).1.map Page.visited
        = (R.page op cursor w keep ordinal found c').1.map Page.visited
      ∧ R.Sound (R.page op cursor w keep ordinal found c).2 := by
  unfold page
  rcases ho : R.operator op with e | o
  · exact ⟨rfl, hc⟩
  · rcases hcheck : o.checkCursor cursor with e | ⟨⟩
    · simp only [hcheck]
      exact ⟨trivial, hc⟩
    · simp only [hcheck]
      obtain ⟨hpage, hsound⟩ := run_grouped ho w keep cursor.keyGroup.toNat ordinal found hc
      obtain ⟨hpage', -⟩ := run_grouped ho w keep cursor.keyGroup.toNat ordinal found hc'
      exact ⟨congrArg Except.ok (hpage.trans hpage'.symm), hsound⟩

/-- A lookup, through the cache and without it. -/
theorem get_agrees (op keyText : Text) {c c' : BlockCache} (hc : R.Sound c) (hc' : R.Sound c') :
    (R.get op keyText c).1.map Lookup.visited = (R.get op keyText c').1.map Lookup.visited
      ∧ R.Sound (R.get op keyText c).2 := by
  unfold get
  rcases ho : R.operator op with e | o
  · exact ⟨rfl, hc⟩
  · dsimp only
    cases o.ctx.firstHeader with
    | none =>
      cases o.ctx.units.head? with
      | none => exact ⟨rfl, hc⟩
      | some u => exact ⟨rfl, hc⟩
    | some first =>
      dsimp only
      rcases R.parseLookup first keyText with reason | ⟨key, canonical⟩
      · exact ⟨rfl, hc⟩
      · dsimp only
        cases hunit : o.ctx.unitOf (keyGroupForHash key.hashCode o.maxParallelism) with
        | none => exact ⟨rfl, hc⟩
        | some u =>
          -- the block is the same from either cache; only what was read anew differs
          obtain ⟨hblock, hstats, hsound⟩ := blockOf_agrees ho (mem_units_of_unitOf hunit)
            (keyGroupForHash key.hashCode o.maxParallelism) hc hc'
          dsimp only
          rcases hg : R.blockOf o u (keyGroupForHash key.hashCode o.maxParallelism) c
            with ⟨block, stats, d⟩
          rcases hg' : R.blockOf o u (keyGroupForHash key.hashCode o.maxParallelism) c'
            with ⟨block', stats', d'⟩
          rw [hg] at hblock hstats hsound
          rw [hg'] at hblock hstats
          simp only at hblock hstats hsound
          subst hblock
          rcases block with why | _ | ⟨s, header, block⟩
          · exact ⟨rfl, hsound⟩
          · exact ⟨by simp [Except.map, Lookup.visited, hstats], hsound⟩
          · dsimp only
            cases block.keys.findIdx? fun k => k.key == canonical with
            | some ord => exact ⟨by simp [Except.map, Lookup.visited, hstats], hsound⟩
            | none =>
              cases block.defect with
              | some d => exact ⟨rfl, hsound⟩
              | none => exact ⟨by simp [Except.map, Lookup.visited, hstats], hsound⟩

/-- A page of entries, through the cache and without it. -/
theorem entries_agrees (op : Text) (position : Cursor) (state : Text) (offset limit : Nat)
    {c c' : BlockCache} (hc : R.Sound c) (hc' : R.Sound c') :
    (R.entries op position state offset limit c).1.map EntryPage.visited
        = (R.entries op position state offset limit c').1.map EntryPage.visited
      ∧ R.Sound (R.entries op position state offset limit c).2 := by
  unfold entries
  rcases ho : R.operator op with e | o
  · exact ⟨rfl, hc⟩
  · rcases hcheck : o.checkCursor position with e | ⟨⟩
    · simp only [hcheck]
      exact ⟨trivial, hc⟩
    · simp only [hcheck]
      cases hunit : o.ctx.unitOf position.keyGroup.toNat with
      | none => exact ⟨rfl, hc⟩
      | some u =>
        obtain ⟨hblock, hstats, hsound⟩ := blockOf_agrees ho (mem_units_of_unitOf hunit)
          position.keyGroup.toNat hc hc'
        dsimp only
        rcases hg : R.blockOf o u position.keyGroup.toNat c with ⟨block, stats, d⟩
        rcases hg' : R.blockOf o u position.keyGroup.toNat c' with ⟨block', stats', d'⟩
        rw [hg] at hblock hstats hsound
        rw [hg'] at hblock hstats
        simp only at hblock hstats hsound
        subst hblock
        rcases block with why | _ | ⟨s, header, block⟩
        · exact ⟨rfl, hsound⟩
        · exact ⟨rfl, hsound⟩
        · dsimp only
          cases block.keys[position.ordinal.toNat]? with
          | none => exact ⟨rfl, hsound⟩
          | some raw =>
            dsimp only
            rcases R.entriesOf o header raw state offset (max limit 1) with e | ⟨label, found, total⟩
            · exact ⟨rfl, hsound⟩
            · exact ⟨by simp [Except.map, EntryPage.visited, hstats], hsound⟩

/-- **One call**, with two sound caches. -/
theorem answer_agrees (q : Request) {c c' : BlockCache} (hc : R.Sound c) (hc' : R.Sound c') :
    (R.answer q c).1.map q.visited = (R.answer q c').1.map q.visited
      ∧ R.Sound (R.answer q c).2 := by
  cases q with
  | keyPage op cursor limit => exact page_agrees op cursor (R.keyWalk limit) true _ [] hc hc'
  | get op keyText => exact get_agrees op keyText hc hc'
  | entries op position state offset limit => exact entries_agrees op position state offset limit hc hc'
  | scanWith op cursor opts test t =>
    exact page_agrees op cursor (R.scanWalk opts test) false _ ([], t) hc hc'
  | count op cursor byteBudget =>
    exact page_agrees op cursor (countWalk byteBudget) false 0 ⟨[], 0⟩ hc hc'

/-- Calls keep a cache sound. -/
theorem sound_cacheAfter (calls : List Request) {c : BlockCache} (hc : R.Sound c) :
    R.Sound (R.cacheAfter c calls) := by
  induction calls generalizing c with
  | nil => exact hc
  | cons q calls ih => exact ih (answer_agrees q hc hc).2

/-- **The cache of blocks is bounded and changes no answer.**  Whatever is looked up and inserted,
    `used` is the weight held, within the capacity unless one block is held alone, and what is found
    is what was inserted last; and a call answers alike, statistics aside, whatever the capacity is
    and whatever was called before. -/
theorem blockCache_transparent :
    (∀ (capacity : Nat) (calls : List BlockCache.Call),
      let c := (BlockCache.empty capacity).run calls
      c.used = (c.blocks.map (·.block.weight)).sum
        ∧ (c.used ≤ c.capacity ∨ c.blocks.length = 1)
        ∧ c.capacity = capacity
        ∧ ∀ key, (c.get key).1 = none ∨ (c.get key).1 = BlockCache.lastInserted calls key)
    ∧ ∀ (R : StateReader) (q : Request) (capacity capacity' : Nat) (calls calls' : List Request),
      (R.answer q (R.cacheAfter (BlockCache.empty capacity) calls)).1.map q.visited
        = (R.answer q (R.cacheAfter (BlockCache.empty capacity') calls')).1.map q.visited := by
  refine ⟨fun capacity calls => ?_, fun R q capacity capacity' calls calls' => ?_⟩
  · have hgood := BlockCache.run_good capacity calls
    refine ⟨hgood.used, hgood.bounded, BlockCache.run_capacity capacity calls, fun key => ?_⟩
    rw [BlockCache.get_fst]
    rcases hfind : ((BlockCache.empty capacity).run calls).find key with _ | block
    · exact .inl rfl
    · obtain ⟨b, hb, rfl, rfl⟩ := BlockCache.find_eq_some hfind
      exact .inr (BlockCache.run_latest capacity calls hb).symm
  · exact (answer_agrees q (sound_cacheAfter calls (sound_empty capacity))
      (sound_cacheAfter calls' (sound_empty capacity'))).1

end StateReader

end FlinkExplorer
