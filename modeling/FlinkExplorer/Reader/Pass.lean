import FlinkExplorer.Reader.Timeline
import FlinkExplorer.Reader.Transparent

namespace FlinkExplorer

open Lib

/-!
# What one call of a walk passes

A walk meets events: keys, and what it cannot read.  `Walk.pass` is the loop of a walk over a list
of positions (`loop_eq_pass`), and `Passed` says what one call does: it takes a part of the events
in front of it, gathers the keys among them and reports the others, and leaves a cursor at the rest
(`pass_passed`).  A call that is not at the end takes something (`pass_shrinks`).
-/

/-- What a walk meets: a key of a block, or something it cannot read. -/
inductive Event
  | key (s : SubtaskStream) (header : SubtaskHeader) (kg : Int) (ordinal : Nat) (raw : RawKey)
  | report (why : Unreadable)

/-- What an event reports. -/
def Event.reported : Event → Option Unreadable
  | .key .. => none
  | .report why => some why

/-- The keys of a block from the `ord`-th on. -/
def keyEvents (s : SubtaskStream) (header : SubtaskHeader) (kg : Int) : Nat → List RawKey → List Event
  | _, [] => []
  | ord, raw :: rest => .key s header kg ord raw :: keyEvents s header kg (ord + 1) rest

section Events

variable (R : StateReader) (o : OpenOperator)

/-- What the block of a key-group of a stream holds. -/
def StateReader.contentOf (s : SubtaskStream) (kg : Int) :
    Except Text (Option (SubtaskHeader × GroupedBlock)) :=
  (R.readBlock o s kg .zero ()).1

/-- The events of a position. -/
def StateReader.eventsAt : Position → List Event
  | .ended => []
  | .unreadable u from' => [.report (u.unreadable from')]
  | .block s kg ordinal =>
    match R.contentOf o s kg with
    | .error e => [.report (unreadableBlock s kg e)]
    | .ok none => []
    | .ok (some (header, block)) =>
      keyEvents s header kg ordinal.toNat (block.keys.drop ordinal.toNat)

/-- The events of a list of positions. -/
def StateReader.eventsOf (ps : List Position) : List Event := ps.flatMap (R.eventsAt o)

/-- The defect of the block of a key-group, if it has one. -/
def StateReader.defectOf (s : SubtaskStream) (kg : Int) : Option Text :=
  match R.contentOf o s kg with
  | .ok (some (_, block)) => block.defect
  | _ => none

/-- A position whose keys a cursor can number. -/
def StateReader.SizedAt (p : Position) : Prop :=
  ∀ s kg a header block, p = .block s kg a → R.contentOf o s kg = .ok (some (header, block)) →
    block.keys.length ≤ 2 ^ 32

/-- Streams whose blocks have keys a cursor can number. -/
def StateReader.Sized : Prop :=
  ∀ s ∈ o.ctx.streams, ∀ kg, (ReadUnit.stream s).Has kg → ∀ header block,
    R.contentOf o s kg = .ok (some (header, block)) → block.keys.length ≤ 2 ^ 32

theorem mem_keyEvents {s s' : SubtaskStream} {header header' : SubtaskHeader} {kg kg' : Int}
    {ord ord' : Nat} {raw : RawKey} {raws : List RawKey}
    (h : Event.key s header kg ord raw ∈ keyEvents s' header' kg' ord' raws) :
    s = s' ∧ header = header' ∧ kg = kg' ∧ ord' ≤ ord ∧ raws[ord - ord']? = some raw := by
  induction raws generalizing ord' with
  | nil => cases h
  | cons raw' raws ih =>
    rw [keyEvents] at h
    rcases List.mem_cons.mp h with heq | h
    · cases heq
      exact ⟨rfl, rfl, rfl, le_rfl, by simp⟩
    · obtain ⟨hs, hh, hkg, hle, hraw⟩ := ih h
      refine ⟨hs, hh, hkg, by omega, ?_⟩
      rw [show ord - ord' = ord - (ord' + 1) + 1 by omega, List.getElem?_cons_succ]
      exact hraw

variable {R o} in
/-- A key met at a block is a key of it. -/
theorem mem_eventsAt_block {s s' : SubtaskStream} {header : SubtaskHeader} {kg kg' : Int}
    {ord : Nat} {ordinal : UInt32} {raw : RawKey}
    (h : Event.key s header kg ord raw ∈ R.eventsAt o (.block s' kg' ordinal)) :
    s = s' ∧ kg = kg' := by
  unfold StateReader.eventsAt at h
  rcases hcontent : R.contentOf o s' kg' with e | _ | ⟨header', block⟩
  · simp [hcontent] at h
  · simp [hcontent] at h
  · simp only [hcontent] at h
    obtain ⟨hs, -, hkg, -⟩ := mem_keyEvents h
    exact ⟨hs, hkg⟩

/-- What a block holds does not depend on what was read before. -/
theorem StateReader.readBlock_fst (s : SubtaskStream) (kg : Int) (stats : ReadStats) :
    (R.readBlock o s kg stats ()).1 = R.contentOf o s kg := by
  unfold StateReader.contentOf StateReader.readBlock
  rcases s.blockRange (kg - s.startKeyGroup).toNat with _ | ⟨start, last⟩
  · rfl
  · rcases s.header with e | header
    · rfl
    · dsimp only
      rcases R.readGrouped o s header kg start last with e | block
      · rfl
      · rfl

end Events

/-- A position at another key of its block. -/
def Position.atKey (ord : Nat) : Position → Position
  | .block s kg _ => .block s kg (UInt32.ofNat ord)
  | p => p

/-- What a call can leave of the positions in front of it. -/
inductive Left : List Position → List Position → Prop
  | here (ps : List Position) : Left ps ps
  | nothing (ps : List Position) : Left ps []
  | inside (s : SubtaskStream) (kg : Int) {a b : UInt32} (h : a ≤ b) (ps : List Position) :
    Left (.block s kg a :: ps) (.block s kg b :: ps)
  | skip (p : Position) {ps rest : List Position} (h : Left ps rest) : Left (p :: ps) rest

namespace Walk

variable {α : Type} (w : Walk α)

/-- What a call gathers from an event. -/
def gather (found : α) : Event → α
  | .key s header kg ord raw => w.step s header kg ord raw found
  | .report _ => found

/-- The positions in the range of a call. -/
def inRange (ps : List Position) : List Position := ps.takeWhile fun p => !w.past p.keyGroup

/-- One position: the page after it, and the key of its block the call stopped before, if any. -/
def visit (fetch : Fetch Unit) (pos : Position) (page : Page α) : Page α × Option Nat :=
  match pos with
  | .ended => (page, none)
  | .unreadable u from' =>
    ({ page with unreadable := page.unreadable ++ [u.unreadable from'] }, none)
  | .block s kg ordinal =>
    match fetch s kg page.stats () with
    | (.error e, stats, _) =>
      ({ page with stats := stats, unreadable := page.unreadable ++ [unreadableBlock s kg e] }, none)
    | (.ok none, stats, _) => ({ page with stats := stats }, none)
    | (.ok (some (header, block)), stats, _) =>
      let met := w.keys s header kg ordinal.toNat (block.keys.drop ordinal.toNat) page.found
      ({ page with
        stats := stats, malformed := page.malformed ++ block.defect.toList, found := met.1 }, met.2)

/-- The loop over a list of positions: the page, and the positions left. -/
def pass (fetch : Fetch Unit) : List Position → Nat → Page α → Page α × List Position
  | [], _, page => (page, [])
  | pos :: rest, visited, page =>
    if w.past pos.keyGroup then (page, [])
    else if w.stops visited page.stats page.found then
      ({ page with next := pos.cursorOf }, pos :: rest)
    else
      match w.visit fetch pos page with
      | (page, none) => pass fetch rest (visited + 1) page
      | (page, some ord) =>
        ({ page with next := (pos.atKey ord).cursorOf }, pos.atKey ord :: rest)

theorem clip_eq (pos : Position) (hne : pos ≠ .ended) :
    w.clip pos = if w.past pos.keyGroup then .ended else pos := by
  cases pos with
  | block s kg ordinal => rfl
  | unreadable u from' => rfl
  | ended => exact absurd rfl hne

/-- **The loop goes along the positions.** -/
theorem loop_eq_pass {units : List ReadUnit} (hunits : LaidOut units) (fetch : Fetch Unit)
    {ps : List Position} (hline : OnLine units ps) (turns : Nat) (hturns : ps.length < turns)
    (visited : Nat) (page : Page α) :
    (w.loop fetch units turns (headPosition ps) visited page ()).1
      = (w.pass fetch ps visited page).1 := by
  induction ps generalizing turns visited page with
  | nil =>
    obtain ⟨turns, rfl⟩ : ∃ n, turns = n + 1 := ⟨turns - 1, by simp at hturns; omega⟩
    rfl
  | cons p rest ih =>
    obtain ⟨turns, rfl⟩ : ∃ n, turns = n + 1 := ⟨turns - 1, by simp at hturns; omega⟩
    rw [List.length_cons] at hturns
    obtain ⟨hafter, hrest⟩ := hline.tail hunits
    -- after a position the walk seeks from the next key-group, which is the next of the line
    have hseek : seekUnits p.after 0 units = headPosition rest := by
      rw [seekUnits_eq, startAt_zero hunits, hafter]
    have hlater := ih hrest turns (by omega)
    have hhead : headPosition (p :: rest) = p := rfl
    unfold loop pass
    rw [hhead, clip_eq w p hline.ne_ended]
    -- Past the range both end; otherwise both stop at the same budget or read the same block.
    by_cases hpast : w.past p.keyGroup = true
    · rw [if_pos hpast, if_pos hpast]
    · rw [if_neg hpast, if_neg hpast]
      cases p with
      | ended => exact absurd rfl hline.ne_ended
      | unreadable u from' =>
        dsimp only
        by_cases hstop : w.stops visited page.stats page.found = true
        · rw [if_pos hstop, if_pos hstop]
        · rw [if_neg hstop, if_neg hstop]
          simp only [Position.after] at hseek
          rw [hseek]
          exact hlater _ _
      | block s kg ordinal =>
        dsimp only
        by_cases hstop : w.stops visited page.stats page.found = true
        · rw [if_pos hstop, if_pos hstop]
        · rw [if_neg hstop, if_neg hstop]
          simp only [Position.after] at hseek
          rw [hseek]
          unfold visit
          dsimp only
          rcases fetch s kg page.stats () with ⟨e | _ | ⟨header, block⟩, stats, -⟩
          · exact hlater _ _
          · exact hlater _ _
          · dsimp only
            rcases w.keys s header kg ordinal.toNat (block.keys.drop ordinal.toNat) page.found
              with ⟨found, _ | ord⟩
            · exact hlater _ _
            · rfl

/-! ### Keys of a block -/

theorem keyEvents_append (s : SubtaskStream) (header : SubtaskHeader) (kg : Int) (ord : Nat)
    (a b : List RawKey) :
    keyEvents s header kg ord (a ++ b)
      = keyEvents s header kg ord a ++ keyEvents s header kg (ord + a.length) b := by
  induction a generalizing ord with
  | nil => rfl
  | cons raw a ih =>
    rw [List.cons_append, keyEvents, keyEvents, ih, List.length_cons, List.cons_append,
      Nat.add_right_comm, Nat.add_assoc]

theorem length_keyEvents (s : SubtaskStream) (header : SubtaskHeader) (kg : Int) (ord : Nat)
    (raws : List RawKey) : (keyEvents s header kg ord raws).length = raws.length := by
  induction raws generalizing ord with
  | nil => rfl
  | cons raw raws ih => rw [keyEvents, List.length_cons, List.length_cons, ih]

theorem reported_keyEvents (s : SubtaskStream) (header : SubtaskHeader) (kg : Int) (ord : Nat)
    (raws : List RawKey) : (keyEvents s header kg ord raws).filterMap Event.reported = [] := by
  induction raws generalizing ord with
  | nil => rfl
  | cons raw raws ih =>
    rw [keyEvents, List.filterMap_cons_none rfl]
    exact ih _

/-- **The keys of a block**: they are gathered up to where the call is full, which is not before
    the first of them when the call was not full before. -/
theorem keys_spec (s : SubtaskStream) (header : SubtaskHeader) (kg : Int) (ord : Nat)
    (raws : List RawKey) (found : α) :
    ∃ taken left, raws = taken ++ left
      ∧ (w.keys s header kg ord raws found).1
        = (keyEvents s header kg ord taken).foldl w.gather found
      ∧ (((w.keys s header kg ord raws found).2 = none ∧ left = [])
        ∨ ((w.keys s header kg ord raws found).2 = some (ord + taken.length) ∧ left ≠ []
          ∧ (w.full found = true ∨ taken ≠ []))) := by
  induction raws generalizing ord found with
  | nil => exact ⟨[], [], rfl, rfl, .inl ⟨rfl, rfl⟩⟩
  | cons raw raws ih =>
    by_cases hfull : w.full found = true
    · refine ⟨[], raw :: raws, rfl, ?_, .inr ⟨?_, by simp, .inl hfull⟩⟩
      · rw [keys, if_pos hfull]
        rfl
      · rw [keys, if_pos hfull]
        rfl
    · obtain ⟨taken, left, rfl, hfound, hstop⟩ := ih (ord + 1) (w.step s header kg ord raw found)
      have hkeys : w.keys s header kg ord (raw :: (taken ++ left)) found
          = w.keys s header kg (ord + 1) (taken ++ left) (w.step s header kg ord raw found) := by
        rw [keys, if_neg hfull]
      rw [hkeys]
      refine ⟨raw :: taken, left, rfl, hfound, ?_⟩
      rcases hstop with ⟨hnone, hleft⟩ | ⟨hsome, hleft, -⟩
      · exact .inl ⟨hnone, hleft⟩
      · refine .inr ⟨?_, hleft, .inr (by simp)⟩
        rw [hsome, List.length_cons]
        congr 1
        omega

/-! ### One call -/

/-- **What one call does**, from the page `before` it to the page `after` it: `taken` are the
    events it passes, `rest` the positions left. -/
structure Passed (R : StateReader) (o : OpenOperator) (ps : List Position) (before : Page α)
    (taken : List Event) (after : Page α) (rest : List Position) : Prop where
  events : R.eventsOf o (w.inRange ps) = taken ++ R.eventsOf o (w.inRange rest)
  found : after.found = taken.foldl w.gather before.found
  unreadable : after.unreadable = before.unreadable ++ taken.filterMap Event.reported
  next : after.next = rest.head?.bind Position.cursorOf
  left : Left ps rest
  kept : before.malformed ⊆ after.malformed
  /-- The defect of a block is noted by the call that passes a key of it... -/
  noted : ∀ s header kg ord raw, Event.key s header kg ord raw ∈ taken →
    ∀ d ∈ R.defectOf o s kg, d ∈ after.malformed
  /-- ... and by the call that passes the block. -/
  visited : ∀ s kg ord, Position.block s kg ord ∈ w.inRange ps → ∀ d ∈ R.defectOf o s kg,
    d ∈ after.malformed ∨ ∃ ord', Position.block s kg ord' ∈ w.inRange rest

section Passed

variable {w} {R : StateReader} {o : OpenOperator}

theorem inRange_cons_past {pos : Position} {rest : List Position}
    (h : w.past pos.keyGroup = true) : w.inRange (pos :: rest) = [] := by
  rw [inRange, List.takeWhile_cons, h]
  rfl

theorem inRange_cons {pos : Position} {rest : List Position} (h : ¬ w.past pos.keyGroup = true) :
    w.inRange (pos :: rest) = pos :: w.inRange rest := by
  rw [inRange, List.takeWhile_cons, Bool.not_eq_true] at *
  rw [h]
  rfl

/-- A call that stops before everything in front of it. -/
theorem Passed.stop (pos : Position) (ps : List Position) (page : Page α) :
    w.Passed R o (pos :: ps) page [] { page with next := pos.cursorOf } (pos :: ps) where
  events := rfl
  found := rfl
  unreadable := (List.append_nil _).symm
  next := rfl
  left := .here _
  kept := List.Subset.refl _
  noted := by
    intro s header kg ord raw h
    cases h
  visited := by
    intro s kg ord h d _
    exact .inr ⟨ord, h⟩

/-- A call with nothing in its range in front of it. -/
theorem Passed.over {ps : List Position} {page : Page α} (hrange : w.inRange ps = [])
    (hnext : page.next = none) : w.Passed R o ps page [] page [] where
  events := by
    rw [hrange]
    rfl
  found := rfl
  unreadable := (List.append_nil _).symm
  next := hnext
  left := .nothing _
  kept := List.Subset.refl _
  noted := by
    intro s header kg ord raw h
    cases h
  visited := by
    intro s kg ord h
    rw [hrange] at h
    cases h

/-- A call that passes the first position and goes on. -/
theorem Passed.cons {pos : Position} {ps rest : List Position} {before middle after : Page α}
    {taken : List Event} (h : w.Passed R o ps middle taken after rest)
    (hpast : ¬ w.past pos.keyGroup = true)
    (hfound : middle.found = (R.eventsAt o pos).foldl w.gather before.found)
    (hunreadable : middle.unreadable
      = before.unreadable ++ (R.eventsAt o pos).filterMap Event.reported)
    (hkept : before.malformed ⊆ middle.malformed)
    (hdefect : ∀ s kg ord, pos = .block s kg ord → ∀ d ∈ R.defectOf o s kg, d ∈ middle.malformed) :
    w.Passed R o (pos :: ps) before (R.eventsAt o pos ++ taken) after rest where
  events := by
    have hcons : R.eventsOf o (pos :: w.inRange ps) = R.eventsAt o pos ++ R.eventsOf o (w.inRange ps) :=
      rfl
    rw [inRange_cons hpast, hcons, h.events, List.append_assoc]
  found := by rw [h.found, hfound, List.foldl_append]
  unreadable := by rw [h.unreadable, hunreadable, List.filterMap_append, List.append_assoc]
  next := h.next
  left := .skip pos h.left
  kept := List.Subset.trans hkept h.kept
  noted := by
    intro s header kg ord raw hmem d hd
    rcases List.mem_append.mp hmem with hmem | hmem
    · -- A key of this position is of its block.
      cases pos with
      | ended => cases hmem
      | unreadable u from' => simp [StateReader.eventsAt] at hmem
      | block s' kg' ord' =>
        have hblock := mem_eventsAt_block hmem
        rw [hblock.1, hblock.2] at hd
        exact h.kept (hdefect s' kg' ord' rfl d hd)
    · exact h.noted s header kg ord raw hmem d hd
  visited := by
    intro s kg ord hmem d hd
    rw [inRange_cons hpast] at hmem
    rcases List.mem_cons.mp hmem with rfl | hmem
    · exact .inl (h.kept (hdefect s kg ord rfl d hd))
    · exact h.visited s kg ord hmem d hd

/-- A call that stops inside the block of the first position. -/
theorem Passed.inside {s : SubtaskStream} {kg : Int} {ordinal : UInt32} {ps : List Position}
    {before after : Page α} {header : SubtaskHeader} {block : GroupedBlock}
    {taken left : List RawKey} (hpast : ¬ w.past kg = true)
    (hcontent : R.contentOf o s kg = .ok (some (header, block)))
    (hkeys : block.keys.drop ordinal.toNat = taken ++ left)
    (hsize : ordinal.toNat + taken.length < 2 ^ 32)
    (hfound : after.found
      = (keyEvents s header kg ordinal.toNat taken).foldl w.gather before.found)
    (hunreadable : after.unreadable = before.unreadable)
    (hmalformed : after.malformed = before.malformed ++ block.defect.toList)
    (hnext : after.next = some ⟨s.subtaskIndex, UInt16.ofInt kg,
      UInt32.ofNat (ordinal.toNat + taken.length)⟩) :
    w.Passed R o (.block s kg ordinal :: ps) before (keyEvents s header kg ordinal.toNat taken) after
      (.block s kg (UInt32.ofNat (ordinal.toNat + taken.length)) :: ps) where
  events := by
    -- the ordinal of a cursor is a u32
    have hord : (UInt32.ofNat (ordinal.toNat + taken.length)).toNat
        = ordinal.toNat + taken.length := by
      rw [UInt32.toNat_ofNat']
      exact Nat.mod_eq_of_lt hsize
    have hleft : block.keys.drop (ordinal.toNat + taken.length) = left := by
      rw [← List.drop_drop, hkeys, List.drop_left]
    have hhead : R.eventsAt o (.block s kg ordinal)
        = keyEvents s header kg ordinal.toNat taken
          ++ R.eventsAt o (.block s kg (UInt32.ofNat (ordinal.toNat + taken.length))) := by
      unfold StateReader.eventsAt
      simp only [hcontent]
      rw [hkeys, hord, hleft, keyEvents_append]
    have hat (a : UInt32) : ¬ w.past (Position.block s kg a).keyGroup = true := hpast
    rw [inRange_cons (hat _), inRange_cons (hat _),
      StateReader.eventsOf, List.flatMap_cons, hhead, List.append_assoc]
    rfl
  found := hfound
  unreadable := by rw [hunreadable, reported_keyEvents, List.append_nil]
  next := hnext
  left := by
    refine .inside s kg ?_ ps
    rw [UInt32.le_iff_toNat_le, UInt32.toNat_ofNat', Nat.mod_eq_of_lt hsize]
    exact Nat.le_add_right _ _
  kept := by
    rw [hmalformed]
    exact List.subset_append_left _ _
  noted := by
    intro s' header' kg' ord raw hmem d hd
    obtain ⟨rfl, -, rfl, -⟩ := mem_keyEvents hmem
    rw [hmalformed]
    simp only [StateReader.defectOf, hcontent] at hd
    exact List.mem_append_right _ (Option.mem_toList.mpr hd)
  visited := by
    intro s' kg' ord hmem d hd
    have hat (a : UInt32) : ¬ w.past (Position.block s kg a).keyGroup = true := hpast
    rw [inRange_cons (hat _)] at hmem
    rcases List.mem_cons.mp hmem with heq | hmem
    · cases heq
      rw [hmalformed]
      simp only [StateReader.defectOf, hcontent] at hd
      exact .inl (List.mem_append_right _ (Option.mem_toList.mpr hd))
    · right
      rw [inRange_cons (hat _)]
      exact ⟨ord, List.mem_cons_of_mem _ hmem⟩

theorem readBlock_eq {s : SubtaskStream} {kg : Int} {stats stats' : ReadStats} {u : Unit}
    {content : Except Text (Option (SubtaskHeader × GroupedBlock))}
    (h : R.readBlock o s kg stats () = (content, stats', u)) : R.contentOf o s kg = content := by
  rw [← R.readBlock_fst o s kg stats, h]

/-- **One position that is passed**: its events are gathered and reported, and its defect is
    noted. -/
theorem visit_none {pos : Position} {page after : Page α}
    (h : w.visit (R.readBlock o) pos page = (after, none)) :
    after.found = (R.eventsAt o pos).foldl w.gather page.found
      ∧ after.unreadable = page.unreadable ++ (R.eventsAt o pos).filterMap Event.reported
      ∧ after.next = page.next
      ∧ page.malformed ⊆ after.malformed
      ∧ ∀ s kg ord, pos = .block s kg ord → ∀ d ∈ R.defectOf o s kg, d ∈ after.malformed := by
  cases pos with
  | ended =>
    cases h
    exact ⟨rfl, (List.append_nil _).symm, rfl, List.Subset.refl _, fun _ _ _ h => by cases h⟩
  | unreadable u from' =>
    cases h
    exact ⟨rfl, rfl, rfl, List.Subset.refl _, fun _ _ _ h => by cases h⟩
  | block s kg ordinal =>
    unfold visit at h
    rcases hread : R.readBlock o s kg page.stats () with ⟨e | _ | ⟨header, block⟩, stats, u⟩
    · -- The block cannot be read.
      have hcontent := readBlock_eq hread
      simp only [hread, Prod.mk.injEq, and_true] at h
      subst h
      simp only [StateReader.eventsAt, hcontent, StateReader.defectOf]
      exact ⟨rfl, rfl, trivial, List.Subset.refl _, fun s' kg' ord heq d hd => by
        cases heq
        simp [hcontent] at hd⟩
    · -- The key-group is empty.
      have hcontent := readBlock_eq hread
      simp only [hread, Prod.mk.injEq, and_true] at h
      subst h
      simp only [StateReader.eventsAt, hcontent, StateReader.defectOf]
      exact ⟨rfl, (List.append_nil _).symm, trivial, List.Subset.refl _, fun s' kg' ord heq d hd => by
        cases heq
        simp [hcontent] at hd⟩
    · -- All of its keys are passed.
      have hcontent := readBlock_eq hread
      obtain ⟨taken, left, hkeys, hfound, hend⟩ := w.keys_spec s header kg ordinal.toNat
        (block.keys.drop ordinal.toNat) page.found
      simp only [hread, Prod.mk.injEq] at h
      obtain ⟨rfl, hnone⟩ := h
      rw [hnone] at hend
      rcases hend with ⟨-, rfl⟩ | ⟨hsome, -, -⟩
      · rw [List.append_nil] at hkeys
        simp only [StateReader.eventsAt, hcontent, StateReader.defectOf, reported_keyEvents]
        rw [hkeys] at hfound ⊢
        refine ⟨hfound, (List.append_nil _).symm, trivial, List.subset_append_left _ _, ?_⟩
        intro s' kg' ord heq d hd
        cases heq
        simp only [hcontent] at hd
        exact List.mem_append_right _ (Option.mem_toList.mpr hd)
      · cases hsome

/-- **One position a call stops inside of**: it is a block, and some of its keys are passed unless
    the call was full. -/
theorem visit_some {pos : Position} (hsized : R.SizedAt o pos) {page after : Page α} {ord : Nat}
    (h : w.visit (R.readBlock o) pos page = (after, some ord))
    (hpast : ¬ w.past pos.keyGroup = true) (ps : List Position) :
    ∃ s kg ordinal taken, pos = .block s kg ordinal
      ∧ (w.full page.found = true ∨ ordinal < UInt32.ofNat ord ∧ taken ≠ [])
      ∧ w.Passed R o (pos :: ps) page taken
        { after with next := (pos.atKey ord).cursorOf } (pos.atKey ord :: ps) := by
  cases pos with
  | ended => cases h
  | unreadable u from' => cases h
  | block s kg ordinal =>
    unfold visit at h
    rcases hread : R.readBlock o s kg page.stats () with ⟨e | _ | ⟨header, block⟩, stats, u⟩
    · simp [hread] at h
    · simp [hread] at h
    · have hcontent := readBlock_eq hread
      obtain ⟨taken, left, hkeys, hfound, hend⟩ := w.keys_spec s header kg ordinal.toNat
        (block.keys.drop ordinal.toNat) page.found
      simp only [hread, Prod.mk.injEq] at h
      obtain ⟨rfl, hsome⟩ := h
      rw [hsome] at hend
      rcases hend with ⟨hnone, -⟩ | ⟨hord, hleft, hfull⟩
      · cases hnone
      · cases hord
        have hsize := hsized s kg ordinal header block rfl hcontent
        have hlength := congrArg List.length hkeys
        have hpos := List.length_pos_of_ne_nil hleft
        rw [List.length_drop, List.length_append] at hlength
        refine ⟨s, kg, ordinal, _, rfl, ?_, Passed.inside hpast hcontent hkeys (by omega) hfound rfl
          rfl rfl⟩
        refine hfull.imp id fun htaken => ⟨?_, fun hnil => ?_⟩
        · have hlt := List.length_pos_of_ne_nil htaken
          rw [UInt32.lt_iff_toNat_lt, UInt32.toNat_ofNat', Nat.mod_eq_of_lt (by omega)]
          omega
        · have hlength := congrArg List.length hnil
          rw [length_keyEvents] at hlength
          exact htaken (List.length_eq_zero_iff.mp hlength)

/-- **One call passes a part of what is in front of it.** -/
theorem pass_passed (ps : List Position) (hsized : ∀ p ∈ ps, R.SizedAt o p) (visited : Nat)
    (page : Page α) (hpage : page.next = none) :
    ∃ taken, w.Passed R o ps page taken (w.pass (R.readBlock o) ps visited page).1
      (w.pass (R.readBlock o) ps visited page).2 := by
  induction ps generalizing visited page with
  | nil => exact ⟨[], Passed.over rfl hpage⟩
  | cons pos ps ih =>
    unfold pass
    by_cases hpast : w.past pos.keyGroup = true
    · rw [if_pos hpast]
      exact ⟨[], Passed.over (inRange_cons_past hpast) hpage⟩
    · rw [if_neg hpast]
      by_cases hstop : w.stops visited page.stats page.found = true
      · rw [if_pos hstop]
        exact ⟨[], Passed.stop pos ps page⟩
      · rw [if_neg hstop]
        rcases hvisit : w.visit (R.readBlock o) pos page with ⟨middle, _ | ord⟩
        · obtain ⟨hfound, hunreadable, hnext, hkept, hdefect⟩ := visit_none hvisit
          obtain ⟨taken, h⟩ := ih (fun p hp => hsized p (List.mem_cons_of_mem _ hp)) (visited + 1)
            middle (hnext.trans hpage)
          exact ⟨_, h.cons hpast hfound hunreadable hkept hdefect⟩
        · obtain ⟨s, kg, ordinal, taken, -, -, h⟩ :=
            visit_some (hsized pos List.mem_cons_self) hvisit hpast ps
          exact ⟨taken, h⟩

/-- **A call that is not at the end takes something**: it leaves a part of what is behind the first
    position, or the same block from a later key on. -/
theorem pass_shrinks {pos : Position} {ps : List Position}
    (hsized : ∀ p ∈ pos :: ps, R.SizedAt o p) {page : Page α} (hpage : page.next = none) (hpast : ¬ w.past pos.keyGroup = true)
    (hfull : ¬ w.full page.found = true) :
    Left ps (w.pass (R.readBlock o) (pos :: ps) 0 page).2
      ∨ ∃ s kg a b, pos = .block s kg a ∧ a < b
        ∧ (w.pass (R.readBlock o) (pos :: ps) 0 page).2 = .block s kg b :: ps := by
  have hstop : ¬ w.stops 0 page.stats page.found = true := by
    rw [stops]
    simpa using hfull
  unfold pass
  rw [if_neg hpast, if_neg hstop]
  rcases hvisit : w.visit (R.readBlock o) pos page with ⟨middle, _ | ord⟩
  · obtain ⟨-, -, hnext, -⟩ := visit_none hvisit
    obtain ⟨taken, h⟩ := pass_passed (w := w) ps (fun p hp => hsized p (List.mem_cons_of_mem _ hp)) 1
      middle (hnext.trans hpage)
    exact .inl h.left
  · obtain ⟨s, kg, ordinal, taken, rfl, hlt, -⟩ :=
      visit_some (hsized pos List.mem_cons_self) hvisit hpast ps
    exact .inr ⟨s, kg, ordinal, _, rfl, (hlt.resolve_left hfull).1, rfl⟩

end Passed

end Walk

end FlinkExplorer
