import FlinkExplorer.Reader.Scan
import FlinkExplorer.Web.JobSlots
import FlinkExplorer.Web.JobTotals

namespace FlinkExplorer.Web

open Lib

/-!
# The state machine of the count jobs

What holds of the jobs in every state that requests and workers bring about, in whatever order.

* `exists_count_whole`, `found_of_whole` — one call of `count` that leaves nothing: a budget that is
  large enough gives one, and each counts what lies at every place of the operator;
* `CountJobs.Obeys` — the state machine, said of one state and of all that can follow it;
* `CountJobs.obeys_of_run` — every run keeps to it.
-/

/-! ### One whole count -/

section Whole

variable {R : StateReader} {o : OpenOperator} {op : Text}

/-- What a position gives does not depend on the budget. -/
theorem visit_countWalk (budget budget' : Nat) (pos : Position) (page : Page Counts) :
    (StateReader.countWalk budget).visit (R.readBlock o) pos page
      = (StateReader.countWalk budget').visit (R.readBlock o) pos page := by
  cases pos with
  | ended => rfl
  | unreadable u from' => rfl
  | block s kg ordinal =>
    unfold Walk.visit
    dsimp only
    rcases R.readBlock o s kg page.stats () with ⟨e | _ | ⟨header, block⟩, stats, u⟩
    · rfl
    · rfl
    · dsimp only
      rw [(whole_countWalk budget).keys, (whole_countWalk budget').keys]
      rfl

/-- A budget that the blocks in front of a count do not fill: it goes to the end. -/
theorem exists_pass_whole (ps : List Position) (visited : Nat) (page : Page Counts)
    (hpage : page.next = none) :
    ∃ enough, ∀ budget, enough ≤ budget →
      ((StateReader.countWalk budget).pass (R.readBlock o) ps visited page).1.next = none := by
  induction ps generalizing visited page with
  | nil => exact ⟨0, fun _ _ => hpage⟩
  | cons pos ps ih =>
    obtain ⟨middle, hvisit, -⟩ := (whole_countWalk 0).visit (R := R) (o := o) pos page
    obtain ⟨-, -, hnext, -⟩ := Walk.visit_none hvisit
    obtain ⟨enough, hrest⟩ := ih (visited + 1) middle (hnext.trans hpage)
    refine ⟨max enough (page.stats.blockBytes + 1), fun budget hbudget => ?_⟩
    have hpast : ¬ (StateReader.countWalk budget).past pos.keyGroup = true := by
      simp [Walk.past, StateReader.countWalk]
    have hgoes : ¬ (StateReader.countWalk budget).stops visited page.stats page.found = true := by
      have hbelow : page.stats.blockBytes < budget := by omega
      simp [Walk.stops, StateReader.countWalk, hbelow]
    unfold Walk.pass
    rw [if_neg hpast, if_neg hgoes, visit_countWalk budget 0, hvisit]
    exact hrest budget (by omega)

/-- **One call counts an operator whole** when its budget is large enough. -/
theorem exists_count_whole (hop : R.operator op = .ok o) {c : Cursor}
    (hcheck : o.checkCursor c = .ok ()) :
    ∃ enough, ∀ budget, enough ≤ budget → ∀ cache, R.Sound cache →
      ∃ page, (R.count op c budget cache).1 = .ok page ∧ page.next = none := by
  obtain ⟨enough, hwhole⟩ := exists_pass_whole (R := R) (o := o) (o.trailFrom c.keyGroup.toNat) 0
    ⟨⟨[], 0⟩, none, .zero, [], []⟩ rfl
  refine ⟨enough, fun budget hbudget cache hcache => ?_⟩
  obtain ⟨page, hpage, hpass⟩ := count_eq_pass hop hcache hcheck budget
  refine ⟨page, hpage, ?_⟩
  have hnext := hwhole budget hbudget
  rw [← hpass] at hnext
  exact hnext

/-- **What one call counts that leaves nothing** is what lies at every place. -/
theorem found_of_whole (hop : R.operator op = .ok o) (ho : o.Bounded) {cache : BlockCache}
    (hcache : R.Sound cache) {c : Cursor} (hzero : c.keyGroup = 0) {budget : Nat}
    {page : Page Counts} (hcount : (R.count op c budget cache).1 = .ok page)
    (hnext : page.next = none) :
    page.found = (R.eventsOf o (placesFrom o 0)).foldl Counts.gather ⟨[], 0⟩ := by
  obtain ⟨gone, rest, hsplit, hfound, -, -, hrest⟩ := count_went hop hcache hcount
  rw [hzero] at hsplit
  have hnil : rest = [] := by
    cases rest with
    | nil => rfl
    | cons p more =>
      -- a position that is left has a cursor, and the page would give it
      obtain ⟨c', hcursor, -⟩ := trailFrom_cursorOf ho (Int.natCast_nonneg _) hsplit
      have hnone : p.cursorOf = none := hrest.symm.trans hnext
      rw [hcursor] at hnone
      cases hnone
  rw [hnil, List.append_nil] at hsplit
  rw [hfound, placesFrom, gather_lasting, ← hsplit]
  rfl

/-- Where nothing at any position is reported, and none has a defect, all of it can be read. -/
theorem readWhole_of_positions (ho : o.Regular)
    (hclean : ∀ p ∈ positions 0 o.ctx.units,
      (∀ e ∈ R.eventsAt o p, e.reported = none) ∧ R.defectsAt o p = []) : R.ReadWhole o := by
  refine readWhole_of_reports ?_ fun s hs kg hkg => ?_
  · rw [← reports_eq ho]
    refine List.filterMap_eq_nil_iff.mpr fun e he => ?_
    obtain ⟨p, hp, he⟩ := List.mem_flatMap.mp he
    exact (hclean p hp).1 e he
  · refine Option.eq_none_iff_forall_not_mem.mpr fun d hd => ?_
    have hnone := (hclean _ (block_mem_positions ho hs hkg hd)).2
    have hmem : d ∈ R.defectsAt o (.block s kg 0) := Option.mem_toList.mpr hd
    rw [hnone] at hmem
    cases hmem

end Whole

namespace CountJobs

/-! ### The state machine -/

section Obeys

variable (R : StateReader) (stepBytes maxRunning : Nat) (s : CountJobs)

/-- What holds of the jobs in a state, and in whatever state follows it. -/
structure Obeys : Prop where
  /-- No more jobs are live than may be. -/
  bounded : ∀ is : List Nat, is.Nodup → (∀ i ∈ is, s.live i = true) → is.length ≤ max maxRunning 1
  /-- No operator has two workers. -/
  alone : ∀ (i i' : Nat) (j j' : Job), s.jobs[i]? = some j → s.jobs[i']? = some j' → j.worker ≠ .gone →
    j'.worker ≠ .gone → j.op = j'.op → i = i'
  /-- The job that a call of `cancel` has marked is not running. -/
  marked : ∀ (n i : Nat) (s' : CountJobs) (answer : Answer), s.cancels[n]? = some ⟨i, .marking⟩ →
    s.step R stepBytes maxRunning (.mark n) = some (s', answer) →
    ∀ j : Job, s'.jobs[i]? = some j → j.state.status ≠ .running
  /-- A job that is not running never runs again, and one that has stopped stays as it is. -/
  onward : ∀ acts s', run R stepBytes maxRunning s acts = some s' →
    ∀ (i : Nat) (j : Job), s.jobs[i]? = some j → ∃ j' : Job, s'.jobs[i]? = some j' ∧ j'.op = j.op
      ∧ (j.state.status ≠ .running → j'.state.status ≠ .running)
      ∧ (j.isLive = false → j'.state.status = j.state.status)
  /-- Only a job that was asked to stop is cancelled. -/
  asked : ∀ (i : Nat) (j : Job), s.jobs[i]? = some j → j.state.status = .cancelled → s.Asked i
  /-- A job that is done has counted what one count of the whole operator counts. -/
  totals : ∀ (i : Nat) (j : Job) (o : OpenOperator), s.jobs[i]? = some j →
    j.state.status = .done → R.operator j.op = .ok o → o.Bounded → ∃ c, R.cursorAt j.op 0 = .ok c
      ∧ (∃ enough, ∀ budget, enough ≤ budget → ∀ cache, R.Sound cache →
        ∃ page, (R.count j.op c budget cache).1 = .ok page ∧ page.next = none)
      ∧ ∀ budget cache page, R.Sound cache → (R.count j.op c budget cache).1 = .ok page →
        page.next = none → (⟨j.state.states, j.state.keys⟩ : Counts) = page.found
  /-- It is exact only where every key-group was read, and read whole. -/
  exact : ∀ (i : Nat) (j : Job) (o : OpenOperator), s.jobs[i]? = some j →
    j.state.exact = true → R.operator j.op = .ok o → o.Bounded → o.Regular → R.ReadWhole o

variable {R stepBytes maxRunning s}

/-- **Every run keeps to the state machine**, whatever the order of its actions. -/
theorem obeys_of_run {acts : List Act} (hacts : ∀ act ∈ acts, act.Finds R.Sound)
    (hrun : run R stepBytes maxRunning .start acts = some s) :
    s.Obeys R stepBytes maxRunning where
  bounded is hnodup hlive := (slots_run hrun).length_le hnodup hlive
  alone i i' j j' hj hj' hworker hworker' hop := by
    have hslots := slots_run hrun
    have hlatest := hslots.jobOf_worker hj hworker
    have hlatest' := hslots.jobOf_worker hj' hworker'
    rw [hop] at hlatest
    exact Option.some.inj (hlatest.symm.trans hlatest')
  marked n i s' answer hn hstep j hj := by
    simp only [step, hn, Option.some.injEq, Prod.mk.injEq] at hstep
    obtain ⟨rfl, -⟩ := hstep
    simp only [List.getElem?_modify_eq] at hj
    obtain ⟨before, -, rfl⟩ := Option.map_eq_some_iff.mp hj
    exact before.marked_ne_running
  onward acts' s' hrun' i j hj := by
    obtain ⟨-, j', hbecame⟩ := (minded_run hrun).became hrun' hj
    refine ⟨j', hbecame.here, hbecame.op_eq, fun hnot hrunning => ?_, hbecame.next.eq_of_not_live⟩
    exact hnot (hrunning ▸ hbecame.next).running
  asked i j hj hcancelled := (minded_run hrun).marked i j hj (.inr (.inr (.inl hcancelled)))
  totals i j o hj hdone hop ho := by
    have hzero : ((0 : UInt16).toNat : Int) < o.numKeyGroups := lt_max_of_lt_right Int.one_pos
    obtain ⟨c, hcursor, hkg, -, hcheck⟩ := checkCursor_cursorAt hop hzero
    refine ⟨c, hcursor, exists_count_whole hop hcheck, fun budget cache page hcache hcount hnext => ?_⟩
    have hcovers := covers_done hacts hrun hj hdone hop ho
    exact hcovers.counts.trans (found_of_whole hop ho hcache hkg hcount hnext).symm
  exact i j o hj hexact hop hbounded ho := by
    have hdone : j.state.status = .done := by
      have hboth : j.state.status = .done ∧ j.state.incompleteKeyGroups = 0 := by
        simpa [CountSnapshot.exact] using hexact
      exact hboth.1
    have hcovers := covers_done hacts hrun hj hdone hop hbounded
    rw [placesFrom_positions ho] at hcovers
    exact readWhole_of_positions ho (hcovers.whole_of_exact hexact)

end Obeys

/-! ### Runs of small savepoints -/

theorem obeys_of_run_one :
    ∃ s j, run (sampleReader 1) 1 1 .start countsOne = some s ∧ s.jobs[0]? = some j
      ∧ j.state.status = .done ∧ j.state.keys = 1 ∧ s.Obeys (sampleReader 1) 1 1 := by
  have hruns : (run (sampleReader 1) 1 1 .start countsOne).any (fun s =>
      (s.jobs[0]?).any fun j => j.state.status = .done ∧ j.state.keys = 1) = true := by
    decide +kernel
  obtain ⟨s, hs, hjob⟩ := (Option.any_eq_true _ _).mp hruns
  obtain ⟨j, hj, hboth⟩ := (Option.any_eq_true _ _).mp hjob
  obtain ⟨hdone, hkeys⟩ := of_decide_eq_true hboth
  exact ⟨s, j, hs, hj, hdone, hkeys, obeys_of_run (finds_countsOne _) hs⟩

/-- A second subtask with a block for key-group 0, cut short in its one entry. -/
def tornStream : SubtaskStream :=
  { sampleStream with
    subtaskIndex := 1
    statePos := 1
    src := .inline [0, 0, 0, 0, 0, 0, 6, 0x80, 0, 0, 0, 7] }

theorem statePos_shared : ([sampleStream, tornStream].map (·.statePos)).Nodup := by decide

/-- Both subtasks have the key-group 0. -/
def sharedOperator : OpenOperator := ⟨[1], 2, 1, ⟨0, [sampleStream, tornStream], [], statePos_shared⟩⟩

def sharedReader : StateReader :=
  { sampleReader 1 with
    operators := [sharedOperator]
    opIndex_eq := by
      intro i o h
      rcases i with _ | i
      · cases h
        rfl
      · cases h }

/-- A server that may run no count runs one; and a count of subtasks that share a key-group is exact
    though it never came to the second of them, whose block is cut short. -/
theorem not_obeys_zero_shared :
    (∃ s, run (sampleReader 1) 1 0 .start startsOne = some s ∧ s.live 0 = true)
    ∧ ∃ s j, run sharedReader 1 1 .start countsOne = some s ∧ s.jobs[0]? = some j
      ∧ j.op = "01".toList ∧ sharedReader.operator "01".toList = .ok sharedOperator
      ∧ j.state.exact = true ∧ ¬ sharedReader.ReadWhole sharedOperator := by
  constructor
  · have hruns : (run (sampleReader 1) 1 0 .start startsOne).any (·.live 0) = true := by
      decide +kernel
    obtain ⟨s, hs, hlive⟩ := (Option.any_eq_true _ _).mp hruns
    exact ⟨s, hs, hlive⟩
  · have hruns : (run sharedReader 1 1 .start countsOne).any (fun s =>
        (s.jobs[0]?).any fun j => j.op = "01".toList ∧ j.state.exact = true) = true := by
      decide +kernel
    obtain ⟨s, hs, hjob⟩ := (Option.any_eq_true _ _).mp hruns
    obtain ⟨j, hj, hboth⟩ := (Option.any_eq_true _ _).mp hjob
    obtain ⟨hop, hexact⟩ := of_decide_eq_true hboth
    refine ⟨s, j, hs, hj, hop, rfl, hexact, fun hwhole => ?_⟩
    have hmem : tornStream ∈ sharedOperator.ctx.streams :=
      List.mem_cons_of_mem _ (List.mem_singleton_self _)
    have hclean := (hwhole.blocks tornStream hmem 0 ⟨le_rfl, le_rfl⟩).2
    exact absurd hclean (by decide +kernel)

end CountJobs

end FlinkExplorer.Web
