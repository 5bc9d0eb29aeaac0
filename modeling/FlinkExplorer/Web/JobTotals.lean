import FlinkExplorer.Reader.KeyPages
import FlinkExplorer.Web.CountJobs

namespace FlinkExplorer.Web

open Lib

/-!
# What a job has counted when it is done

The worker of a job asks for one page of counts after the other, each from where the one before it
stopped, and adds them up.  `Job.Tallied` is what it keeps to: what was counted and what the rest of
the way holds are all there is, each once (`Job.Tallied.work`).  So `CountJobs.done_counts`: however
requests, cancels, other counts and the cache of blocks come in between, a job that is done has
counted what lies at every position of its operator.
-/

section Totals

variable {R : StateReader} {o : OpenOperator} {stepBytes maxRunning : Nat} {asked : Prop}
  {j j' : Job} {s s' : CountJobs}

/-- The positions of an operator that have a key-group to them, from a key-group on. -/
def placesFrom (o : OpenOperator) (from' : Int) : List Position :=
  (o.trailFrom from').filter Position.lasting

/-- What a job has counted is what lies at some positions; no warning says all of it was read. -/
structure Job.Covers (R : StateReader) (o : OpenOperator) (j : Job) (gone : List Position) :
    Prop where
  counts : (⟨j.state.states, j.state.keys⟩ : Counts)
    = (R.eventsOf o gone).foldl Counts.gather ⟨[], 0⟩
  readable : j.state.unreadableKeyGroups = 0 → ∀ e ∈ R.eventsOf o gone, e.reported = none
  whole : j.state.malformedKeyGroups = 0 → ∀ p ∈ gone, R.defectsAt o p = []

/-- How far a job has counted, by where its worker is. -/
structure Job.Tallied (R : StateReader) (o : OpenOperator) (j : Job) : Prop where
  entering : j.worker = .entering → j.Covers R o []
  onward : ∀ c, j.worker = .checking c ∨ j.worker = .counting c →
    ∃ gone, gone ++ placesFrom o c.keyGroup.toNat = placesFrom o 0 ∧ j.Covers R o gone
  closed : j.worker = .closing ∨ j.worker = .finishing .done ∨ j.state.status = .done →
    j.Covers R o (placesFrom o 0)

/-- A position without a key-group has no key to count. -/
theorem gather_lasting (ps : List Position) (counts : Counts) :
    (R.eventsOf o (ps.filter Position.lasting)).foldl Counts.gather counts
      = (R.eventsOf o ps).foldl Counts.gather counts := by
  induction ps generalizing counts with
  | nil => rfl
  | cons p ps ih =>
    have hcons : R.eventsOf o (p :: ps) = R.eventsAt o p ++ R.eventsOf o ps := List.flatMap_cons
    rw [hcons, List.foldl_append]
    by_cases hp : p.lasting = true
    · have hcons' : R.eventsOf o (p :: ps.filter Position.lasting)
          = R.eventsAt o p ++ R.eventsOf o (ps.filter Position.lasting) := List.flatMap_cons
      rw [List.filter_cons_of_pos hp, hcons', List.foldl_append, ih]
    · rw [List.filter_cons_of_neg hp, ih]
      cases p with
      | ended => exact absurd rfl hp
      | block => exact absurd rfl hp
      | unreadable u kg => rfl

/-- What a page adds to what was counted. -/
theorem Job.Covers.add {gone went : List Position} {page : Page Counts}
    (h : j.Covers R o gone) (hfound : page.found = (R.eventsOf o went).foldl Counts.gather ⟨[], 0⟩)
    (hunreadable : page.unreadable = (R.eventsOf o went).filterMap Event.reported)
    (hmalformed : page.malformed = went.flatMap (R.defectsAt o))
    (progress : Except ReaderError Progress) (worker : Worker) :
    Job.Covers R o { j with state := j.state.add page progress, worker }
      (gone ++ went.filter Position.lasting) := by
  have hadd := j.state.counted_add page progress
  have happend : R.eventsOf o (gone ++ went.filter Position.lasting)
      = R.eventsOf o gone ++ R.eventsOf o (went.filter Position.lasting) := List.flatMap_append
  refine ⟨?_, fun hzero e he => ?_, fun hzero p hp => ?_⟩
  · calc _ = (⟨j.state.states, j.state.keys⟩ : Counts).merge page.found := congrArg (·.2.1) hadd
      _ = (R.eventsOf o went).foldl Counts.gather ⟨j.state.states, j.state.keys⟩ := by
          rw [hfound, Counts.merge_foldl]
      _ = _ := by rw [happend, List.foldl_append, gather_lasting, h.counts]
  · have hsum : j.state.unreadableKeyGroups
        + (page.unreadable.map CountSnapshot.keyGroupsOf).sum = 0 :=
      (congrArg (·.2.2.1) hadd).symm.trans hzero
    -- every report names a key-group
    have hnone : page.unreadable = [] := by
      cases hlist : page.unreadable with
      | nil => rfl
      | cons u us =>
        rw [hlist, List.map_cons, List.sum_cons] at hsum
        unfold CountSnapshot.keyGroupsOf at hsum
        omega
    rw [happend] at he
    rcases List.mem_append.mp he with he | he
    · exact h.readable (by omega) e he
    · obtain ⟨p, hp, hep⟩ := List.mem_flatMap.mp he
      have hmem : e ∈ R.eventsOf o went := List.mem_flatMap.mpr ⟨p, List.mem_of_mem_filter hp, hep⟩
      exact List.filterMap_eq_nil_iff.mp (hunreadable.symm.trans hnone) e hmem
  · have hsum : j.state.malformedKeyGroups + page.malformed.length = 0 :=
      (congrArg (·.2.2.2) hadd).symm.trans hzero
    rcases List.mem_append.mp hp with hp | hp
    · exact h.whole (by omega) p hp
    · have hnil : page.malformed = [] := List.length_eq_zero_iff.mp (by omega)
      exact List.flatMap_eq_nil_iff.mp (hmalformed.symm.trans hnil) p (List.mem_of_mem_filter hp)

/-- What was counted is the state's alone. -/
theorem Job.Covers.congr {gone : List Position} (h : j.Covers R o gone)
    (hcounted : j'.state.counted.2 = j.state.counted.2) : j'.Covers R o gone where
  counts := (congrArg (·.1) hcounted).trans h.counts
  readable hzero := h.readable ((congrArg (·.2.1) hcounted).symm.trans hzero)
  whole hzero := h.whole ((congrArg (·.2.2) hcounted).symm.trans hzero)

/-- A job that ends without being done has nothing to show for it. -/
theorem Job.Tallied.of_ended {status : JobStatus} (hworker : j.worker = .finishing status)
    (hnot : status ≠ .done) (hstatus : j.state.status ≠ .done) : j.Tallied R o where
  entering h := by
    rw [hworker] at h
    cases h
  onward c h := by
    rw [hworker] at h
    rcases h with h | h <;> cases h
  closed h := by
    rw [hworker] at h
    rcases h with h | h | h
    · cases h
    · exact absurd (Worker.finishing.inj h) hnot
    · exact absurd h hstatus

theorem Job.Tallied.congr (h : j.Tallied R o) (hworker : j'.worker = j.worker)
    (hcounted : j'.state.counted.2 = j.state.counted.2)
    (hdone : j'.state.status = .done → j.state.status = .done) : j'.Tallied R o where
  entering hc := (h.entering (hworker.symm.trans hc)).congr hcounted
  onward c hc := by
    rw [hworker] at hc
    obtain ⟨gone, hgone, hcovers⟩ := h.onward c hc
    exact ⟨gone, hgone, hcovers.congr hcounted⟩
  closed hc := by
    rw [hworker] at hc
    exact (h.closed (hc.imp_right (Or.imp_right hdone))).congr hcounted

theorem CountJobs.New.tallied {op : Text} (h : CountJobs.New op j) : j.Tallied R o where
  entering _ := by
    obtain ⟨hcounts, -⟩ := Prod.mk.inj h.counted
    exact ⟨hcounts, fun _ _ he => absurd he List.not_mem_nil,
      fun _ _ hp => absurd hp List.not_mem_nil⟩
  onward c hc := by
    rcases h.worker with hw | hw <;> rw [hw] at hc <;> rcases hc with hc | hc <;> cases hc
  closed hc := by
    rcases hc with hc | hc | hc
    · rcases h.worker with hw | hw <;> cases hw.symm.trans hc
    · rcases h.worker with hw | hw <;> cases hw.symm.trans hc
    · exact absurd hc h.status

/-- **A step of a worker** leaves no position out and counts none twice. -/
theorem Job.Tallied.work (h : j.Tallied R o) (hsound : j.Sound) (hop : R.operator j.op = .ok o)
    (ho : o.Bounded) {cache : BlockCache} (hcache : R.Sound cache) :
    (j.work R stepBytes cache).Tallied R o := by
  -- a worker that runs has a job that is not done
  have hlive (hworker : j.worker ≠ .gone) : j.state.status ≠ .done := by
    intro hdone
    have hrunning := hsound.live_iff.mpr hworker
    rw [isLive, hdone] at hrunning
    cases hrunning
  unfold Job.work
  split
  · rename_i hworker
    have hnot := hlive (by simp [hworker])
    split
    · rename_i c hcursor
      refine ⟨nofun, fun c' hc => ?_, fun hc => ?_⟩
      · obtain rfl : c = c' := by simpa using hc
        have hzero : c.keyGroup = 0 := by
          unfold StateReader.cursorAt at hcursor
          rw [hop] at hcursor
          exact congrArg Cursor.keyGroup (Except.ok.inj hcursor).symm
        refine ⟨[], ?_, (h.entering hworker).congr rfl⟩
        rw [hzero]
        rfl
      · exact absurd hc (by simpa using hnot)
    · exact .of_ended rfl nofun hnot
  · rename_i c hworker
    have hnot := hlive (by simp [hworker])
    cases hcancel : j.cancel with
    | true => exact .of_ended rfl nofun hnot
    | false =>
      obtain ⟨gone, hgone, hcovers⟩ := h.onward c (.inl hworker)
      refine ⟨nofun, fun c' hc => ?_, fun hc => ?_⟩
      · obtain rfl : c = c' := by simpa using hc
        exact ⟨gone, hgone, hcovers.congr rfl⟩
      · exact absurd hc (by simpa using hnot)
  · rename_i c hworker
    have hnot := hlive (by simp [hworker])
    split
    · exact .of_ended rfl nofun hnot
    · rename_i page hcount
      obtain ⟨gone, hgone, hcovers⟩ := h.onward c (.inr hworker)
      obtain ⟨went, rest, hsplit, hfound, hunreadable, hmalformed, hnext⟩ :=
        count_went hop hcache hcount
      have hadd := hcovers.add hfound hunreadable hmalformed (R.progress j.op page.next 0 none)
      have hplaces : placesFrom o c.keyGroup.toNat
          = went.filter Position.lasting ++ rest.filter Position.lasting := by
        unfold placesFrom
        rw [hsplit, List.filter_append]
      rw [hplaces, ← List.append_assoc] at hgone
      have hstatus := status_add j.state page (R.progress j.op page.next 0 none)
      cases rest with
      | nil =>
        -- the last of it
        have hlast : page.next = none := hnext
        rw [hlast] at hadd hstatus ⊢
        rw [List.filter_nil, List.append_nil] at hgone
        refine ⟨nofun, fun c' hc => ?_, fun _ => hgone ▸ hadd _⟩
        rcases hc with hc | hc <;> cases hc
      | cons p more =>
        obtain ⟨c', hcursor, hrest⟩ := trailFrom_cursorOf ho (Int.natCast_nonneg _) hsplit
        have hmore : page.next = some c' := hnext.trans hcursor
        rw [hmore] at hadd hstatus ⊢
        refine ⟨nofun, fun c'' hc => ?_, fun hc => ?_⟩
        · obtain rfl : c' = c'' := by simpa using hc
          refine ⟨_, ?_, hadd _⟩
          rw [← hgone]
          exact congrArg (_ ++ ·) hrest
        · rcases hc with hc | hc | hc
          · cases hc
          · cases hc
          · exact absurd (hstatus.symm.trans hc) hnot
  · rename_i hworker
    refine ⟨nofun, fun c hc => ?_, fun _ => (h.closed (.inl hworker)).congr rfl⟩
    rcases hc with hc | hc <;> cases hc
  · rename_i status hworker
    refine ⟨nofun, fun c hc => ?_, fun hc => ?_⟩
    · rcases hc with hc | hc <;> cases hc
    · have hdone : status = .done := by simpa [setStatus] using hc
      exact (h.closed (.inr (.inl (hdone ▸ hworker)))).congr rfl
  · exact h

theorem Job.Moves.tallied (hmove : j.Moves R stepBytes R.Sound asked j') (hsound : j.Sound)
    (hop : R.operator j.op = .ok o) (ho : o.Bounded) (h : j.Tallied R o) : j'.Tallied R o := by
  cases hmove with
  | work hcache => exact h.work hsound hop ho hcache
  | crash =>
    unfold Job.panicked
    split
    · exact h
    · exact h
    · rename_i hgone
      refine .of_ended rfl nofun fun hdone => ?_
      have hrunning := hsound.live_iff.mpr hgone
      rw [isLive, hdone] at hrunning
      cases hrunning
  | raise => exact h.congr rfl rfl id
  | mark =>
    unfold Job.marked
    split
    · exact h.congr rfl rfl nofun
    · exact h

/-- Jobs that have counted all they passed. -/
structure CountJobs.Totalled (R : StateReader) (s : CountJobs) : Prop where
  sound : ∀ j ∈ s.jobs, j.Sound
  tallied : ∀ j ∈ s.jobs, ∀ o, R.operator j.op = .ok o → o.Bounded → j.Tallied R o

theorem CountJobs.Effect.totalled (h : s.Totalled R)
    (heffect : Effect R stepBytes maxRunning R.Sound s s') : s'.Totalled R := by
  cases heffect with
  | moved _ _ hkept _ =>
    refine ⟨(hkept.spec h.sound).sound, fun j hj o hop ho => ?_⟩
    obtain ⟨i, hi⟩ := List.mem_iff_getElem?.mp hj
    rcases hkept i with heq | ⟨before, after, hbefore, hafter, hmove⟩
    · exact h.tallied j (List.mem_of_getElem? (heq.symm.trans hi)) o hop ho
    · obtain rfl : after = j := Option.some.inj (hafter.symm.trans hi)
      have hmem := List.mem_of_getElem? hbefore
      have hsound := h.sound before hmem
      rw [(hmove.spec hsound).2.1] at hop
      exact hmove.tallied hsound hop ho (h.tallied before hmem o hop ho)
  | locked | released | looked | tallied => exact ⟨h.sound, h.tallied⟩
  | @inserted op restart running spawned =>
    obtain ⟨job, hjob, -, hnew⟩ := insert_spec R s op spawned
    have hmem {j : Job} (hj : j ∈ (s.insert R op spawned).jobs) : j ∈ s.jobs ∨ j = job := by
      rw [hjob] at hj
      exact (List.mem_append.mp hj).imp_right List.mem_singleton.mp
    refine ⟨fun j hj => ?_, fun j hj o hop ho => ?_⟩
    · rcases hmem hj with hj | rfl
      · exact h.sound j hj
      · exact hnew.sound
    · rcases hmem hj with hj | rfl
      · exact h.tallied j hj o hop ho
      · exact hnew.tallied

/-- A job that is done has counted what lies at every position of its operator. -/
theorem CountJobs.covers_done {acts : List Act} {i : Nat}
    (hacts : ∀ act ∈ acts, act.Finds R.Sound)
    (hrun : run R stepBytes maxRunning .start acts = some s) (hj : s.jobs[i]? = some j)
    (hdone : j.state.status = .done) (hop : R.operator j.op = .ok o) (ho : o.Bounded) :
    j.Covers R o (placesFrom o 0) := by
  have htotalled : s.Totalled R :=
    run_keeps (fun _ _ h heffect => heffect.totalled h) hacts hrun ⟨nofun, nofun⟩
  have htallied := htotalled.tallied j (List.mem_of_getElem? hj) o hop ho
  exact htallied.closed (.inr (.inr hdone))

/-- A job that is exact has met nothing that cannot be read, and no block that ends early. -/
theorem Job.Covers.whole_of_exact {gone : List Position} (h : j.Covers R o gone)
    (hexact : j.state.exact = true) :
    ∀ p ∈ gone, (∀ e ∈ R.eventsAt o p, e.reported = none) ∧ R.defectsAt o p = [] := by
  have hzero : j.state.unreadableKeyGroups + j.state.malformedKeyGroups = 0 := by
    have hboth : j.state.status = .done ∧ j.state.incompleteKeyGroups = 0 := by
      simpa [CountSnapshot.exact] using hexact
    exact hboth.2
  intro p hp
  refine ⟨fun e he => ?_, h.whole (by omega) p hp⟩
  exact h.readable (by omega) e (List.mem_flatMap.mpr ⟨p, hp, he⟩)

/-- Where subtasks share no key-group, every position has a key-group to it. -/
theorem placesFrom_positions (ho : o.Regular) : placesFrom o 0 = positions 0 o.ctx.units := by
  unfold placesFrom
  rw [trailFrom_positions ho, List.filter_eq_self]
  intro p hp
  obtain ⟨u, hu, hp⟩ := List.mem_flatMap.mp hp
  unfold positionsOf at hp
  split at hp
  · cases hp
  · split at hp
    · rename_i hlast herror
      obtain rfl := List.mem_singleton.mp hp
      exact decide_eq_true (ho.reported u hu herror)
    · cases u with
      | failed f => cases hp
      | stream s =>
        obtain ⟨kg, -, rfl⟩ := List.mem_map.mp hp
        rfl

/-- **What a job has counted when it is done**, where subtasks share no key-group: the keys and the
    entries of every block and no other, whatever was done meanwhile; and an exact count has met no
    subtask that cannot be read and no block that ends early. -/
theorem CountJobs.done_counts {acts : List Act} {i : Nat} (hacts : ∀ act ∈ acts, act.Finds R.Sound)
    (hrun : run R stepBytes maxRunning .start acts = some s) (hj : s.jobs[i]? = some j)
    (hdone : j.state.status = .done) (hop : R.operator j.op = .ok o) (hbounded : o.Bounded)
    (ho : o.Regular) :
    (⟨j.state.states, j.state.keys⟩ : Counts)
        = (R.eventsOf o (positions 0 o.ctx.units)).foldl Counts.gather ⟨[], 0⟩
      ∧ (j.state.exact = true → ∀ p ∈ positions 0 o.ctx.units,
          (∀ e ∈ R.eventsAt o p, e.reported = none) ∧ R.defectsAt o p = []) := by
  have hcovers := covers_done hacts hrun hj hdone hop hbounded
  rw [placesFrom_positions ho] at hcovers
  exact ⟨hcovers.counts, hcovers.whole_of_exact⟩

/-- A count of one operator, to its end. -/
def countsOne : List Act :=
  [.lock "01".toList false, .look, .decide none] ++ List.replicate 7 (.work 0 (.empty 0))

theorem finds_countsOne (R : StateReader) : ∀ act ∈ countsOne, act.Finds R.Sound := by
  intro act hact
  rcases List.mem_append.mp hact with hact | hact
  · rcases List.mem_cons.mp hact with rfl | hact
    · trivial
    · rcases List.mem_pair.mp hact with rfl | rfl <;> trivial
  · obtain rfl := List.eq_of_mem_replicate hact
    exact sound_empty 0

/-- The key that can be read is counted; a subtask that cannot keeps the count from being exact. -/
theorem CountJobs.done_counts_one :
    ∃ s j, CountJobs.run (sampleReader 1) 1 1 .start countsOne = some s ∧ s.jobs[0]? = some j
      ∧ j.state.keys = 1 ∧ j.state.exact = false
      ∧ (⟨j.state.states, j.state.keys⟩ : Counts)
        = ((sampleReader 1).eventsOf (sampleOperator 1)
          (positions 0 (sampleOperator 1).ctx.units)).foldl Counts.gather ⟨[], 0⟩ := by
  have hruns : (CountJobs.run (sampleReader 1) 1 1 .start countsOne).any (fun s =>
      (s.jobs[0]?).any fun j => j.state.status = .done ∧ j.op = "01".toList ∧ j.state.keys = 1
        ∧ j.state.exact = false) = true := by
    decide +kernel
  obtain ⟨s, hs, hjob⟩ := (Option.any_eq_true _ _).mp hruns
  obtain ⟨j, hj, hall⟩ := (Option.any_eq_true _ _).mp hjob
  obtain ⟨hdone, hop, hkeys, hexact⟩ := of_decide_eq_true hall
  have ho : (sampleOperator 1).Bounded := by
    unfold OpenOperator.Bounded
    rw [units_sampleOperator]
    decide
  have hopened : (sampleReader 1).operator j.op = .ok (sampleOperator 1) := by
    rw [hop]
    rfl
  exact ⟨s, j, hs, hj, hkeys, hexact, (CountJobs.done_counts (finds_countsOne _) hs hj hdone hopened ho
    regular_sampleOperator).1⟩

end Totals

end FlinkExplorer.Web
