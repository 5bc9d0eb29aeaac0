import FlinkExplorer.Reader.KeyPages
import FlinkExplorer.Web.CountJobs

namespace FlinkExplorer.Web

open Lib

/-!
# Over the runs of the server

* `Slots` — what the lock of the table is for; from it `workers_bounded`, that no more workers run
  than may, and never two of one operator;
* `Became`, `job_course` — what a job can become;
* `CountJobs.cancel_noticed` — a worker notices a cancel within three steps.
-/

namespace CountJobs

variable {R : StateReader} {stepBytes maxRunning : Nat} {caches : BlockCache → Prop}
  {s s' : CountJobs}

/-! ### The slots -/

/-- What the table and its lock are for: a job that runs is the latest of its operator, and no more
    of them run than may; a call of `start` has looked at `seen` and counted no fewer. -/
structure Slots (maxRunning : Nat) (s : CountJobs) : Prop where
  sound : ∀ j ∈ s.jobs, j.Sound
  nodup : (s.table.map (·.1)).Nodup
  own : ∀ e ∈ s.table, (s.jobs[e.2]?).map Job.op = some e.1
  latest : ∀ i j, s.jobs[i]? = some j → j.isLive = true → (j.op, i) ∈ s.table
  bound : (s.table.map (·.2)).countP s.live ≤ max maxRunning 1
  tallied : ∀ op restart left running, s.starting = some ⟨op, restart, .tallying left running⟩ →
    (∀ i, s.jobOf op = some i → s.live i = false)
    ∧ ∃ seen, (seen ++ left).Perm (s.table.map (·.2)) ∧ seen.countP s.live ≤ running

theorem slots_start (maxRunning : Nat) : Slots maxRunning .start where
  sound := nofun
  nodup := List.nodup_nil
  own := nofun
  latest := nofun
  bound := Nat.zero_le _
  tallied := nofun

theorem jobOf_of_mem (hnodup : (s.table.map (·.1)).Nodup) {op : Text} {i : Nat}
    (h : (op, i) ∈ s.table) : s.jobOf op = some i := by
  unfold jobOf
  generalize s.table = table at hnodup h
  induction table with
  | nil => cases h
  | cons e table ih =>
    rw [List.map_cons, List.nodup_cons] at hnodup
    by_cases he : e.1 = op
    · rcases List.mem_cons.mp h with rfl | hmem
      · simp
      · exact absurd (List.mem_map_of_mem (f := (·.1)) hmem) (he ▸ hnodup.1)
    · rcases List.mem_cons.mp h with rfl | hmem
      · exact absurd rfl he
      · rw [List.find?_cons_of_neg (by simpa using he)]
        exact ih hnodup.2 hmem

/-- The job of a table entry is there. -/
theorem Slots.inside (h : Slots maxRunning s) {e : Text × Nat} (he : e ∈ s.table) :
    e.2 < s.jobs.length := by
  by_contra hout
  have hown := h.own e he
  rw [List.getElem?_eq_none (Nat.not_lt.mp hout)] at hown
  cases hown

/-- Jobs that move keep the slots. -/
theorem slots_moved (h : Slots maxRunning s) (htable : s'.table = s.table)
    (hstarting : s'.starting = s.starting) (hkept : Kept R stepBytes caches s s') :
    Slots maxRunning s' := by
  have hspec := hkept.spec h.sound
  have hjobOf (op : Text) : s'.jobOf op = s.jobOf op := by
    unfold jobOf
    rw [htable]
  have hcount (is : List Nat) : is.countP s'.live ≤ is.countP s.live :=
    List.countP_mono_left fun i _ => hspec.live_le i
  refine ⟨hspec.sound, htable ▸ h.nodup, ?_, ?_, ?_, ?_⟩
  · intro e he
    rw [hspec.op_eq]
    exact h.own e (htable ▸ he)
  · intro i j hj hlive
    obtain ⟨before, hbefore, hlive'⟩ :=
      live_iff.mp (hspec.live_le i (live_iff.mpr ⟨j, hj, hlive⟩))
    have hop := hspec.op_eq i
    rw [hj, hbefore] at hop
    rw [htable, show j.op = before.op from Option.some.inj hop]
    exact h.latest i before hbefore hlive'
  · rw [htable]
    exact (hcount _).trans h.bound
  · intro op restart left running hstart
    obtain ⟨hstopped, seen, hperm, hseen⟩ :=
      h.tallied op restart left running (hstarting ▸ hstart)
    refine ⟨fun i hi => ?_, seen, htable ▸ hperm, (hcount seen).trans hseen⟩
    have hold := hstopped i ((hjobOf op).symm.trans hi)
    exact Bool.eq_false_iff.mpr fun hlive => Bool.eq_false_iff.mp hold (hspec.live_le i hlive)

/-- A job that was tallied is counted once. -/
theorem slots_tallied {op : Text} {restart : Bool} {left : List Nat} {running i : Nat}
    (h : Slots maxRunning s) (hstarting : s.starting = some ⟨op, restart, .tallying left running⟩)
    (hi : i ∈ left) :
    Slots maxRunning { s with starting := some ⟨op, restart,
      .tallying (left.erase i) (running + if s.live i then 1 else 0)⟩ } := by
  refine ⟨h.sound, h.nodup, h.own, h.latest, h.bound, ?_⟩
  rintro _ _ _ _ ⟨⟩
  obtain ⟨hstopped, seen, hperm, hseen⟩ := h.tallied _ _ _ _ hstarting
  refine ⟨hstopped, i :: seen, ?_, ?_⟩
  · have hleft : (i :: (seen ++ left.erase i)).Perm (seen ++ left) :=
      List.perm_middle.symm.trans ((List.perm_cons_erase hi).symm.append_left seen)
    exact hleft.trans hperm
  · rw [List.countP_cons]
    exact Nat.add_le_add_right hseen _

/-- Where a new job is inserted the jobs there were live as before. -/
theorem live_insert {op : Text} {spawned : Option Text} {i : Nat} (hi : i < s.jobs.length) :
    (s.insert R op spawned).live i = s.live i := by
  obtain ⟨job, hjob, -⟩ := insert_spec R s op spawned
  unfold live
  rw [hjob, List.getElem?_append_left hi]

/-- **A new job** takes the place of its operator's, which has stopped. -/
theorem slots_insert {op : Text} {restart : Bool} {running : Nat} (spawned : Option Text)
    (h : Slots maxRunning s) (hstarting : s.starting = some ⟨op, restart, .tallying [] running⟩)
    (hroom : running < max maxRunning 1) : Slots maxRunning (s.insert R op spawned) := by
  obtain ⟨hstopped, seen, hperm, hseen⟩ := h.tallied _ _ _ _ hstarting
  rw [List.append_nil] at hperm
  obtain ⟨job, hjob, htable, hnew⟩ := insert_spec R s op spawned
  refine ⟨?_, ?_, ?_, ?_, ?_, nofun⟩
  · intro j hj
    rw [hjob] at hj
    rcases List.mem_append.mp hj with hj | hj
    · exact h.sound j hj
    · exact List.mem_singleton.mp hj ▸ hnew.sound
  · rw [htable, List.map_cons, List.nodup_cons]
    refine ⟨?_, h.nodup.sublist (List.filter_sublist.map _)⟩
    simp
  · intro e he
    rw [htable] at he
    rw [hjob]
    rcases List.mem_cons.mp he with rfl | he
    · simp [hnew.op_eq]
    · have hmem := (List.mem_filter.mp he).1
      rw [List.getElem?_append_left (h.inside hmem)]
      exact h.own e hmem
  · intro i j hj hlive
    rw [hjob] at hj
    rw [htable]
    rcases getElem?_concat hj with hj | ⟨rfl, rfl⟩
    · have hmem := h.latest i j hj hlive
      refine List.mem_cons_of_mem _ (List.mem_filter.mpr ⟨hmem, ?_⟩)
      -- the job of this operator that there was has stopped
      refine decide_eq_true fun hsame => ?_
      have hstopped' := hstopped i (jobOf_of_mem h.nodup (hsame ▸ hmem))
      rw [live_iff.mpr ⟨j, hj, hlive⟩] at hstopped'
      cases hstopped'
    · exact hnew.op_eq ▸ List.mem_cons_self
  · rw [htable, List.map_cons, List.countP_cons]
    have hrest :
        ((s.table.filter fun e => e.1 ≠ op).map (·.2)).countP (s.insert R op spawned).live
          ≤ running := by
      calc _ = ((s.table.filter fun e => e.1 ≠ op).map (·.2)).countP s.live := by
            refine List.countP_congr fun i hi => ?_
            obtain ⟨e, he, rfl⟩ := List.mem_map.mp hi
            rw [live_insert (h.inside (List.mem_filter.mp he).1)]
        _ ≤ (s.table.map (·.2)).countP s.live := (List.filter_sublist.map _).countP_le
        _ = seen.countP s.live := (hperm.countP_eq _).symm
        _ ≤ running := hseen
    split <;> omega

/-- **Every action keeps the slots.** -/
theorem slots_step (h : Slots maxRunning s) (heffect : Effect R stepBytes maxRunning caches s s') :
    Slots maxRunning s' := by
  cases heffect with
  | moved htable hstarting hkept _ => exact slots_moved h htable hstarting hkept
  | locked op restart => exact ⟨h.sound, h.nodup, h.own, h.latest, h.bound, nofun⟩
  | released => exact ⟨h.sound, h.nodup, h.own, h.latest, h.bound, nofun⟩
  | looked restart hstopped =>
    refine ⟨h.sound, h.nodup, h.own, h.latest, h.bound, ?_⟩
    rintro _ _ _ _ ⟨⟩
    exact ⟨hstopped, [], List.Perm.refl _, le_rfl⟩
  | tallied hstarting hi => exact slots_tallied h hstarting hi
  | inserted spawned hstarting hroom => exact slots_insert spawned h hstarting hroom

theorem slots_run {acts : List Act} (hrun : run R stepBytes maxRunning .start acts = some s) :
    Slots maxRunning s :=
  run_keeps_any (fun _ _ h heffect => slots_step h heffect) hrun (slots_start maxRunning)

/-- The worker of a job that runs is that of a live job. -/
theorem Slots.live_of_worker (h : Slots maxRunning s) {i : Nat} {j : Job} (hj : s.jobs[i]? = some j)
    (hworker : j.worker ≠ .gone) : j.isLive = true :=
  (h.sound j (List.mem_of_getElem? hj)).live_iff.mpr hworker

/-- It is the latest job of its operator. -/
theorem Slots.jobOf_worker (h : Slots maxRunning s) {i : Nat} {j : Job} (hj : s.jobs[i]? = some j)
    (hworker : j.worker ≠ .gone) : s.jobOf j.op = some i :=
  jobOf_of_mem h.nodup (h.latest i j hj (h.live_of_worker hj hworker))

/-- No more jobs are live than may be. -/
theorem Slots.length_le (h : Slots maxRunning s) {is : List Nat} (hnodup : is.Nodup)
    (hlive : ∀ i ∈ is, s.live i = true) : is.length ≤ max maxRunning 1 := by
  have hsub : is ⊆ (s.table.map (·.2)).filter s.live := by
    intro i hi
    obtain ⟨j, hj, hrunning⟩ := live_iff.mp (hlive i hi)
    refine List.mem_filter.mpr ⟨?_, hlive i hi⟩
    exact List.mem_map_of_mem (f := (·.2)) (h.latest i j hj hrunning)
  have hlength := (List.subperm_of_subset hnodup hsub).length_le
  rw [← List.countP_eq_length_filter] at hlength
  exact hlength.trans h.bound

/-- **No more workers than may run, and never two of one operator**: whatever requests and workers
    do, one after another, the worker of an operator that still runs is that of the job its
    requests get. -/
theorem workers_bounded {acts : List Act}
    (hrun : run R stepBytes maxRunning .start acts = some s) :
    (∀ is : List Nat, is.Nodup → (∀ i ∈ is, ∃ j, s.jobs[i]? = some j ∧ j.worker ≠ .gone) →
        is.length ≤ max maxRunning 1)
    ∧ ∀ i j, s.jobs[i]? = some j → j.worker ≠ .gone → j.isLive = true ∧ s.jobOf j.op = some i := by
  have hslots := slots_run hrun
  refine ⟨fun is hnodup his => hslots.length_le hnodup fun i hi => ?_, fun i j hj hworker => ?_⟩
  · obtain ⟨j, hj, hworker⟩ := his i hi
    exact live_iff.mpr ⟨j, hj, hslots.live_of_worker hj hworker⟩
  · exact ⟨hslots.live_of_worker hj hworker, hslots.jobOf_worker hj hworker⟩

/-- One count of an operator is started, and one of another is refused. -/
def startsTwo : List Act :=
  [.lock "01".toList false, .look, .decide none,
    .lock "02".toList false, .look, .tally 0, .decide none]

theorem workers_bounded_two :
    ∃ s, run (sampleReader 1) 1 1 .start startsTwo = some s ∧ s.live 0 = true
      ∧ (∀ is : List Nat, is.Nodup → (∀ i ∈ is, ∃ j, s.jobs[i]? = some j ∧ j.worker ≠ .gone) →
          is.length ≤ 1)
      ∧ ∀ i j, s.jobs[i]? = some j → j.worker ≠ .gone →
          j.isLive = true ∧ s.jobOf j.op = some i := by
  have hruns : (run (sampleReader 1) 1 1 .start startsTwo).any (·.live 0) = true := by
    decide +kernel
  obtain ⟨s, hs, hlive⟩ := (Option.any_eq_true _ _).mp hruns
  exact ⟨s, hs, hlive, workers_bounded hs⟩

/-! ### The course of a job -/

/-- A job of one state, and what became of it in a later one. -/
structure Became (i : Nat) (j : Job) (s : CountJobs) (j' : Job) : Prop where
  here : s.jobs[i]? = some j'
  op_eq : j'.op = j.op
  next : j.state.status.Next j'.state.status
  keys_le : j.state.keys ≤ j'.state.keys

/-- No job is marked but those that were asked to stop. -/
structure Minded (s : CountJobs) : Prop where
  sound : ∀ j ∈ s.jobs, j.Sound
  marked : ∀ i j, s.jobs[i]? = some j → j.IsMarked → s.Asked i

theorem Effect.minded (h : s.Minded) (heffect : Effect R stepBytes maxRunning caches s s') :
    s'.Minded := by
  cases heffect with
  | moved _ _ hkept hasked =>
    refine ⟨(hkept.spec h.sound).sound, fun i j hj hmarked => ?_⟩
    rcases hkept i with heq | ⟨before, after, hbefore, hafter, hmove⟩
    · exact hasked i (h.marked i j (heq.symm.trans hj) hmarked)
    · obtain rfl : after = j := Option.some.inj (hafter.symm.trans hj)
      rcases hmove.asked_or (h.sound before (List.mem_of_getElem? hbefore)) hmarked with hnow | hold
      · exact hnow
      · exact hasked i (h.marked i before hbefore hold)
  | locked | released | looked | tallied => exact ⟨h.sound, h.marked⟩
  | inserted spawned =>
    obtain ⟨job, hjob, -, hnew⟩ := insert_spec R s _ spawned
    refine ⟨fun j hj => ?_, fun i j hj hmarked => ?_⟩
    · rw [hjob] at hj
      rcases List.mem_append.mp hj with hj | hj
      · exact h.sound j hj
      · exact List.mem_singleton.mp hj ▸ hnew.sound
    · rw [hjob] at hj
      rcases getElem?_concat hj with hj | ⟨-, rfl⟩
      · exact h.marked i j hj hmarked
      · exact absurd hmarked hnew.unmarked

theorem Effect.became {i : Nat} {j j' : Job} (h : ∀ j ∈ s.jobs, j.Sound) (hj : Became i j s j')
    (heffect : Effect R stepBytes maxRunning caches s s') : ∃ j'', Became i j s' j'' := by
  cases heffect with
  | moved _ _ hkept _ =>
    rcases hkept i with heq | ⟨before, after, hbefore, hafter, hmove⟩
    · exact ⟨j', heq.trans hj.here, hj.op_eq, hj.next, hj.keys_le⟩
    · obtain rfl : before = j' := Option.some.inj (hbefore.symm.trans hj.here)
      obtain ⟨-, hop, hnext⟩ := hmove.spec (h before (List.mem_of_getElem? hbefore))
      exact ⟨after, hafter, hop.trans hj.op_eq, hj.next.trans hnext, hj.keys_le.trans hmove.keys_le⟩
  | locked | released | looked | tallied => exact ⟨j', hj.here, hj.op_eq, hj.next, hj.keys_le⟩
  | inserted spawned =>
    obtain ⟨job, hjob, -⟩ := insert_spec R s _ spawned
    refine ⟨j', ?_, hj.op_eq, hj.next, hj.keys_le⟩
    obtain ⟨hi, -⟩ := List.getElem?_eq_some_iff.mp hj.here
    rw [hjob, List.getElem?_append_left hi]
    exact hj.here

theorem minded_run {acts : List Act} (hrun : run R stepBytes maxRunning .start acts = some s) :
    s.Minded :=
  run_keeps_any (fun _ _ h heffect => heffect.minded h) hrun ⟨nofun, nofun⟩

/-- What becomes of a job over a run. -/
theorem Minded.became (h : s.Minded) {acts : List Act} {i : Nat} {j : Job}
    (hrun : run R stepBytes maxRunning s acts = some s') (hj : s.jobs[i]? = some j) :
    s'.Minded ∧ ∃ j', Became i j s' j' := by
  refine run_keeps_any (P := fun s' => s'.Minded ∧ ∃ j', Became i j s' j')
    (fun s s' h heffect => ⟨heffect.minded h.1, ?_⟩) hrun ⟨h, j, hj, rfl, .same _, le_rfl⟩
  obtain ⟨hminded, j', hbecame⟩ := h
  exact heffect.became hminded.sound hbecame

/-- **The course of a job**: from any state that can come about, it is never another's, never runs
    again once it has stopped or is being cancelled, never changes its outcome, never counts
    less; and it is cancelled only when it was asked to, or the server stops. -/
theorem job_course {acts acts' : List Act} {i : Nat} {j : Job}
    (hrun : run R stepBytes maxRunning .start acts = some s)
    (hrun' : run R stepBytes maxRunning s acts' = some s') (hj : s.jobs[i]? = some j) :
    ∃ j', Became i j s' j'
      ∧ (j'.state.status = .cancelling ∨ j'.state.status = .cancelled → s'.Asked i) := by
  obtain ⟨hminded, j', hbecame⟩ := (minded_run hrun).became hrun' hj
  refine ⟨j', hbecame, fun hstatus => hminded.marked i j' hbecame.here ?_⟩
  rcases hstatus with h | h
  · exact .inr (.inr (.inr h))
  · exact .inr (.inr (.inl h))

/-- A count is started. -/
def startsOne : List Act := [.lock "01".toList false, .look, .decide none]

/-- It is cancelled, and its worker notices. -/
def cancelsOne : List Act :=
  [.find "01".toList, .raise 0, .mark 0, .work 0 (.empty 0), .work 0 (.empty 0), .work 0 (.empty 0)]

theorem job_course_cancelled :
    ∃ s s' j, run (sampleReader 1) 1 1 .start startsOne = some s
      ∧ run (sampleReader 1) 1 1 s cancelsOne = some s' ∧ s.jobs[0]? = some j
      ∧ ∃ j', Became 0 j s' j'
        ∧ (j'.state.status = .cancelling ∨ j'.state.status = .cancelled → s'.Asked 0) := by
  have hruns : (run (sampleReader 1) 1 1 .start startsOne).any (fun s =>
      (run (sampleReader 1) 1 1 s cancelsOne).isSome && s.jobs[0]?.isSome) = true := by
    decide +kernel
  obtain ⟨s, hs, hboth⟩ := (Option.any_eq_true _ _).mp hruns
  rw [Bool.and_eq_true] at hboth
  obtain ⟨s', hs'⟩ := Option.isSome_iff_exists.mp hboth.1
  obtain ⟨j, hj⟩ := Option.isSome_iff_exists.mp hboth.2
  exact ⟨s, s', j, hs, hs', hj, job_course hs hs' hj⟩

end CountJobs

/-! ### Stopping -/

/-- The most steps a worker makes that is to stop. -/
def Worker.left : Worker → Nat
  | .entering | .counting _ => 3
  | .checking _ | .closing => 2
  | .finishing _ => 1
  | .gone => 0

/-- It is to stop: its flag is up, or its worker looks no more. -/
def Job.Stopping (j : Job) : Prop :=
  j.cancel = true ∨ ∀ c, j.worker ≠ .entering ∧ j.worker ≠ .checking c ∧ j.worker ≠ .counting c

/-- Whether an action is a step of the worker of a job. -/
def Act.worksOn (i : Nat) : Act → Bool
  | .work k _ => k = i
  | _ => false

section Stopping

variable {R : StateReader} {stepBytes maxRunning : Nat} {caches : BlockCache → Prop} {asked : Prop}
  {j j' : Job} {s s' : CountJobs} {i : Nat}

/-- **Each step brings the worker closer to its end.** -/
theorem Job.Stopping.work (R : StateReader) (stepBytes : Nat) (h : j.Stopping)
    (cache : BlockCache) :
    (j.work R stepBytes cache).Stopping
      ∧ (j.work R stepBytes cache).worker.left ≤ j.worker.left - 1 := by
  have hcancel {c : Cursor} (hworker : j.worker = .entering ∨ j.worker = .checking c
      ∨ j.worker = .counting c) : j.cancel = true := by
    rcases h with h | h
    · exact h
    · obtain ⟨h1, h2, h3⟩ := h c
      rcases hworker with hw | hw | hw
      · exact absurd hw h1
      · exact absurd hw h2
      · exact absurd hw h3
  unfold Job.work
  split
  · rename_i hworker
    rw [hworker]
    split
    · exact ⟨.inl (hcancel (c := .start) (.inl hworker)), le_rfl⟩
    · exact ⟨.inr fun _ => ⟨nofun, nofun, nofun⟩, Nat.le_succ 1⟩
  · rename_i hworker
    rw [hworker, if_pos (hcancel (.inr (.inl hworker)))]
    exact ⟨.inr fun _ => ⟨nofun, nofun, nofun⟩, le_rfl⟩
  · rename_i c hworker
    rw [hworker]
    split
    · exact ⟨.inr fun _ => ⟨nofun, nofun, nofun⟩, Nat.le_succ 1⟩
    · rename_i page _
      refine ⟨.inl (hcancel (.inr (.inr hworker))), ?_⟩
      dsimp only
      cases page.next <;> exact le_rfl
  · rename_i hworker
    rw [hworker]
    exact ⟨.inr fun _ => ⟨nofun, nofun, nofun⟩, le_rfl⟩
  · rename_i hworker
    rw [hworker]
    exact ⟨.inr fun _ => ⟨nofun, nofun, nofun⟩, le_rfl⟩
  · exact ⟨h, by simp [*, Worker.left]⟩

theorem Job.Moves.stopping (hmove : j.Moves R stepBytes caches asked j') (h : j.Stopping) :
    j'.Stopping ∧ j'.worker.left ≤ j.worker.left := by
  cases hmove with
  | work =>
    obtain ⟨hstopping, hleft⟩ := Job.Stopping.work R stepBytes h _
    exact ⟨hstopping, hleft.trans (Nat.sub_le _ _)⟩
  | crash =>
    unfold Job.panicked
    split
    · exact ⟨h, le_rfl⟩
    · exact ⟨h, le_rfl⟩
    · rename_i hgone
      refine ⟨.inr fun _ => ⟨nofun, nofun, nofun⟩, ?_⟩
      cases hworker : j.worker with
      | gone => exact absurd hworker hgone
      | entering | checking | counting | closing | finishing => simp [Worker.left]
  | raise => exact ⟨.inl rfl, le_rfl⟩
  | mark =>
    unfold Job.marked
    split <;> exact ⟨h, le_rfl⟩

/-- One action, for a job that is to stop. -/
theorem CountJobs.step_stopping {act : Act} {answer : Answer}
    (hstep : s.step R stepBytes maxRunning act = some (s', answer)) (hj : s.jobs[i]? = some j)
    (h : j.Stopping) : ∃ j', s'.jobs[i]? = some j' ∧ j'.Stopping
      ∧ j'.worker.left ≤ j.worker.left - [act].countP (Act.worksOn i) := by
  by_cases hact : act.worksOn i = true
  · cases act with
    | work k cache =>
      obtain rfl : k = i := of_decide_eq_true hact
      obtain ⟨rfl, -⟩ := Prod.mk.inj (Option.some.inj hstep)
      obtain ⟨hstopping, hleft⟩ := Job.Stopping.work R stepBytes h cache
      refine ⟨_, ?_, hstopping, ?_⟩
      · show (s.jobs.modify k _)[k]? = _
        rw [List.getElem?_modify, hj]
        simp
      · simpa [hact] using hleft
    | get | lock | look | tally | decide | find | raise | mark | reply | crash | drop => cases hact
  · have hnone : [act].countP (Act.worksOn i) = 0 := by simp [hact]
    rw [hnone, Nat.sub_zero]
    have hkeep (hsame : s'.jobs[i]? = s.jobs[i]?) :
        ∃ j', s'.jobs[i]? = some j' ∧ j'.Stopping ∧ j'.worker.left ≤ j.worker.left :=
      ⟨j, hsame.trans hj, h, le_rfl⟩
    have heffect : Effect R stepBytes maxRunning (fun _ => True) s s' :=
      step_effect act.finds_any hstep
    cases heffect with
    | moved _ _ hkept _ =>
      rcases hkept i with heq | ⟨before, after, hbefore, hafter, hmove⟩
      · exact hkeep heq
      · obtain rfl : before = j := Option.some.inj (hbefore.symm.trans hj)
        exact ⟨after, hafter, hmove.stopping h⟩
    | locked | released | looked | tallied => exact hkeep rfl
    | inserted spawned =>
      obtain ⟨job, hjob, -⟩ := insert_spec R s _ spawned
      obtain ⟨hi, -⟩ := List.getElem?_eq_some_iff.mp hj
      exact hkeep (by rw [hjob, List.getElem?_append_left hi])

/-- **A cancel is noticed**: once the flag of a job is up, three steps of its worker are its last,
    whatever else is done between them. -/
theorem CountJobs.cancel_noticed {acts : List Act} (hj : s.jobs[i]? = some j)
    (hcancel : j.cancel = true) (hrun : run R stepBytes maxRunning s acts = some s')
    (hsteps : 3 ≤ acts.countP (Act.worksOn i)) :
    ∃ j', s'.jobs[i]? = some j' ∧ j'.worker = .gone := by
  have hrunning (acts : List Act) (s : CountJobs) (j : Job) (hj : s.jobs[i]? = some j)
      (h : j.Stopping) (hrun : run R stepBytes maxRunning s acts = some s') :
      ∃ j', s'.jobs[i]? = some j'
        ∧ j'.worker.left ≤ j.worker.left - acts.countP (Act.worksOn i) := by
    induction acts generalizing s j with
    | nil =>
      obtain rfl : s = s' := Option.some.inj hrun
      exact ⟨j, hj, le_rfl⟩
    | cons act acts ih =>
      obtain ⟨mid, answer, hstep, hrest⟩ := run_cons hrun
      obtain ⟨after, hafter, hstopping, hleft⟩ := step_stopping hstep hj h
      obtain ⟨j', hj', hleft'⟩ := ih mid after hafter hstopping hrest
      refine ⟨j', hj', ?_⟩
      rw [← List.singleton_append, List.countP_append]
      omega
  obtain ⟨j', hj', hleft⟩ := hrunning acts s j hj (.inl hcancel) hrun
  refine ⟨j', hj', ?_⟩
  have hmost : j.worker.left ≤ 3 := by cases j.worker <;> simp [Worker.left]
  have hzero : j'.worker.left = 0 := by omega
  cases hworker : j'.worker with
  | gone => rfl
  | entering | checking | counting | closing | finishing =>
    rw [hworker] at hzero
    cases hzero

/-- A job whose flag was raised when its worker had just begun. -/
def raisedJob : Job := ⟨"01".toList, true, .entering, .start .cancelling ⟨0, 0, 0, 0⟩⟩

theorem CountJobs.cancel_noticed_raised :
    ∃ s' j, CountJobs.run (sampleReader 1) 1 1 ⟨[raisedJob], [("01".toList, 0)], none, [], false⟩
        [.work 0 (.empty 0), .get "01".toList, .work 0 (.empty 0), .work 0 (.empty 0)] = some s'
      ∧ s'.jobs[0]? = some j ∧ j.worker = .gone := by
  obtain ⟨s', hs'⟩ := Option.isSome_iff_exists.mp (show (CountJobs.run (sampleReader 1) 1 1
    ⟨[raisedJob], [("01".toList, 0)], none, [], false⟩
    [.work 0 (.empty 0), .get "01".toList, .work 0 (.empty 0), .work 0 (.empty 0)]).isSome = true by
      decide +kernel)
  obtain ⟨j, hj, hgone⟩ :=
    CountJobs.cancel_noticed (i := 0) (j := raisedJob) rfl rfl hs' (by decide)
  exact ⟨s', j, hs', hj, hgone⟩

end Stopping

end FlinkExplorer.Web
