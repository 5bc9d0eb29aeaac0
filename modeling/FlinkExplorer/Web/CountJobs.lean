import FlinkExplorer.Reader.Count

namespace FlinkExplorer.Web

open Lib

/-!
# `web/jobs.rs` — count jobs

A count of one operator runs on a thread of its own, a step at a time, while requests start, restart
and cancel counts.  The state of the server's jobs is what all of them share: the jobs ever started,
the table of each operator's latest, who holds the table's lock, and the calls of `cancel`.  Each
action is what one thread does without another being able to come between.

* `JobStatus.Next`, `Job.Moves` — what becomes of a status, and of a job;
* `CountJobs.Effect`, `step_effect` — all an action can leave;
* `run_keeps` — what each action keeps, a run keeps.

Times are left out, and with them the pause between two steps.
-/

/-! ### A job -/

/-- Warnings kept per job. -/
def maxWarnings : Nat := 100

inductive JobStatus
  | running
  | cancelling
  | done
  | cancelled
  | failed (why : Text)
  deriving DecidableEq

/-- Its worker is still running. -/
def JobStatus.isLive : JobStatus → Bool
  | .running | .cancelling => true
  | _ => false

/-- What a job has counted so far. -/
structure CountSnapshot where
  status : JobStatus
  states : List StateCount
  keys : Nat
  progress : Progress
  bytesRead : Nat
  unreadable : List Unreadable
  malformed : List Text
  moreWarnings : Nat
  unreadableKeyGroups : Nat
  malformedKeyGroups : Nat

namespace CountSnapshot

/-- Key-groups whose keys are missing from the counts, or partly missing. -/
def incompleteKeyGroups (s : CountSnapshot) : Nat := s.unreadableKeyGroups + s.malformedKeyGroups

/-- The counts are exact: every key-group was read, and read whole. -/
def exact (s : CountSnapshot) : Bool := s.status = .done && s.incompleteKeyGroups = 0

/-- Before anything is counted. -/
def start (status : JobStatus) (progress : Progress) : CountSnapshot :=
  ⟨status, [], 0, progress, 0, [], [], 0, 0, 0⟩

/-- Whether another warning is listed. -/
def hasRoom (s : CountSnapshot) : Bool := s.unreadable.length + s.malformed.length < maxWarnings

def warnUnreadable (s : CountSnapshot) (u : Unreadable) : CountSnapshot :=
  if s.hasRoom then { s with unreadable := s.unreadable ++ [u] }
  else { s with moreWarnings := s.moreWarnings + 1 }

def warnMalformed (s : CountSnapshot) (m : Text) : CountSnapshot :=
  if s.hasRoom then { s with malformed := s.malformed ++ [m] }
  else { s with moreWarnings := s.moreWarnings + 1 }

/-- The key-groups a report names. -/
def keyGroupsOf (u : Unreadable) : Nat := (u.lastKeyGroup.toNat - u.firstKeyGroup.toNat) + 1

/-- What one step counted is added. -/
def add (s : CountSnapshot) (page : Page Counts) (progress : Except ReaderError Progress) :
    CountSnapshot :=
  let s := { s with
    states := page.found.states.foldl mergeState s.states
    keys := s.keys + page.found.keys
    bytesRead := s.bytesRead + page.stats.bytesRead
    unreadableKeyGroups := s.unreadableKeyGroups + (page.unreadable.map keyGroupsOf).sum
    malformedKeyGroups := s.malformedKeyGroups + page.malformed.length }
  let s := page.unreadable.foldl warnUnreadable s
  let s := page.malformed.foldl warnMalformed s
  { s with progress := progress.toOption.getD s.progress }

end CountSnapshot

/-- Where the worker of a job is: each step ends where it next looks at what is shared. -/
inductive Worker
  | entering
  | checking (cursor : Cursor)
  | counting (cursor : Cursor)
  | closing
  | finishing (status : JobStatus)
  | gone
  deriving DecidableEq

structure Job where
  op : Text
  cancel : Bool
  worker : Worker
  state : CountSnapshot

def internalError : JobStatus := .failed "the count failed (internal error)".toList

namespace Job

/-- Its status says that its worker runs. -/
def isLive (j : Job) : Bool := j.state.status.isLive

def setStatus (j : Job) (status : JobStatus) : Job := { j with state := { j.state with status } }

/-- `run`, one step of it; `cache` is what a count finds. -/
def work (R : StateReader) (stepBytes : Nat) (cache : BlockCache) (j : Job) : Job :=
  match j.worker with
  | .entering =>
    match R.cursorAt j.op 0 with
    | .ok c => { j with worker := .checking c }
    | .error e => { j with worker := .finishing (.failed (e.text R.host)) }
  | .checking c => { j with worker := if j.cancel then .finishing .cancelled else .counting c }
  | .counting c =>
    match (R.count j.op c (max stepBytes 1) cache).1 with
    | .error e => { j with worker := .finishing (.failed (e.text R.host)) }
    | .ok page => { j with
        state := j.state.add page (R.progress j.op page.next 0 none)
        worker := page.next.elim .closing .checking }
  | .closing =>
    -- A cancel that raced the last step loses: the counts are complete.
    { j with cancel := false, worker := .finishing .done }
  | .finishing status => { j.setStatus status with worker := .gone }
  | .gone => j

/-- The worker panicked before it was done. -/
def panicked (j : Job) : Job :=
  match j.worker with
  | .finishing _ | .gone => j
  | _ => { j with worker := .finishing internalError }

/-- `cancel` raises the flag. -/
def raised (j : Job) : Job := { j with cancel := true }

/-- `cancel` marks a job that runs. -/
def marked (j : Job) : Job :=
  if j.state.status = .running then j.setStatus .cancelling else j

end Job

/-- What `cancel` has marked is not running. -/
theorem Job.marked_ne_running (j : Job) : j.marked.state.status ≠ .running := by
  unfold Job.marked
  split
  · exact nofun
  · assumption

/-! ### The table -/

/-- How far a call of `start` is: it holds the table's lock. -/
inductive StartPhase
  | looking
  | tallying (left : List Nat) (running : Nat)

structure Starting where
  op : Text
  restart : Bool
  phase : StartPhase

/-- How far a call of `cancel` is. -/
inductive CancelPhase
  | raising
  | marking
  | replying
  | returned
  deriving DecidableEq

structure Cancelling where
  job : Nat
  phase : CancelPhase

/-- The jobs of one server.  `table` is the map: each operator's latest job, by its place in
    `jobs`. -/
structure CountJobs where
  jobs : List Job
  table : List (Text × Nat)
  starting : Option Starting
  cancels : List Cancelling
  dropped : Bool

inductive Answer
  | snapshot (s : CountSnapshot)
  | busy (why : Text)
  | none

/-- What one thread does. -/
inductive Act
  /-- A request reads the job of an operator. -/
  | get (op : Text)
  /-- `start` takes the lock, looks at the operator's job, looks at one job of all, and decides;
      the thread is spawned, or is not. -/
  | lock (op : Text) (restart : Bool)
  | look
  | tally (i : Nat)
  | decide (spawned : Option Text)
  /-- `cancel` finds the job; its `n`-th call raises the flag, marks the job and replies. -/
  | find (op : Text)
  | raise (n : Nat)
  | mark (n : Nat)
  | reply (n : Nat)
  /-- The worker of a job makes a step, or panics. -/
  | work (i : Nat) (cache : BlockCache)
  | crash (i : Nat)
  /-- The server stops. -/
  | drop

namespace CountJobs

def start : CountJobs := ⟨[], [], none, [], false⟩

variable (s : CountJobs)

/-- The latest job of an operator. -/
def jobOf (op : Text) : Option Nat := (s.table.find? fun e => e.1 = op).map (·.2)

/-- Whether a job is live. -/
def live (i : Nat) : Bool := (s.jobs[i]?).any Job.isLive

def isFree : Bool := s.starting.isNone && !s.dropped

/-- The snapshot of a job. -/
def answerOf (i : Nat) : Answer := (s.jobs[i]?).elim .none fun j => .snapshot j.state

def setPhase (n : Nat) (phase : CancelPhase) : CountJobs :=
  { s with cancels := s.cancels.modify n fun c => { c with phase } }

/-- Why a count is refused. -/
def busyText (running : Nat) : Text :=
  natText running ++ (" count(s) already running, the most this server runs at once; cancel one or "
    ++ "retry when one has finished").toList

/-- A new job, in place of the one its operator had. -/
def insert (R : StateReader) (op : Text) (spawned : Option Text) : CountJobs :=
  let progress := ((R.progress op (some ⟨0, 0, 0⟩) 0 none).toOption).getD ⟨0, 0, 0, 0⟩
  let job := match spawned with
    | none => ⟨op, false, .entering, .start .running progress⟩
    | some e =>
      ⟨op, false, .gone, .start (.failed ("cannot start the count: ".toList ++ e)) progress⟩
  { s with
    jobs := s.jobs ++ [job]
    table := (op, s.jobs.length) :: s.table.filter fun e => e.1 ≠ op
    starting := none }

/-- One action: what it leaves, and what it answers. -/
def step (R : StateReader) (stepBytes maxRunning : Nat) : Act → Option (CountJobs × Answer)
  | .get op => if s.isFree then some (s, (s.jobOf op).elim .none s.answerOf) else none
  | .lock op restart =>
    if s.isFree then some ({ s with starting := some ⟨op, restart, .looking⟩ }, .none) else none
  | .look =>
    match s.starting with
    | some ⟨op, restart, .looking⟩ =>
      let tallying := { s with starting := some ⟨op, restart, .tallying (s.table.map (·.2)) 0⟩ }
      match s.jobOf op with
      | some i =>
        -- a job that runs, even one that is cancelling, is never started twice
        if !restart || s.live i then some ({ s with starting := none }, s.answerOf i)
        else some (tallying, .none)
      | none => some (tallying, .none)
    | _ => none
  | .tally i =>
    match s.starting with
    | some ⟨op, restart, .tallying left running⟩ =>
      if i ∈ left then
        some ({ s with starting := some ⟨op, restart,
          .tallying (left.erase i) (running + if s.live i then 1 else 0)⟩ }, .none)
      else none
    | _ => none
  | .decide spawned =>
    match s.starting with
    | some ⟨op, _, .tallying [] running⟩ =>
      -- a server set to run none still runs one
      if running ≥ max maxRunning 1 then
        some ({ s with starting := none }, .busy (busyText running))
      else
        let s := s.insert R op spawned
        some (s, s.answerOf (s.jobs.length - 1))
    | _ => none
  | .find op =>
    if s.isFree then
      match s.jobOf op with
      | some i => some ({ s with cancels := s.cancels ++ [⟨i, .raising⟩] }, .none)
      | none => some (s, .none)
    else none
  | .raise n =>
    match s.cancels[n]? with
    | some ⟨i, .raising⟩ =>
      some ({ s.setPhase n .marking with jobs := s.jobs.modify i Job.raised }, .none)
    | _ => none
  | .mark n =>
    match s.cancels[n]? with
    | some ⟨i, .marking⟩ =>
      some ({ s.setPhase n .replying with jobs := s.jobs.modify i Job.marked }, .none)
    | _ => none
  | .reply n =>
    match s.cancels[n]? with
    | some ⟨i, .replying⟩ => some (s.setPhase n .returned, s.answerOf i)
    | _ => none
  | .work i cache => some ({ s with jobs := s.jobs.modify i (Job.work R stepBytes cache) }, .none)
  | .crash i => some ({ s with jobs := s.jobs.modify i Job.panicked }, .none)
  | .drop =>
    if s.isFree && s.cancels.all fun c => c.phase = .returned then
      some ({ s with
        jobs := (s.table.map (·.2)).foldl (fun jobs i => jobs.modify i Job.raised) s.jobs
        dropped := true }, .none)
    else none

end CountJobs

/-! ### What becomes of a job -/

/-- What becomes of a status in one step, or in many: it may turn to `cancelling` while it runs, and
    to a last one while it is live. -/
inductive JobStatus.Next : JobStatus → JobStatus → Prop
  | same (s : JobStatus) : Next s s
  | cancel : Next .running .cancelling
  | finish {s s' : JobStatus} (hlive : s.isLive = true) (hlast : s'.isLive = false) : Next s s'

namespace JobStatus.Next

variable {s s' s'' : JobStatus}

/-- A job that has stopped stays as it is. -/
theorem eq_of_not_live (h : s.Next s') (hlast : s.isLive = false) : s' = s := by
  cases h with
  | same => rfl
  | cancel => cases hlast
  | finish hlive _ =>
    rw [hlast] at hlive
    cases hlive

theorem live (h : s.Next s') (hlive : s'.isLive = true) : s.isLive = true := by
  by_contra hnot
  rw [h.eq_of_not_live (Bool.eq_false_iff.mpr hnot)] at hlive
  exact hnot hlive

/-- Only a job that runs is running. -/
theorem running (h : s.Next .running) : s = .running := by
  cases h with
  | same => rfl
  | finish _ hlast => cases hlast

theorem trans (h : s.Next s') (h' : s'.Next s'') : s.Next s'' := by
  cases h with
  | same => exact h'
  | finish hlive hlast =>
    rw [h'.eq_of_not_live hlast]
    exact .finish hlive hlast
  | cancel =>
    cases h' with
    | same => exact .cancel
    | finish _ hlast => exact .finish rfl hlast

end JobStatus.Next

/-! ### What a page adds -/

namespace CountSnapshot

/-- All but the warnings listed and how far it is. -/
def counted (s : CountSnapshot) : JobStatus × Counts × Nat × Nat :=
  (s.status, ⟨s.states, s.keys⟩, s.unreadableKeyGroups, s.malformedKeyGroups)

@[simp] theorem counted_warnUnreadable (s : CountSnapshot) (u : Unreadable) :
    (s.warnUnreadable u).counted = s.counted := by
  unfold warnUnreadable
  split <;> rfl

@[simp] theorem counted_warnMalformed (s : CountSnapshot) (m : Text) :
    (s.warnMalformed m).counted = s.counted := by
  unfold warnMalformed
  split <;> rfl

/-- Listing warnings leaves what is counted. -/
theorem counted_foldl {α : Type} {warn : CountSnapshot → α → CountSnapshot}
    (hwarn : ∀ s x, (warn s x).counted = s.counted) (xs : List α) (s : CountSnapshot) :
    (xs.foldl warn s).counted = s.counted := by
  induction xs generalizing s with
  | nil => rfl
  | cons x xs ih => rw [List.foldl_cons, ih, hwarn]

theorem counted_add (s : CountSnapshot) (page : Page Counts)
    (progress : Except ReaderError Progress) :
    (s.add page progress).counted
      = (s.status, (⟨s.states, s.keys⟩ : Counts).merge page.found,
          s.unreadableKeyGroups + (page.unreadable.map keyGroupsOf).sum,
          s.malformedKeyGroups + page.malformed.length) := by
  show (page.malformed.foldl warnMalformed _).counted = _
  rw [counted_foldl counted_warnMalformed, counted_foldl counted_warnUnreadable]
  rfl

end CountSnapshot

section Jobs

variable (R : StateReader) (stepBytes : Nat)

/-- What an action may do to a job; only a job that was asked to stop is raised or marked. -/
inductive Job.Moves (caches : BlockCache → Prop) (asked : Prop) (j : Job) : Job → Prop
  | work {cache : BlockCache} (hcache : caches cache) :
    Moves caches asked j (j.work R stepBytes cache)
  | crash : Moves caches asked j j.panicked
  | raise (hasked : asked) : Moves caches asked j j.raised
  | mark (hasked : asked) : Moves caches asked j j.marked

/-- A job's worker is there exactly while its status says so. -/
structure Job.Sound (j : Job) : Prop where
  live_iff : j.isLive = true ↔ j.worker ≠ .gone
  last : ∀ status, j.worker = .finishing status → status.isLive = false

/-- It is being cancelled, or was. -/
def Job.IsMarked (j : Job) : Prop :=
  j.cancel = true ∨ j.worker = .finishing .cancelled ∨ j.state.status = .cancelled
    ∨ j.state.status = .cancelling

variable {R stepBytes} {caches : BlockCache → Prop} {asked : Prop} {j j' : Job}

theorem status_add (s : CountSnapshot) (page : Page Counts)
    (progress : Except ReaderError Progress) : (s.add page progress).status = s.status :=
  congrArg Prod.fst (s.counted_add page progress)

/-- What a step leaves of a job whose worker goes on. -/
structure Job.GoesOn (j j' : Job) : Prop where
  here : j.worker ≠ .gone
  there : j'.worker ≠ .gone
  op_eq : j'.op = j.op
  status_eq : j'.state.status = j.state.status
  last : ∀ status, j'.worker = .finishing status → status.isLive = false
  asked : j'.cancel = true ∨ j'.worker = .finishing .cancelled → j.cancel = true

/-- A step that leaves the flag and the status. -/
theorem Job.GoesOn.of_same (hhere : j.worker ≠ .gone) (hthere : j'.worker ≠ .gone)
    (hop : j'.op = j.op) (hcancel : j'.cancel = j.cancel)
    (hstatus : j'.state.status = j.state.status)
    (hlast : ∀ status, j'.worker = .finishing status →
      status.isLive = false ∧ status ≠ .cancelled) : j.GoesOn j' where
  here := hhere
  there := hthere
  op_eq := hop
  status_eq := hstatus
  last status h := (hlast status h).1
  asked := by
    rintro (h | h)
    · exact hcancel.symm.trans h
    · exact absurd rfl (hlast _ h).2

/-- **All a step of a worker can be.** -/
theorem Job.work_cases (R : StateReader) (stepBytes : Nat) (j : Job) (cache : BlockCache) :
    (j.worker = .gone ∧ j.work R stepBytes cache = j)
    ∨ (∃ status, j.worker = .finishing status
        ∧ j.work R stepBytes cache = { j.setStatus status with worker := .gone })
    ∨ (∀ status, j.worker ≠ .finishing status) ∧ j.GoesOn (j.work R stepBytes cache) := by
  cases hworker : j.worker with
  | gone => exact .inl ⟨rfl, by simp only [Job.work, hworker]⟩
  | finishing status => exact .inr (.inl ⟨status, rfl, by simp only [Job.work, hworker]⟩)
  | entering =>
    refine .inr (.inr ⟨fun _ => Worker.noConfusion, ?_⟩)
    have hhere : j.worker ≠ .gone := by simp [hworker]
    simp only [Job.work, hworker]
    cases R.cursorAt j.op 0 with
    | ok c => exact .of_same hhere Worker.noConfusion rfl rfl rfl fun _ => Worker.noConfusion
    | error e =>
      refine .of_same hhere Worker.noConfusion rfl rfl rfl ?_
      rintro _ ⟨⟩
      exact ⟨rfl, nofun⟩
  | checking c =>
    refine .inr (.inr ⟨fun _ => Worker.noConfusion, ?_⟩)
    have hhere : j.worker ≠ .gone := by simp [hworker]
    simp only [Job.work, hworker]
    cases hcancel : j.cancel with
    | false =>
      exact .of_same hhere Worker.noConfusion rfl hcancel.symm rfl fun _ => Worker.noConfusion
    | true =>
      -- the flag is seen: the worker is about to be cancelled
      exact ⟨hhere, Worker.noConfusion, rfl, rfl, by rintro _ ⟨⟩; rfl, fun _ => hcancel⟩
  | counting c =>
    refine .inr (.inr ⟨fun _ => Worker.noConfusion, ?_⟩)
    have hhere : j.worker ≠ .gone := by simp [hworker]
    simp only [Job.work, hworker]
    cases (R.count j.op c (max stepBytes 1) cache).1 with
    | error e =>
      refine .of_same hhere Worker.noConfusion rfl rfl rfl ?_
      rintro _ ⟨⟩
      exact ⟨rfl, nofun⟩
    | ok page =>
      dsimp only
      cases page.next with
      | none =>
        refine .of_same hhere Worker.noConfusion rfl rfl (status_add _ _ _) ?_
        exact fun _ => Worker.noConfusion
      | some c =>
        refine .of_same hhere Worker.noConfusion rfl rfl (status_add _ _ _) ?_
        exact fun _ => Worker.noConfusion
  | closing =>
    refine .inr (.inr ⟨fun _ => Worker.noConfusion, ?_⟩)
    have hhere : j.worker ≠ .gone := by simp [hworker]
    simp only [Job.work, hworker]
    exact ⟨hhere, Worker.noConfusion, rfl, rfl, by rintro _ ⟨⟩; rfl, by rintro (h | h) <;> cases h⟩

/-- **What becomes of a job** in one action. -/
theorem Job.Moves.spec (hmove : j.Moves R stepBytes caches asked j') (h : j.Sound) :
    j'.Sound ∧ j'.op = j.op ∧ j.state.status.Next j'.state.status := by
  -- a step that goes on changes neither the status nor whether a worker is there
  have hgoes {j' : Job} (hgo : j.GoesOn j') :
      j'.Sound ∧ j'.op = j.op ∧ j.state.status.Next j'.state.status := by
    have hlive : j'.isLive = j.isLive := congrArg JobStatus.isLive hgo.status_eq
    refine ⟨⟨?_, hgo.last⟩, hgo.op_eq, ?_⟩
    · rw [hlive]
      exact ⟨fun _ => hgo.there, fun _ => h.live_iff.mpr hgo.here⟩
    · rw [hgo.status_eq]
      exact .same _
  cases hmove with
  | work =>
    rcases Job.work_cases R stepBytes j _ with
      ⟨-, heq⟩ | ⟨status, hworker, heq⟩ | ⟨-, hgo⟩
    · rw [heq]
      exact ⟨h, rfl, .same _⟩
    · have hlast := h.last status hworker
      rw [heq]
      refine ⟨⟨?_, fun _ h => by cases h⟩, rfl, .finish ?_ hlast⟩
      · show status.isLive = true ↔ Worker.gone ≠ Worker.gone
        simp [hlast]
      · exact h.live_iff.mpr (by simp [hworker])
    · exact hgoes hgo
  | crash =>
    unfold Job.panicked
    split
    · exact ⟨h, rfl, .same _⟩
    · exact ⟨h, rfl, .same _⟩
    · rename_i hfinishing hgone
      refine ⟨⟨⟨fun _ => Worker.noConfusion, fun _ => ?_⟩, ?_⟩, rfl, .same _⟩
      · exact h.live_iff.mpr hgone
      · rintro _ ⟨⟩
        rfl
  | raise => exact ⟨⟨h.live_iff, h.last⟩, rfl, .same _⟩
  | mark =>
    unfold Job.marked
    split
    · rename_i hrunning
      refine ⟨⟨⟨fun _ => ?_, fun _ => rfl⟩, h.last⟩, rfl, ?_⟩
      · exact h.live_iff.mp (congrArg JobStatus.isLive hrunning)
      · rw [hrunning]
        exact .cancel
    · exact ⟨h, rfl, .same _⟩

/-- **Nothing but being asked to stop** marks a job. -/
theorem Job.Moves.asked_or (hmove : j.Moves R stepBytes caches asked j') (hsound : j.Sound)
    (h : j'.IsMarked) : asked ∨ j.IsMarked := by
  cases hmove with
  | raise hasked => exact .inl hasked
  | mark hasked => exact .inl hasked
  | work =>
    rcases Job.work_cases R stepBytes j _ with
      ⟨-, heq⟩ | ⟨status, hworker, heq⟩ | ⟨-, hgo⟩
    · rw [heq] at h
      exact .inr h
    · rw [heq] at h
      refine .inr ?_
      rcases h with h | h | h | h
      · exact .inl h
      · cases h
      · have hstatus : status = .cancelled := h
        exact .inr (.inl (hstatus ▸ hworker))
      · -- a worker never ends by being cancelled later
        have hlast := hsound.last status hworker
        have hstatus : status = .cancelling := h
        rw [hstatus] at hlast
        cases hlast
    · refine .inr ?_
      rcases h with h | h | h | h
      · exact .inl (hgo.asked (.inl h))
      · exact .inl (hgo.asked (.inr h))
      · exact .inr (.inr (.inl (hgo.status_eq.symm.trans h)))
      · exact .inr (.inr (.inr (hgo.status_eq.symm.trans h)))
  | crash =>
    unfold Job.panicked at h
    split at h
    · exact .inr h
    · exact .inr h
    · refine .inr ?_
      rcases h with h | h | h
      · exact .inl h
      · cases h
      · exact .inr (.inr h)

/-- **Nothing that was counted is taken back.** -/
theorem Job.Moves.keys_le (hmove : j.Moves R stepBytes caches asked j') :
    j.state.keys ≤ j'.state.keys := by
  cases hmove with
  | raise => exact le_rfl
  | mark =>
    unfold Job.marked
    split <;> exact le_rfl
  | crash =>
    unfold Job.panicked
    split <;> exact le_rfl
  | @work cache =>
    unfold Job.work
    split
    · split <;> exact le_rfl
    · exact le_rfl
    · split
      · exact le_rfl
      · rename_i page _
        have hkeys := congrArg (·.2.1.keys)
          (j.state.counted_add page (R.progress j.op page.next 0 none))
        exact Nat.le.intro hkeys.symm
    · exact le_rfl
    · exact le_rfl
    · exact le_rfl

end Jobs

/-! ### What an action does -/

/-- The cache that a step of a worker finds is one of these. -/
def Act.Finds (caches : BlockCache → Prop) : Act → Prop
  | .work _ cache => caches cache
  | _ => True

theorem Act.finds_any (act : Act) : act.Finds fun _ => True := by
  cases act <;> trivial

namespace CountJobs

/-- Somebody asked a job to stop, or the server stops. -/
def Asked (s : CountJobs) (i : Nat) : Prop := (∃ c ∈ s.cancels, c.job = i) ∨ s.dropped = true

section Effect

variable (R : StateReader) (stepBytes maxRunning : Nat) (caches : BlockCache → Prop)

/-- Each job is as it was, or moved. -/
def Kept (s s' : CountJobs) : Prop :=
  ∀ i, s'.jobs[i]? = s.jobs[i]?
    ∨ ∃ j j' : Job, s.jobs[i]? = some j ∧ s'.jobs[i]? = some j'
        ∧ j.Moves R stepBytes caches (s'.Asked i) j'

/-- What an action can leave. -/
inductive Effect (s : CountJobs) : CountJobs → Prop
  | moved {s' : CountJobs} (htable : s'.table = s.table) (hstarting : s'.starting = s.starting)
    (hkept : Kept R stepBytes caches s s') (hasked : ∀ i, s.Asked i → s'.Asked i) : Effect s s'
  | locked (op : Text) (restart : Bool) :
    Effect s { s with starting := some ⟨op, restart, .looking⟩ }
  | released : Effect s { s with starting := none }
  | looked {op : Text} (restart : Bool) (hstopped : ∀ i, s.jobOf op = some i → s.live i = false) :
    Effect s { s with starting := some ⟨op, restart, .tallying (s.table.map (·.2)) 0⟩ }
  | tallied {op : Text} {restart : Bool} {left : List Nat} {running i : Nat}
    (hstarting : s.starting = some ⟨op, restart, .tallying left running⟩) (hi : i ∈ left) :
    Effect s { s with starting := some ⟨op, restart,
      .tallying (left.erase i) (running + if s.live i then 1 else 0)⟩ }
  | inserted {op : Text} {restart : Bool} {running : Nat} (spawned : Option Text)
    (hstarting : s.starting = some ⟨op, restart, .tallying [] running⟩)
    (hroom : running < max maxRunning 1) : Effect s (s.insert R op spawned)

end Effect

variable {R : StateReader} {stepBytes maxRunning : Nat} {caches : BlockCache → Prop}
  {s s' : CountJobs}

theorem kept_modify {i : Nat} {f : Job → Job} (hjobs : s'.jobs = s.jobs.modify i f)
    (hf : ∀ j : Job, j.Moves R stepBytes caches (s'.Asked i) (f j)) :
    Kept R stepBytes caches s s' := by
  intro k
  rw [hjobs, List.getElem?_modify]
  by_cases hik : i = k
  · subst hik
    cases s.jobs[i]? with
    | none => exact .inl rfl
    | some j =>
      refine .inr ⟨j, f j, rfl, ?_, hf j⟩
      simp
  · refine .inl ?_
    simp [hik]

theorem asked_setPhase {n i : Nat} {phase : CancelPhase} :
    (s.setPhase n phase).Asked i ↔ s.Asked i := by
  have hjobs : (s.setPhase n phase).cancels.map (·.job) = s.cancels.map (·.job) := by
    refine List.ext_getElem? fun k => ?_
    simp only [setPhase, List.getElem?_map, List.getElem?_modify]
    cases s.cancels[k]? with
    | none => rfl
    | some c => by_cases hk : n = k <;> simp [hk]
  have hmem (s : CountJobs) : (∃ c ∈ s.cancels, c.job = i) ↔ i ∈ s.cancels.map (·.job) := by
    simp
  unfold Asked
  rw [hmem, hmem, hjobs]
  rfl

/-- A call of `cancel` under way asked its job to stop. -/
theorem asked_of_cancel {n i : Nat} {phase : CancelPhase} (h : s.cancels[n]? = some ⟨i, phase⟩) :
    s.Asked i :=
  .inl ⟨_, List.mem_of_getElem? h, rfl⟩

theorem getElem?_raised (is : List Nat) (jobs : List Job) (k : Nat) :
    (is.foldl (fun jobs i => jobs.modify i Job.raised) jobs)[k]?
      = if k ∈ is then (jobs[k]?).map Job.raised else jobs[k]? := by
  induction is generalizing jobs with
  | nil => simp
  | cons i is ih =>
    rw [List.foldl_cons, ih, List.getElem?_modify]
    by_cases hki : k = i
    · -- raised twice is raised
      subst hki
      cases jobs[k]? <;> simp [Job.raised]
    · have hik : ¬ i = k := fun h => hki h.symm
      simp [hki, hik]

/-- A start that looks at the job of its operator answers it, or goes on to the tally. -/
theorem look_effect {answer : Answer} (h : s.step R stepBytes maxRunning .look = some (s', answer)) :
    Effect R stepBytes maxRunning caches s s' := by
  simp only [step] at h
  split at h
  · rename_i op restart hstarting
    cases hjob : s.jobOf op with
    | none =>
      rw [hjob] at h
      obtain ⟨rfl, -⟩ := Prod.mk.inj (Option.some.inj h)
      refine .looked restart fun k hk => ?_
      rw [hjob] at hk
      cases hk
    | some i =>
      rw [hjob] at h
      dsimp only at h
      split at h
      · obtain ⟨rfl, -⟩ := Prod.mk.inj (Option.some.inj h)
        exact .released
      · rename_i hstopped
        obtain ⟨rfl, -⟩ := Prod.mk.inj (Option.some.inj h)
        refine .looked restart fun k hk => ?_
        obtain rfl : i = k := Option.some.inj (hjob.symm.trans hk)
        have hboth : restart = true ∧ s.live i = false := by simpa using hstopped
        exact hboth.2
  · cases h

/-- A start that has tallied all jobs is refused, or has a job of its own. -/
theorem decide_effect {answer : Answer} {spawned : Option Text}
    (h : s.step R stepBytes maxRunning (.decide spawned) = some (s', answer)) :
    Effect R stepBytes maxRunning caches s s' := by
  simp only [step] at h
  split at h
  · rename_i hstarting
    split at h
    · obtain ⟨rfl, -⟩ := Prod.mk.inj (Option.some.inj h)
      exact .released
    · rename_i hroom
      obtain ⟨rfl, -⟩ := Prod.mk.inj (Option.some.inj h)
      exact .inserted spawned hstarting (by omega)
  · cases h

/-- A cancel that finds its operator's job is one more call under way. -/
theorem find_effect {answer : Answer} {op : Text}
    (h : s.step R stepBytes maxRunning (.find op) = some (s', answer)) :
    Effect R stepBytes maxRunning caches s s' := by
  simp only [step, Option.ite_none_right_eq_some] at h
  obtain ⟨-, h⟩ := h
  split at h
  · obtain ⟨rfl, -⟩ := Prod.mk.inj (Option.some.inj h)
    refine .moved rfl rfl (fun i => .inl rfl) ?_
    rintro k (⟨c, hc, hk⟩ | hdropped)
    · exact .inl ⟨c, List.mem_append_left _ hc, hk⟩
    · exact .inr hdropped
  · obtain ⟨rfl, -⟩ := Prod.mk.inj (Option.some.inj h)
    exact .moved rfl rfl (fun i => .inl rfl) fun _ => id

/-- A call of `cancel` changes its job and goes on. -/
theorem cancel_effect {n i : Nat} {phase phase' : CancelPhase} {f : Job → Job}
    (hn : s.cancels[n]? = some ⟨i, phase⟩)
    (hf : ∀ (asked : Prop) (j : Job), asked → j.Moves R stepBytes caches asked (f j)) :
    Effect R stepBytes maxRunning caches s
      { s.setPhase n phase' with jobs := s.jobs.modify i f } := by
  have hasked (k : Nat) (hk : s.Asked k) :
      Asked { s.setPhase n phase' with jobs := s.jobs.modify i f } k := asked_setPhase.mpr hk
  exact .moved rfl rfl (kept_modify rfl fun j => hf _ j (hasked i (asked_of_cancel hn))) hasked

/-- The server that stops asks the jobs of its table to stop. -/
theorem drop_effect {answer : Answer} (h : s.step R stepBytes maxRunning .drop = some (s', answer)) :
    Effect R stepBytes maxRunning caches s s' := by
  simp only [step, Option.ite_none_right_eq_some, Option.some.injEq, Prod.mk.injEq] at h
  obtain ⟨-, rfl, -⟩ := h
  refine .moved rfl rfl (fun k => ?_) fun _ _ => .inr rfl
  show (List.foldl _ s.jobs _)[k]? = _ ∨ ∃ j j' : Job, _ ∧ (List.foldl _ s.jobs _)[k]? = _ ∧ _
  rw [getElem?_raised]
  split
  · cases s.jobs[k]? with
    | none => exact .inl rfl
    | some j => exact .inr ⟨j, j.raised, rfl, rfl, .raise (.inr rfl)⟩
  · exact .inl rfl

/-- **All an action can leave.** -/
theorem step_effect {act : Act} {answer : Answer} (hact : act.Finds caches)
    (h : s.step R stepBytes maxRunning act = some (s', answer)) :
    Effect R stepBytes maxRunning caches s s' := by
  cases act with
  | get op =>
    simp only [step, Option.ite_none_right_eq_some, Option.some.injEq, Prod.mk.injEq] at h
    obtain ⟨-, rfl, -⟩ := h
    exact .moved rfl rfl (fun i => .inl rfl) fun _ => id
  | lock op restart =>
    simp only [step, Option.ite_none_right_eq_some, Option.some.injEq, Prod.mk.injEq] at h
    obtain ⟨-, rfl, -⟩ := h
    exact .locked op restart
  | look => exact look_effect h
  | tally i =>
    simp only [step] at h
    split at h
    · rename_i hstarting
      split at h
      · rename_i hi
        obtain ⟨rfl, -⟩ := Prod.mk.inj (Option.some.inj h)
        exact .tallied hstarting hi
      · cases h
    · cases h
  | decide spawned => exact decide_effect h
  | find op => exact find_effect h
  | raise n =>
    simp only [step] at h
    split at h
    · rename_i i hn
      obtain ⟨rfl, -⟩ := Prod.mk.inj (Option.some.inj h)
      exact cancel_effect hn fun _ _ => .raise
    · cases h
  | mark n =>
    simp only [step] at h
    split at h
    · rename_i i hn
      obtain ⟨rfl, -⟩ := Prod.mk.inj (Option.some.inj h)
      exact cancel_effect hn fun _ _ => .mark
    · cases h
  | reply n =>
    simp only [step] at h
    split at h
    · obtain ⟨rfl, -⟩ := Prod.mk.inj (Option.some.inj h)
      exact .moved rfl rfl (fun i => .inl rfl) fun _ => asked_setPhase.mpr
    · cases h
  | work i cache =>
    obtain ⟨rfl, -⟩ := Prod.mk.inj (Option.some.inj h)
    exact .moved rfl rfl (kept_modify rfl fun _ => .work hact) fun _ => id
  | crash i =>
    obtain ⟨rfl, -⟩ := Prod.mk.inj (Option.some.inj h)
    exact .moved rfl rfl (kept_modify rfl fun _ => .crash) fun _ => id
  | drop => exact drop_effect h

theorem live_iff {i : Nat} : s.live i = true ↔ ∃ j, s.jobs[i]? = some j ∧ j.isLive = true := by
  unfold live
  cases s.jobs[i]? <;> simp

theorem getElem?_concat {jobs : List Job} {job j : Job} {i : Nat}
    (h : (jobs ++ [job])[i]? = some j) : jobs[i]? = some j ∨ i = jobs.length ∧ j = job := by
  rcases lt_trichotomy i jobs.length with hi | rfl | hi
  · exact .inl (List.getElem?_append_left hi ▸ h)
  · refine .inr ⟨rfl, ?_⟩
    simpa using h.symm
  · rw [List.getElem?_eq_none (by simpa using Nat.succ_le_of_lt hi)] at h
    cases h

/-- A job that has counted nothing. -/
structure New (op : Text) (job : Job) : Prop where
  op_eq : job.op = op
  sound : job.Sound
  unmarked : ¬ job.IsMarked
  worker : job.worker = .entering ∨ job.worker = .gone
  status : job.state.status ≠ .done
  counted : job.state.counted.2 = (⟨[], 0⟩, 0, 0)

theorem insert_spec (R : StateReader) (s : CountJobs) (op : Text) (spawned : Option Text) :
    ∃ job : Job, (s.insert R op spawned).jobs = s.jobs ++ [job]
      ∧ (s.insert R op spawned).table
        = (op, s.jobs.length) :: s.table.filter (fun e => e.1 ≠ op)
      ∧ New op job := by
  cases spawned with
  | none =>
    refine ⟨_, rfl, rfl, rfl, ⟨⟨fun _ => Worker.noConfusion, fun _ => rfl⟩, nofun⟩, ?_, .inl rfl,
      nofun, rfl⟩
    rintro (h | h | h | h) <;> cases h
  | some e =>
    refine ⟨_, rfl, rfl, rfl, ⟨⟨nofun, fun h => absurd rfl h⟩, nofun⟩, ?_, .inr rfl, nofun, rfl⟩
    rintro (h | h | h | h) <;> cases h

/-- What moves keep of the jobs. -/
structure Kept.Spec (s s' : CountJobs) : Prop where
  sound : ∀ j ∈ s'.jobs, j.Sound
  op_eq : ∀ i : Nat, (s'.jobs[i]?).map Job.op = (s.jobs[i]?).map Job.op
  live_le : ∀ i : Nat, s'.live i = true → s.live i = true

theorem Kept.spec (h : Kept R stepBytes caches s s') (hsound : ∀ j ∈ s.jobs, j.Sound) :
    Kept.Spec s s' where
  sound j hj := by
    obtain ⟨i, hi⟩ := List.mem_iff_getElem?.mp hj
    rcases h i with heq | ⟨before, after, hbefore, hafter, hmove⟩
    · exact hsound j (List.mem_of_getElem? (heq.symm.trans hi))
    · obtain rfl : after = j := Option.some.inj (hafter.symm.trans hi)
      exact (hmove.spec (hsound before (List.mem_of_getElem? hbefore))).1
  op_eq i := by
    rcases h i with heq | ⟨before, after, hbefore, hafter, hmove⟩
    · rw [heq]
    · rw [hbefore, hafter]
      exact congrArg some (hmove.spec (hsound before (List.mem_of_getElem? hbefore))).2.1
  live_le i := by
    rw [live_iff, live_iff]
    rintro ⟨j, hj, hlive⟩
    rcases h i with heq | ⟨before, after, hbefore, hafter, hmove⟩
    · exact ⟨j, heq.symm.trans hj, hlive⟩
    · obtain rfl : after = j := Option.some.inj (hafter.symm.trans hj)
      have hnext := (hmove.spec (hsound before (List.mem_of_getElem? hbefore))).2.2
      exact ⟨before, hbefore, hnext.live hlive⟩

/-! ### Runs -/

/-- What some actions, one after another, leave. -/
def run (R : StateReader) (stepBytes maxRunning : Nat) : CountJobs → List Act → Option CountJobs
  | s, [] => some s
  | s, act :: acts =>
    (s.step R stepBytes maxRunning act).bind fun r => run R stepBytes maxRunning r.1 acts

theorem run_cons {act : Act} {acts : List Act}
    (h : run R stepBytes maxRunning s (act :: acts) = some s') :
    ∃ mid answer, s.step R stepBytes maxRunning act = some (mid, answer)
      ∧ run R stepBytes maxRunning mid acts = some s' := by
  obtain ⟨⟨mid, answer⟩, hstep, hrest⟩ := Option.bind_eq_some_iff.mp h
  exact ⟨mid, answer, hstep, hrest⟩

/-- **What each action keeps, a run keeps.** -/
theorem run_keeps {P : CountJobs → Prop}
    (hstep : ∀ s s', P s → Effect R stepBytes maxRunning caches s s' → P s') {acts : List Act}
    (hacts : ∀ act ∈ acts, act.Finds caches)
    (hrun : run R stepBytes maxRunning s acts = some s') (h : P s) : P s' := by
  induction acts generalizing s with
  | nil =>
    obtain rfl : s = s' := Option.some.inj hrun
    exact h
  | cons act acts ih =>
    obtain ⟨mid, answer, hact, hrest⟩ := run_cons hrun
    have heffect := step_effect (hacts act List.mem_cons_self) hact
    exact ih (fun a ha => hacts a (List.mem_cons_of_mem act ha)) hrest (hstep s mid h heffect)

/-- Whatever caches are found. -/
theorem run_keeps_any {P : CountJobs → Prop}
    (hstep : ∀ s s', P s → Effect R stepBytes maxRunning (fun _ => True) s s' → P s')
    {acts : List Act} (hrun : run R stepBytes maxRunning s acts = some s') (h : P s) : P s' :=
  run_keeps hstep (fun act _ => act.finds_any) hrun h

end CountJobs

end FlinkExplorer.Web
