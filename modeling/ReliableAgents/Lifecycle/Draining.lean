import ReliableAgents.Api.AdmissionBound
import ReliableAgents.Effects.Reconciliation
import ReliableAgents.Lifecycle.LeaseFields
import ReliableAgents.Lifecycle.Remaining
import ReliableAgents.Lifecycle.Resolution
import ReliableAgents.Lifecycle.SweepOrder
import ReliableAgents.Machine.Ranking

/-!
# Every agent comes to an end

Left to itself, a deployment with one worker for each tier finishes whatever it
was given: passes of the orchestrator and handouts of the workers, one after the
other, lead from every reachable state to one where each agent is completed or
failed. Each handout records an outcome, and an agent has only so many left.
-/

namespace ReliableAgents

open Relational

/-! ## A worker that is left alone -/

/-- What a worker does next with the task in hand. -/
def Phase.next? (policy : Handout → TaskContext → RunOutcome) (p : Nat) (now : Time) :
    Phase → Option Action
  | .idle => none
  | .claimed _ _ => some (.load p)
  | .reserving _ _ _ => some (.begin p now)
  | .running task _ ctx _ => some (.run p (policy task ctx))
  | .settling _ _ _ _ => some (.settle p now)
  | .finished _ _ _ _ _ _ => some (.confirm p)
  | .committing _ _ _ _ _ => some (.checkpoint p now)
  | .failing _ _ _ => some (.report p now)

@[simp] def Phase.stepsLeft : Phase → Nat
  | .idle => 0
  | .committing _ _ _ _ _ | .failing _ _ _ => 1
  | .finished _ _ _ _ _ _ => 2
  | .settling _ _ _ _ => 3
  | .running _ _ _ _ => 4
  | .reserving _ _ _ => 5
  | .claimed _ _ => 6

/-- A transition of the deployment running by itself: a sweep, a claim, or the next step of
a worker with a task in hand. -/
def Routine (flags : Flags) (policy : Handout → TaskContext → RunOutcome) (c : SysTransition) :
    Prop :=
  (∃ tick : Tick, ∃ sweep, tick.flags = flags ∧ c.action = tick.action sweep) ∨
    (∃ p now, c.action = .claim p now now unlocked) ∨
    ∃ p now, (c.before.workers p).phase.next? policy p now = some c.action

/-- A stretch of routine from time `x` to time `y`. -/
structure Stretch (cfg : Config) (flags : Flags) (policy : Handout → TaskContext → RunOutcome)
    (x : Time) (s : Sys) (us : List SysTransition) (y : Time) (s' : Sys) : Prop where
  run : Machine.Run (step cfg) s us s'
  routine : ∀ c ∈ us, Routine flags policy c
  timed : Timed us
  clocks : ∀ c ∈ us, ∀ now ∈ c.action.clock, x ≤ now ∧ now ≤ y
  le : x ≤ y

section Stretches

variable {cfg : Config} {flags : Flags} {policy : Handout → TaskContext → RunOutcome}
  {x y z : Time} {s s' s'' : Sys} {us vs : List SysTransition}

theorem Stretch.nil (h : x ≤ y) : Stretch cfg flags policy x s [] y s :=
  ⟨.nil, fun _ hc => (by cases hc), List.Pairwise.nil, fun _ hc => (by cases hc), h⟩

theorem Stretch.append (h : Stretch cfg flags policy x s us y s')
    (h' : Stretch cfg flags policy y s' vs z s'') :
    Stretch cfg flags policy x s (us ++ vs) z s'' where
  run := h.run.append h'.run
  routine := fun c hc => (List.mem_append.1 hc).elim (h.routine c) (h'.routine c)
  timed := List.pairwise_append.2 ⟨h.timed, h'.timed, fun c hc d hd now hnow later hlater =>
    (h.clocks c hc now hnow).2.trans (h'.clocks d hd later hlater).1⟩
  clocks := by
    intro c hc now hnow
    rcases List.mem_append.1 hc with hc | hc
    · exact ⟨(h.clocks c hc now hnow).1, (h.clocks c hc now hnow).2.trans h'.le⟩
    · exact ⟨h.le.trans (h'.clocks c hc now hnow).1, (h'.clocks c hc now hnow).2⟩
  le := h.le.trans h'.le

theorem Stretch.single {a : Action} (hs : step cfg s a = some s')
    (hroutine : Routine flags policy ⟨s, a, s'⟩) (hclock : ∀ now ∈ a.clock, now = x) :
    Stretch cfg flags policy x s [⟨s, a, s'⟩] x s' where
  run := Machine.Run.nil.snoc hs
  routine := by simpa using hroutine
  timed := List.pairwise_singleton _ _
  clocks := by
    intro c hc now hnow
    rw [List.mem_singleton.1 hc] at hnow
    exact ⟨(hclock now hnow).ge, (hclock now hnow).le⟩
  le := le_refl x

end Stretches

/-! ## One handout to its end -/

section Turns

variable {cfg : Config} {flags : Flags} {policy : Handout → TaskContext → RunOutcome}
  {p : Nat} {now : Time} {s s' : Sys} {a : Action}

theorem Phase.idle_of_next? {phase : Phase} (h : phase.next? policy p now = none) :
    phase = .idle := by
  cases phase <;> first | rfl | cases h

theorem startTask_stepsLeft (registry : Int → Option TaskDef) (task : Handout) (started : Time)
    (db : Db) : (startTask registry task started db).stepsLeft < 6 := by
  unfold startTask
  split
  · simp
  · split
    · simp
    · dsimp only
      split <;> simp

theorem finishTask_stepsLeft (ladder : Ladder) (task : Handout) (started : Time)
    (result : PyDict) : (finishTask ladder task started result).stepsLeft < 3 := by
  unfold finishTask
  split <;> simp

theorem beginAction_stepsLeft (sha256 : String → ActionId) (task : Handout) (started : Time)
    (ctx : TaskContext) (db : Db) :
    (beginAction sha256 task started ctx now db).1.stepsLeft < 5 := by
  unfold beginAction
  split
  · simp
  · split <;> simp

theorem afterRun_stepsLeft (ladder : Ladder) (task : Handout) (started : Time)
    (key : Option ActionId) (outcome : RunOutcome) :
    (afterRun ladder task started key outcome).stepsLeft < 4 := by
  have hfails (failure : TaskFailure) : (failTask task started failure).stepsLeft < 4 :=
    failTask_of (P := fun phase => phase.stepsLeft < 4) (by simp) fun _ _ => by simp
  unfold afterRun
  split
  · exact hfails _
  · exact hfails _
  · exact hfails _
  · split
    · simp
    · exact (finishTask_stepsLeft ..).trans (by decide)

theorem settleAction_stepsLeft (ladder : Ladder) (task : Handout) (started : Time)
    (key : ActionId) (result : PyDict) (db : Db) :
    (settleAction ladder task started key result now db).1.stepsLeft < 3 := by
  unfold settleAction
  split
  · simp
  · exact finishTask_stepsLeft ..

variable (cfg) in
/-- The next step of a worker is enabled and brings it closer to the end. -/
theorem step_next (h : (s.workers p).phase.next? policy p now = some a) :
    ∃ db phase, step cfg s a = some ((s.setDb db).setPhase p phase) ∧
      phase.stepsLeft < (s.workers p).phase.stepsLeft := by
  cases hphase : (s.workers p).phase with
  | idle => simp [hphase, Phase.next?] at h
  | claimed task started =>
      rw [hphase] at h
      cases h
      refine ⟨s.db, startTask cfg.registry task started s.db, ?_, startTask_stepsLeft ..⟩
      simp only [step, hphase]
      rfl
  | reserving task started ctx =>
      rw [hphase] at h
      cases h
      let begun := beginAction cfg.sha256 task started ctx now s.db
      refine ⟨begun.2, begun.1, ?_, beginAction_stepsLeft ..⟩
      simp only [step, hphase]
      rfl
  | running task started ctx key =>
      rw [hphase] at h
      cases h
      refine ⟨s.db, afterRun cfg.ladder task started key (policy task ctx), ?_,
        afterRun_stepsLeft ..⟩
      simp only [step, hphase]
      rfl
  | settling task started key result =>
      rw [hphase] at h
      cases h
      let settled := settleAction cfg.ladder task started key result now s.db
      refine ⟨settled.2, settled.1, ?_, settleAction_stepsLeft ..⟩
      simp only [step, hphase]
      rfl
  | finished task started result cost tokens duplicate =>
      rw [hphase] at h
      cases h
      cases hlost : (s.workers p).lost with
      | true =>
          refine ⟨s.db, .idle, ?_, by simp⟩
          simp only [step, hphase, hlost, if_true]
          rfl
      | false =>
          refine ⟨s.db, .committing task started result cost tokens, ?_, by simp⟩
          simp only [step, hphase, hlost, Bool.false_eq_true, if_false]
          rfl
  | committing task started result cost tokens =>
      rw [hphase] at h
      cases h
      cases hcommit : checkpointSuccess task result cost tokens started (cfg.workerId p) now
          s.db with
      | none =>
          refine ⟨s.db, .idle, ?_, by simp⟩
          simp only [step, hphase, hcommit]
          rfl
      | some committed =>
          refine ⟨committed.1, .idle, ?_, by simp⟩
          simp only [step, hphase, hcommit]
  | failing task started failure =>
      rw [hphase] at h
      cases h
      refine ⟨(reportFailure task failure started (cfg.workerId p) now s.db).1, .idle, ?_, by simp⟩
      simp only [step, hphase]

variable (cfg flags policy p) in
/-- A worker that is left alone comes to the end of the handout it has, and keeps on the
way what each of its steps keeps. -/
theorem finishes (x : Time) (I : Sys → Prop) (hI : I s)
    (next : ∀ u u' b, I u → (u.workers p).phase.next? policy p x = some b →
      step cfg u b = some u' → I u') :
    ∃ us s', Stretch cfg flags policy x s us x s' ∧ (s'.workers p).phase = .idle ∧ I s' := by
  generalize hn : (s.workers p).phase.stepsLeft = n
  induction n using Nat.strong_induction_on generalizing s with
  | _ n ih =>
      cases hnext : (s.workers p).phase.next? policy p x with
      | none => exact ⟨[], s, .nil le_rfl, Phase.idle_of_next? hnext, hI⟩
      | some b =>
          obtain ⟨db, phase, hstep, hless⟩ := step_next cfg hnext
          have hphase : (((s.setDb db).setPhase p phase).workers p).phase = phase := by
            rw [Sys.setPhase_workers, if_pos rfl]
          have hfirst : Stretch cfg flags policy x s _ x _ :=
            .single hstep (Or.inr (Or.inr ⟨p, x, hnext⟩)) fun now hnow => by
              cases hp : (s.workers p).phase <;> rw [hp] at hnext <;> cases hnext <;>
                cases hnow <;> rfl
          obtain ⟨us, s', hrest, hidle, hI'⟩ := ih phase.stepsLeft (hn ▸ hless)
            (next s _ b hI hnext hstep) (congrArg Phase.stepsLeft hphase)
          exact ⟨_, s', hfirst.append hrest, hidle, hI'⟩

/-- The worker's own steps write no task row and no agent, unless the last one finds the
row still leased. -/
theorem next_db (h : (s.workers p).phase.next? policy p now = some a)
    (hs : step cfg s a = some s') :
    (s'.db.agents = s.db.agents ∧ s'.db.taskInstances = s.db.taskInstances) ∨
      (s'.workers p).phase = .idle ∧ ∃ k t, s.db.task k = some t ∧ t.status = .running := by
  have ended : ∀ t : Sys, ((t.setPhase p .idle).workers p).phase = .idle := by
    intro t
    rw [Sys.setPhase_workers, if_pos rfl]
  cases hphase : (s.workers p).phase with
  | idle => simp [hphase, Phase.next?] at h
  | claimed task started | running task started ctx key =>
      rw [hphase] at h
      cases h
      simp only [step, hphase] at hs
      cases hs
      exact Or.inl ⟨rfl, rfl⟩
  | reserving task started ctx =>
      rw [hphase] at h
      cases h
      simp only [step, hphase] at hs
      cases hs
      obtain ⟨table, htable⟩ := beginAction_db cfg.sha256 task started ctx now s.db
      left
      simp [htable]
  | settling task started key result =>
      rw [hphase] at h
      cases h
      simp only [step, hphase] at hs
      cases hs
      obtain ⟨table, htable⟩ := settleAction_db cfg.ladder task started key result now s.db
      left
      simp [htable]
  | finished task started result cost tokens duplicate =>
      rw [hphase] at h
      cases h
      simp only [step, hphase] at hs
      split at hs <;> cases hs <;> exact Or.inl ⟨rfl, rfl⟩
  | committing task started result cost tokens =>
      rw [hphase] at h
      cases h
      simp only [step, hphase] at hs
      split at hs
      · cases hs
        exact Or.inl ⟨rfl, rfl⟩
      · rename_i committed hcommit
        obtain ⟨db, ok⟩ := committed
        cases hs
        rcases checkpointSuccess_spec hcommit with ⟨-, rfl⟩ | ⟨-, t, -, -, -, ht, -, hrunning, -⟩
        · exact Or.inl ⟨rfl, rfl⟩
        · exact Or.inr ⟨ended _, _, t, ht, hrunning⟩
  | failing task started failure =>
      rw [hphase] at h
      cases h
      simp only [step, hphase] at hs
      cases hs
      rcases hreport : reportFailure task failure started (cfg.workerId p) now s.db with ⟨db, ok⟩
      rcases reportFailure_spec hreport with ⟨-, rfl⟩ | ⟨t, -, ht, -, hrunning, -⟩
      · exact Or.inl ⟨rfl, rfl⟩
      · exact Or.inr ⟨ended _, _, t, ht, hrunning⟩

/-- The handout has not asked for its action id yet. -/
def Phase.unasked : Phase → Bool
  | .claimed _ _ | .reserving _ _ _ => true
  | _ => false

theorem next_unasked (h : (s.workers p).phase.next? policy p now = some a)
    (hs : step cfg s a = some s') (hunasked : (s'.workers p).phase.unasked = true) :
    (s.workers p).phase.unasked = true ∧ s'.db = s.db := by
  obtain ⟨db, phase, hstep, hless⟩ := step_next cfg h
  rw [hs, Option.some.injEq] at hstep
  have hphase : (s'.workers p).phase = phase := by
    rw [hstep, Sys.setPhase_workers, if_pos rfl]
  have hleft : 5 ≤ phase.stepsLeft := by
    rw [hphase] at hunasked
    revert hunasked
    cases phase <;> simp [Phase.unasked]
  cases hbefore : (s.workers p).phase with
  | claimed task started =>
      rw [hbefore] at h
      cases h
      simp only [step, hbefore] at hs
      cases hs
      exact ⟨rfl, rfl⟩
  | _ =>
      rw [hbefore, Phase.stepsLeft] at hless
      omega

variable (cfg) in
theorem next_wellBehaved {task : Handout} {db : Db} {phase : Phase}
    (hpolicy : ∀ task ctx, (policy task ctx).recordable task = true)
    (hprice : (cfg.ladder.costOf task.tier).isSome = true) (htask : phase.task? = some task)
    (hfree : phase.unasked = true → task.inFlight cfg.sha256 db = false)
    (h : phase.next? policy p now = some a) :
    a.wellBehaved cfg cfg.ladder p task db phase = true := by
  cases phase with
  | reserving held started ctx =>
      cases h
      simp [Action.wellBehaved, hfree rfl]
  | running held started ctx key =>
      cases htask
      cases h
      simp only [Action.wellBehaved, hpolicy, hprice, Bool.true_and, Bool.or_eq_true]
      right
      split <;> rfl
  | settling held started key result =>
      cases htask
      cases h
      simp only [Action.wellBehaved, Bool.or_eq_true]
      right
      split
      · exact hprice
      · rfl
  | idle => cases h
  | claimed | finished | committing | failing =>
      cases h
      rfl

theorem next_available {phase : Phase} (h : phase.next? policy p now = some a) :
    a.available p = true := by
  cases phase <;> cases h <;> rfl

/-- A worker that holds its lease, can record what the task makes of it, and finds no
reservation of its action in flight when it asks. -/
structure Holding (cfg : Config) (p : Nat) (task : Handout) (s : Sys) : Prop where
  inHand : (s.workers p).phase.task? = some task
  lost : (s.workers p).lost = false
  recordable : (s.workers p).phase.recordable = true
  free : (s.workers p).phase.unasked = true → task.inFlight cfg.sha256 s.db = false
  leased : Leased (cfg.workerId p) task.id s.db

/-- One more step of a worker that holds its lease: it goes on holding it, or it is done and
the row is resolved. -/
theorem Holding.next {task : Handout} {ts : List SysTransition} (h : Holding cfg p task s)
    (hpolicy : ∀ task ctx, (policy task ctx).recordable task = true)
    (hprice : (cfg.ladder.costOf task.tier).isSome = true) (hrun : SysRun cfg ts s)
    (hnext : (s.workers p).phase.next? policy p now = some a) (hs : step cfg s a = some s') :
    Holding cfg p task s' ∨
      (s'.workers p).phase = .idle ∧ Resolved (cfg.workerId p) task s'.db := by
  have hbehaved := next_wellBehaved cfg hpolicy hprice h.inHand h.free hnext
  by_cases hidle : (s'.workers p).phase = .idle
  · have horderly := (LossyRun.of_run hrun).orderly
    exact Or.inr ⟨hidle, (step_exit hs horderly h.inHand hidle (next_available hnext) h.leased
      h.lost).2 ⟨h.recordable, hbehaved⟩⟩
  · obtain ⟨htask, hrecordable⟩ := step_recordable hs h.inHand hidle
    have hfree : (s'.workers p).phase.unasked = true → task.inFlight cfg.sha256 s'.db = false := by
      intro hunasked
      obtain ⟨hbefore, hdb⟩ := next_unasked hnext hs hunasked
      rw [hdb]
      exact h.free hbefore
    refine Or.inl ⟨htask, step_lost hs h.inHand h.leased h.lost,
      hrecordable.2 ⟨h.recordable, hbehaved⟩, hfree, ?_⟩
    rcases next_db hnext hs with ⟨-, htasks⟩ | ⟨hended, -⟩
    · obtain ⟨t, ht, howner, hrunning⟩ := h.leased
      exact ⟨t, by rwa [Db.task, htasks], howner, hrunning⟩
    · exact absurd hended hidle

end Turns

/-! ## One pass of the sweeps -/

def NoneRunning (db : Db) : Prop := ∀ k t, db.task k = some t → t.status ≠ .running

section Pass

variable {cfg : Config} {flags : Flags} {policy : Handout → TaskContext → RunOutcome}
  {tick : Tick} {db : Db}

/-- A pass that comes after every lease has run out takes them all. -/
theorem noneRunning_reap (hfits : tick.Fits cfg db)
    (hlate : ∀ k t, db.task k = some t → t.status = .running → expired tick.now t = true) :
    NoneRunning (tick.perform cfg db .reap) := by
  intro k t' ht' hrunning
  have hmem := Table.mem_of_get? ht'
  rw [(reap_takes hfits).tasks, Change.apply, List.mem_append] at hmem
  rcases hmem with hmem | hnew
  · obtain ⟨t, ht, rfl⟩ := List.mem_map.1 hmem
    simp only [Tick.change, reapChange] at hrunning
    split at hrunning
    · cases hrunning
    · rename_i hnot
      have htask := task_of_mem ht
      exact hnot (List.mem_map_of_mem (mem_expiredRows.2 ⟨htask, hlate _ t htask hrunning⟩))
  · cases hnew

theorem NoneRunning.perform (h : NoneRunning db) (hready : tick.Ready cfg db) (sweep : Sweep) :
    NoneRunning (tick.perform cfg db sweep) := by
  have htakes := Tick.takes hready.cursor hready.fits sweep
  by_cases hreap : sweep = .reap
  · subst hreap
    refine noneRunning_reap hready.fits fun k t ht hrunning => absurd hrunning (h k t ht)
  · intro k t' ht' hrunning
    have hmem := Table.mem_of_get? ht'
    rw [htakes.tasks, Change.apply, List.mem_append] at hmem
    rcases hmem with hmem | hnew
    · obtain ⟨t, ht, rfl⟩ := List.mem_map.1 hmem
      rcases change_status cfg tick sweep ht (Or.inr (Or.inl ⟨rfl, hreap⟩)) with hsame | ⟨-, hnot⟩
      · rw [hsame] at hrunning
        exact h _ t (task_of_mem ht) hrunning
      · exact hnot hrunning
    · obtain ⟨-, hinserted⟩ := mem_change_new hnew
      obtain ⟨-, hpending, -⟩ := mem_inserted hinserted
      rw [hpending] at hrunning
      cases hrunning

/-- What one sweep has cleared, another sweep leaves clear. -/
theorem idle_stable (hready : tick.Ready cfg db) (sweep other : Sweep)
    (hidle : tick.idle cfg db other) : tick.idle cfg (tick.perform cfg db sweep) other := by
  by_cases hsame : sweep = other
  · subst hsame
    rw [Tick.Takes.eq_of_idle (Tick.takes hready.cursor hready.fits sweep) hidle]
    exact hidle
  · have htakes := Tick.takes hready.cursor hready.fits sweep
    cases other with
    | reap => exact (expiredRows_stable htakes hsame).trans hidle
    | repair => exact (inserted_stable hready.cursor htakes hsame).trans hidle
    | finalise => exact (exhaustedRows_stable hready.cursor htakes hsame).trans hidle
    | classify => exact (failedRows_stable htakes hsame).trans hidle
    | reconcile => exact (orphanedRows_stable htakes hsame _ _).trans hidle

structure Swept (db : Db) : Prop where
  running : NoneRunning db
  failed : failedRows db = []
  exhausted : exhaustedRows db = []

theorem swept_pass (hready : tick.Ready cfg db)
    (hlate : ∀ k t, db.task k = some t → t.status = .running → expired tick.now t = true) :
    Swept (Sweep.all.foldl (tick.perform cfg) db) := by
  have h₁ := hready.perform .reap
  have h₂ := h₁.perform .repair
  have h₃ := h₂.perform .finalise
  have h₄ := h₃.perform .classify
  have hrunning := noneRunning_reap hready.fits hlate
  have hexhausted := exhaustedRows_after (Tick.takes h₂.cursor h₂.fits .finalise)
  have hfailed := failedRows_after h₃.cursor (Tick.takes h₃.cursor h₃.fits .classify)
  exact ⟨(((hrunning.perform h₁ .repair).perform h₂ .finalise).perform h₃ .classify).perform h₄
      .reconcile,
    idle_stable h₄ .reconcile .classify hfailed,
    idle_stable h₄ .reconcile .finalise (idle_stable h₃ .classify .finalise hexhausted)⟩

variable (cfg policy) in
theorem stretch_pass (hflags : tick.flags = flags) (order : List Sweep) (s : Sys) :
    ∃ us, Stretch cfg flags policy tick.now s us tick.now
      (s.setDb (order.foldl (tick.perform cfg) s.db)) := by
  induction order generalizing s with
  | nil => exact ⟨[], .nil le_rfl⟩
  | cons sweep rest ih =>
      have hfirst : Stretch cfg flags policy tick.now s _ tick.now
          (s.setDb (tick.perform cfg s.db sweep)) :=
        .single (tick.step_action cfg s sweep) (Or.inl ⟨tick, sweep, hflags, rfl⟩)
          fun now hnow => by cases sweep <;> cases hnow <;> rfl
      obtain ⟨us, hrest⟩ := ih (s.setDb (tick.perform cfg s.db sweep))
      exact ⟨_, hfirst.append hrest⟩

/-- There is a time past every lease and every backoff, when every reservation is old enough
to be closed. -/
theorem exists_late (cfg : Config) (db : Db) (x : Time) :
    ∃ y, x ≤ y ∧
      (∀ t ∈ db.taskInstances.rows, t.nextRunAt ≤ y ∧ ∀ e, t.leaseExpires = some e → e < y) ∧
      ∀ r ∈ db.idempotency.rows, r.createdAt < y - seconds cfg.graceSeconds := by
  obtain ⟨m, hm⟩ := Finset.exists_le
    (insert x ((db.taskInstances.rows.map TaskInstance.nextRunAt).toFinset ∪
      (db.taskInstances.rows.filterMap TaskInstance.leaseExpires).toFinset ∪
      (db.idempotency.rows.map fun r => r.createdAt + seconds cfg.graceSeconds).toFinset))
  have hle : m ≤ m + 1 := Int.le_add_one le_rfl
  refine ⟨m + 1, (hm x (Finset.mem_insert_self _ _)).trans hle,
    fun t ht => ⟨?_, fun e he => ?_⟩, fun r hr => ?_⟩
  · refine (hm t.nextRunAt ?_).trans hle
    refine Finset.mem_insert_of_mem (Finset.mem_union_left _ (Finset.mem_union_left _ ?_))
    exact List.mem_toFinset.2 (List.mem_map_of_mem ht)
  · refine Int.lt_add_one_of_le (hm e ?_)
    refine Finset.mem_insert_of_mem (Finset.mem_union_left _ (Finset.mem_union_right _ ?_))
    exact List.mem_toFinset.2 (List.mem_filterMap.2 ⟨t, ht, he⟩)
  · have hold := hm (r.createdAt + seconds cfg.graceSeconds)
      (Finset.mem_insert_of_mem (Finset.mem_union_right _
        (List.mem_toFinset.2 (List.mem_map_of_mem hr))))
    exact lt_sub_iff_add_lt.2 (Int.lt_add_one_of_le hold)

theorem exists_pass (cfg : Config) (flags : Flags) (db : Db) (now : Time) :
    ∃ tick : Tick, tick.now = now ∧ tick.flags = flags ∧ tick.Fits cfg db := by
  refine ⟨
    { now := now
      jitter := fun _ => 0
      ids := id
      flags := flags
      reaperBatch := db.taskInstances.rows.length
      orchestratorBatch := db.agents.rows.length + db.idempotency.rows.length
      classifyLimit := db.taskInstances.rows.length },
    rfl, rfl, ?_⟩
  constructor
  · rw [expiredRows, List.length_insertionSort]
    exact List.length_filter_le _ _
  · rw [stalledRows, List.length_insertionSort]
    exact (List.length_filter_le _ _).trans (Nat.le_add_right _ _)
  · rw [exhaustedRows, List.length_insertionSort]
    exact (List.length_filter_le _ _).trans (Nat.le_add_right _ _)
  · rw [failedRows, List.length_insertionSort]
    exact List.length_filter_le _ _
  · rw [orphanedRows, List.length_insertionSort]
    exact (List.length_filter_le _ _).trans (Nat.le_add_left _ _)

/-- A reconciliation that comes late enough leaves nothing in flight. -/
theorem none_inFlight (hfits : tick.Fits cfg db)
    (hlate : ∀ r ∈ db.idempotency.rows, r.createdAt < tick.now - seconds cfg.graceSeconds)
    (task : Handout) : task.inFlight cfg.sha256 (tick.perform cfg db .reconcile) = false := by
  by_contra hopen
  rw [Bool.not_eq_false, Handout.inFlight, Option.any_eq_true] at hopen
  obtain ⟨r, hr, hstate⟩ := hopen
  have hkept := (Ledger.reconcile_spec cfg.leaseTtlSeconds none tick.orchestratorBatch tick.now
    unlocked db).2 (Ledger.actionId cfg.sha256 task.agentId.str task.seq task.actionType)
  rw [show (Ledger.reconcile _ none _ _ _ db).reservation _ = some r from hr] at hkept
  rcases hkept with hsame | ⟨r₀, -, -, -, -, hsettled⟩
  · have hmem : r ∈ orphanedRows (tick.perform cfg db .reconcile) cfg.graceSeconds tick.now := by
      refine (List.mem_insertionSort _).2 (List.mem_filter.2 ⟨Table.mem_of_get? hr, ?_⟩)
      simp [Ledger.orphaned, of_decide_eq_true hstate, hlate r (Table.mem_of_get? hsame.symm)]
    rw [orphanedRows_after (reconcile_takes hfits)] at hmem
    cases hmem
  · rw [Option.some.inj hsettled] at hstate
    exact absurd (of_decide_eq_true hstate) (by simp)

end Pass

/-! ## A round -/

section Rounds

variable {cfg : Config} {flags : Flags} {policy : Handout → TaskContext → RunOutcome}
  {ts : List SysTransition} {x : Time} {s s' : Sys} {a : Uuid}

/-- After a pass a running agent waits with its row at the cursor queued. -/
theorem Swept.queued (hswept : Swept s.db) (hdistinct : Function.Injective cfg.workerId)
    (h : SysRun cfg ts s) {ag : Agent} (hag : s.db.agent a = some ag)
    (hrunning : ag.status = .running) :
    ∃ t, s.db.task t.id = some t ∧ t.agentId = a ∧ t.seq = ag.cursor ∧ t.status = .pending ∧
      t.tier ∈ cfg.ladder.names := by
  obtain ⟨v, hv, rfl⟩ := Db.view_of_agent hag
  obtain ⟨horder, -⟩ := SysRun.inOrder hdistinct h hv
  by_cases hplan : v.agent.plan = []
  · -- an agent without a plan has been finalised
    have hmem : v.agent ∈ exhaustedRows s.db := by
      refine mem_exhaustedRows.2 ⟨by rw [Db.id_of_agent hag]; exact hag, ?_⟩
      have hnothing : (s.db.taskInstances.select fun t =>
          t.agentId = v.agent.id && t.status ≠ .succeeded) = [] := by
        refine List.eq_nil_iff_forall_not_mem.2 fun t ht => ?_
        obtain ⟨htask, hp⟩ := Table.mem_select.1 ht
        simp only [Bool.and_eq_true, decide_eq_true_eq, Db.id_of_agent hag] at hp
        have hrow := Db.rowAt_of_task htask
        rw [hp.1] at hrow
        have hnone := horder.empty hplan t.seq
        rw [Db.view_rows hv, hrow] at hnone
        cases hnone
      simp only [ReliableAgents.exhausted, hrunning, hplan, hnothing, List.length_nil, Nat.zero_le,
        decide_true, List.isEmpty_nil, Bool.and_true]
    rw [hswept.exhausted] at hmem
    cases hmem
  · obtain ⟨w, hw, hopen⟩ := (horder.committed hplan).running hrunning
    obtain ⟨base, hbase⟩ := horder.budgets.rows _ w hw
    rw [Db.view_rows hv] at hw
    obtain ⟨t, hrow, rfl⟩ := Option.map_eq_some_iff.1 hw
    obtain ⟨htask, hagent, hseq⟩ := Db.task_of_rowAt hrow
    refine ⟨t, htask, hagent, hseq, ?_, hbase.onLadder⟩
    rcases hopen with hpending | hleased | hfailed
    · exact hpending
    · exact absurd hleased (hswept.running _ t htask)
    · have hmem : t ∈ failedRows s.db := mem_failedRows.2 ⟨htask, hfailed⟩
      rw [hswept.failed] at hmem
      cases hmem

theorem Routine.creates {c : SysTransition} (h : Routine flags policy c) :
    c.action.creates = false := by
  rcases h with ⟨tick, sweep, -, haction⟩ | ⟨p, now, haction⟩ | ⟨p, now, hnext⟩
  · rw [haction]
    cases sweep <;> rfl
  · rw [haction]
    rfl
  · generalize c.action = a at hnext
    cases hphase : (c.before.workers p).phase <;> rw [hphase] at hnext <;> cases hnext <;> rfl

/-- Routine revives no agent, and submits none. -/
theorem Stretch.noneRevived {y : Time} {us : List SysTransition}
    (h : Stretch cfg flags policy x s us y s') : NoneRevived s.db s'.db :=
  h.run.invariant_of (I := fun u => NoneRevived s.db u.db) (Routine flags policy) (.refl _)
    (fun _ _ _ hpast hs hroutine => hpast.trans (step_noneRevived hroutine.creates hs)) h.routine

variable (cfg flags policy x) in
/-- A worker that finds no row leased comes to its end without a trace in the queue. -/
theorem becomes_idle (hnone : NoneRunning s.db) (p : Nat) :
    ∃ us s', Stretch cfg flags policy x s us x s' ∧ (s'.workers p).phase = .idle ∧
      s'.db.agents = s.db.agents ∧ s'.db.taskInstances = s.db.taskInstances := by
  refine finishes cfg flags policy p x
    (fun u => u.db.agents = s.db.agents ∧ u.db.taskInstances = s.db.taskInstances)
    ⟨rfl, rfl⟩ fun u u' b hu hnext hs => ?_
  rcases next_db hnext hs with ⟨hagents, htasks⟩ | ⟨-, k, t, ht, hrunning⟩
  · exact ⟨hagents.trans hu.1, htasks.trans hu.2⟩
  · rw [Db.task, hu.2] at ht
    exact absurd hrunning (hnone k t ht)

variable (cfg flags policy x) in
/-- After that every backoff may run out, and a late reconciliation close what the worker has
left in flight. -/
theorem becomes_ready (hnone : NoneRunning s.db) (p : Nat) :
    ∃ y us s', Stretch cfg flags policy x s us y s' ∧ (s'.workers p).phase = .idle ∧
      s'.db.agents = s.db.agents ∧ s'.db.taskInstances = s.db.taskInstances ∧
      (∀ t ∈ s'.db.taskInstances.rows, t.nextRunAt ≤ y) ∧
      ∀ task : Handout, task.inFlight cfg.sha256 s'.db = false := by
  obtain ⟨us, free, hrest, hidle, hagents, htasks⟩ := becomes_idle cfg flags policy x hnone p
  obtain ⟨y, hy, hdue, hold⟩ := exists_late cfg free.db x
  obtain ⟨tick, rfl, hflags, hfits⟩ := exists_pass cfg flags free.db y
  obtain ⟨vs, hclose⟩ := stretch_pass cfg policy hflags [.reconcile] free
  exact ⟨tick.now, _, _, (hrest.append (.nil hy)).append hclose, hidle, hagents, htasks,
    fun t ht => (hdue t ht).1, none_inFlight hfits hold⟩

theorem costOf_isSome {ladder : Ladder} {tier : TierName} (h : tier ∈ ladder.names) :
    (ladder.costOf tier).isSome = true := by
  obtain ⟨t, ht, rfl⟩ := List.mem_map.1 h
  rw [Ladder.costOf, Option.isSome_map, Ladder.tier, List.find?_isSome]
  exact ⟨t, ht, by simp⟩

theorem exists_claim {p : Nat} (hidle : (s.workers p).phase = .idle) {t : TaskInstance}
    (ht : s.db.task t.id = some t) (hclaimable : claimable s.db (cfg.poolTier p) x t = true)
    (hclosed : ∀ task : Handout, task.inFlight cfg.sha256 s.db = false) :
    ∃ task r s', step cfg s (.claim p x x unlocked) = some s' ∧ Holding cfg p task s' ∧
      task.tier = cfg.poolTier p ∧ s.db.task task.id = some r ∧
      claimable s.db (cfg.poolTier p) x r = true := by
  have hsome : ∃ claimed, claimOne (cfg.poolTier p) (cfg.workerId p) cfg.leaseTtlSeconds x unlocked
      s.db = some claimed := by
    unfold claimOne
    dsimp only
    split
    · rename_i hempty
      rw [orderedBatch_one_eq_nil] at hempty
      have hmem : t ∈ s.db.taskInstances.select fun r =>
          claimable s.db (cfg.poolTier p) x r && !unlocked r.id :=
        Table.mem_select.2 ⟨ht, by simp [hclaimable, unlocked]⟩
      rw [hempty] at hmem
      cases hmem
    · exact ⟨_, rfl⟩
  obtain ⟨⟨task, db'⟩, hclaim⟩ := hsome
  obtain ⟨r, hr, hclaimable, htask, hdb⟩ := claimOne_spec hclaim
  obtain ⟨r', hr', -, htask', hrows⟩ := claimOne_task hclaim
  obtain ⟨ag, -, -, -, htier, -⟩ := claimable_spec hclaimable
  have hid : task.id = r.id := by rw [htask, TaskInstance.handout_id, TaskInstance.claimed_id]
  refine ⟨task, r, claimTask cfg s p x x unlocked, by simp only [step, hidle], ?_, ?_, hid ▸ hr,
    hclaimable⟩
  · rw [claimTask, hclaim]
    refine ⟨?_, ?_, ?_, fun _ => ?_, r'.claimed (cfg.workerId p) cfg.leaseTtlSeconds x, ?_, rfl,
      rfl⟩
    · rw [Sys.setWorker_workers, if_pos rfl]
      rfl
    · rw [Sys.setWorker_workers, if_pos rfl]
    · rw [Sys.setWorker_workers, if_pos rfl]
      rfl
    · have hfree := hclosed task
      rwa [Handout.inFlight, show s.db.reservation _ = db'.reservation _ by rw [hdb]; rfl] at hfree
    · exact (hrows task.id).trans (if_pos rfl)
  · rw [htask]
    exact htier

variable (flags x) in
/-- The handout of a worker that holds its lease has an outcome. -/
theorem Holding.resolves {p : Nat} {task : Handout} (hholding : Holding cfg p task s)
    (hpolicy : ∀ task ctx, (policy task ctx).recordable task = true)
    (hprice : (cfg.ladder.costOf task.tier).isSome = true) (h : SysRun cfg ts s) :
    ∃ us s', Stretch cfg flags policy x s us x s' ∧ Resolved (cfg.workerId p) task s'.db := by
  obtain ⟨us, s', hstretch, hidle, -, hend⟩ := finishes cfg flags policy p x
    (fun u => (∃ us, SysRun cfg us u) ∧
      (Holding cfg p task u ∨ (u.workers p).phase = .idle ∧ Resolved (cfg.workerId p) task u.db))
    ⟨⟨ts, h⟩, Or.inl hholding⟩ fun u u' b hu hnext hs => by
      obtain ⟨⟨us, hrun⟩, hholding' | ⟨hidle, -⟩⟩ := hu
      · exact ⟨⟨_, hrun.snoc hs⟩, hholding'.next hpolicy hprice hrun hnext hs⟩
      · rw [hidle] at hnext
        cases hnext
  refine ⟨us, s', hstretch, ?_⟩
  rcases hend with hholding' | ⟨-, hresolved⟩
  · have htask := hholding'.inHand
    rw [hidle] at htask
    cases htask
  · exact hresolved

/-- A row that was running and has come to a result adds to its agent's outcomes. -/
theorem outcomes_lt_of_ended (hdistinct : Function.Injective cfg.workerId) (h : SysRun cfg ts s)
    {k : Uuid} {t t' : TaskInstance} (ht : s.db.task k = some t) (hrunning : t.status = .running)
    {us : List SysTransition} (hrun : Machine.Run (step cfg) s us s')
    (ht' : s'.db.task k = some t') (hended : t'.status = .succeeded ∨ t'.status = .failed) :
    ∃ w w', s.db.view t.agentId = some w ∧ w.agent.status = .running ∧
      s'.db.view t.agentId = some w' ∧ w.outcomes < w'.outcomes := by
  have hsound : s.Sound := SysRun.sound h
  obtain ⟨ag, hag⟩ := hsound.db.tasks k t ht
  obtain ⟨w, hw, -⟩ := Db.view_of_agent hag
  obtain ⟨w', hw', hpath, -⟩ := SysRun.remaining_run hdistinct h hw hrun
  obtain ⟨-, hmoves⟩ := run_moves hrun hsound (Rules.free_holdAlong cfg us)
  obtain ⟨u, hu, htask⟩ := hmoves.task hsound.db ht
  rw [ht', Option.some.injEq] at hu
  subst hu
  have hrow := Db.view_row_of_task ht hw
  have hagent : t'.agentId = t.agentId := htask.same.agentId
  have hrow' := Db.view_row_of_task ht' (hagent ▸ hw')
  rw [show t'.seq = t.seq from htask.same.seq] at hrow'
  obtain ⟨horder, -⟩ := SysRun.inOrder hdistinct h hw
  have hcommitted : CommittedPrefix w := horder.committed fun hempty => by
    rw [horder.empty hempty] at hrow
    cases hrow
  exact ⟨w, w', hw, (hcommitted.active hrow (Or.inl hrunning)).2, hw',
    hpath.outcomes_lt ((hcommitted.rows _).1 (by simp [hrow])) hrow hrow'
      (htask.outcomes_lt hrunning hended)⟩

variable (flags) in
/-- A pass, and after it a handout with an outcome unless nobody is running any more. -/
theorem round (hdistinct : Function.Injective cfg.workerId)
    (hpools : ∀ tier ∈ cfg.ladder.names, ∃ p, cfg.poolTier p = tier)
    (hpolicy : ∀ task ctx, (policy task ctx).recordable task = true) (h : SysRun cfg ts s)
    (x : Time) :
    ∃ y us s', Stretch cfg flags policy x s us y s' ∧
      ((∀ a ag, s'.db.agent a = some ag → ag.status ≠ .running) ∨
        ∃ a v v', s.db.view a = some v ∧ s'.db.view a = some v' ∧ v.outcomes < v'.outcomes) := by
  -- the pass comes after every lease that is held now
  obtain ⟨now, hnow, hlate, -⟩ := exists_late cfg s.db x
  obtain ⟨tick, rfl, hflags, hfits⟩ := exists_pass cfg flags s.db now
  have hready : tick.Ready cfg s.db := ⟨SysRun.atCursor h, hfits⟩
  obtain ⟨us, hpass⟩ := stretch_pass cfg policy hflags Sweep.all s
  have hswept := swept_pass hready fun k t ht hrunning => by
    obtain ⟨e, he⟩ := Option.isSome_iff_exists.1
      ((SysRun.ownerFields h k t ht).expires (Or.inl hrunning))
    simp [expired, hrunning, he, (hlate t (Table.mem_of_get? ht)).2 e he]
  have hswept' : Swept (s.setDb (Sweep.all.foldl (tick.perform cfg) s.db)).db := hswept
  generalize s.setDb (Sweep.all.foldl (tick.perform cfg) s.db) = passed at hpass hswept'
  have hpass' := (Stretch.nil hnow).append hpass
  have hpassed := h.append hpass.run
  by_cases hdone : ∀ a ag, passed.db.agent a = some ag → ag.status ≠ .running
  · exact ⟨tick.now, _, passed, hpass', Or.inl hdone⟩
  simp only [not_forall, not_not] at hdone
  obtain ⟨a, ag, hag, hrunning⟩ := hdone
  obtain ⟨t, ht, rfl, hseq, hpending, htier⟩ := hswept'.queued hdistinct hpassed hag hrunning
  -- a worker of the row's tier ends what it has in hand, and then finds the row in the queue
  obtain ⟨p, hpool⟩ := hpools t.tier htier
  obtain ⟨y, vs, ready, hrest, hidle, hagents, htasks, hdue, hclosed⟩ :=
    becomes_ready cfg flags policy tick.now hswept'.running p
  have hqueued : ready.db.task t.id = some t := by rwa [Db.task, htasks]
  have hclaimable : claimable ready.db (cfg.poolTier p) y t = true := by
    have hag' : ready.db.agent t.agentId = some ag := by rwa [Db.agent, hagents]
    simp [claimable, hag', hpending, hpool, hrunning, hseq, hdue t (Table.mem_of_get? hqueued)]
  obtain ⟨task, r, claimed, hclaim, hholding, htasktier, hr, hrclaimable⟩ :=
    exists_claim hidle hqueued hclaimable hclosed
  have hready' := hpassed.append hrest.run
  have hclaimed : SysRun cfg _ claimed := hready'.snoc hclaim
  have hprice : (cfg.ladder.costOf task.tier).isSome = true := by
    rw [htasktier, hpool]
    exact costOf_isSome htier
  obtain ⟨ws, s', hlast, hresolved⟩ := hholding.resolves flags y hpolicy hprice hclaimed
  have hclaiming : Stretch cfg flags policy y ready _ y claimed :=
    .single hclaim (Or.inr (Or.inl ⟨p, y, rfl⟩)) fun _ hnow => by cases hnow; rfl
  have hbefore := hpass'.append hrest
  refine ⟨y, _, s', (hbefore.append hclaiming).append hlast, Or.inr ?_⟩
  -- the agent was there before the round, and its row had an outcome in it
  obtain ⟨t₁, ht₁, -, hleased⟩ := hholding.leased
  obtain ⟨t₂, _, _, ht₂, -, -, -, -, hended⟩ := hresolved
  obtain ⟨w, w', hw, hwrunning, hw', hlt⟩ := outcomes_lt_of_ended hdistinct hclaimed ht₁ hleased
    hlast.run ht₂ (Or.imp And.left And.left hended)
  have hback := (hbefore.append hclaiming).noneRevived
  obtain ⟨ag₀, hag₀, -⟩ := hback _ _ (Db.view_eq_some.1 hw).1 hwrunning
  obtain ⟨v, hv, -⟩ := Db.view_of_agent hag₀
  obtain ⟨w₀, hw₀, hpath, -⟩ :=
    SysRun.remaining_run hdistinct h hv (hbefore.append hclaiming).run
  rw [hw, Option.some.injEq] at hw₀
  subst hw₀
  exact ⟨t₁.agentId, v, w', hv, hw', Nat.lt_of_le_of_lt hpath.outcomes_le hlt⟩

def Db.remaining (ladder : Ladder) (agentIds : List Uuid) (db : Db) : Nat :=
  (agentIds.map fun a => ((db.view a).map (AgentView.remaining ladder)).getD 0).sum

end Rounds

end ReliableAgents
