import ReliableAgents.System

/-!
# The worker as an automaton

`process_one` of one worker, seen from the system: what one action makes of the
phase of the worker that performs it, and of the database it performs it on.
Every fact about what a worker holds starts from `step_phase`.
-/

namespace ReliableAgents

inductive PhaseStep (cfg : Config) (db db' : Db) (p : Nat) : Action → Phase → Phase → Prop where
  | claim {now started : Time} {locked : Uuid → Bool} {task : Handout} :
      claimOne (cfg.poolTier p) (cfg.workerId p) cfg.leaseTtlSeconds now locked db =
        some (task, db') →
      PhaseStep cfg db db' p (.claim p now started locked) .idle (.claimed task started)
  | load {task : Handout} {started : Time} :
      PhaseStep cfg db db' p (.load p) (.claimed task started)
        (startTask cfg.registry task started db)
  | begin {task : Handout} {started now : Time} {ctx : TaskContext} {phase : Phase} :
      beginAction cfg.sha256 task started ctx now db = (phase, db') →
      PhaseStep cfg db db' p (.begin p now) (.reserving task started ctx) phase
  | run {task : Handout} {started : Time} {ctx : TaskContext} {actionKey : Option ActionId}
      {outcome : RunOutcome} :
      PhaseStep cfg db db' p (.run p outcome) (.running task started ctx actionKey)
        (afterRun cfg.ladder task started actionKey outcome)
  | settle {task : Handout} {started now : Time} {actionKey : ActionId} {result : PyDict}
      {phase : Phase} :
      settleAction cfg.ladder task started actionKey result now db = (phase, db') →
      PhaseStep cfg db db' p (.settle p now) (.settling task started actionKey result) phase
  | confirm {task : Handout} {started : Time} {result : PyDict} {cost tokens : Int}
      {duplicate : Bool} :
      PhaseStep cfg db db' p (.confirm p) (.finished task started result cost tokens duplicate)
        (.committing task started result cost tokens)
  | stop {a : Action} {phase : Phase} : PhaseStep cfg db db' p a phase .idle

section Phases

variable {cfg : Config} {s s' : Sys} {a : Action} {p : Nat}

/-- A step leaves a worker's phase alone, or is a step of that worker. -/
theorem step_phase (h : step cfg s a = some s') (p : Nat) :
    (s'.workers p).phase = (s.workers p).phase ∨
      PhaseStep cfg s.db s'.db p a (s.workers p).phase (s'.workers p).phase := by
  have moved : ∀ {q : Nat} {phase : Phase} {t : Sys}, t.workers = s.workers →
      (p = q → PhaseStep cfg s.db t.db q a (s.workers q).phase phase) →
      ((t.setPhase q phase).workers p).phase = (s.workers p).phase ∨
        PhaseStep cfg s.db (t.setPhase q phase).db p a (s.workers p).phase
          ((t.setPhase q phase).workers p).phase := by
    intro q phase t hworkers hphase
    rw [Sys.setPhase_workers]
    by_cases heq : p = q
    · rw [if_pos heq]
      right
      subst heq
      exact hphase rfl
    · rw [if_neg heq, hworkers]
      exact Or.inl rfl
  cases a with
  | claim q now started locked =>
      simp only [step] at h
      split at h
      · rename_i hidle
        cases h
        unfold claimTask
        split
        · exact Or.inl rfl
        · rename_i claimed hclaim
          rw [Sys.setWorker_workers]
          by_cases heq : p = q
          · subst heq
            rw [if_pos rfl, hidle]
            exact Or.inr (.claim hclaim)
          · rw [if_neg heq]
            exact Or.inl rfl
      · cases h
  | load q =>
      simp only [step] at h
      split at h
      · rename_i task started hphase
        cases h
        exact moved rfl fun _ => hphase ▸ .load
      · cases h
  | begin q now =>
      simp only [step] at h
      split at h
      · rename_i task started ctx hphase
        cases h
        exact moved rfl fun _ => hphase ▸ .begin rfl
      · cases h
  | run q outcome =>
      simp only [step] at h
      split at h
      · rename_i task started ctx actionKey hphase
        cases h
        exact moved rfl fun _ => hphase ▸ .run
      · cases h
  | settle q now =>
      simp only [step] at h
      split at h
      · rename_i task started actionKey result hphase
        cases h
        exact moved rfl fun _ => hphase ▸ .settle rfl
      · cases h
  | confirm q =>
      simp only [step] at h
      split at h
      · rename_i task started result cost tokens duplicate hphase
        split at h
        · cases h
          exact moved rfl fun _ => .stop
        · cases h
          exact moved rfl fun _ => hphase ▸ .confirm
      · cases h
  | checkpoint q now =>
      simp only [step] at h
      split at h
      · split at h
        · cases h
          exact moved rfl fun _ => .stop
        · cases h
          exact moved rfl fun _ => .stop
      · cases h
  | report q now =>
      simp only [step] at h
      split at h
      · cases h
        exact moved rfl fun _ => .stop
      · cases h
  | heartbeat q now =>
      simp only [step] at h
      split at h
      · split at h
        · cases h
        · cases h
          unfold beat
          rw [Sys.setWorker_workers]
          left
          split
          · rename_i heq
            rw [heq]
          · rfl
      · cases h
  | straggle q taskId now =>
      simp only [step] at h
      split at h
      · cases h
        exact Or.inl rfl
      · cases h
  | join q taskId =>
      rw [step_join h, Sys.setHeartbeats_worker]
      exact Or.inl rfl
  | abandon q =>
      cases h
      exact moved rfl fun _ => .stop
  | crash q =>
      cases h
      rw [Sys.setWorker_workers]
      split
      · exact Or.inr .stop
      · exact Or.inl rfl
  | submit forceTier plan agentIds ids now =>
      simp only [step] at h
      split at h <;> cases h <;> exact Or.inl rfl
  | reap | repair | finalise | classify | reconcile | seed | ledger =>
      cases h
      exact Or.inl rfl

theorem step_run {outcome : RunOutcome} (h : step cfg s (.run p outcome) = some s') :
    ∃ task started ctx key, (s.workers p).phase = .running task started ctx key ∧
      s' = s.setPhase p (afterRun cfg.ladder task started key outcome) := by
  simp only [step] at h
  split at h
  · rename_i task started ctx key hphase
    exact ⟨task, started, ctx, key, hphase, (Option.some.inj h).symm⟩
  · cases h

theorem step_settling {now : Time} (h : step cfg s (.settle p now) = some s') :
    ∃ task started key result, (s.workers p).phase = .settling task started key result ∧
      s' = (s.setDb (settleAction cfg.ladder task started key result now s.db).2).setPhase p
        (settleAction cfg.ladder task started key result now s.db).1 := by
  simp only [step] at h
  split at h
  · rename_i task started key result hphase
    exact ⟨task, started, key, result, hphase, (Option.some.inj h).symm⟩
  · cases h

/-- A worker's task in hand comes from its own claim. -/
theorem step_held (h : step cfg s a = some s') {p : Nat} {task : Handout}
    (hheld : (s'.workers p).phase.task? = some task) :
    (s.workers p).phase.task? = some task ∨
      ∃ now started locked, a = .claim p now started locked ∧
        claimOne (cfg.poolTier p) (cfg.workerId p) cfg.leaseTtlSeconds now locked s.db =
          some (task, s'.db) := by
  rcases step_phase h p with hsame | hstep
  · exact Or.inl (hsame ▸ hheld)
  · generalize (s.workers p).phase = before at hstep ⊢
    generalize (s'.workers p).phase = after at hstep hheld
    cases hstep with
    | @claim now started locked held hclaim =>
        cases hheld
        exact Or.inr ⟨now, started, locked, rfl, hclaim⟩
    | load =>
        rw [startTask_task?] at hheld
        exact Or.inl hheld
    | begin hbegin =>
        rw [show after = _ from (congrArg Prod.fst hbegin).symm] at hheld
        exact Or.inl (beginAction_task? hheld ▸ rfl)
    | run => exact Or.inl (afterRun_task? hheld ▸ rfl)
    | settle hsettle =>
        rw [show after = _ from (congrArg Prod.fst hsettle).symm] at hheld
        exact Or.inl (settleAction_task? hheld ▸ rfl)
    | confirm => exact Or.inl hheld
    | stop => cases hheld

end Phases

end ReliableAgents
