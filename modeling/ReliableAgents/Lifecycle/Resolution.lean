import ReliableAgents.Effects.ActionText
import ReliableAgents.Lifecycle.LiveLadder
import ReliableAgents.Deployment

/-!
# Every exit of `process_one`

A call of `process_one` from its claim to its end, with every other process at work in
between. It ends in a checkpoint, in a report, without a write once the lease is lost, or
with an exception that is not a `TaskFailure`.
-/

namespace ReliableAgents

open Relational

/-! ## What a task can do to its worker -/

/-- The outcome leaves a result that JSONB holds, or a failure that can be reported. -/
def RunOutcome.recordable (task : Handout) : RunOutcome → Bool
  | .returned (.dict (.json _)) => true
  | .returned (.dict .unstorable) => false
  | .returned (.other typeName) => (notADict task typeName).report?.isSome
  | .raised failure => failure.report?.isSome
  | .crashed typeName message => (crashFailure typeName message).report?.isSome

/-- In a step of worker `p`: the ledger does not answer that the action is in flight, the task
ends recordably, and the worker's copy of the ladder prices the row's tier where `cost_of`
asks for it. -/
def Action.wellBehaved (cfg : Config) (ladder : Ladder) (p : Nat) (task : Handout) (db : Db)
    (phase : Phase) : Action → Bool
  | .begin q _ => q ≠ p || !task.inFlight cfg.sha256 db
  | .run q outcome =>
      q ≠ p || (outcome.recordable task &&
        match phase, outcome with
        | .running _ _ _ none, .returned (.dict _) => (ladder.costOf task.tier).isSome
        | _, _ => true)
  | .settle q _ =>
      q ≠ p ||
        match phase with
        | .settling _ _ _ (.json _) => (ladder.costOf task.tier).isSome
        | _ => true
  | _ => true

/-- While the database is available, a worker that stays alive leaves `process_one` by no
other exceptions than the executor's own. -/
def Action.available (p : Nat) : Action → Bool
  | .crash q | .abandon q => q ≠ p
  | _ => true

/-! ## A call -/

def Leased (workerId : WorkerId) (taskId : Uuid) (db : Db) : Prop :=
  ∃ t, db.task taskId = some t ∧ t.leaseOwner = some workerId ∧ t.status = .running

/-- The row has succeeded or failed, and the newest attempt says so for this handout. -/
def Resolved (workerId : WorkerId) (task : Handout) (db : Db) : Prop :=
  ∃ t rows row, db.task task.id = some t ∧ db.attempts = rows ++ [row] ∧
    row.taskInstanceId = task.id ∧ row.attemptNo = task.attempt ∧
    row.workerId = some workerId ∧
    (t.status = .succeeded ∧ row.outcome = .succeeded ∨
      t.status = .failed ∧ t.failureClass ≠ none ∧ row.outcome = .failed ∧
        row.failureClass = t.failureClass)

namespace Live

def phase (s : Live) (p : Nat) : Phase := (s.sys.workers p).phase

/-- Every step of the call is well behaved. -/
def WellBehaved (cfg : Config) (p : Nat) (task : Handout) (ts : List LiveTransition) : Prop :=
  ∀ t ∈ ts, ∀ q a, t.action = .act q a →
    a.wellBehaved cfg (t.before.view (.worker p)) p task t.before.sys.db (t.before.phase p)

end Live

/-! ## What a worker is about to write -/

def Phase.recordable : Phase → Bool
  | .settling _ _ _ result => result ≠ .unstorable
  | .finished _ _ result _ _ _ => result ≠ .unstorable
  | .committing _ _ result _ _ => result ≠ .unstorable
  | _ => true

theorem startTask_recordable (registry : Int → Option TaskDef) (task : Handout) (started : Time)
    (db : Db) : (startTask registry task started db).recordable = true := by
  unfold startTask
  split
  · rfl
  · split
    · rfl
    · dsimp only
      split <;> rfl

theorem beginAction_recordable {sha256 : String → ActionId} {task : Handout} {started : Time}
    {ctx : TaskContext} {now : Time} {db : Db} :
    (beginAction sha256 task started ctx now db).1.recordable = true := by
  unfold beginAction
  split
  · rfl
  · split <;> rfl

theorem failTask_busy {task : Handout} {started : Time} {failure : TaskFailure}
    (h : failTask task started failure ≠ .idle) :
    (failTask task started failure).recordable = true ∧ failure.report?.isSome = true := by
  unfold failTask at h ⊢
  split
  · rename_i hnone
    rw [hnone] at h
    exact absurd rfl h
  · rename_i report hreport
    exact ⟨rfl, by rw [hreport]; rfl⟩

theorem failTask_idle {task : Handout} {started : Time} {failure : TaskFailure}
    (h : failTask task started failure = .idle) : failure.report?.isSome = false := by
  unfold failTask at h
  split at h
  · rename_i hnone
    rw [hnone]
    rfl
  · cases h

/-! ## One step of a call -/

section Step

variable {cfg : Config} {s s' : Sys} {a : Action} {p : Nat} {task : Handout}

theorem step_other (h : step cfg s a = some s') (ha : a.process 0 ≠ .worker p) :
    s'.workers p = s.workers p := by
  have moved : ∀ {q : Nat} {w : Worker} {t : Sys}, t.workers = s.workers →
      Process.worker q ≠ .worker p → (t.setWorker q w).workers p = s.workers p := by
    intro q w t hworkers hq
    rw [Sys.setWorker_workers, if_neg fun heq : p = q => hq (heq ▸ rfl), hworkers]
  cases a with
  | claim q now started locked =>
      simp only [step] at h
      split at h
      · cases h
        unfold claimTask
        split
        · rfl
        · exact moved rfl ha
      · cases h
  | load q =>
      simp only [step] at h
      split at h
      · cases h
        exact moved rfl ha
      · cases h
  | begin q now =>
      simp only [step] at h
      split at h
      · cases h
        exact moved rfl ha
      · cases h
  | run q outcome =>
      obtain ⟨_, _, _, _, -, rfl⟩ := step_run h
      exact moved rfl ha
  | settle q now =>
      obtain ⟨_, _, _, _, -, rfl⟩ := step_settling h
      exact moved rfl ha
  | confirm q =>
      simp only [step] at h
      split at h
      · split at h
        · cases h
          exact moved rfl ha
        · cases h
          exact moved rfl ha
      · cases h
  | checkpoint q now =>
      simp only [step] at h
      split at h
      · split at h
        · cases h
          exact moved rfl ha
        · cases h
          exact moved rfl ha
      · cases h
  | report q now =>
      simp only [step] at h
      split at h
      · cases h
        exact moved rfl ha
      · cases h
  | heartbeat q now =>
      simp only [step] at h
      split at h
      · split at h
        · cases h
        · cases h
          exact moved rfl ha
      · cases h
  | straggle q taskId now =>
      simp only [step] at h
      split at h
      · cases h
        rfl
      · cases h
  | join q taskId =>
      rw [step_join h]
      exact moved rfl ha
  | abandon q =>
      cases h
      exact moved rfl ha
  | crash q =>
      cases h
      exact moved rfl ha
  | submit forceTier plan agentIds ids now =>
      simp only [step] at h
      split at h <;> cases h <;> rfl
  | reap | repair | finalise | classify | reconcile | seed | ledger =>
      cases h
      rfl

theorem afterRun_recordable {ladder : Ladder} {started : Time} {ctx : TaskContext}
    {key : Option ActionId} {outcome : RunOutcome} {db : Db} {a : Action}
    (ha : a = .run p outcome) (hbusy : afterRun ladder task started key outcome ≠ .idle) :
    (afterRun ladder task started key outcome).recordable =
      a.wellBehaved cfg ladder p task db (.running task started ctx key) := by
  subst ha
  have hfails : ∀ {failure : TaskFailure}, failTask task started failure ≠ .idle →
      (failTask task started failure).recordable = failure.report?.isSome := fun h => by
    rw [(failTask_busy h).1, (failTask_busy h).2]
  cases outcome with
  | raised failure =>
      rw [afterRun, hfails hbusy]
      simp [Action.wellBehaved, RunOutcome.recordable]
  | crashed typeName message =>
      rw [afterRun, hfails hbusy]
      simp [Action.wellBehaved, RunOutcome.recordable]
  | returned value =>
      cases value with
      | other typeName =>
          rw [afterRun, hfails hbusy]
          simp [Action.wellBehaved, RunOutcome.recordable]
      | dict result =>
          cases key with
          | some key =>
              cases result <;>
                simp [afterRun, Phase.recordable, Action.wellBehaved, RunOutcome.recordable]
          | none =>
              simp only [afterRun, finishTask] at hbusy ⊢
              cases hprice : ladder.costOf task.tier with
              | none =>
                  rw [hprice] at hbusy
                  exact absurd rfl hbusy
              | some price =>
                  cases result <;>
                    simp [Phase.recordable, Action.wellBehaved, RunOutcome.recordable, hprice]

theorem settleAction_recordable {ladder : Ladder} {started now : Time} {key : ActionId}
    {result : PyDict} {db : Db} {a : Action} (ha : a = .settle p now)
    (hbusy : (settleAction ladder task started key result now db).1 ≠ .idle) :
    (settleAction ladder task started key result now db).1.recordable = true ∧
      result ≠ .unstorable ∧
      a.wellBehaved cfg ladder p task db (.settling task started key result) = true := by
  subst ha
  cases result with
  | unstorable => exact absurd rfl hbusy
  | json fields =>
      simp only [settleAction, Ledger.settle, finishTask] at hbusy ⊢
      cases hprice : ladder.costOf task.tier with
      | none =>
          rw [hprice] at hbusy
          exact absurd rfl hbusy
      | some price => simp [Phase.recordable, Action.wellBehaved, hprice]

/-- Only a run and a settlement decide what is to be written. -/
theorem PhaseStep.recordable {db db' : Db} {phase phase' : Phase}
    (h : PhaseStep cfg db db' p a phase phase') (hbusy : phase' ≠ .idle)
    (hrun : ∀ outcome, a ≠ .run p outcome) (hsettle : ∀ now, a ≠ .settle p now) :
    phase'.recordable = phase.recordable := by
  cases h with
  | claim => rfl
  | load => exact startTask_recordable ..
  | begin hbegin =>
      rename_i task started now ctx
      have hrecordable := @beginAction_recordable cfg.sha256 task started ctx now db
      rw [hbegin] at hrecordable
      exact hrecordable
  | run => exact absurd rfl (hrun _)
  | settle => exact absurd rfl (hsettle _)
  | confirm => rfl
  | stop => exact absurd rfl hbusy

theorem wellBehaved_of_other {ladder : Ladder} {db : Db} {phase : Phase}
    (ha : a.process 0 ≠ .worker p) : a.wellBehaved cfg ladder p task db phase = true := by
  cases a with
  | begin q | run q | settle q =>
      have hne : q ≠ p := fun heq => ha (heq ▸ rfl)
      simp [Action.wellBehaved, hne]
  | _ => rfl

/-- While the call goes on, the worker has the same task in hand, and what it is about to
write can be written exactly if its steps so far were well behaved. -/
theorem step_recordable (h : step cfg s a = some s')
    (htask : (s.workers p).phase.task? = some task) (hbusy : (s'.workers p).phase ≠ .idle) :
    (s'.workers p).phase.task? = some task ∧
      ((s'.workers p).phase.recordable = true ↔ (s.workers p).phase.recordable = true ∧
        a.wellBehaved cfg cfg.ladder p task s.db (s.workers p).phase = true) := by
  have hheld : (s'.workers p).phase.task? = some task := by
    cases hphase : (s'.workers p).phase.task? with
    | none =>
        refine absurd ?_ hbusy
        cases hp : (s'.workers p).phase <;> simp_all [Phase.task?]
    | some task' =>
        rcases step_held h hphase with hsame | ⟨now, started, locked, rfl, -⟩
        · rw [htask] at hsame
          exact hsame.symm
        · simp only [step] at h
          split at h
          · rename_i hidle
            rw [hidle] at htask
            cases htask
          · cases h
  refine ⟨hheld, ?_⟩
  by_cases hown : a.process 0 = .worker p
  · cases a with
    | begin q now =>
        cases hown
        simp only [step] at h
        split at h
        · rename_i held started ctx hphase
          cases h
          rw [Sys.setPhase_workers, if_pos rfl] at hbusy ⊢
          rw [hphase] at htask ⊢
          cases htask
          have hfree : task.inFlight cfg.sha256 s.db ≠ true := fun hin =>
            hbusy (beginAction_idle.2 hin)
          exact iff_of_true beginAction_recordable ⟨rfl, by simp [Action.wellBehaved, hfree]⟩
        · cases h
    | run q outcome =>
        cases hown
        obtain ⟨held, started, ctx, key, hphase, rfl⟩ := step_run h
        rw [Sys.setPhase_workers, if_pos rfl] at hbusy ⊢
        rw [hphase] at htask ⊢
        cases htask
        have hrecordable := @afterRun_recordable cfg p task cfg.ladder started ctx key outcome s.db _
          rfl hbusy
        rw [hrecordable]
        exact (and_iff_right rfl).symm
    | settle q now =>
        cases hown
        obtain ⟨held, started, key, result, hphase, rfl⟩ := step_settling h
        rw [Sys.setPhase_workers, if_pos rfl] at hbusy ⊢
        rw [hphase] at htask ⊢
        cases htask
        obtain ⟨hrecordable, hresult, hbehaved⟩ := settleAction_recordable rfl hbusy
        exact ⟨fun _ => ⟨decide_eq_true hresult, hbehaved⟩, fun _ => hrecordable⟩
    | abandon q =>
        cases hown
        cases h
        rw [Sys.setPhase_workers, if_pos rfl] at hbusy
        exact absurd rfl hbusy
    | _ =>
        refine Iff.trans ?_ (and_iff_left rfl).symm
        rcases step_phase h p with hsame | hstep
        · rw [hsame]
        · rw [hstep.recordable hbusy (fun _ heq => by cases heq) fun _ heq => by cases heq]
  · rw [step_other h hown]
    exact (and_iff_left (wellBehaved_of_other hown)).symm

theorem Leased.count_ne_zero {workerId : WorkerId} {taskId : Uuid} {db : Db}
    (h : Leased workerId taskId db) :
    db.taskInstances.count (leasedBy taskId workerId) ≠ 0 := by
  obtain ⟨t, ht, howner, hrunning⟩ := h
  intro hzero
  have hfalse := leasedBy_count_eq_zero hzero t (Table.mem_of_get? ht)
  rw [leasedBy_iff.2 ⟨Db.id_of_task ht, howner, hrunning⟩] at hfalse
  cases hfalse

/-- A heartbeat that finds no row is the only thing that sets `lost`. -/
theorem step_lost (h : step cfg s a = some s') (htask : (s.workers p).phase.task? = some task)
    (hleased : Leased (cfg.workerId p) task.id s.db) (hlost : (s.workers p).lost = false) :
    (s'.workers p).lost = false := by
  have kept : ∀ {q : Nat} {phase : Phase} {t : Sys}, t.workers = s.workers →
      ((t.setPhase q phase).workers p).lost = false := by
    intro q phase t hworkers
    rw [Sys.setPhase_workers]
    split
    · rename_i heq
      rw [← heq, hworkers]
      exact hlost
    · rw [hworkers]
      exact hlost
  by_cases hown : a.process 0 = .worker p
  · cases a with
    | claim q now started locked =>
        simp only [step] at h
        split at h
        · cases hown
          rename_i hidle
          rw [hidle] at htask
          cases htask
        · cases h
    | heartbeat q now =>
        cases hown
        simp only [step] at h
        rw [htask] at h
        dsimp only at h
        rw [hlost] at h
        cases h
        rw [beat, Sys.setWorker_workers, if_pos rfl]
        exact decide_eq_false hleased.count_ne_zero
    | crash q =>
        cases hown
        cases h
        rw [Sys.setWorker_workers, if_pos rfl]
    | join q taskId =>
        rw [step_join h, Sys.setHeartbeats_worker]
        exact hlost
    | abandon q =>
        cases h
        exact kept rfl
    | run q outcome =>
        obtain ⟨_, _, _, _, -, rfl⟩ := step_run h
        exact kept rfl
    | settle q now =>
        obtain ⟨_, _, _, _, -, rfl⟩ := step_settling h
        exact kept rfl
    | load | begin | report =>
        simp only [step] at h
        split at h
        · cases h
          exact kept rfl
        · cases h
    | confirm | checkpoint =>
        simp only [step] at h
        split at h
        · split at h
          · cases h
            exact kept rfl
          · cases h
            exact kept rfl
        · cases h
    | straggle q taskId now =>
        simp only [step] at h
        split at h
        · cases h
          exact hlost
        · cases h
    | _ => cases hown
  · rw [step_other h hown]
    exact hlost

/-! ## The last step -/

variable {db db' : Db} {workerId : WorkerId}

theorem Leased.not_resolved (h : Leased workerId task.id db)
    (hsame : db'.task task.id = db.task task.id) : ¬ Resolved workerId task db' := by
  obtain ⟨t, ht, -, hrunning⟩ := h
  rintro ⟨u, -, -, hu, -, -, -, -, ⟨hstatus, -⟩ | ⟨hstatus, -⟩⟩
  all_goals
    rw [hsame, ht] at hu
    rw [← Option.some.inj hu, hrunning] at hstatus
    cases hstatus

theorem resolved_of_checkpoint (fields : JsonObject) (cost tokens : Int) (started now : Time)
    (hleased : Leased workerId task.id db)
    (hagent : ∃ ag, db.agent task.agentId = some ag ∧ ag.cursor = task.seq) :
    ∃ db', checkpointSuccess task (.json fields) cost tokens started workerId now db =
      some (db', true) ∧ Resolved workerId task db' := by
  have hcount := hleased.count_ne_zero
  obtain ⟨ag, hag, hcursor⟩ := hagent
  have hadvance : db.agents.count (fun a => a.id = task.agentId && a.cursor = task.seq) ≠ 0 := by
    refine (List.countP_pos_iff.2 ⟨ag, Table.mem_of_get? hag, ?_⟩).ne'
    simp [Db.id_of_agent hag, hcursor]
  have hadvanced : ∃ advanced, advanceAgentSql task.agentId task.seq fields cost tokens now
      (markSucceededSql fields task.id workerId now db).1 = some advanced := by
    unfold advanceAgentSql
    split
    · rename_i hzero
      exact absurd hzero hadvance
    · exact ⟨_, rfl⟩
  obtain ⟨db', hcommit⟩ : ∃ db', checkpointSuccess task (.json fields) cost tokens started workerId
      now db = some (db', true) := by
    obtain ⟨advanced, hadvanced⟩ := hadvanced
    unfold checkpointSuccess
    dsimp only
    split
    · rename_i hzero
      exact absurd hzero hcount
    · rw [hadvanced]
      exact ⟨_, rfl⟩
  refine ⟨db', hcommit, ?_⟩
  rcases checkpointSuccess_spec hcommit with
    ⟨hfalse, -⟩ | ⟨fields', t, -, -, -, ht, howner, hrunning, -, -, rfl⟩
  · cases hfalse
  · have htask : (db.taskInstances.update (leasedBy task.id workerId)
        (TaskInstance.markedSucceeded fields' now)).get? task.id =
          some (t.markedSucceeded fields' now) := by
      rw [get?_update_leasedBy ht howner hrunning, if_pos rfl]
    exact ⟨_, _, _, htask, rfl, rfl, rfl, rfl, Or.inl ⟨rfl, rfl⟩⟩

theorem resolved_of_report {failure : FailureReport} {started now : Time}
    (hleased : Leased workerId task.id db) :
    Resolved workerId task (reportFailure task failure started workerId now db).1 := by
  have hcount := hleased.count_ne_zero
  rcases hreport : reportFailure task failure started workerId now db with ⟨db', ok⟩
  rcases reportFailure_spec hreport with ⟨hfalse, -⟩ | ⟨t, -, ht, howner, hrunning, hdb⟩
  · simp [reportFailure, reportFailureSql, hcount, hfalse] at hreport
  · rw [hdb]
    have htask : (db.taskInstances.update (leasedBy task.id workerId)
        (TaskInstance.reportedFailed failure now)).get? task.id =
          some (t.reportedFailed failure now) := by
      rw [get?_update_leasedBy ht howner hrunning, if_pos rfl]
    refine ⟨_, _, _, htask, rfl, rfl, rfl, rfl, Or.inr ⟨rfl, ?_, rfl, rfl⟩⟩
    intro hnone
    cases hnone

theorem not_wellBehaved_of_afterRun (cfg : Config) (p : Nat) (db : Db) (ctx : TaskContext)
    {ladder : Ladder} {started : Time} {key : Option ActionId} {outcome : RunOutcome}
    (hidle : afterRun ladder task started key outcome = .idle) :
    (Action.run p outcome).wellBehaved cfg ladder p task db (.running task started ctx key) =
      false := by
  cases outcome with
  | raised | crashed => simp [Action.wellBehaved, RunOutcome.recordable, failTask_idle hidle]
  | returned value =>
      cases value with
      | other => simp [Action.wellBehaved, RunOutcome.recordable, failTask_idle hidle]
      | dict result =>
          cases key with
          | some key => cases hidle
          | none =>
              simp only [afterRun, finishTask] at hidle
              cases hprice : ladder.costOf task.tier with
              | none => simp [Action.wellBehaved, hprice]
              | some price =>
                  rw [hprice] at hidle
                  cases hidle

theorem not_wellBehaved_of_settleAction (cfg : Config) (p : Nat) {ladder : Ladder}
    {started now : Time} {key : ActionId} {result : PyDict} (hresult : result ≠ .unstorable)
    (hidle : (settleAction ladder task started key result now db).1 = .idle) :
    (Action.settle p now).wellBehaved cfg ladder p task db (.settling task started key result) =
      false := by
  cases result with
  | unstorable => exact absurd rfl hresult
  | json fields =>
      simp only [settleAction, Ledger.settle, finishTask] at hidle
      cases hprice : ladder.costOf task.tier with
      | none => simp [Action.wellBehaved, hprice]
      | some price =>
          rw [hprice] at hidle
          cases hidle

theorem settleAction_task (ladder : Ladder) (task : Handout) (started : Time) (key : ActionId)
    (result : PyDict) (now : Time) (db : Db) (k : Uuid) :
    (settleAction ladder task started key result now db).2.task k = db.task k := by
  cases result <;> rfl

/-- The last step of a call whose lease held all along: the task is resolved exactly if what
the worker was about to write can be written and the step is well behaved. -/
theorem step_exit (h : step cfg s a = some s') (hcursor : (Lossy.mk s []).Orderly)
    (htask : (s.workers p).phase.task? = some task) (hidle : (s'.workers p).phase = .idle)
    (havailable : a.available p = true)
    (hleased : Leased (cfg.workerId p) task.id s.db) (hlost : (s.workers p).lost = false) :
    Resolved (cfg.workerId p) task s'.db ↔ (s.workers p).phase.recordable = true ∧
      a.wellBehaved cfg cfg.ladder p task s.db (s.workers p).phase = true := by
  have hown : a.process 0 = .worker p := by
    by_contra hother
    rw [step_other h hother] at hidle
    rw [hidle] at htask
    cases htask
  have hagent : ∃ ag, s.db.agent task.agentId = some ag ∧ ag.cursor = task.seq := by
    obtain ⟨t, ht, -, hrunning⟩ := hleased
    rcases hcursor.held p task htask with hnone | ⟨u, hu, hagent, hseq⟩
    · cases hnone
    · rw [show s.db.task task.id = some t from ht, Option.some.injEq] at hu
      obtain ⟨ag, hag, hat⟩ := hcursor.cursor.active task.id t ht (Or.inl hrunning)
      rw [← hu] at hagent hseq
      exact ⟨ag, hagent ▸ hag, hat.trans hseq⟩
  have hunresolved : ∀ {db' : Db}, db'.task task.id = s.db.task task.id →
      ¬ Resolved (cfg.workerId p) task db' := fun hsame => hleased.not_resolved hsame
  cases a with
  | claim q now started locked =>
      simp only [step] at h
      split at h
      · cases hown
        rename_i hfree
        rw [hfree] at htask
        cases htask
      · cases h
  | load q =>
      cases hown
      simp only [step] at h
      split at h
      · cases h
        rw [Sys.setPhase_workers, if_pos rfl] at hidle
        have hheld := startTask_task? cfg.registry ‹Handout› ‹Time› s.db
        rw [show startTask cfg.registry _ _ s.db = .idle from hidle] at hheld
        cases hheld
      · cases h
  | begin q now =>
      cases hown
      simp only [step] at h
      split at h
      · cases h
        rename_i held started ctx hphase
        rw [Sys.setPhase_workers, if_pos rfl] at hidle
        rw [hphase] at htask ⊢
        cases htask
        have hinFlight := beginAction_idle.1 hidle
        refine iff_of_false (hunresolved ?_) fun hbehaved => ?_
        · obtain ⟨table, htable⟩ := beginAction_db cfg.sha256 task started ctx now s.db
          rw [Sys.setPhase_db, Sys.setDb_db, htable]
          rfl
        · simp [Action.wellBehaved, hinFlight] at hbehaved
      · cases h
  | run q outcome =>
      cases hown
      obtain ⟨held, started, ctx, key, hphase, rfl⟩ := step_run h
      rw [Sys.setPhase_workers, if_pos rfl] at hidle
      rw [hphase] at htask ⊢
      cases htask
      refine iff_of_false (hunresolved rfl) fun hbehaved => ?_
      have hfalse := not_wellBehaved_of_afterRun cfg p s.db ctx hidle
      rw [hbehaved.2] at hfalse
      cases hfalse
  | settle q now =>
      cases hown
      obtain ⟨held, started, key, result, hphase, rfl⟩ := step_settling h
      rw [Sys.setPhase_workers, if_pos rfl] at hidle
      rw [hphase] at htask ⊢
      cases htask
      refine iff_of_false (hunresolved (settleAction_task ..)) fun hbehaved => ?_
      have hfalse :=
        not_wellBehaved_of_settleAction cfg p (of_decide_eq_true hbehaved.1) hidle
      rw [hbehaved.2] at hfalse
      cases hfalse
  | confirm q =>
      cases hown
      simp only [step] at h
      split at h
      · rw [if_neg (by simp [hlost])] at h
        cases h
        rw [Sys.setPhase_workers, if_pos rfl] at hidle
        cases hidle
      · cases h
  | checkpoint q now =>
      cases hown
      simp only [step] at h
      split at h
      · rename_i held started result cost tokens hphase
        rw [hphase] at htask ⊢
        cases htask
        cases result with
        | unstorable =>
            cases h
            exact iff_of_false (hunresolved rfl) (by simp [Phase.recordable])
        | json fields =>
            obtain ⟨db', hcommit, hresolved⟩ :=
              resolved_of_checkpoint fields cost tokens started now hleased hagent
            rw [hcommit] at h
            cases h
            exact iff_of_true hresolved ⟨rfl, rfl⟩
      · cases h
  | report q now =>
      cases hown
      simp only [step] at h
      split at h
      · rename_i held started failure hphase
        cases h
        rw [hphase] at htask ⊢
        cases htask
        exact iff_of_true (resolved_of_report hleased) ⟨rfl, rfl⟩
      · cases h
  | heartbeat q now =>
      cases hown
      simp only [step] at h
      rw [htask] at h
      dsimp only at h
      rw [hlost] at h
      cases h
      rw [beat, Sys.setWorker_workers, if_pos rfl] at hidle
      rw [show (s.workers p).phase = .idle from hidle] at htask
      cases htask
  | straggle q taskId now =>
      simp only [step] at h
      split at h
      · cases h
        rw [show (s.workers p).phase = .idle from hidle] at htask
        cases htask
      · cases h
  | join q taskId =>
      rw [step_join h, Sys.setHeartbeats_worker] at hidle
      rw [show (s.workers p).phase = .idle from hidle] at htask
      cases htask
  | abandon q | crash q =>
      cases hown
      simp [Action.available] at havailable
  | _ => cases hown

end Step

/-! ## The whole call -/

namespace Live

variable {cfg : Config} {p : Nat} {task : Handout} {s s' : Live} {ts : List LiveTransition}

/-- The copy of the ladder that decides is the worker's own. -/
theorem wellBehaved_view (s : Live) (q : Nat) (a : Action) (db : Db) (phase : Phase) :
    a.wellBehaved cfg (s.view (a.process q)) p task db phase =
      a.wellBehaved cfg (s.view (.worker p)) p task db phase := by
  by_cases hown : a.process 0 = .worker p
  · have hprocess : a.process q = .worker p := by
      cases a <;> first | exact hown | cases hown
    rw [hprocess]
  · rw [wellBehaved_of_other hown, wellBehaved_of_other hown]

/-- A live step is one of the system, or leaves the workers alone. -/
theorem step_cases {act : LiveAction} (h : Live.step cfg s act = some s') :
    (∃ q a, act = .act q a ∧
      ReliableAgents.step { cfg with ladder := s.view (a.process q) } s.sys a = some s'.sys) ∨
    s'.sys.workers = s.sys.workers ∧ ∀ q a, act = .act q a → a.process 0 = .service 0 := by
  cases act with
  | act q a =>
      have hstep := (Live.step_act h).1
      by_cases hinserts : a.inserts = true
      · right
        have hprocess : a.process 0 = .service 0 := by
          cases a <;> first | rfl | cases hinserts
        refine ⟨?_, fun q' a' heq => ?_⟩
        · funext p
          have hother : ∀ {ladder : Ladder} {a' : Action}, a'.process 0 = .service 0 →
              ReliableAgents.step { cfg with ladder := ladder } s.sys a' = some s'.sys →
                s'.sys.workers p = s.sys.workers p :=
            fun hservice hstep' => step_other hstep' fun hworker => by
              rw [hservice] at hworker
              cases hworker
          cases a with
          | submit forceTier plan agentIds ids now =>
              simp only [stepUnder] at hstep
              split at hstep
              · rw [← Option.some.inj hstep]
              · exact hother rfl hstep
          | seed plan agentIds ids now =>
              have hseed : ReliableAgents.step { cfg with ladder := s.tiers } s.sys
                  (.seed plan agentIds ids now) = some s'.sys := hstep
              exact hother rfl hseed
          | _ => cases hinserts
        · cases heq
          exact hprocess
      · left
        rw [stepUnder_eq (by simpa using hinserts)] at hstep
        exact ⟨q, a, rfl, hstep⟩
  | insert tier rerank =>
      simp only [Live.step] at h
      split at h
      · cases h
      · cases h
        exact .inr ⟨rfl, fun _ _ heq => by cases heq⟩
  | allTiers | invalidate =>
      cases h
      exact .inr ⟨rfl, fun _ _ heq => by cases heq⟩

theorem wellBehaved_append {us vs : List LiveTransition} :
    WellBehaved cfg p task (us ++ vs) ↔ WellBehaved cfg p task us ∧ WellBehaved cfg p task vs := by
  simp only [WellBehaved, List.mem_append, or_imp, forall_and]

theorem wellBehaved_singleton {act : LiveAction} :
    WellBehaved cfg p task [⟨s, act, s'⟩] ↔ ∀ q a, act = .act q a →
      a.wellBehaved cfg (s.view (.worker p)) p task s.sys.db (s.phase p) = true := by
  simp [WellBehaved]

/-- What holds while a call that keeps its lease goes on. -/
structure Ongoing (cfg : Config) (p : Nat) (task : Handout) (ts : List LiveTransition) (s : Live) :
    Prop where
  held : (s.phase p).task? = some task
  lost : (s.sys.workers p).lost = false
  recordable : (s.phase p).recordable = true ↔ WellBehaved cfg p task ts

theorem Ongoing.step {act : LiveAction} (hI : Ongoing cfg p task ts s)
    (h : Live.step cfg s act = some s') (hbusy : s'.phase p ≠ .idle)
    (hleased : Leased (cfg.workerId p) task.id s.sys.db) :
    Ongoing cfg p task (ts ++ [⟨s, act, s'⟩]) s' := by
  rcases step_cases h with ⟨q, a, rfl, hstep⟩ | ⟨hworkers, hother⟩
  · obtain ⟨hheld, hrecordable⟩ := step_recordable hstep hI.held hbusy
    refine ⟨hheld, step_lost hstep hI.held hleased hI.lost, ?_⟩
    rw [wellBehaved_append, wellBehaved_singleton, ← hI.recordable]
    refine hrecordable.trans (and_congr_right fun _ => ?_)
    dsimp only
    rw [wellBehaved_view]
    constructor
    · intro hbehaved q' a' heq
      cases heq
      exact hbehaved
    · intro hbehaved
      exact hbehaved q a rfl
  · have hphase : s'.phase p = s.phase p := by rw [Live.phase, hworkers, Live.phase]
    refine ⟨hphase ▸ hI.held, by rw [hworkers]; exact hI.lost, ?_⟩
    rw [hphase, wellBehaved_append, wellBehaved_singleton, ← hI.recordable]
    refine (and_iff_left fun q a heq => ?_).symm
    refine wellBehaved_of_other ?_
    rw [hother q a heq]
    intro hnone
    cases hnone

def submitted : Live := (Live.ran oneHost [.act 0 (submitPlan [1])]).2

end Live

end ReliableAgents
