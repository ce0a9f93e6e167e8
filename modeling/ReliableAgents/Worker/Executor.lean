import ReliableAgents.Common.Tiers
import ReliableAgents.Orchestrator.Ledger
import ReliableAgents.Worker.Lease

/-!
# One task, step by step

`process_one` of `worker/main.py` and `run_task` of `worker/executor.py`, cut at
every point where another process can act. A phase is what the worker's locals
hold between two such points. An exception that is not a `TaskFailure` leaves
`process_one` without a write, so it leads back to `idle`.
-/

namespace ReliableAgents

inductive Phase where
  | idle
  | claimed (task : Handout) (started : Time)
  | reserving (task : Handout) (started : Time) (ctx : TaskContext)
  | running (task : Handout) (started : Time) (ctx : TaskContext) (actionKey : Option ActionId)
  | settling (task : Handout) (started : Time) (actionKey : ActionId) (result : PyDict)
  | finished (task : Handout) (started : Time) (result : PyDict) (cost tokens : Int)
      (duplicate : Bool)
  | committing (task : Handout) (started : Time) (result : PyDict) (cost tokens : Int)
  | failing (task : Handout) (started : Time) (failure : FailureReport)
deriving DecidableEq, Repr

namespace Phase

def task? : Phase → Option Handout
  | .idle => none
  | .claimed task _ => some task
  | .reserving task _ _ => some task
  | .running task _ _ _ => some task
  | .settling task _ _ _ => some task
  | .finished task _ _ _ _ _ => some task
  | .committing task _ _ _ _ => some task
  | .failing task _ _ => some task

end Phase

/-- The action type `run_task` reserves under. -/
def Handout.actionType (task : Handout) : String := "task:" ++ toString task.taskDefId

def idemKey (sha256 : String → ActionId) (agentId : String) (seq : Int) (actionType : String) :
    ActionId :=
  Ledger.actionId sha256 agentId seq actionType

/-- The fields of a `TaskContext` that `key_for` reads. -/
structure KeyContext where
  agentId : String
  seq : Int
  idemKey : Option (String → ActionId) := none

/-- `TaskContext.key_for`. -/
def KeyContext.keyFor (sha256 : String → ActionId) (ctx : KeyContext) (actionType : String) :
    ActionId :=
  match ctx.idemKey with
  | some injected => injected actionType
  | none => sha256 (ctx.agentId ++ ":" ++ toString ctx.seq ++ ":" ++ actionType)

/-- The context `run_task` hands to the task, with the `idem_key` it injects. -/
def TaskContext.keyed (sha256 : String → ActionId) (ctx : TaskContext) : KeyContext where
  agentId := ctx.agentId.str
  seq := ctx.seq
  idemKey := some fun action => idemKey sha256 ctx.agentId.str ctx.seq action

/-- `load_agent`, and `run_task` up to the ledger. -/
def startTask (registry : Int → Option TaskDef) (task : Handout) (started : Time) (db : Db) :
    Phase :=
  match db.agent task.agentId with
  | none => .failing task started ⟨.poison, "agent row vanished"⟩
  | some agent =>
      match registry task.taskDefId with
      | none =>
          .failing task started
            ⟨.poison, "task_def_id " ++ toString task.taskDefId ++ " not in registry"⟩
      | some taskDef =>
          let ctx : TaskContext :=
            { agentId := task.agentId
              seq := task.seq
              tier := task.tier
              prior := agent.context }
          if taskDef.sideEffecting then .reserving task started ctx
          else .running task started ctx none

/-- A reservation of the task's action is in flight. -/
def Handout.inFlight (sha256 : String → ActionId) (task : Handout) (db : Db) : Bool :=
  (db.reservation (Ledger.actionId sha256 task.agentId.str task.seq task.actionType)).any
    fun r => r.state = .inFlight

/-- The ledger guard of `run_task`. While a twin holds the reservation its `raise InfraFailure`
is an `UnboundLocalError`: the import in the `except` clause further down makes the name local
to the function. -/
def beginAction (sha256 : String → ActionId) (task : Handout) (started : Time) (ctx : TaskContext)
    (now : Time) (db : Db) : Phase × Db :=
  match Ledger.begin sha256 task.agentId task.seq task.actionType now db with
  | none => (.idle, db)
  | some (status, stored, key, db') =>
      match status with
      | .proceed => (.running task started ctx (some key), db')
      | .done => (.finished task started (.json (stored.getD .nil)) 0 0 true, db')
      | .inFlight => (.idle, db')

/-- The end of `run_task`: `cost_of` raises on a tier that is not on the ladder. -/
def finishTask (ladder : Ladder) (task : Handout) (started : Time) (result : PyDict) : Phase :=
  match ladder.costOf task.tier with
  | none => .idle
  | some price => .finished task started result price.1 price.2 false

/-- A `TaskFailure` reaches the handler of `process_one`. One that cannot be reported leaves
the handler as another exception, before anything is written. -/
def failTask (task : Handout) (started : Time) (failure : TaskFailure) : Phase :=
  match failure.report? with
  | none => .idle
  | some report => .failing task started report

/-- The `InfraFailure` that stands for any other exception; `str` of that one may raise. -/
def crashFailure (typeName : String) (message : Option String) : TaskFailure where
  failureClass := some .infra
  detail := message.map fun text => typeName ++ ": " ++ text

/-- The `PoisonFailure` for a result that is no dict. -/
def notADict (task : Handout) (typeName : String) : TaskFailure where
  failureClass := some .poison
  detail :=
    some ("task " ++ toString task.taskDefId ++ " returned " ++ typeName ++ ", expected dict")

/-- What `run_task` makes of the way `task_def.run` ended. -/
def afterRun (ladder : Ladder) (task : Handout) (started : Time) (actionKey : Option ActionId) :
    RunOutcome → Phase
  | .raised failure => failTask task started failure
  | .crashed typeName message => failTask task started (crashFailure typeName message)
  | .returned (.other typeName) => failTask task started (notADict task typeName)
  | .returned (.dict result) =>
      match actionKey with
      | some key => .settling task started key result
      | none => finishTask ladder task started result

/-- `ledger.settle`, whose answer `run_task` does not read. -/
def settleAction (ladder : Ladder) (task : Handout) (started : Time) (actionKey : ActionId)
    (result : PyDict) (now : Time) (db : Db) : Phase × Db :=
  match Ledger.settle actionKey result now db with
  | none => (.idle, db)
  | some settled => (finishTask ladder task started result, settled.1)

/-- One worker process: `process_one`'s locals, its heartbeat's `lost` flag, and the
tasks whose heartbeat threads may still be renewing. -/
structure Worker where
  phase : Phase := .idle
  lost : Bool := false
  heartbeats : List Uuid := []
deriving DecidableEq, Repr

/-! ## The task in hand never changes -/

theorem startTask_task? (registry : Int → Option TaskDef) (task : Handout) (started : Time)
    (db : Db) : (startTask registry task started db).task? = some task := by
  unfold startTask
  split
  · rfl
  · split
    · rfl
    · dsimp only
      split <;> rfl

theorem finishTask_task? {ladder : Ladder} {task held : Handout} {started : Time} {result : PyDict}
    (h : (finishTask ladder task started result).task? = some held) : held = task := by
  unfold finishTask at h
  split at h
  · cases h
  · exact (Option.some.inj h).symm

/-- What holds of an idle worker and of every report holds after any `TaskFailure`. -/
theorem failTask_of {P : Phase → Prop} {task : Handout} {started : Time} {failure : TaskFailure}
    (hidle : P .idle) (hreport : ∀ report, failure.report? = some report →
      P (.failing task started report)) : P (failTask task started failure) := by
  unfold failTask
  split
  · exact hidle
  · exact hreport _ ‹_›

theorem failTask_task? {task held : Handout} {started : Time} {failure : TaskFailure}
    (h : (failTask task started failure).task? = some held) : held = task := by
  revert h
  exact failTask_of (P := fun phase => phase.task? = some held → held = task) nofun
    fun _ _ h => (Option.some.inj h).symm

theorem beginAction_task? {sha256 : String → ActionId} {task held : Handout} {started : Time}
    {ctx : TaskContext} {now : Time} {db : Db}
    (h : (beginAction sha256 task started ctx now db).1.task? = some held) : held = task := by
  unfold beginAction at h
  split at h
  · cases h
  · split at h
    · exact (Option.some.inj h).symm
    · exact (Option.some.inj h).symm
    · cases h

theorem afterRun_task? {ladder : Ladder} {task held : Handout} {started : Time}
    {actionKey : Option ActionId} {outcome : RunOutcome}
    (h : (afterRun ladder task started actionKey outcome).task? = some held) : held = task := by
  unfold afterRun at h
  split at h
  · exact failTask_task? h
  · exact failTask_task? h
  · exact failTask_task? h
  · split at h
    · exact (Option.some.inj h).symm
    · exact finishTask_task? h

theorem settleAction_task? {ladder : Ladder} {task held : Handout} {started : Time}
    {actionKey : ActionId} {result : PyDict} {now : Time} {db : Db}
    (h : (settleAction ladder task started actionKey result now db).1.task? = some held) :
    held = task := by
  unfold settleAction at h
  split at h
  · cases h
  · exact finishTask_task? h

/-! ## What the executor writes -/

/-- The two ledger calls of `run_task` write the ledger only. -/
theorem beginAction_db (sha256 : String → ActionId) (task : Handout) (started : Time)
    (ctx : TaskContext) (now : Time) (db : Db) :
    ∃ table, (beginAction sha256 task started ctx now db).2 = { db with idempotency := table } := by
  unfold beginAction
  cases hbegin : Ledger.begin sha256 task.agentId task.seq task.actionType now db with
  | none => exact ⟨db.idempotency, rfl⟩
  | some answer =>
      obtain ⟨status, stored, key, db'⟩ := answer
      have hwrites : ∃ table, db' = { db with idempotency := table } := by
        obtain ⟨-, ⟨-, -, -, table, heq, -⟩ | ⟨heq, -⟩⟩ := Ledger.begin_spec hbegin
        · exact ⟨table, heq⟩
        · exact ⟨db.idempotency, heq⟩
      cases status <;> exact hwrites

/-- The guard ends the call exactly if the action is in flight. -/
theorem beginAction_idle {sha256 : String → ActionId} {task : Handout} {started : Time}
    {ctx : TaskContext} {now : Time} {db : Db} :
    (beginAction sha256 task started ctx now db).1 = .idle ↔ task.inFlight sha256 db = true := by
  unfold beginAction Handout.inFlight
  cases hbegin : Ledger.begin sha256 task.agentId task.seq task.actionType now db with
  | none => exact absurd hbegin Ledger.begin_ne_none
  | some answer =>
      obtain ⟨status, stored, key, db'⟩ := answer
      obtain ⟨rfl, ⟨rfl, -, hnone, -⟩ |
        ⟨-, row, hrow, ⟨rfl, hstate, -⟩ | ⟨rfl, hstate, -⟩⟩⟩ := Ledger.begin_spec hbegin
      · simp [hnone]
      · simp [hrow, hstate]
      · simp [hrow, hstate]

theorem settleAction_db (ladder : Ladder) (task : Handout) (started : Time) (actionKey : ActionId)
    (result : PyDict) (now : Time) (db : Db) :
    ∃ table, (settleAction ladder task started actionKey result now db).2 =
      { db with idempotency := table } := by
  unfold settleAction
  cases hsettle : Ledger.settle actionKey result now db with
  | none => exact ⟨db.idempotency, rfl⟩
  | some answer =>
      obtain ⟨db', ok⟩ := answer
      obtain ⟨-, -, -, hwrites, -⟩ := Ledger.settle_spec hsettle
      exact hwrites

end ReliableAgents
