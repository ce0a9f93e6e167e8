import ReliableAgents.Db.Schema
import Mathlib.Tactic.Simps.Basic

/-!
# The worker's statements

`worker/claim.py`, `worker/heartbeat.py` and the two transactions of
`worker/main.py`. A statement's parameters come first and the database last;
`now` is the transaction's `now()`, and `locked` holds of the rows that another
transaction has locked, which `SKIP LOCKED` steps past.
-/

namespace ReliableAgents

open Relational

/-! ## Claiming -/

/-- The columns `CLAIM_SQL` returns: what a worker knows of the task it holds. -/
structure Handout where
  id : Uuid
  agentId : Uuid
  seq : Nat
  taskDefId : Int
  tier : TierName
  attempt : Nat
  maxAttemptsPerTier : Int
  leaseExpires : Option Time
deriving DecidableEq, Repr

@[simps] def TaskInstance.handout (t : TaskInstance) : Handout where
  id := t.id
  agentId := t.agentId
  seq := t.seq
  taskDefId := t.taskDefId
  tier := t.tier
  attempt := t.attempt
  maxAttemptsPerTier := t.maxAttemptsPerTier
  leaseExpires := t.leaseExpires

/-- The `WHERE` of the claim's subquery, joined to `agents`. -/
def claimable (db : Db) (poolTier : TierName) (now : Time) (t : TaskInstance) : Bool :=
  match db.agent t.agentId with
  | none => false
  | some a =>
      t.status = .pending && t.nextRunAt ≤ now && t.tier = poolTier &&
        a.status = .running && t.seq = a.cursor

@[simps] def TaskInstance.claimed (workerId : WorkerId) (ttl : Int) (now : Time)
    (t : TaskInstance) : TaskInstance :=
  { t with
    status := .running
    leaseOwner := some workerId
    leaseExpires := some (now + seconds ttl)
    attempt := t.attempt + 1
    updatedAt := now }

/-- `claim_one`: `CLAIM_SQL`, or `None` when nothing is runnable. -/
def claimOne (poolTier : TierName) (workerId : WorkerId) (ttlSeconds : Int) (now : Time)
    (locked : Uuid → Bool) (db : Db) : Option (Handout × Db) :=
  let runnable := db.taskInstances.select fun t => claimable db poolTier now t && !locked t.id
  match orderedBatch TaskInstance.nextRunAt 1 runnable with
  | [] => none
  | t :: _ =>
      some
        ((t.claimed workerId ttlSeconds now).handout,
          { db with
            taskInstances :=
              db.taskInstances.update (fun r => r.id = t.id)
                (TaskInstance.claimed workerId ttlSeconds now) })

/-! ## The lease fence -/

/-- `id = task_id AND lease_owner = worker_id AND status = 'running'`. -/
def leasedBy (taskId : Uuid) (workerId : WorkerId) (t : TaskInstance) : Bool :=
  t.id = taskId && t.leaseOwner = some workerId && t.status = .running

@[simps] def TaskInstance.renewed (ttl : Int) (now : Time) (t : TaskInstance) : TaskInstance :=
  { t with
    leaseExpires := some (now + seconds ttl)
    updatedAt := now }

/-- `RENEW_SQL`, with its row count. -/
def renewSql (taskId : Uuid) (workerId : WorkerId) (ttl : Int) (now : Time) (db : Db) : Db × Nat :=
  ({ db with
      taskInstances :=
        db.taskInstances.update (leasedBy taskId workerId) (TaskInstance.renewed ttl now) },
    db.taskInstances.count (leasedBy taskId workerId))

@[simps] def TaskInstance.markedSucceeded (result : JsonObject) (now : Time) (t : TaskInstance) :
    TaskInstance :=
  { t with
    status := .succeeded
    result := some result
    failureClass := none
    lastError := none
    updatedAt := now }

def markSucceededSql (result : JsonObject) (taskId : Uuid) (workerId : WorkerId) (now : Time)
    (db : Db) : Db × Nat :=
  ({ db with
      taskInstances :=
        db.taskInstances.update (leasedBy taskId workerId)
          (TaskInstance.markedSucceeded result now) },
    db.taskInstances.count (leasedBy taskId workerId))

@[simps] def TaskInstance.reportedFailed (failure : FailureReport) (now : Time) (t : TaskInstance) :
    TaskInstance :=
  { t with
    status := .failed
    failureClass := some failure.failureClass
    lastError := some (sliceTo 2000 failure.detail)
    updatedAt := now }

def reportFailureSql (failure : FailureReport) (taskId : Uuid) (workerId : WorkerId) (now : Time)
    (db : Db) : Db × Nat :=
  ({ db with
      taskInstances :=
        db.taskInstances.update (leasedBy taskId workerId)
          (TaskInstance.reportedFailed failure now) },
    db.taskInstances.count (leasedBy taskId workerId))

/-! ## The agent row and the evidence -/

@[simps] def Agent.advanced (seq : Nat) (result : JsonObject) (cost tokens : Int) (now : Time)
    (a : Agent) : Agent :=
  { a with
    context := a.context.merge seq result
    cursor := a.cursor + 1
    costUnits := a.costUnits + cost
    tokensUsed := a.tokensUsed + tokens
    status := if a.cursor + 1 ≥ a.plan.length then .completed else a.status
    updatedAt := now }

/-- `ADVANCE_AGENT_SQL`: `none` when `fetchone` finds no row. -/
def advanceAgentSql (agentId : Uuid) (seq : Nat) (result : JsonObject) (cost tokens : Int)
    (now : Time) (db : Db) : Option Db :=
  if db.agents.count (fun a => a.id = agentId && a.cursor = seq) = 0 then none
  else
    some
      { db with
        agents :=
          db.agents.update (fun a => a.id = agentId && a.cursor = seq)
            (Agent.advanced seq result cost tokens now) }

/-- The row `RECORD_ATTEMPT_SQL` inserts for a handout. -/
def Handout.attemptRow (task : Handout) (workerId : WorkerId) (outcome : Outcome)
    (failureClass : Option FailureClass) (cost tokens : Int) (started now : Time) : Attempt where
  taskInstanceId := task.id
  agentId := task.agentId
  seq := task.seq
  attemptNo := task.attempt
  tier := task.tier
  workerId := some workerId
  outcome := outcome
  failureClass := failureClass
  costUnits := cost
  tokens := tokens
  startedAt := started
  endedAt := some now

def recordAttemptSql (row : Attempt) (db : Db) : Db := { db with attempts := db.attempts ++ [row] }

/-- `checkpoint_success`: `none` when adapting the result to JSONB raises; otherwise
the committed database and whether the lease was still held. -/
def checkpointSuccess (task : Handout) (result : PyDict) (cost tokens : Int) (started : Time)
    (workerId : WorkerId) (now : Time) (db : Db) : Option (Db × Bool) :=
  match result with
  | .unstorable => none
  | .json fields =>
      let marked := markSucceededSql fields task.id workerId now db
      if marked.2 = 0 then some (db, false)
      else
        match advanceAgentSql task.agentId task.seq fields cost tokens now marked.1 with
        | none => some (db, false)
        | some advanced =>
            some
              (recordAttemptSql
                  (task.attemptRow workerId .succeeded none cost tokens started now) advanced,
                true)

/-- `report_failure`, with whether the report was recorded. -/
def reportFailure (task : Handout) (failure : FailureReport) (started : Time) (workerId : WorkerId)
    (now : Time) (db : Db) : Db × Bool :=
  let reported := reportFailureSql failure task.id workerId now db
  if reported.2 = 0 then (db, false)
  else
    (recordAttemptSql
        (task.attemptRow workerId .failed (some failure.failureClass) 0 0 started now)
        reported.1,
      true)

/-! ## What each statement does -/

theorem mem_orderedBatch_one {rows : List TaskInstance} {t : TaskInstance}
    {rest : List TaskInstance}
    (h : orderedBatch TaskInstance.nextRunAt 1 rows = t :: rest) : t ∈ rows :=
  mem_of_mem_orderedBatch (h ▸ List.mem_cons_self)

theorem claimable_spec {db : Db} {poolTier : TierName} {now : Time} {t : TaskInstance}
    (h : claimable db poolTier now t = true) :
    ∃ a, db.agent t.agentId = some a ∧ t.status = .pending ∧ t.nextRunAt ≤ now ∧
      t.tier = poolTier ∧ a.status = .running ∧ t.seq = a.cursor := by
  unfold claimable at h
  cases ha : db.agent t.agentId with
  | none => simp [ha] at h
  | some a =>
      simp only [ha, Bool.and_eq_true, decide_eq_true_eq] at h
      exact ⟨a, rfl, h.1.1.1.1, h.1.1.1.2, h.1.1.2, h.1.2, h.2⟩

/-- A claim takes one claimable row and leaves everything else alone. -/
theorem claimOne_spec {poolTier : TierName} {workerId : WorkerId} {ttl : Int} {now : Time}
    {locked : Uuid → Bool} {db db' : Db} {task : Handout}
    (h : claimOne poolTier workerId ttl now locked db = some (task, db')) :
    ∃ t, db.task t.id = some t ∧ claimable db poolTier now t = true ∧
      task = (t.claimed workerId ttl now).handout ∧
      db' = { db with
        taskInstances :=
          db.taskInstances.update (fun r => r.id = t.id)
            (TaskInstance.claimed workerId ttl now) } := by
  unfold claimOne at h
  dsimp only at h
  split at h
  · cases h
  · rename_i t rest hbatch
    obtain ⟨hget, hp⟩ := Table.mem_select.1 (mem_orderedBatch_one hbatch)
    simp only [Bool.and_eq_true] at hp
    simp only [Option.some.injEq, Prod.mk.injEq] at h
    exact ⟨t, hget, hp.1, h.1.symm, h.2.symm⟩

/-- The row a claim handed out is the one it returned; the others are as they were. -/
theorem claimOne_task {poolTier : TierName} {workerId : WorkerId} {ttl : Int} {now : Time}
    {locked : Uuid → Bool} {db db' : Db} {task : Handout}
    (h : claimOne poolTier workerId ttl now locked db = some (task, db')) :
    ∃ t, db.task task.id = some t ∧ t.status = .pending ∧
      task = (t.claimed workerId ttl now).handout ∧
      ∀ k, db'.task k = if k = task.id then some (t.claimed workerId ttl now) else db.task k := by
  obtain ⟨t, ht, hclaimable, rfl, rfl⟩ := claimOne_spec h
  obtain ⟨-, -, hpending, -⟩ := claimable_spec hclaimable
  refine ⟨t, ht, hpending, rfl, fun k => ?_⟩
  simp only [Db.task]
  exact Table.get?_update_one ht (decide_eq_true rfl) (fun _ hr => of_decide_eq_true hr) k

theorem leasedBy_iff {taskId : Uuid} {workerId : WorkerId} {t : TaskInstance} :
    leasedBy taskId workerId t = true ↔
      t.id = taskId ∧ t.leaseOwner = some workerId ∧ t.status = .running := by
  simp [leasedBy, and_assoc]

theorem leasedBy_count_ne_zero {db : Db} {taskId : Uuid} {workerId : WorkerId}
    (h : db.taskInstances.count (leasedBy taskId workerId) ≠ 0) :
    ∃ t, db.task taskId = some t ∧ t.leaseOwner = some workerId ∧ t.status = .running := by
  obtain ⟨t, hmem, hp⟩ := List.countP_pos_iff.1 (Nat.pos_of_ne_zero h)
  obtain ⟨hid, howner, hstatus⟩ := leasedBy_iff.1 hp
  exact ⟨t, hid ▸ Table.get?_of_mem _ hmem, howner, hstatus⟩

theorem leasedBy_count_eq_zero {db : Db} {taskId : Uuid} {workerId : WorkerId}
    (h : db.taskInstances.count (leasedBy taskId workerId) = 0) :
    ∀ t ∈ db.taskInstances.rows, leasedBy taskId workerId t = false := by
  intro t ht
  simpa using List.countP_eq_zero.1 h t ht

theorem get?_update_leasedBy {db : Db} {taskId : Uuid} {workerId : WorkerId} {t : TaskInstance}
    {f : TaskInstance → TaskInstance} {hkey : ∀ t, (f t).id = t.id}
    {huniq : ∀ t, (f t).position = t.position} (ht : db.task taskId = some t)
    (howner : t.leaseOwner = some workerId) (hrunning : t.status = .running) (k : Uuid) :
    (db.taskInstances.update (leasedBy taskId workerId) f hkey huniq).get? k =
      if k = taskId then some (f t) else db.task k :=
  Table.get?_update_one ht (leasedBy_iff.2 ⟨Table.key_of_get? ht, howner, hrunning⟩)
    (fun _ hr => (leasedBy_iff.1 hr).1) k

/-- A renewal that updates no row changes nothing; otherwise it extends the lease of
the one row its worker holds. -/
theorem renewSql_spec (taskId : Uuid) (workerId : WorkerId) (ttl : Int) (now : Time) (db : Db) :
    ((renewSql taskId workerId ttl now db).2 = 0 ∧ (renewSql taskId workerId ttl now db).1 = db) ∨
      ∃ t, db.task taskId = some t ∧ t.leaseOwner = some workerId ∧ t.status = .running := by
  by_cases hcount : db.taskInstances.count (leasedBy taskId workerId) = 0
  · left
    refine ⟨hcount, ?_⟩
    rw [renewSql, Table.update_eq_self (leasedBy_count_eq_zero hcount)]
  · exact Or.inr (leasedBy_count_ne_zero hcount)

theorem advanceAgentSql_spec {agentId : Uuid} {seq : Nat} {result : JsonObject} {cost tokens : Int}
    {now : Time} {db db' : Db}
    (h : advanceAgentSql agentId seq result cost tokens now db = some db') :
    ∃ a, db.agent agentId = some a ∧ a.cursor = seq ∧
      db' = { db with
        agents :=
          db.agents.update (fun a => a.id = agentId && a.cursor = seq)
            (Agent.advanced seq result cost tokens now) } := by
  unfold advanceAgentSql at h
  split at h
  · cases h
  · rename_i hcount
    obtain ⟨a, hmem, hp⟩ := List.countP_pos_iff.1 (Nat.pos_of_ne_zero hcount)
    simp only [Bool.and_eq_true, decide_eq_true_eq] at hp
    exact ⟨a, hp.1 ▸ Table.get?_of_mem _ hmem, hp.2, (Option.some.inj h).symm⟩

/-- A checkpoint either rolls back, or commits the row, the agent and the evidence together. -/
theorem checkpointSuccess_spec {task : Handout} {result : PyDict} {cost tokens : Int}
    {started : Time} {workerId : WorkerId} {now : Time} {db db' : Db} {ok : Bool}
    (h : checkpointSuccess task result cost tokens started workerId now db = some (db', ok)) :
    (ok = false ∧ db' = db) ∨
      ∃ fields t a, ok = true ∧ result = .json fields ∧ db.task task.id = some t ∧
        t.leaseOwner = some workerId ∧ t.status = .running ∧
        db.agent task.agentId = some a ∧ a.cursor = task.seq ∧
        db' = { db with
          taskInstances :=
            db.taskInstances.update (leasedBy task.id workerId)
              (TaskInstance.markedSucceeded fields now)
          agents :=
            db.agents.update (fun a => a.id = task.agentId && a.cursor = task.seq)
              (Agent.advanced task.seq fields cost tokens now)
          attempts :=
            db.attempts ++
              [task.attemptRow workerId .succeeded none cost tokens started now] } := by
  cases result with
  | unstorable => cases h
  | json fields =>
      unfold checkpointSuccess at h
      dsimp only at h
      split at h
      · simp only [Option.some.injEq, Prod.mk.injEq] at h
        exact Or.inl ⟨h.2.symm, h.1.symm⟩
      · rename_i hcount
        obtain ⟨t, ht, howner, hstatus⟩ := leasedBy_count_ne_zero hcount
        split at h
        · simp only [Option.some.injEq, Prod.mk.injEq] at h
          exact Or.inl ⟨h.2.symm, h.1.symm⟩
        · rename_i advanced hadv
          obtain ⟨a, ha, hcursor, rfl⟩ := advanceAgentSql_spec hadv
          simp only [Option.some.injEq, Prod.mk.injEq] at h
          exact Or.inr ⟨fields, t, a, h.2.symm, rfl, ht, howner, hstatus, ha, hcursor, h.1.symm⟩

theorem reportFailure_spec {task : Handout} {failure : FailureReport} {started : Time}
    {workerId : WorkerId} {now : Time} {db db' : Db} {ok : Bool}
    (h : reportFailure task failure started workerId now db = (db', ok)) :
    (ok = false ∧ db' = db) ∨
      ∃ t, ok = true ∧ db.task task.id = some t ∧ t.leaseOwner = some workerId ∧
        t.status = .running ∧
        db' = { db with
          taskInstances :=
            db.taskInstances.update (leasedBy task.id workerId)
              (TaskInstance.reportedFailed failure now)
          attempts :=
            db.attempts ++
              [task.attemptRow workerId .failed (some failure.failureClass) 0 0 started now] } := by
  unfold reportFailure at h
  dsimp only at h
  split at h
  · simp only [Prod.mk.injEq] at h
    exact Or.inl ⟨h.2.symm, h.1.symm⟩
  · rename_i hcount
    obtain ⟨t, ht, howner, hstatus⟩ := leasedBy_count_ne_zero hcount
    simp only [Prod.mk.injEq] at h
    exact Or.inr ⟨t, h.2.symm, ht, howner, hstatus, h.1.symm⟩

end ReliableAgents
