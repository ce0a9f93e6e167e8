import ReliableAgents.Orchestrator.Classify

/-!
# Decisions and their statements

`route_one` in two halves: the decision, which reads the captured row and the
evidence, and the statements that carry it out. What the statements will write is
known once the decision is made, so a transaction can hold it until it commits.
-/

namespace ReliableAgents

open Relational

inductive Decision where
  | retry
  | promote (tier : TierName)
  | dlq (reason : String)
deriving DecidableEq, Repr

/-- The branches of `route_one`, on the evidence of the captured row. -/
def decision (ladder : Ladder) (flags : Flags) (task : TaskInstance) (evidence : List Attempt) :
    Decision :=
  let fc := task.failureClass.getD .infra
  let spent := budgets task.tier evidence
  if fc = .poison then .dlq "poison -- no tier can fix this"
  else if task.attempt ≥ maxTotalAttempts then
    .dlq ("handed to a worker " ++ toString task.attempt ++ "x without completing")
  else if !flags.retriesEnabled then .dlq "retries disabled"
  else if fc = .infra then
    if spent.infra ≥ maxInfraAttempts then .dlq ("infra failed " ++ toString spent.infra ++ "x")
    else .retry
  else if (spent.capability : Int) < task.maxAttemptsPerTier then .retry
  else if !flags.escalationEnabled then .dlq "escalation disabled -- would have promoted"
  else
    match flags.forceTier with
    | some pinned => .dlq ("tier pinned to " ++ pinned ++ " -- cannot escalate")
    | none =>
        match ladder.nextTier task.tier with
        | none => .dlq ("capability exhausted at top tier " ++ task.tier)
        | some tier => .promote tier

/-- `route_one` gets to `next_tier`: the budget is used up, escalation is on and no tier is
pinned. -/
def escalates (flags : Flags) (task : TaskInstance) (evidence : List Attempt) : Bool :=
  task.failureClass = some .capability && task.attempt < maxTotalAttempts &&
    flags.retriesEnabled &&
      task.maxAttemptsPerTier ≤ ((budgets task.tier evidence).capability : Int) &&
        flags.escalationEnabled && flags.forceTier = none

theorem decision_of_escalates {ladder : Ladder} {flags : Flags} {task : TaskInstance}
    {evidence : List Attempt} (h : escalates flags task evidence = true) :
    decision ladder flags task evidence =
      match ladder.nextTier task.tier with
      | none => .dlq ("capability exhausted at top tier " ++ task.tier)
      | some tier => .promote tier := by
  simp only [escalates, Bool.and_eq_true, decide_eq_true_eq] at h
  obtain ⟨⟨⟨⟨⟨hclass, hattempt⟩, hretries⟩, hspent⟩, hescalation⟩, hpin⟩ := h
  have hattempt' : ¬ task.attempt ≥ maxTotalAttempts := by omega
  have hspent' : ¬ ((budgets task.tier evidence).capability : Int) < task.maxAttemptsPerTier := by
    omega
  simp [decision, hclass, hattempt', hretries, hspent', hescalation, hpin]

theorem TaskInstance.cancelled_position (reason : String) (now : Time) (t : TaskInstance) :
    (t.cancelled reason now).position = t.position :=
  rfl

/-- What the statements of one decision write. -/
inductive Write where
  | retry (task : TaskInstance) (now : Time)
  | promote (task : TaskInstance) (tier : TierName) (now : Time)
  /-- The row, its dead letter, the agent, and the rows queued behind it. -/
  | kill (task : TaskInstance) (entry : DlqEntry) (siblings : List Uuid) (cancelReason : String)
      (now : Time)

namespace Write

def task : Write → TaskInstance
  | .retry task _ => task
  | .promote task _ _ => task
  | .kill task _ _ _ _ => task

def routed : Write → Routed
  | .retry _ _ => .retry
  | .promote _ _ _ => .promote
  | .kill _ _ _ _ _ => .dlq

def siblings : Write → List Uuid
  | .kill _ _ siblings _ _ => siblings
  | _ => []

def agent? : Write → Option Uuid
  | .kill task _ _ _ _ => some task.agentId
  | _ => none

def perform (db : Db) : Write → Db
  | .retry task now => retrySql task.id (backoffSeconds task.attempt) now db
  | .promote task tier now => promoteSql task.id tier now db
  | .kill task entry siblings cancelReason now =>
      let db := failAgentSql task.agentId now (killSql task.id now db)
      { db with
        taskInstances :=
          db.taskInstances.update (fun t => queuedSibling task.agentId t && t.id ∈ siblings)
            (TaskInstance.cancelled cancelReason now) (TaskInstance.cancelled_id cancelReason now)
            (TaskInstance.cancelled_position cancelReason now)
        dlq := db.dlq ++ [entry] }

end Write

def deadLetter (task : TaskInstance) (failureClass : FailureClass) (reason : String)
    (evidence : List Attempt) (now : Time) : DlqEntry where
  agentId := task.agentId
  seq := task.seq
  taskDefId := task.taskDefId
  failureClass := failureClass
  lastError := sliceTo 2000 (reason ++ ": " ++ task.lastError.getD "")
  attemptTrail := evidence.map Attempt.trailEntry
  createdAt := now

/-- The ids `CANCEL_SIBLINGS_SQL` returns, were it run now. -/
def queuedSiblings (agentId : Uuid) (db : Db) : List Uuid :=
  (db.taskInstances.select (queuedSibling agentId)).map TaskInstance.id

/-- `route_one` up to its writes: `none` when `DLQ_SQL` raises. -/
def routeWrite (ladder : Ladder) (flags : Flags) (now : Time) (task : TaskInstance) (db : Db) :
    Option Write :=
  match decision ladder flags task (db.evidence task.id) with
  | .retry => some (.retry task now)
  | .promote tier => some (.promote task tier now)
  | .dlq reason =>
      task.failureClass.map fun failureClass =>
        .kill task (deadLetter task failureClass reason (db.evidence task.id) now)
          (queuedSiblings task.agentId db)
          (sliceTo 2000 ("agent failed at seq " ++ toString task.seq ++ ": " ++ reason)) now

/-- Carry out a decision. -/
def Decision.perform (now : Time) (task : TaskInstance) (db : Db) :
    Decision → Option (Routed × Db)
  | .retry => some (.retry, retrySql task.id (backoffSeconds task.attempt) now db)
  | .promote tier => some (.promote, promoteSql task.id tier now db)
  | .dlq reason => (kill task reason now db).map fun db' => (.dlq, db')

theorem routeOne_eq_perform (ladder : Ladder) (flags : Flags) (now : Time) (task : TaskInstance)
    (db : Db) :
    routeOne ladder flags now task db =
      (decision ladder flags task (db.evidence task.id)).perform now task db := by
  have hinf : infraAttempts task db = (budgets task.tier (db.evidence task.id)).infra := rfl
  have hcap : capabilityAttempts task db =
      (budgets task.tier (db.evidence task.id)).capability := rfl
  unfold routeOne decision
  dsimp only
  rw [hinf, hcap]
  generalize budgets task.tier (db.evidence task.id) = spent
  by_cases hpoison : task.failureClass.getD .infra = .poison
  · rw [if_pos hpoison, if_pos hpoison]
    rfl
  rw [if_neg hpoison, if_neg hpoison]
  by_cases hguard : task.attempt ≥ maxTotalAttempts
  · rw [if_pos hguard, if_pos hguard]
    rfl
  rw [if_neg hguard, if_neg hguard]
  by_cases hretries : (!flags.retriesEnabled) = true
  · rw [if_pos hretries, if_pos hretries]
    rfl
  rw [if_neg hretries, if_neg hretries]
  by_cases hinfra : task.failureClass.getD .infra = .infra
  · rw [if_pos hinfra, if_pos hinfra]
    by_cases hspent : spent.infra ≥ maxInfraAttempts
    · rw [if_pos hspent, if_pos hspent]
      rfl
    · rw [if_neg hspent, if_neg hspent]
      rfl
  rw [if_neg hinfra, if_neg hinfra]
  by_cases hleft : (spent.capability : Int) < task.maxAttemptsPerTier
  · rw [if_pos hleft, if_pos hleft]
    rfl
  rw [if_neg hleft, if_neg hleft]
  by_cases hescalation : (!flags.escalationEnabled) = true
  · rw [if_pos hescalation, if_pos hescalation]
    rfl
  rw [if_neg hescalation, if_neg hescalation]
  cases flags.forceTier with
  | some pinned => rfl
  | none => cases ladder.nextTier task.tier <;> rfl

private theorem update_congr {ρ κ υ : Type} {key : ρ → κ} {uniq : ρ → υ} {t : Table key uniq}
    {p q : ρ → Bool} {f : ρ → ρ} (hkey : ∀ r, key (f r) = key r)
    (huniq : ∀ r, uniq (f r) = uniq r) (h : ∀ r ∈ t.rows, p r = q r) :
    t.update p f hkey huniq = t.update q f hkey huniq := by
  have hrows : (t.rows.map fun r => if p r then f r else r) =
      t.rows.map fun r => if q r then f r else r :=
    List.map_congr_left fun r hr => by rw [h r hr]
  simp only [Table.update, hrows]

/-- The rows to cancel are all the queued ones of the agent. -/
theorem mem_queuedSiblings_of_killed {agentId k : Uuid} {now : Time} {db : Db} {t : TaskInstance}
    (ht : t ∈ (db.taskInstances.update (fun u => u.id = k) (TaskInstance.killed now)).rows)
    (hqueued : queuedSibling agentId t = true) : t.id ∈ queuedSiblings agentId db := by
  obtain ⟨u, hu, rfl⟩ := List.mem_map.1 ht
  by_cases hid : u.id = k
  · simp [hid, queuedSibling] at hqueued
  · simp only [hid, decide_false, Bool.false_eq_true, if_false] at hqueued ⊢
    exact List.mem_map_of_mem (List.mem_filter.2 ⟨hu, hqueued⟩)

theorem routeOne_eq (ladder : Ladder) (flags : Flags) (now : Time) (task : TaskInstance)
    (db : Db) :
    routeOne ladder flags now task db =
      (routeWrite ladder flags now task db).map fun w => (w.routed, w.perform db) := by
  rw [routeOne_eq_perform]
  unfold routeWrite
  cases decision ladder flags task (db.evidence task.id) with
  | retry => rfl
  | promote tier => rfl
  | dlq reason =>
      cases hclass : task.failureClass with
      | none => simp [Decision.perform, kill, dlqSql, hclass]
      | some failureClass =>
          simp only [Decision.perform, kill, dlqSql, hclass, Option.map_some, Write.routed,
            Write.perform]
          have hsame := fun reason => update_congr
            (t := (failAgentSql task.agentId now (killSql task.id now db)).taskInstances)
            (p := fun t => queuedSibling task.agentId t &&
              t.id ∈ queuedSiblings task.agentId db)
            (q := queuedSibling task.agentId) (f := TaskInstance.cancelled reason now)
            (fun _ => rfl) (fun _ => rfl) fun t ht => by
              cases hqueued : queuedSibling task.agentId t with
              | false => rfl
              | true => simp [mem_queuedSiblings_of_killed ht hqueued]
          rw [hsame]
          rfl

/-! ## What a write does to each row -/

namespace Write

def onTask (t : TaskInstance) : Write → TaskInstance
  | .retry task now => if t.id = task.id then t.retried (backoffSeconds task.attempt) now else t
  | .promote task tier now => if t.id = task.id then t.promoted tier now else t
  | .kill task _ siblings cancelReason now =>
      if t.id = task.id then t.killed now
      else if queuedSibling task.agentId t && t.id ∈ siblings then t.cancelled cancelReason now
      else t

def onAgent (a : Agent) : Write → Agent
  | .kill task _ _ _ now => if a.id = task.agentId then a.markedFailed now else a
  | _ => a

def entries : Write → List DlqEntry
  | .kill _ entry _ _ _ => [entry]
  | _ => []

variable {w : Write} {t : TaskInstance} {a : Agent} {db : Db}

theorem perform_tasks (w : Write) (db : Db) :
    (w.perform db).taskInstances.rows = db.taskInstances.rows.map fun t => w.onTask t := by
  cases w with
  | retry task now =>
      simp [perform, retrySql, Table.update, onTask]
  | promote task tier now =>
      simp [perform, promoteSql, Table.update, onTask]
  | kill task entry siblings cancelReason now =>
      simp only [perform, failAgentSql, killSql, Table.update, List.map_map, onTask]
      refine List.map_congr_left fun t _ => ?_
      by_cases hid : t.id = task.id
      · simp [hid, queuedSibling]
      · simp [hid]

theorem perform_agents (w : Write) (db : Db) :
    (w.perform db).agents.rows = db.agents.rows.map fun a => w.onAgent a := by
  cases w with
  | retry | promote => exact (List.map_id _).symm
  | kill => simp [perform, failAgentSql, killSql, Table.update, onAgent]

theorem perform_attempts (w : Write) (db : Db) : (w.perform db).attempts = db.attempts := by
  cases w <;> rfl

theorem perform_idempotency (w : Write) (db : Db) :
    (w.perform db).idempotency = db.idempotency := by
  cases w <;> rfl

theorem perform_dlq (w : Write) (db : Db) : (w.perform db).dlq = db.dlq ++ w.entries := by
  cases w with
  | retry | promote => exact (List.append_nil _).symm
  | kill => rfl

@[simp] theorem onTask_id : (w.onTask t).id = t.id := by
  cases w <;> simp only [onTask] <;> repeat' split
  all_goals rfl

@[simp] theorem onTask_agentId : (w.onTask t).agentId = t.agentId := by
  cases w <;> simp only [onTask] <;> repeat' split
  all_goals rfl

@[simp] theorem onTask_seq : (w.onTask t).seq = t.seq := by
  cases w <;> simp only [onTask] <;> repeat' split
  all_goals rfl

@[simp] theorem onTask_failureClass : (w.onTask t).failureClass = t.failureClass := by
  cases w <;> simp only [onTask] <;> repeat' split
  all_goals rfl

@[simp] theorem onAgent_id : (w.onAgent a).id = a.id := by
  cases w with
  | retry | promote => rfl
  | kill =>
      simp only [onAgent]
      split <;> rfl

theorem perform_task (w : Write) (db : Db) (k : Uuid) :
    (w.perform db).task k = (db.task k).map fun t => w.onTask t :=
  Table.get?_of_rows_map (w.perform_tasks db) (fun _ => onTask_id) k

theorem perform_agent (w : Write) (db : Db) (k : Uuid) :
    (w.perform db).agent k = (db.agent k).map fun a => w.onAgent a :=
  Table.get?_of_rows_map (w.perform_agents db) (fun _ => onAgent_id) k

theorem onTask_own (h : t.id = w.task.id) :
    (w.onTask t).status = .pending ∨ (w.onTask t).status = .dead := by
  cases w with
  | retry task now => exact Or.inl (by simp [onTask, show t.id = task.id from h])
  | promote task tier now => exact Or.inl (by simp [onTask, show t.id = task.id from h])
  | kill task entry siblings cancelReason now =>
      exact Or.inr (by simp [onTask, show t.id = task.id from h])

/-- Any other row stays, or is a queued one of the same agent that gets cancelled. -/
theorem onTask_other (h : t.id ≠ w.task.id) :
    w.onTask t = t ∨ t.id ∈ w.siblings ∧ t.agentId = w.task.agentId ∧ t.status = .pending ∧
      (w.onTask t).status = .dead := by
  cases w with
  | retry task now => exact Or.inl (by simp [onTask, show t.id ≠ task.id from h])
  | promote task tier now => exact Or.inl (by simp [onTask, show t.id ≠ task.id from h])
  | kill task entry siblings cancelReason now =>
      simp only [onTask, show t.id ≠ task.id from h, if_false]
      split
      · rename_i hqueued
        simp only [queuedSibling, Bool.and_eq_true, decide_eq_true_eq] at hqueued
        exact Or.inr ⟨hqueued.2, hqueued.1.1, hqueued.1.2, rfl⟩
      · exact Or.inl rfl

theorem onTask_apart (hown : t.id ≠ w.task.id) (hsiblings : t.id ∉ w.siblings) :
    w.onTask t = t :=
  (onTask_other hown).resolve_right fun h => hsiblings h.1

theorem onAgent_apart (h : w.agent? ≠ some a.id) : w.onAgent a = a := by
  cases w with
  | retry | promote => rfl
  | kill task entry siblings cancelReason now =>
      have hne : a.id ≠ task.agentId := fun heq => h (by rw [agent?, heq])
      simp [onAgent, hne]

end Write

end ReliableAgents
