import ReliableAgents.Common.Tiers
import ReliableAgents.Db.Schema
import Mathlib.Tactic.Simps.Basic

/-!
# The classifier

`orchestrator/classify.py`: what a failed row becomes. Promotion reads the
CAPABILITY evidence of the current tier, retry of an INFRA failure reads the
INFRA evidence over all tiers, and `attempt` is read by the runaway guard only.
-/

namespace ReliableAgents

open Relational

def maxInfraAttempts : Nat := 5

def maxTotalAttempts : Nat := 25

/-! ## Statements -/

/-- The rows `TAKE_FAILED_SQL` locks. -/
def takeFailed (limit : Nat) (locked : Uuid → Bool) (db : Db) : List TaskInstance :=
  orderedBatch TaskInstance.updatedAt limit
    (db.taskInstances.select fun t => t.status = .failed && !locked t.id)

@[simps] def TaskInstance.retried (backoff : Nat) (now : Time) (t : TaskInstance) : TaskInstance :=
  { t with
    status := .pending
    leaseOwner := none
    nextRunAt := now + seconds backoff
    updatedAt := now }

def retrySql (taskId : Uuid) (backoff : Nat) (now : Time) (db : Db) : Db :=
  { db with
    taskInstances :=
      db.taskInstances.update (fun t => t.id = taskId) (TaskInstance.retried backoff now) }

@[simps] def TaskInstance.promoted (tier : TierName) (now : Time) (t : TaskInstance) :
    TaskInstance :=
  { t with
    status := .pending
    tier := tier
    attempt := 0
    leaseOwner := none
    nextRunAt := now
    updatedAt := now }

def promoteSql (taskId : Uuid) (tier : TierName) (now : Time) (db : Db) : Db :=
  { db with
    taskInstances :=
      db.taskInstances.update (fun t => t.id = taskId) (TaskInstance.promoted tier now) }

@[simps] def TaskInstance.killed (now : Time) (t : TaskInstance) : TaskInstance :=
  { t with
    status := .dead
    leaseOwner := none
    updatedAt := now }

def killSql (taskId : Uuid) (now : Time) (db : Db) : Db :=
  { db with
    taskInstances := db.taskInstances.update (fun t => t.id = taskId) (TaskInstance.killed now) }

def dlqSql (task : TaskInstance) (lastError : String) (trail : List TrailEntry) (now : Time)
    (db : Db) : Option Db :=
  task.failureClass.map fun failureClass =>
    { db with
      dlq :=
        db.dlq ++
          [{ agentId := task.agentId
             seq := task.seq
             taskDefId := task.taskDefId
             failureClass := failureClass
             lastError := lastError
             attemptTrail := trail
             createdAt := now }] }

@[simps] def Agent.markedFailed (now : Time) (a : Agent) : Agent :=
  { a with
    status := .failed
    updatedAt := now }

def failAgentSql (agentId : Uuid) (now : Time) (db : Db) : Db :=
  { db with agents := db.agents.update (fun a => a.id = agentId) (Agent.markedFailed now) }

@[simps] def TaskInstance.cancelled (reason : String) (now : Time) (t : TaskInstance) :
    TaskInstance :=
  { t with
    status := .dead
    leaseOwner := none
    leaseExpires := none
    lastError := some reason
    updatedAt := now }

/-- The `WHERE` of `CANCEL_SIBLINGS_SQL`. -/
def queuedSibling (agentId : Uuid) (t : TaskInstance) : Bool :=
  t.agentId = agentId && t.status = .pending

def cancelSiblingsSql (agentId : Uuid) (reason : String) (now : Time) (db : Db) : Db :=
  { db with
    taskInstances :=
      db.taskInstances.update (queuedSibling agentId) (TaskInstance.cancelled reason now) }

def Attempt.trailEntry (e : Attempt) : TrailEntry where
  attemptNo := e.attemptNo
  tier := e.tier
  outcome := e.outcome
  failureClass := e.failureClass
  workerId := e.workerId
  startedAt := e.startedAt
  endedAt := e.endedAt

/-! ## Budgets -/

/-- What `CAPABILITY_ATTEMPTS_SQL` counts, on one task's evidence. -/
def capabilityEvidence (tier : TierName) (e : Attempt) : Bool :=
  e.tier = tier && e.outcome = .failed && e.failureClass = some .capability

/-- What `INFRA_ATTEMPTS_SQL` counts, on one task's evidence. -/
def infraEvidence (e : Attempt) : Bool :=
  e.outcome = .failed && e.failureClass = some .infra

def capabilityAttempts (task : TaskInstance) (db : Db) : Nat :=
  (db.evidence task.id).countP (capabilityEvidence task.tier)

def infraAttempts (task : TaskInstance) (db : Db) : Nat :=
  (db.evidence task.id).countP infraEvidence

/-! ## Routing -/

/-- `_kill`: the whole trail goes to the dead-letter queue. -/
def kill (task : TaskInstance) (reason : String) (now : Time) (db : Db) : Option Db :=
  let trail := (db.evidence task.id).map Attempt.trailEntry
  let lastError := sliceTo 2000 (reason ++ ": " ++ task.lastError.getD "")
  let cancelReason :=
    sliceTo 2000 ("agent failed at seq " ++ toString task.seq ++ ": " ++ reason)
  (dlqSql task lastError trail now (killSql task.id now db)).map fun db =>
    cancelSiblingsSql task.agentId cancelReason now (failAgentSql task.agentId now db)

inductive Routed where
  | retry
  | promote
  | dlq
deriving DecidableEq, Repr

/-- `route_one` on a captured row: `none` when a statement raises. -/
def routeOne (ladder : Ladder) (flags : Flags) (now : Time) (task : TaskInstance) (db : Db) :
    Option (Routed × Db) :=
  let fc := task.failureClass.getD .infra
  let dlq := fun reason => (kill task reason now db).map fun db' => (Routed.dlq, db')
  let retry :=
    some (Routed.retry, retrySql task.id (backoffSeconds task.attempt) now db)
  if fc = .poison then dlq "poison -- no tier can fix this"
  else if task.attempt ≥ maxTotalAttempts then
    dlq ("handed to a worker " ++ toString task.attempt ++ "x without completing")
  else if !flags.retriesEnabled then dlq "retries disabled"
  else if fc = .infra then
    if infraAttempts task db ≥ maxInfraAttempts then
      dlq ("infra failed " ++ toString (infraAttempts task db) ++ "x")
    else retry
  else if (capabilityAttempts task db : Int) < task.maxAttemptsPerTier then retry
  else if !flags.escalationEnabled then dlq "escalation disabled -- would have promoted"
  else
    match flags.forceTier with
    | some pinned => dlq ("tier pinned to " ++ pinned ++ " -- cannot escalate")
    | none =>
        match ladder.nextTier task.tier with
        | none => dlq ("capability exhausted at top tier " ++ task.tier)
        | some tier => some (.promote, promoteSql task.id tier now db)

/-- `classify`: the rows are captured once, and the transaction commits only when
every one of them was routed. `flags` is what each row's routing reads. -/
def classify (ladder : Ladder) (limit : Nat) (flags : Uuid → Flags) (now : Time)
    (locked : Uuid → Bool) (db : Db) : Option Db :=
  (takeFailed limit locked db).foldlM
    (fun db task => (routeOne ladder (flags task.id) now task db).map Prod.snd) db

/-! ## The decision, apart from its statements -/

/-- What `route_one` reads of the evidence. -/
structure Budgets where
  capability : Nat
  infra : Nat

def budgets (tier : TierName) (evidence : List Attempt) : Budgets where
  capability := evidence.countP (capabilityEvidence tier)
  infra := evidence.countP infraEvidence

inductive Verdict where
  | retry
  | promote (tier : TierName)
  | deadLetter
deriving DecidableEq, Repr

/-- Where a failure of class `fc` goes, given the row it is on and what was spent. -/
def verdict (ladder : Ladder) (flags : Flags) (fc : FailureClass) (task : TaskInstance)
    (spent : Budgets) : Verdict :=
  if fc = .poison ∨ task.attempt ≥ maxTotalAttempts ∨ flags.retriesEnabled = false then .deadLetter
  else if fc = .infra then
    if spent.infra ≥ maxInfraAttempts then .deadLetter else .retry
  else if (spent.capability : Int) < task.maxAttemptsPerTier then .retry
  else if flags.escalationEnabled = false ∨ flags.forceTier ≠ none then .deadLetter
  else
    match ladder.nextTier task.tier with
    | none => .deadLetter
    | some tier => .promote tier

/-- A routed row went where the verdict says, by the one statement of that verdict. -/
theorem routeOne_spec {ladder : Ladder} {flags : Flags} {now : Time} {task : TaskInstance}
    {db db' : Db} {routed : Routed} (h : routeOne ladder flags now task db = some (routed, db')) :
    match verdict ladder flags (task.failureClass.getD .infra) task
        (budgets task.tier (db.evidence task.id)) with
    | .retry => routed = .retry ∧ db' = retrySql task.id (backoffSeconds task.attempt) now db
    | .promote tier => routed = .promote ∧ db' = promoteSql task.id tier now db
    | .deadLetter => routed = .dlq ∧ ∃ reason, kill task reason now db = some db' := by
  have dead : ∀ reason, (kill task reason now db).map (fun db' => (Routed.dlq, db')) =
      some (routed, db') → routed = .dlq ∧ ∃ reason, kill task reason now db = some db' := by
    intro reason hk
    obtain ⟨d, hd, heq⟩ := Option.map_eq_some_iff.1 hk
    cases heq
    exact ⟨rfl, reason, hd⟩
  have retry : some (Routed.retry, retrySql task.id (backoffSeconds task.attempt) now db) =
      some (routed, db') →
        routed = .retry ∧ db' = retrySql task.id (backoffSeconds task.attempt) now db := by
    intro hr
    cases hr
    exact ⟨rfl, rfl⟩
  have hcap : (budgets task.tier (db.evidence task.id)).capability =
      capabilityAttempts task db := rfl
  have hinf : (budgets task.tier (db.evidence task.id)).infra = infraAttempts task db := rfl
  unfold routeOne at h
  dsimp only at h
  unfold verdict
  rw [hcap, hinf]
  by_cases hpoison : task.failureClass.getD .infra = .poison
  · simp only [hpoison, if_true, true_or] at h ⊢
    exact dead _ h
  by_cases hattempt : task.attempt ≥ maxTotalAttempts
  · simp only [hpoison, hattempt, if_true, if_false, true_or, or_true] at h ⊢
    exact dead _ h
  cases hretries : flags.retriesEnabled with
  | false =>
      simp only [hpoison, hattempt, hretries, Bool.not_false, if_true, if_false, or_true] at h ⊢
      exact dead _ h
  | true =>
      simp only [hpoison, hattempt, hretries, Bool.not_true, if_false, Bool.false_eq_true,
        Bool.true_eq_false, or_self] at h ⊢
      by_cases hinfra : task.failureClass.getD .infra = .infra
      · simp only [hinfra, if_true] at h ⊢
        by_cases hspent : infraAttempts task db ≥ maxInfraAttempts
        · simp only [hspent, if_true] at h ⊢
          exact dead _ h
        · simp only [hspent, if_false] at h ⊢
          exact retry h
      simp only [hinfra, if_false] at h ⊢
      by_cases hleft : (capabilityAttempts task db : Int) < task.maxAttemptsPerTier
      · simp only [hleft, if_true] at h ⊢
        exact retry h
      simp only [hleft, if_false] at h ⊢
      cases hescalate : flags.escalationEnabled with
      | false =>
          simp only [hescalate, Bool.not_false, if_true, true_or] at h ⊢
          exact dead _ h
      | true =>
          simp only [hescalate, Bool.not_true, Bool.false_eq_true, if_false, Bool.true_eq_false,
            false_or] at h ⊢
          cases hpin : flags.forceTier with
          | some pinned =>
              simp only [hpin, ne_eq, reduceCtorEq, not_false_eq_true, if_true] at h ⊢
              exact dead _ h
          | none =>
              simp only [hpin, ne_eq, not_true_eq_false, if_false] at h ⊢
              cases hnext : ladder.nextTier task.tier with
              | none =>
                  simp only [hnext] at h ⊢
                  exact dead _ h
              | some tier =>
                  simp only [hnext, Option.some.injEq, Prod.mk.injEq] at h ⊢
                  exact ⟨h.1.symm, h.2.symm⟩

/-! ## What the verdict says about the budgets -/

section Verdict

variable {ladder : Ladder} {flags : Flags} {fc : FailureClass} {task : TaskInstance}
  {spent : Budgets}

theorem verdict_retry (h : verdict ladder flags fc task spent = .retry) :
    task.attempt < maxTotalAttempts ∧
      ((fc = .infra ∧ spent.infra < maxInfraAttempts) ∨
        (fc = .capability ∧ (spent.capability : Int) < task.maxAttemptsPerTier)) := by
  unfold verdict at h
  split at h
  · cases h
  rename_i hguard
  simp only [not_or, not_le] at hguard
  refine ⟨hguard.2.1, ?_⟩
  split at h
  · rename_i hinfra
    split at h
    · cases h
    · rename_i hspent
      exact Or.inl ⟨hinfra, not_le.1 hspent⟩
  rename_i hinfra
  split at h
  · rename_i hleft
    right
    cases fc with
    | infra => exact absurd rfl hinfra
    | capability => exact ⟨rfl, hleft⟩
    | poison => exact absurd rfl hguard.1
  split at h
  · cases h
  split at h <;> cases h

theorem verdict_promote {tier : TierName} (h : verdict ladder flags fc task spent = .promote tier) :
    fc = .capability ∧ task.maxAttemptsPerTier ≤ (spent.capability : Int) ∧
      ladder.nextTier task.tier = some tier := by
  unfold verdict at h
  split at h
  · cases h
  rename_i hguard
  simp only [not_or] at hguard
  split at h
  · split at h <;> cases h
  rename_i hinfra
  split at h
  · cases h
  rename_i hleft
  split at h
  · cases h
  split at h
  · cases h
  · rename_i next hnext
    cases h
    refine ⟨?_, not_lt.1 hleft, hnext⟩
    cases fc with
    | infra => exact absurd rfl hinfra
    | capability => rfl
    | poison => exact absurd rfl hguard.1

end Verdict

theorem mem_takeFailed {limit : Nat} {locked : Uuid → Bool} {db : Db} {t : TaskInstance}
    (h : t ∈ takeFailed limit locked db) : db.task t.id = some t ∧ t.status = .failed := by
  obtain ⟨hget, hp⟩ := Table.mem_select.1 (mem_of_mem_orderedBatch h)
  simp only [Bool.and_eq_true, decide_eq_true_eq] at hp
  exact ⟨hget, hp.1⟩

theorem takeFailed_nodup (limit : Nat) (locked : Uuid → Bool) (db : Db) :
    ((takeFailed limit locked db).map TaskInstance.id).Nodup :=
  orderedBatch_map_nodup _ _ _ (Table.select_map_nodup _ _)

/-- `_kill` writes four tables' worth of one failure: the row, the dead letter, the
agent and its queued siblings. -/
theorem kill_spec {task : TaskInstance} {reason : String} {now : Time} {db db' : Db}
    (h : kill task reason now db = some db') :
    ∃ fc entry cancelReason, task.failureClass = some fc ∧ entry.agentId = task.agentId ∧
      entry.seq = task.seq ∧ entry.taskDefId = task.taskDefId ∧ entry.failureClass = fc ∧
      entry.attemptTrail = (db.evidence task.id).map Attempt.trailEntry ∧
      db' = { db with
        taskInstances :=
          (db.taskInstances.update (fun t => t.id = task.id) (TaskInstance.killed now)).update
            (queuedSibling task.agentId) (TaskInstance.cancelled cancelReason now)
        agents := db.agents.update (fun a => a.id = task.agentId) (Agent.markedFailed now)
        dlq := db.dlq ++ [entry] } := by
  unfold kill dlqSql at h
  dsimp only at h
  cases hfc : task.failureClass with
  | none => simp [hfc] at h
  | some fc =>
      simp only [hfc, Option.map_some, Option.some.injEq] at h
      exact ⟨fc, _, _, rfl, rfl, rfl, rfl, rfl, rfl, h.symm⟩

/-- Routing one failed row leaves every other failed row alone. -/
theorem routeOne_kept {ladder : Ladder} {flags : Flags} {now : Time} {task : TaskInstance}
    {db db' : Db} {routed : Routed} (h : routeOne ladder flags now task db = some (routed, db'))
    {t : TaskInstance} (ht : db.task t.id = some t) (hne : t.id ≠ task.id)
    (hfailed : t.status = .failed) : db'.task t.id = some t := by
  have hspec := routeOne_spec h
  split at hspec
  · rw [hspec.2, Db.task, retrySql, Table.get?_update, show db.taskInstances.get? t.id = _ from ht]
    simp [hne]
  · rw [hspec.2, Db.task, promoteSql, Table.get?_update,
      show db.taskInstances.get? t.id = _ from ht]
    simp [hne]
  · obtain ⟨-, reason, hkill⟩ := hspec
    obtain ⟨-, -, -, -, -, -, -, -, -, rfl⟩ := kill_spec hkill
    rw [Db.task, Table.get?_update, Table.get?_update,
      show db.taskInstances.get? t.id = _ from ht]
    simp [hne, queuedSibling, hfailed]

end ReliableAgents
