import ReliableAgents.Common.Tiers
import ReliableAgents.Db.Schema
import Mathlib.Tactic.Simps.Basic

/-!
# The reaper and the queue-repair sweeps

`orchestrator/reaper.py` and `orchestrator/queue.py`. A sweep selects a bounded
batch of rows that nobody else has locked and then writes them one by one.
-/

namespace ReliableAgents

open Relational

/-! ## Reaper -/

/-- `status = 'running' AND lease_expires < now()`; a `NULL` lease never compares. -/
def expired (now : Time) (t : TaskInstance) : Bool :=
  t.status = .running &&
    match t.leaseExpires with
    | none => false
    | some leaseExpires => leaseExpires < now

@[simps] def TaskInstance.reclaimed (jitter now : Time) (t : TaskInstance) : TaskInstance :=
  { t with
    status := .pending
    leaseOwner := none
    leaseExpires := none
    failureClass := some .infra
    lastError := some "lease expired -- worker presumed dead"
    nextRunAt := now + jitter
    updatedAt := now }

/-- The evidence of a reclaimed lease. -/
def TaskInstance.reclaimRow (now : Time) (t : TaskInstance) : Attempt where
  taskInstanceId := t.id
  agentId := t.agentId
  seq := t.seq
  attemptNo := t.attempt
  tier := t.tier
  workerId := t.leaseOwner
  outcome := .reclaimed
  failureClass := some .infra
  startedAt := now
  endedAt := some now

/-- One row of `REAP_SQL`: requeued, and recorded in the same statement. -/
def reclaim (jitter : Uuid → Time) (now : Time) (db : Db) (e : TaskInstance) : Db :=
  { db with
    taskInstances :=
      db.taskInstances.update (fun t => t.id = e.id) (TaskInstance.reclaimed (jitter e.id) now)
    attempts := db.attempts ++ [e.reclaimRow now] }

/-- `REAP_SQL`'s `expired`. -/
def expiredLeases (batch : Nat) (now : Time) (locked : Uuid → Bool) (db : Db) :
    List TaskInstance :=
  orderedBatch (fun t => t.leaseExpires.getD 0) batch
    (db.taskInstances.select fun t => expired now t && !locked t.id)

/-- `reap`: `jitter` is the drawn `random() * REAPER_JITTER_SECONDS` of each row. -/
def reap (batch : Nat) (jitter : Uuid → Time) (now : Time) (locked : Uuid → Bool) (db : Db) : Db :=
  (expiredLeases batch now locked db).foldl (reclaim jitter now) db

/-! ## Stall repair -/

/-- The `WHERE` of `REPAIR_SQL`'s `stalled`. -/
def stalled (db : Db) (a : Agent) : Bool :=
  a.status = .running && a.cursor < a.plan.length && (db.rowAt a.id a.cursor).isNone

def stalledAgents (batch : Nat) (locked : Uuid → Bool) (db : Db) : List Agent :=
  orderedBatch Agent.createdAt batch (db.agents.select fun a => stalled db a && !locked a.id)

/-- A row as the submission surfaces and the repair sweep insert it. -/
@[simps] def TaskInstance.fresh (id agentId : Uuid) (seq : Nat) (taskDefId : Int) (tier : TierName)
    (now : Time) : TaskInstance where
  id := id
  agentId := agentId
  seq := seq
  taskDefId := taskDefId
  tier := tier
  nextRunAt := now
  createdAt := now
  updatedAt := now

/-- `INSERT INTO task_instances`: refused by a duplicate id or position, and by the
foreign key on `tiers`. -/
def insertTask (ladder : Ladder) (t : TaskInstance) (db : Db) : Option Db :=
  if t.tier ∈ ladder.names then
    (db.taskInstances.insert? t).map fun table => { db with taskInstances := table }
  else none

/-- The insert of `REPAIR_SQL` for one agent, `ON CONFLICT (agent_id, seq) DO NOTHING`. -/
def repairOne (ladder : Ladder) (tier : TierName) (ids : Uuid → Uuid) (now : Time) (db : Db)
    (a : Agent) : Option Db :=
  match a.plan[a.cursor]? with
  | none => none
  | some taskDefId =>
      if (db.rowAt a.id a.cursor).isSome then some db
      else insertTask ladder (.fresh (ids a.id) a.id a.cursor taskDefId tier now) db

/-- `repair_stalled`: `none` when it raises, and then nothing is committed. `ids` are
the drawn `gen_random_uuid()`. -/
def repairStalled (ladder : Ladder) (batch : Nat) (ids : Uuid → Uuid) (now : Time)
    (locked : Uuid → Bool) (db : Db) : Option Db :=
  match ladder.baseTier with
  | none => none
  | some tier => (stalledAgents batch locked db).foldlM (repairOne ladder tier ids now) db

/-! ## Finalisation -/

/-- The `WHERE` of `FINALISE_SQL`'s `exhausted`. -/
def exhausted (db : Db) (a : Agent) : Bool :=
  a.status = .running && a.plan.length ≤ a.cursor &&
    (db.taskInstances.select fun t => t.agentId = a.id && t.status ≠ .succeeded).isEmpty

def exhaustedAgents (batch : Nat) (locked : Uuid → Bool) (db : Db) : List Agent :=
  orderedBatch Agent.updatedAt batch (db.agents.select fun a => exhausted db a && !locked a.id)

@[simps] def Agent.finalised (now : Time) (a : Agent) : Agent :=
  { a with
    status := .completed
    updatedAt := now }

def finaliseAgents (batch : Nat) (now : Time) (locked : Uuid → Bool) (db : Db) : Db :=
  { db with
    agents :=
      db.agents.update (fun a => a.id ∈ (exhaustedAgents batch locked db).map Agent.id)
        (Agent.finalised now) }

/-! ## What each sweep selects -/

theorem expired_spec {now : Time} {t : TaskInstance} (h : expired now t = true) :
    t.status = .running ∧ ∃ e, t.leaseExpires = some e ∧ e < now := by
  unfold expired at h
  cases he : t.leaseExpires with
  | none => simp [he] at h
  | some e =>
      simp only [he, Bool.and_eq_true, decide_eq_true_eq] at h
      exact ⟨h.1, e, rfl, h.2⟩

theorem mem_expiredLeases {batch : Nat} {now : Time} {locked : Uuid → Bool} {db : Db}
    {t : TaskInstance} (h : t ∈ expiredLeases batch now locked db) :
    db.task t.id = some t ∧ t.status = .running ∧ ∃ e, t.leaseExpires = some e ∧ e < now := by
  obtain ⟨hget, hp⟩ := Table.mem_select.1 (mem_of_mem_orderedBatch h)
  simp only [Bool.and_eq_true] at hp
  exact ⟨hget, expired_spec hp.1⟩

theorem expiredLeases_nodup (batch : Nat) (now : Time) (locked : Uuid → Bool) (db : Db) :
    ((expiredLeases batch now locked db).map TaskInstance.id).Nodup :=
  orderedBatch_map_nodup _ _ _ (Table.select_map_nodup _ _)

theorem mem_stalledAgents {batch : Nat} {locked : Uuid → Bool} {db : Db} {a : Agent}
    (h : a ∈ stalledAgents batch locked db) :
    db.agent a.id = some a ∧ a.status = .running ∧ a.cursor < a.plan.length ∧
      db.rowAt a.id a.cursor = none := by
  obtain ⟨hget, hp⟩ := Table.mem_select.1 (mem_of_mem_orderedBatch h)
  simp only [stalled, Bool.and_eq_true, decide_eq_true_eq, Option.isNone_iff_eq_none] at hp
  exact ⟨hget, hp.1.1.1, hp.1.1.2, hp.1.2⟩

theorem mem_exhaustedAgents {batch : Nat} {locked : Uuid → Bool} {db : Db} {a : Agent}
    (h : a ∈ exhaustedAgents batch locked db) :
    db.agent a.id = some a ∧ a.status = .running ∧ a.plan.length ≤ a.cursor ∧
      ∀ i t, db.rowAt a.id i = some t → t.status = .succeeded := by
  obtain ⟨hget, hp⟩ := Table.mem_select.1 (mem_of_mem_orderedBatch h)
  simp only [exhausted, Bool.and_eq_true, decide_eq_true_eq, List.isEmpty_iff] at hp
  refine ⟨hget, hp.1.1.1, hp.1.1.2, fun i t ht => ?_⟩
  obtain ⟨htask, hagent, -⟩ := Db.task_of_rowAt ht
  by_contra hne
  have hmem : t ∈ db.taskInstances.select fun t => t.agentId = a.id && t.status ≠ .succeeded :=
    Table.mem_select.2 ⟨htask, by simp [hagent, hne]⟩
  rw [hp.1.2] at hmem
  cases hmem

theorem insertTask_spec {ladder : Ladder} {t : TaskInstance} {db db' : Db}
    (h : insertTask ladder t db = some db') :
    t.tier ∈ ladder.names ∧ db.task t.id = none ∧ db.rowAt t.agentId t.seq = none ∧
      (∃ table, db' = { db with taskInstances := table }) ∧
      (∀ k, db'.task k = if k = t.id then some t else db.task k) ∧
      ∀ a i, db'.rowAt a i = if (a, i) = t.position then some t else db.rowAt a i := by
  unfold insertTask at h
  split at h
  · rename_i htier
    cases hins : db.taskInstances.insert? t with
    | none => simp [hins] at h
    | some table =>
        simp only [hins, Option.map_some, Option.some.injEq] at h
        subst h
        obtain ⟨hid, hpos, -⟩ := Table.insert?_eq_some hins
        exact ⟨htier, hid, hpos, ⟨table, rfl⟩, fun k => Table.get?_insert? hins k,
          fun a i => Table.at?_insert? hins (a, i)⟩
  · cases h

/-- Repair inserts the row at the cursor, unless it is there by now. -/
theorem repairOne_spec {ladder : Ladder} {tier : TierName} {ids : Uuid → Uuid} {now : Time}
    {a : Agent} {db db' : Db} (h : repairOne ladder tier ids now db a = some db') :
    db' = db ∨ ∃ taskDefId, a.plan[a.cursor]? = some taskDefId ∧
      insertTask ladder (.fresh (ids a.id) a.id a.cursor taskDefId tier now) db = some db' := by
  unfold repairOne at h
  split at h
  · cases h
  · rename_i taskDefId hplan
    split at h
    · cases h
      exact Or.inl rfl
    · exact Or.inr ⟨taskDefId, hplan, h⟩

end ReliableAgents
