import ReliableAgents.Common.Protocol
import ReliableAgents.Relational.Table

/-!
# The database

The five tables of `db/schema.sql` that the runtime writes. Rows are the rows of
the schema, with its column defaults; `BIGSERIAL` ids are list positions.
-/

namespace ReliableAgents

open Relational

inductive AgentStatus where
  | pending
  | running
  | completed
  | failed
deriving DecidableEq, Repr

structure Agent where
  id : Uuid
  plan : List Int
  cursor : Nat := 0
  status : AgentStatus := .running
  context : Context := []
  costUnits : Int := 0
  tokensUsed : Int := 0
  createdAt : Time
  updatedAt : Time
deriving DecidableEq, Repr

inductive TaskStatus where
  | pending
  | running
  | succeeded
  | failed
  | dead
deriving DecidableEq, Repr

structure TaskInstance where
  id : Uuid
  agentId : Uuid
  seq : Nat
  taskDefId : Int
  status : TaskStatus := .pending
  tier : TierName := "junior"
  attempt : Nat := 0
  maxAttemptsPerTier : Int := 2
  leaseOwner : Option WorkerId := none
  leaseExpires : Option Time := none
  nextRunAt : Time
  result : Option JsonObject := none
  lastError : Option String := none
  failureClass : Option FailureClass := none
  createdAt : Time
  updatedAt : Time
deriving DecidableEq, Repr

inductive Outcome where
  | succeeded
  | failed
  | reclaimed
deriving DecidableEq, Repr

/-- A row of `attempts`, the evidence table. -/
structure Attempt where
  taskInstanceId : Uuid
  agentId : Uuid
  seq : Nat
  attemptNo : Nat
  tier : TierName
  workerId : Option WorkerId
  outcome : Outcome
  failureClass : Option FailureClass := none
  costUnits : Int := 0
  tokens : Int := 0
  startedAt : Time
  endedAt : Option Time
deriving DecidableEq, Repr

abbrev ActionId := String

inductive ReservationState where
  | inFlight
  | done
deriving DecidableEq, Repr

/-- A row of `idempotency`. -/
structure Reservation where
  key : ActionId
  agentId : Uuid
  seq : Nat
  actionType : String
  state : ReservationState := .inFlight
  result : Option JsonObject := none
  createdAt : Time
  settledAt : Option Time := none
deriving DecidableEq, Repr

/-- One element of `dlq.attempt_trail`: the columns `TRAIL_SQL` selects. -/
structure TrailEntry where
  attemptNo : Nat
  tier : TierName
  outcome : Outcome
  failureClass : Option FailureClass
  workerId : Option WorkerId
  startedAt : Time
  endedAt : Option Time
deriving DecidableEq, Repr

structure DlqEntry where
  agentId : Uuid
  seq : Nat
  taskDefId : Int
  failureClass : FailureClass
  lastError : String
  attemptTrail : List TrailEntry
  createdAt : Time
deriving DecidableEq, Repr

/-- `UNIQUE (agent_id, seq)`. -/
def TaskInstance.position (t : TaskInstance) : Uuid × Nat := (t.agentId, t.seq)

structure Db where
  agents : Table Agent.id Agent.id
  taskInstances : Table TaskInstance.id TaskInstance.position
  attempts : List Attempt
  idempotency : Table Reservation.key Reservation.key
  dlq : List DlqEntry

namespace Db

def empty : Db where
  agents := .empty
  taskInstances := .empty
  attempts := []
  idempotency := .empty
  dlq := []

def agent (db : Db) (a : Uuid) : Option Agent := db.agents.get? a

def task (db : Db) (k : Uuid) : Option TaskInstance := db.taskInstances.get? k

def rowAt (db : Db) (a : Uuid) (i : Nat) : Option TaskInstance := db.taskInstances.at? (a, i)

/-- `SELECT * FROM attempts WHERE task_instance_id = k ORDER BY id`. -/
def evidence (db : Db) (k : Uuid) : List Attempt :=
  db.attempts.filter fun e => e.taskInstanceId = k

def reservation (db : Db) (key : ActionId) : Option Reservation := db.idempotency.get? key

def deadLetters (db : Db) (a : Uuid) : List DlqEntry := db.dlq.filter fun e => e.agentId = a

theorem ext_rows {db db' : Db} (hagents : db.agents.rows = db'.agents.rows)
    (htasks : db.taskInstances.rows = db'.taskInstances.rows)
    (hattempts : db.attempts = db'.attempts)
    (hidempotency : db.idempotency.rows = db'.idempotency.rows) (hdlq : db.dlq = db'.dlq) :
    db = db' := by
  cases db
  cases db'
  cases Table.ext_rows hagents
  cases Table.ext_rows htasks
  cases Table.ext_rows hidempotency
  cases hattempts
  cases hdlq
  rfl

theorem id_of_agent {db : Db} {a : Uuid} {ag : Agent} (h : db.agent a = some ag) : ag.id = a :=
  Table.key_of_get? h

theorem id_of_task {db : Db} {k : Uuid} {t : TaskInstance} (h : db.task k = some t) : t.id = k :=
  Table.key_of_get? h

theorem task_of_update {db db' : Db} {p : TaskInstance → Bool} {f : TaskInstance → TaskInstance}
    (hrows : db'.taskInstances.rows = db.taskInstances.rows.map fun t => if p t then f t else t)
    (hid : ∀ t, (f t).id = t.id) (k : Uuid) :
    db'.task k = (db.task k).map fun t => if p t then f t else t :=
  Table.get?_of_rows_map hrows (fun t => by split <;> simp [hid]) k

theorem task_of_rowAt {db : Db} {a : Uuid} {i : Nat} {t : TaskInstance}
    (h : db.rowAt a i = some t) : db.task t.id = some t ∧ t.agentId = a ∧ t.seq = i := by
  have hpos := (Table.at?_eq_some _).1 h
  have heq : t.agentId = a ∧ t.seq = i := by simpa [TaskInstance.position] using hpos.2
  exact ⟨Table.get?_of_at? h, heq⟩

theorem rowAt_of_task {db : Db} {k : Uuid} {t : TaskInstance} (h : db.task k = some t) :
    db.rowAt t.agentId t.seq = some t :=
  Table.at?_of_get? h

end Db

end ReliableAgents
