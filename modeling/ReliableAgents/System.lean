import ReliableAgents.Api.Submit
import ReliableAgents.Machine.Run
import ReliableAgents.Orchestrator.Classify
import ReliableAgents.Worker.Executor
import Mathlib.Logic.Function.Basic

/-!
# The whole system

Any number of worker processes, orchestrators and clients over one database.
One action is one transaction, or one stretch of a worker's own code between
two; every interleaving of them is a run. An action carries the clock it reads,
the rows other transactions hold locked, and whatever the database or the task
draws. A sweep that raises is logged and leaves the state as it was.
-/

namespace ReliableAgents

/-- `WORKER_ID`, which defaults to the process id. -/
def defaultWorkerId (workerIdVar : Option String) (pid : Nat) : WorkerId :=
  workerIdVar.getD ("worker-" ++ toString pid)

/-- What is fixed before the first process starts. -/
structure Config where
  ladder : Ladder
  /-- The worker id `common.config` gives each process. -/
  workerId : Nat → WorkerId
  poolTier : Nat → TierName
  /-- What `load_registry` resolves. -/
  registry : Int → Option TaskDef
  /-- The keys of the API's `TASK_DEFS`. -/
  taskDefs : List Int
  leaseTtlSeconds : Int
  maxActiveAgents : Nat
  sha256 : String → ActionId

structure Sys where
  db : Db
  workers : Nat → Worker

namespace Sys

def init : Sys where
  db := .empty
  workers := fun _ => {}

def setDb (s : Sys) (db : Db) : Sys := { s with db := db }

def setWorker (s : Sys) (p : Nat) (w : Worker) : Sys :=
  { s with workers := Function.update s.workers p w }

def setPhase (s : Sys) (p : Nat) (phase : Phase) : Sys :=
  s.setWorker p { s.workers p with phase := phase }

end Sys

/-- A call of the ledger by other code than `run_task`. -/
inductive LedgerCall where
  | begin (agentId : Uuid) (seq : Nat) (actionType : String) (now : Time)
  | settle (key : ActionId) (result : PyDict) (now : Time)
  | release (key : ActionId)

inductive Action where
  | claim (p : Nat) (now started : Time) (locked : Uuid → Bool)
  | load (p : Nat)
  | begin (p : Nat) (now : Time)
  | run (p : Nat) (outcome : RunOutcome)
  | settle (p : Nat) (now : Time)
  /-- `if hb.lost`. -/
  | confirm (p : Nat)
  | checkpoint (p : Nat) (now : Time)
  | report (p : Nat) (now : Time)
  | heartbeat (p : Nat) (now : Time)
  /-- A renewal by the thread of an earlier handout, which `stop` gave up joining. -/
  | straggle (p : Nat) (taskId : Uuid) (now : Time)
  /-- `stop` has joined the thread of an earlier handout. -/
  | join (p : Nat) (taskId : Uuid)
  /-- An exception other than a `TaskFailure` leaves `process_one`. -/
  | abandon (p : Nat)
  /-- The process dies; another may start in its place. -/
  | crash (p : Nat)
  | reap (batch : Nat) (jitter : Uuid → Time) (now : Time) (locked : Uuid → Bool)
  | repair (batch : Nat) (ids : Uuid → Uuid) (now : Time) (locked : Uuid → Bool)
  | finalise (batch : Nat) (now : Time) (locked : Uuid → Bool)
  | classify (limit : Nat) (flags : Uuid → Flags) (now : Time) (locked : Uuid → Bool)
  | reconcile (afterSeconds : Option Int) (batch : Nat) (now : Time) (locked : ActionId → Bool)
  | submit (forceTier : Option TierName) (plan : List Int) (agentIds : List Uuid)
      (ids : Uuid → Nat → Uuid) (now : Time)
  | seed (plan : List Int) (agentIds : List Uuid) (ids : Uuid → Nat → Uuid) (now : Time)
  | ledger (call : LedgerCall)

def Action.clock : Action → Option Time
  | .claim _ now _ _ => some now
  | .begin _ now => some now
  | .settle _ now => some now
  | .checkpoint _ now => some now
  | .report _ now => some now
  | .heartbeat _ now => some now
  | .straggle _ _ now => some now
  | .reap _ _ now _ => some now
  | .repair _ _ now _ => some now
  | .finalise _ now _ => some now
  | .classify _ _ now _ => some now
  | .reconcile _ _ now _ => some now
  | .submit _ _ _ _ now => some now
  | .seed _ _ _ now => some now
  | .ledger (.begin _ _ _ now) => some now
  | .ledger (.settle _ _ now) => some now
  | .ledger (.release _) => none
  | .load _ => none
  | .run _ _ => none
  | .confirm _ => none
  | .join _ _ => none
  | .abandon _ => none
  | .crash _ => none

/-- Other code than `run_task` and `reconcile` uses the ledger. -/
def Action.callsLedger : Action → Bool
  | .ledger _ => true
  | _ => false

theorem Action.ne_ledger {a : Action} (h : a.callsLedger = false) (call : LedgerCall) :
    a ≠ .ledger call := by
  rintro rfl
  cases h

/-- A call's effect on the database, whatever it answers. -/
def LedgerCall.perform (sha256 : String → ActionId) (db : Db) : LedgerCall → Db
  | .begin agentId seq actionType now =>
      match Ledger.begin sha256 agentId seq actionType now db with
      | none => db
      | some answer => answer.2.2.2
  | .settle key result now =>
      match Ledger.settle key result now db with
      | none => db
      | some answer => answer.1
  | .release key => (Ledger.release key db).1

/-- `claim_one`, then a fresh heartbeat. -/
def claimTask (cfg : Config) (s : Sys) (p : Nat) (now started : Time)
    (locked : Uuid → Bool) : Sys :=
  match claimOne (cfg.poolTier p) (cfg.workerId p) cfg.leaseTtlSeconds now locked s.db with
  | none => s
  | some claimed =>
      (s.setDb claimed.2).setWorker p
        { phase := .claimed claimed.1 started
          lost := false
          heartbeats := claimed.1.id :: (s.workers p).heartbeats }

/-- One turn of the heartbeat thread of the task in hand. -/
def beat (cfg : Config) (s : Sys) (p : Nat) (task : Handout) (now : Time) : Sys :=
  let renewed := renewSql task.id (cfg.workerId p) cfg.leaseTtlSeconds now s.db
  (s.setDb renewed.1).setWorker p { s.workers p with lost := renewed.2 = 0 }

def step (cfg : Config) (s : Sys) : Action → Option Sys
  | .claim p now started locked =>
      match (s.workers p).phase with
      | .idle => some (claimTask cfg s p now started locked)
      | _ => none
  | .load p =>
      match (s.workers p).phase with
      | .claimed task started => some (s.setPhase p (startTask cfg.registry task started s.db))
      | _ => none
  | .begin p now =>
      match (s.workers p).phase with
      | .reserving task started ctx =>
          let begun := beginAction cfg.sha256 task started ctx now s.db
          some ((s.setDb begun.2).setPhase p begun.1)
      | _ => none
  | .run p outcome =>
      match (s.workers p).phase with
      | .running task started _ actionKey =>
          some (s.setPhase p (afterRun cfg.ladder task started actionKey outcome))
      | _ => none
  | .settle p now =>
      match (s.workers p).phase with
      | .settling task started actionKey result =>
          let settled := settleAction cfg.ladder task started actionKey result now s.db
          some ((s.setDb settled.2).setPhase p settled.1)
      | _ => none
  | .confirm p =>
      match (s.workers p).phase with
      | .finished task started result cost tokens _ =>
          if (s.workers p).lost then some (s.setPhase p .idle)
          else some (s.setPhase p (.committing task started result cost tokens))
      | _ => none
  | .checkpoint p now =>
      match (s.workers p).phase with
      | .committing task started result cost tokens =>
          match checkpointSuccess task result cost tokens started (cfg.workerId p) now s.db with
          | none => some (s.setPhase p .idle)
          | some committed => some ((s.setDb committed.1).setPhase p .idle)
      | _ => none
  | .report p now =>
      match (s.workers p).phase with
      | .failing task started failure =>
          let reported := reportFailure task failure started (cfg.workerId p) now s.db
          some ((s.setDb reported.1).setPhase p .idle)
      | _ => none
  | .heartbeat p now =>
      match (s.workers p).phase.task? with
      | some task => if (s.workers p).lost then none else some (beat cfg s p task now)
      | none => none
  | .straggle p taskId now =>
      if taskId ∈ (s.workers p).heartbeats then
        some (s.setDb (renewSql taskId (cfg.workerId p) cfg.leaseTtlSeconds now s.db).1)
      else none
  | .join p taskId =>
      if (s.workers p).phase.task?.map Handout.id = some taskId then none
      else
        some
          (s.setWorker p
            { s.workers p with heartbeats := (s.workers p).heartbeats.erase taskId })
  | .abandon p => some (s.setPhase p .idle)
  | .crash p => some (s.setWorker p {})
  | .reap batch jitter now locked => some (s.setDb (reap batch jitter now locked s.db))
  | .repair batch ids now locked =>
      some (s.setDb ((repairStalled cfg.ladder batch ids now locked s.db).getD s.db))
  | .finalise batch now locked => some (s.setDb (finaliseAgents batch now locked s.db))
  | .classify limit flags now locked =>
      some (s.setDb ((classify cfg.ladder limit flags now locked s.db).getD s.db))
  | .reconcile afterSeconds batch now locked =>
      some
        (s.setDb
          (Ledger.reconcile cfg.leaseTtlSeconds afterSeconds batch now locked s.db))
  | .submit forceTier plan agentIds ids now =>
      match submitAgents cfg.ladder cfg.taskDefs cfg.maxActiveAgents forceTier plan agentIds ids now
          s.db with
      | .error _ => some s
      | .ok db => some (s.setDb db)
  | .seed plan agentIds ids now =>
      some (s.setDb ((seed cfg.ladder plan agentIds ids now s.db).getD s.db))
  | .ledger call => some (s.setDb (call.perform cfg.sha256 s.db))

abbrev SysTransition := Machine.Transition Sys Action

abbrev SysRun (cfg : Config) (ts : List SysTransition) (s : Sys) : Prop :=
  Machine.Run (step cfg) .init ts s

section Projections

variable {s : Sys} {db : Db} {p q : Nat} {w : Worker} {phase : Phase}

@[simp] theorem Sys.setDb_db : (s.setDb db).db = db := rfl

@[simp] theorem Sys.setPhase_db : (s.setPhase p phase).db = s.db := rfl

theorem Sys.setWorker_workers :
    (s.setWorker p w).workers q = if q = p then w else s.workers q := by
  simp [setWorker, Function.update_apply]

theorem Sys.setPhase_workers :
    (s.setPhase p phase).workers q =
      if q = p then { s.workers p with phase := phase } else s.workers q :=
  setWorker_workers

theorem Sys.setHeartbeats_worker {heartbeats : List Uuid} :
    (s.setWorker p { s.workers p with heartbeats := heartbeats }).workers q =
      { s.workers q with
        heartbeats := if q = p then heartbeats else (s.workers q).heartbeats } := by
  rw [setWorker_workers]
  split
  · rename_i heq
    rw [heq]
  · rfl

end Projections

theorem step_join {cfg : Config} {s s' : Sys} {p : Nat} {taskId : Uuid}
    (h : step cfg s (.join p taskId) = some s') :
    s' = s.setWorker p
      { s.workers p with heartbeats := (s.workers p).heartbeats.erase taskId } := by
  simp only [step] at h
  split at h
  · cases h
  · exact (Option.some.inj h).symm

theorem LedgerCall.perform_db (sha256 : String → ActionId) (db : Db) (call : LedgerCall) :
    ∃ table, call.perform sha256 db = { db with idempotency := table } := by
  cases call with
  | begin agentId seq actionType now =>
      simp only [perform]
      split
      · exact ⟨db.idempotency, rfl⟩
      · rename_i answer hbegin
        obtain ⟨status, stored, key, db'⟩ := answer
        obtain ⟨-, ⟨-, -, -, table, heq, -⟩ | ⟨heq, -⟩⟩ := Ledger.begin_spec hbegin
        · exact ⟨table, heq⟩
        · exact ⟨db.idempotency, heq⟩
  | settle key result now =>
      simp only [perform]
      split
      · exact ⟨db.idempotency, rfl⟩
      · rename_i answer hsettle
        obtain ⟨db', ok⟩ := answer
        obtain ⟨-, -, -, hwrites, -⟩ := Ledger.settle_spec hsettle
        exact hwrites
  | release key => exact ⟨_, rfl⟩

end ReliableAgents
