import ReliableAgents.System

/-!
# Submission, statement by statement

`submit_agents` of `api/main.py` as one of many concurrent requests: the check of
the body, the advisory lock, the count, one `INSERT` after another, and the commit
or the rollback that ends the transaction and gives the lock back. What a
transaction has written is its own until it commits.
-/

namespace ReliableAgents

/-- A request body, with the pinned tier and the clock that serving it reads and the
ids that it draws. -/
structure Request where
  plan : List Int
  count : Nat
  forceTier : Option TierName
  agentId : Nat → Uuid
  ids : Uuid → Nat → Uuid
  now : Time

def Request.agentIds (r : Request) : List Uuid := (List.range r.count).map r.agentId

/-! ## The statements of the insert loop -/

inductive Insert where
  | agent (a : Agent)
  | task (t : TaskInstance)

def Insert.perform (ladder : Ladder) (db : Db) : Insert → Option Db
  | .agent a => insertAgent a db
  | .task t => insertTask ladder t db

/-- The inner loop, from position `seq` on. -/
def planInserts (agentId : Uuid) (tier : TierName) (ids : Nat → Uuid) (now : Time) :
    Nat → List Int → List Insert
  | _, [] => []
  | seq, taskDefId :: rest =>
      .task (.fresh (ids seq) agentId seq taskDefId tier now) ::
        planInserts agentId tier ids now (seq + 1) rest

def agentInserts (r : Request) (tier : TierName) (agentId : Uuid) : List Insert :=
  .agent (.fresh agentId r.plan r.now) :: planInserts agentId tier (r.ids agentId) r.now 0 r.plan

def Request.inserts (r : Request) (tier : TierName) : List Insert :=
  r.agentIds.flatMap (agentInserts r tier)

/-- A transaction's writes over a committed state: `none` when one of them raises. -/
def replay (ladder : Ladder) (written : List Insert) (db : Db) : Option Db :=
  written.foldlM (Insert.perform ladder) db

theorem replay_planInserts (ladder : Ladder) (agentId : Uuid) (tier : TierName) (ids : Nat → Uuid)
    (now : Time) (seq : Nat) (plan : List Int) (db : Db) :
    replay ladder (planInserts agentId tier ids now seq plan) db =
      insertPlan ladder agentId tier ids now seq plan db := by
  induction plan generalizing seq db with
  | nil => rfl
  | cons taskDefId rest ih =>
      simp only [planInserts, replay, List.foldlM_cons, Insert.perform, insertPlan,
        Option.bind_eq_bind]
      congr 1
      funext mid
      exact ih (seq + 1) mid

/-- The whole loop is `createAgents`. -/
theorem replay_inserts (ladder : Ladder) (r : Request) (tier : TierName) (db : Db) :
    replay ladder (r.inserts tier) db =
      createAgents ladder r.plan tier r.agentIds r.ids r.now db := by
  unfold Request.inserts createAgents
  generalize r.agentIds = agentIds
  induction agentIds generalizing db with
  | nil => rfl
  | cons a rest ih =>
      rw [List.flatMap_cons, replay, List.foldlM_append, List.foldlM_cons]
      have hfirst : (agentInserts r tier a).foldlM (Insert.perform ladder) db =
          createAgent ladder r.plan tier r.ids r.now db a := by
        simp only [agentInserts, List.foldlM_cons, Insert.perform, createAgent, Option.bind_eq_bind]
        congr 1
        funext mid
        exact replay_planInserts ladder a tier (r.ids a) r.now 0 r.plan mid
      rw [hfirst]
      congr 1
      funext mid
      exact ih mid

/-! ## Requests in flight -/

inductive Rejection where
  | refused (error : SubmitError)
  /-- The connection was lost or a statement raised. -/
  | aborted
deriving DecidableEq, Repr

inductive Client where
  | idle
  /-- In `pg_advisory_xact_lock`. -/
  | waiting (r : Request) (tier : TierName)
  | locked (r : Request) (tier : TierName)
  | inserting (r : Request) (tier : TierName) (written left : List Insert)
  /-- An exception is on its way out of the `with` block. -/
  | unwinding (r : Request) (reason : Rejection)
  | rejected (r : Request) (reason : Rejection)
  | accepted (r : Request)

def Client.holds : Client → Bool
  | .locked _ _ | .inserting _ _ _ _ | .unwinding _ _ => true
  | .idle | .waiting _ _ | .rejected _ _ | .accepted _ => false

/-- The request of a transaction that has begun and not ended. -/
def Client.open? : Client → Option Request
  | .waiting r _ | .locked r _ | .inserting r _ _ _ | .unwinding r _ => some r
  | .idle | .rejected _ _ | .accepted _ => none

/-- The request that is on its way to being accepted, and the tier of its rows. -/
def Client.serving? : Client → Option (Request × TierName)
  | .waiting r tier | .locked r tier | .inserting r tier _ _ => some (r, tier)
  | .idle | .unwinding _ _ | .rejected _ _ | .accepted _ => none

/-- `submit_agents` up to the transaction. -/
def arrive (cfg : Config) (r : Request) : Client :=
  let unknown := r.plan.filter fun tid => tid ∉ cfg.taskDefs
  if unknown ≠ [] then .rejected r (.refused (.unknownTaskIds (unknown.dedup.insertionSort (· ≤ ·))))
  else if r.plan = [] then .rejected r (.refused .emptyPlan)
  else
    match r.forceTier.or cfg.ladder.baseTier with
    | none => .rejected r (.refused .noTiers)
    | some tier => .waiting r tier

/-- The count, and the branch that the process takes on it. -/
def countRunning (cfg : Config) (r : Request) (tier : TierName) (db : Db) : Client :=
  if activeAgents db + r.count > cfg.maxActiveAgents then
    .unwinding r (.refused (.atCapacity (activeAgents db) r.count))
  else .inserting r tier [] (r.inserts tier)

structure Front where
  sys : Sys
  clients : Nat → Client
  /-- Whose transaction holds the advisory lock. -/
  lock : Option Nat

namespace Front

def setClient (f : Front) (c : Nat) (client : Client) : Front :=
  { f with clients := Function.update f.clients c client }

/-- The end of a transaction: its lock is free. -/
def finish (f : Front) (c : Nat) (client : Client) : Front :=
  { f.setClient c client with lock := if f.lock = some c then none else f.lock }

end Front

inductive FrontAction where
  | arrive (c : Nat) (r : Request)
  | lock (c : Nat)
  | count (c : Nat)
  | insert (c : Nat)
  | commit (c : Nat)
  | rollback (c : Nat)
  /-- The client's connection is lost. -/
  | abort (c : Nat)
  /-- A worker, an orchestrator or the ledger acts. -/
  | other (a : Action)

def FrontAction.client? : FrontAction → Option Nat
  | .arrive c _ | .lock c | .count c | .insert c | .commit c | .rollback c | .abort c => some c
  | .other _ => none

def Action.creates : Action → Bool
  | .submit _ _ _ _ _ | .seed _ _ _ _ => true
  | _ => false

def serve (cfg : Config) (f : Front) : FrontAction → Option Front
  | .arrive c r =>
      match f.clients c with
      | .idle => some (f.setClient c (ReliableAgents.arrive cfg r))
      | _ => none
  | .lock c =>
      match f.clients c with
      | .waiting r tier =>
          if f.lock = none then some { f.setClient c (.locked r tier) with lock := some c } else none
      | _ => none
  | .count c =>
      match f.clients c with
      | .locked r tier => some (f.setClient c (countRunning cfg r tier f.sys.db))
      | _ => none
  | .insert c =>
      match f.clients c with
      | .inserting r tier written (statement :: left) =>
          if (replay cfg.ladder (written ++ [statement]) f.sys.db).isSome then
            some (f.setClient c (.inserting r tier (written ++ [statement]) left))
          else some (f.setClient c (.unwinding r .aborted))
      | _ => none
  | .commit c =>
      match f.clients c with
      | .inserting r _ written [] =>
          match replay cfg.ladder written f.sys.db with
          | none => some (f.finish c (.rejected r .aborted))
          | some db => some { f.finish c (.accepted r) with sys := f.sys.setDb db }
      | _ => none
  | .rollback c =>
      match f.clients c with
      | .unwinding r reason => some (f.finish c (.rejected r reason))
      | _ => none
  | .abort c =>
      match (f.clients c).open? with
      | some r => some (f.finish c (.rejected r .aborted))
      | none => none
  | .other a => if a.creates then none else (step cfg f.sys a).map fun sys => { f with sys := sys }

abbrev FrontTransition := Machine.Transition Front FrontAction

section Projections

variable {f : Front} {c d : Nat} {client : Client}

@[simp] theorem Front.setClient_sys : (f.setClient c client).sys = f.sys := rfl

@[simp] theorem Front.setClient_lock : (f.setClient c client).lock = f.lock := rfl

@[simp] theorem Front.finish_sys : (f.finish c client).sys = f.sys := rfl

theorem Front.setClient_clients :
    (f.setClient c client).clients d = if d = c then client else f.clients d := by
  simp [setClient, Function.update_apply]

theorem Front.finish_clients :
    (f.finish c client).clients d = if d = c then client else f.clients d :=
  setClient_clients

end Projections

end ReliableAgents
