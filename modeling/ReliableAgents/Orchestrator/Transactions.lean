import ReliableAgents.Orchestrator.Routing
import ReliableAgents.System

/-!
# Concurrent `classify()` transactions

`classify` statement by statement, at READ COMMITTED. `TAKE_FAILED_SQL` walks the rows it
found in its snapshot: it steps past a locked one, and takes the current version of any
other if that is still 'failed'. Each captured row is then routed on what the
transaction sees, and the writes become visible together at the commit, or not at
all. A row lock has one holder, which keeps it until the transaction ends.
-/

namespace ReliableAgents

open Relational

/-- An open `classify()`: the found rows it has yet to visit, the captured rows it has yet
to route, and the writes of those it has routed. -/
structure Txn where
  limit : Nat
  now : Time
  found : List TaskInstance
  taken : List TaskInstance := []
  writes : List Write := []

namespace Txn

def fetched (txn : Txn) : Bool :=
  txn.found.isEmpty || txn.limit ≤ txn.taken.length + txn.writes.length

def captured (txn : Txn) : List TaskInstance := txn.writes.map Write.task ++ txn.taken

def view (txn : Txn) (db : Db) : Db := txn.writes.foldl Write.perform db

end Txn

structure Concurrent where
  sys : Sys
  /-- The transaction each orchestrator has open. -/
  txns : Nat → Option Txn
  rowLock : Uuid → Option Nat
  agentLock : Uuid → Option Nat

inductive ConcurrentAction where
  | act (a : Action)
  /-- `classify` begins: the snapshot of `TAKE_FAILED_SQL`. -/
  | start (q : Nat) (limit : Nat) (now : Time)
  /-- It visits the next found row; `contended` when some other statement has it locked. -/
  | take (q : Nat) (contended : Bool)
  /-- `route_one` on the next captured row. -/
  | route (q : Nat) (flags : Flags)
  | commit (q : Nat)
  /-- An exception, or the connection is gone. -/
  | abort (q : Nat)

/-- The statements of an action step past locked rows. -/
def Action.skipping (rows agents : Uuid → Bool) : Action → Action
  | .claim p now started locked => .claim p now started fun k => locked k || rows k
  | .reap batch jitter now locked => .reap batch jitter now fun k => locked k || rows k
  | .repair batch ids now locked => .repair batch ids now fun k => locked k || agents k
  | .finalise batch now locked => .finalise batch now fun k => locked k || agents k
  | a => a

/-- `classify` as one step: here it runs statement by statement. -/
def Action.classifies : Action → Bool
  | .classify _ _ _ _ => true
  | _ => false

namespace Concurrent

def init : Concurrent where
  sys := .init
  txns := fun _ => none
  rowLock := fun _ => none
  agentLock := fun _ => none

def setTxn (s : Concurrent) (q : Nat) (txn : Txn) : Concurrent :=
  { s with txns := Function.update s.txns q (some txn) }

/-- The end of a transaction releases its locks. -/
def release (s : Concurrent) (q : Nat) : Concurrent :=
  { s with
    txns := Function.update s.txns q none
    rowLock := fun k => if s.rowLock k = some q then none else s.rowLock k
    agentLock := fun a => if s.agentLock a = some q then none else s.agentLock a }

/-- The update of a leased row waits for its lock. -/
def rowWaits (cfg : Config) (s : Concurrent) (p : Nat) (taskId : Uuid) : Bool :=
  !(s.sys.db.taskInstances.select fun t =>
    leasedBy taskId (cfg.workerId p) t && (s.rowLock t.id).isSome).isEmpty

/-- The update of the agent behind a leased row waits for its lock. -/
def agentWaits (cfg : Config) (s : Concurrent) (p : Nat) (task : Handout) : Bool :=
  s.sys.db.taskInstances.count (leasedBy task.id (cfg.workerId p)) ≠ 0 &&
    !(s.sys.db.agents.select fun a =>
      a.id = task.agentId && a.cursor = task.seq && (s.agentLock a.id).isSome).isEmpty

def waits (cfg : Config) (s : Concurrent) : Action → Bool
  | .checkpoint p _ =>
      match (s.sys.workers p).phase.task? with
      | none => false
      | some task => rowWaits cfg s p task.id || agentWaits cfg s p task
  | .report p _ | .heartbeat p _ =>
      match (s.sys.workers p).phase.task? with
      | none => false
      | some task => rowWaits cfg s p task.id
  | .straggle p taskId _ => rowWaits cfg s p taskId
  | _ => false

/-- A statement of `route_one` waits for a lock of another transaction. -/
def routeWaits (s : Concurrent) (q : Nat) (w : Write) : Bool :=
  w.siblings.any (fun k => s.rowLock k ≠ none && s.rowLock k ≠ some q) ||
    match w.agent? with
    | none => false
    | some a => s.agentLock a ≠ none && s.agentLock a ≠ some q

/-- The next row of the snapshot, at its current version. -/
def take (s : Concurrent) (q : Nat) (contended : Bool) (txn : Txn) (t : TaskInstance)
    (rest : List TaskInstance) : Concurrent :=
  match s.sys.db.task t.id with
  | none => s.setTxn q { txn with found := rest }
  | some u =>
      if u.status = .failed ∧ s.rowLock u.id = none ∧ contended = false then
        { s.setTxn q { txn with found := rest, taken := txn.taken ++ [u] } with
          rowLock := Function.update s.rowLock u.id (some q) }
      else s.setTxn q { txn with found := rest }

/-- A routed row: its write is held, and what it changes is locked. -/
def route (s : Concurrent) (q : Nat) (txn : Txn) (w : Write) (rest : List TaskInstance) :
    Concurrent :=
  { s.setTxn q { txn with taken := rest, writes := txn.writes ++ [w] } with
    rowLock := fun k => if k ∈ w.siblings then some q else s.rowLock k
    agentLock := fun a => if w.agent? = some a then some q else s.agentLock a }

def step (cfg : Config) (s : Concurrent) : ConcurrentAction → Option Concurrent
  | .act a =>
      if a.classifies || waits cfg s a then none
      else
        (ReliableAgents.step cfg s.sys
          (a.skipping (fun k => (s.rowLock k).isSome) fun k => (s.agentLock k).isSome)).map
            fun sys => { s with sys := sys }
  | .start q limit now =>
      match s.txns q with
      | some _ => none
      | none =>
          some
            (s.setTxn q
              { limit := limit
                now := now
                found :=
                  (s.sys.db.taskInstances.select fun t => t.status = .failed).insertionSort
                    fun t u => t.updatedAt ≤ u.updatedAt })
  | .take q contended =>
      match s.txns q with
      | none => none
      | some txn =>
          match txn.found with
          | [] => none
          | t :: rest => if txn.fetched then none else some (s.take q contended txn t rest)
  | .route q flags =>
      match s.txns q with
      | none => none
      | some txn =>
          match txn.taken with
          | [] => none
          | task :: rest =>
              match routeWrite cfg.ladder flags txn.now task (txn.view s.sys.db) with
              | none => none
              | some w =>
                  if !txn.fetched || s.routeWaits q w then none
                  else some (s.route q txn w rest)
  | .commit q =>
      match s.txns q with
      | none => none
      | some txn =>
          if txn.fetched && txn.taken.isEmpty then
            some { s.release q with sys := s.sys.setDb (txn.view s.sys.db) }
          else none
  | .abort q =>
      match s.txns q with
      | none => none
      | some _ => some (s.release q)

end Concurrent

abbrev ConcurrentTransition := Machine.Transition Concurrent ConcurrentAction

/-- A run in which every classification is a transaction of its own. -/
abbrev ConcurrentRun (cfg : Config) (ts : List ConcurrentTransition) (s : Concurrent) : Prop :=
  Machine.Run (Concurrent.step cfg) .init ts s

namespace Concurrent

def ran (cfg : Config) (actions : List ConcurrentAction) :
    List ConcurrentTransition × Concurrent :=
  Machine.performed (step cfg) .init actions

theorem run_ran (cfg : Config) (actions : List ConcurrentAction) :
    ConcurrentRun cfg (ran cfg actions).1 (ran cfg actions).2 :=
  Machine.run_performed (step cfg) .init actions

end Concurrent

/-! ## What a step does -/

section Step

variable {cfg : Config} {s s' : Concurrent} {q : Nat}

theorem Concurrent.step_act {a : Action} (h : Concurrent.step cfg s (.act a) = some s') :
    a.classifies = false ∧ ∃ sys,
      ReliableAgents.step cfg s.sys
        (a.skipping (fun k => (s.rowLock k).isSome) fun k => (s.agentLock k).isSome) = some sys ∧
      s' = { s with sys := sys } := by
  simp only [Concurrent.step] at h
  split at h
  · cases h
  · rename_i hfree
    obtain ⟨sys, hstep, rfl⟩ := Option.map_eq_some_iff.1 h
    simp only [Bool.or_eq_true, not_or, Bool.not_eq_true] at hfree
    exact ⟨hfree.1, sys, hstep, rfl⟩

theorem Concurrent.step_start {limit : Nat} {now : Time}
    (h : Concurrent.step cfg s (.start q limit now) = some s') :
    ∃ found, s' = s.setTxn q { limit := limit, now := now, found := found } := by
  simp only [Concurrent.step] at h
  split at h <;> cases h
  exact ⟨_, rfl⟩

/-- A visited row is stepped past, or locked at its current version. -/
theorem Concurrent.step_take {contended : Bool}
    (h : Concurrent.step cfg s (.take q contended) = some s') :
    ∃ txn rest, s.txns q = some txn ∧
      (s' = s.setTxn q { txn with found := rest } ∨
        ∃ u, s.sys.db.task u.id = some u ∧ u.status = .failed ∧ s.rowLock u.id = none ∧
          s' = { s.setTxn q { txn with found := rest, taken := txn.taken ++ [u] } with
            rowLock := Function.update s.rowLock u.id (some q) }) := by
  simp only [Concurrent.step] at h
  split at h
  · cases h
  rename_i txn htxn
  split at h
  · cases h
  rename_i t rest hfound
  split at h <;> cases h
  refine ⟨txn, rest, htxn, ?_⟩
  unfold Concurrent.take
  split
  · exact Or.inl rfl
  · rename_i u hu
    split
    · rename_i hfree
      have hid : u.id = t.id := Db.id_of_task hu
      exact Or.inr ⟨u, hid ▸ hu, hfree.1, hfree.2.1, rfl⟩
    · exact Or.inl rfl

theorem Concurrent.step_route {flags : Flags}
    (h : Concurrent.step cfg s (.route q flags) = some s') :
    ∃ txn task rest w, s.txns q = some txn ∧ txn.taken = task :: rest ∧
      routeWrite cfg.ladder flags txn.now task (txn.view s.sys.db) = some w ∧
      s.routeWaits q w = false ∧ s' = s.route q txn w rest := by
  simp only [Concurrent.step] at h
  split at h
  · cases h
  rename_i txn htxn
  split at h
  · cases h
  rename_i task rest htaken
  split at h
  · cases h
  rename_i w hw
  split at h
  · cases h
  · rename_i hfree
    cases h
    simp only [Bool.or_eq_true, not_or, Bool.not_eq_true] at hfree
    exact ⟨txn, task, rest, w, htxn, htaken, hw, hfree.2, rfl⟩

theorem Concurrent.step_commit (h : Concurrent.step cfg s (.commit q) = some s') :
    ∃ txn, s.txns q = some txn ∧ txn.taken = [] ∧
      s' = { s.release q with sys := s.sys.setDb (txn.view s.sys.db) } := by
  simp only [Concurrent.step] at h
  split at h
  · cases h
  · rename_i txn htxn
    split at h
    · rename_i hdone
      cases h
      simp only [Bool.and_eq_true, List.isEmpty_iff] at hdone
      exact ⟨txn, htxn, hdone.2, rfl⟩
    · cases h

theorem Concurrent.step_abort (h : Concurrent.step cfg s (.abort q) = some s') :
    (∃ txn, s.txns q = some txn) ∧ s' = s.release q := by
  simp only [Concurrent.step] at h
  split at h
  · cases h
  · rename_i txn htxn
    cases h
    exact ⟨⟨txn, htxn⟩, rfl⟩

theorem Concurrent.setTxn_txns {txn : Txn} {r : Nat} :
    (s.setTxn q txn).txns r = if r = q then some txn else s.txns r := by
  simp [setTxn, Function.update_apply]

theorem Concurrent.route_txns {txn : Txn} {w : Write} {rest : List TaskInstance} {r : Nat} :
    (s.route q txn w rest).txns r =
      if r = q then some { txn with taken := rest, writes := txn.writes ++ [w] }
      else s.txns r :=
  setTxn_txns

theorem Concurrent.release_txns {r : Nat} {txn : Txn} :
    (s.release q).txns r = some txn ↔ r ≠ q ∧ s.txns r = some txn := by
  simp only [release, Function.update_apply]
  split
  · rename_i heq
    simp [heq]
  · rename_i hne
    simp [hne]

theorem Concurrent.release_rowLock {r : Nat} {k : Uuid} (hne : r ≠ q)
    (h : s.rowLock k = some r) : (s.release q).rowLock k = some r := by
  simp [release, h, hne]

end Step

end ReliableAgents
