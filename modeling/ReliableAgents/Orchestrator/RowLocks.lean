import ReliableAgents.Machine.Locking
import ReliableAgents.Relational.Picks
import ReliableAgents.System

/-!
# The other transactions, statement by statement

`REAP_SQL`, `FINALISE_SQL` and `RECONCILE_SQL` walk the rows of a snapshot at READ COMMITTED,
step past a locked one, check any other once more at its current version, and write all they
have locked together. `checkpoint_success` and `report_failure` update one row after another,
waiting for each, and commit with the evidence. Everything else goes on in between. None of
it can be told from single steps.
-/

namespace ReliableAgents

open Relational

inductive Connection where
  | worker (p : Nat)
  | orchestrator (q : Nat)
deriving DecidableEq, Repr

inductive RowKey where
  | task (id : Uuid)
  | agent (id : Uuid)
  | action (key : ActionId)
deriving DecidableEq, Repr

inductive Row where
  | task (t : Option TaskInstance)
  | agent (ag : Option Agent)
  | action (r : Option Reservation)
deriving DecidableEq, Repr

def Db.row (db : Db) : RowKey → Row
  | .task k => .task (db.task k)
  | .agent a => .agent (db.agent a)
  | .action key => .action (db.reservation key)

/-- A sweep's statement under way: the rows it has yet to visit, and those it has locked. -/
structure RowScan (ρ : Type) where
  limit : Nat
  now : Time
  found : List ρ
  taken : List ρ := []

def RowScan.fetched {ρ : Type} (scan : RowScan ρ) : Bool :=
  scan.found.isEmpty || scan.limit ≤ scan.taken.length

/-- The next row of the snapshot, at its current version. -/
def RowScan.visit {ρ : Type} (current : ρ → Option ρ) (free : ρ → Bool) (scan : RowScan ρ) :
    Option (RowScan ρ) :=
  match scan.found with
  | [] => none
  | r :: rest =>
      if scan.limit ≤ scan.taken.length then none
      else
        match current r with
        | none => some { scan with found := rest }
        | some u =>
            if free u then some { scan with found := rest, taken := scan.taken ++ [u] }
            else some { scan with found := rest }

inductive OpenTxn where
  | reap (jitter : Uuid → Time) (scan : RowScan TaskInstance)
  | finalise (scan : RowScan Agent)
  | reconcile (age : Int) (scan : RowScan Reservation)
  /-- The task row it has updated, and the agent row. -/
  | checkpoint (now : Time) (marked : Option TaskInstance) (moved : Option Agent)
  | report (now : Time) (marked : Option TaskInstance)

def OpenTxn.locks : OpenTxn → List RowKey
  | .reap _ scan => scan.taken.map fun t => .task t.id
  | .finalise scan => scan.taken.map fun ag => .agent ag.id
  | .reconcile _ scan => scan.taken.map fun r => .action r.key
  | .checkpoint _ marked moved =>
      (marked.map fun t => RowKey.task t.id).toList ++
        (moved.map fun ag => RowKey.agent ag.id).toList
  | .report _ marked => (marked.map fun t => RowKey.task t.id).toList

inductive TxnStart where
  | reap (limit : Nat) (jitter : Uuid → Time) (now : Time)
  | finalise (limit : Nat) (now : Time)
  | reconcile (afterSeconds : Option Int) (limit : Nat) (now : Time)
  | checkpoint (now : Time)
  | report (now : Time)

inductive TxnStatement where
  /-- The next row; `contended` when some other statement has it locked. -/
  | next (contended : Bool)
  | commit
  /-- An exception, or the connection is gone. -/
  | fail

/-- The actions that are transactions of several statements. -/
def Action.transacted : Action → Bool
  | .reap _ _ _ _ | .finalise _ _ _ | .reconcile _ _ _ _ | .checkpoint _ _ | .report _ _ => true
  | _ => false

/-- The process whose task in hand an action finishes with. -/
def Action.finisher : Action → Option Nat
  | .checkpoint p _ | .report p _ | .abandon p | .crash p => some p
  | _ => none

/-! ## The statements -/

abbrev TxnOutcome := Machine.StatementResult Sys Action OpenTxn

def OpenTxn.start (cfg : Config) : Connection → TxnStart → Sys → Option OpenTxn
  | .orchestrator _, .reap limit jitter now, s =>
      some
        (.reap jitter
          { limit := limit
            now := now
            found :=
              (s.db.taskInstances.select (expired now)).insertionSort
                fun t u => t.leaseExpires.getD 0 ≤ u.leaseExpires.getD 0 })
  | .orchestrator _, .finalise limit now, s =>
      some
        (.finalise
          { limit := limit
            now := now
            found :=
              (s.db.agents.select (exhausted s.db)).insertionSort
                fun a b => a.updatedAt ≤ b.updatedAt })
  | .orchestrator _, .reconcile afterSeconds limit now, s =>
      let age := afterSeconds.getD (cfg.leaseTtlSeconds * Ledger.reconcileAfter)
      some
        (.reconcile age
          { limit := limit
            now := now
            found :=
              (s.db.idempotency.select (Ledger.orphaned age now)).insertionSort
                fun r r' => r.createdAt ≤ r'.createdAt })
  | .worker p, .checkpoint now, s =>
      match (s.workers p).phase with
      | .committing _ _ _ _ _ => some (.checkpoint now none none)
      | _ => none
  | .worker p, .report now, s =>
      match (s.workers p).phase with
      | .failing _ _ _ => some (.report now none)
      | _ => none
  | _, _, _ => none

/-- A statement of a sweep that visits its rows, and writes those it has locked. -/
def scanStatement {ρ : Type} (wrap : RowScan ρ → OpenTxn) (current : ρ → Option ρ)
    (free : ρ → Bool) (written : List ρ → Db) (act : ρ → Action) (s : Sys) (scan : RowScan ρ) :
    TxnStatement → Option TxnOutcome
  | .next contended =>
      (scan.visit current fun u => free u && !contended).map fun scan' => .goesOn (wrap scan')
  | .commit =>
      if scan.fetched then
        some (.ends (s.setDb (written scan.taken)) (scan.taken.map act))
      else none
  | .fail => some (.ends s [])

def finaliseTaken (now : Time) (taken : List Agent) (db : Db) : Db :=
  { db with
    agents :=
      db.agents.update (fun a => a.id ∈ taken.map Agent.id) (Agent.finalised now)
        (Agent.finalised_id now) (Agent.finalised_id now) }

def reconcileTaken (now : Time) (taken : List Reservation) (db : Db) : Db :=
  { db with
    idempotency :=
      db.idempotency.update (fun r => r.key ∈ taken.map Reservation.key)
        (Ledger.settled Ledger.unresolved now) (Ledger.settled_key Ledger.unresolved now)
        (Ledger.settled_key Ledger.unresolved now) }

theorem TaskInstance.markedSucceeded_position (result : JsonObject) (now : Time)
    (t : TaskInstance) : (t.markedSucceeded result now).position = t.position := rfl

theorem TaskInstance.reportedFailed_position (failure : FailureReport) (now : Time)
    (t : TaskInstance) : (t.reportedFailed failure now).position = t.position := rfl

/-- What the three statements of `checkpoint_success` have written at its commit. -/
def checkpointWritten (task : Handout) (fields : JsonObject) (cost tokens : Int) (started : Time)
    (workerId : WorkerId) (now : Time) (t : TaskInstance) (ag : Agent) (db : Db) : Db :=
  { db with
    taskInstances :=
      db.taskInstances.update (fun r => r.id = t.id) (TaskInstance.markedSucceeded fields now)
        (TaskInstance.markedSucceeded_id fields now)
        (TaskInstance.markedSucceeded_position fields now)
    agents :=
      db.agents.update (fun a => a.id = ag.id) (Agent.advanced task.seq fields cost tokens now)
    attempts :=
      db.attempts ++ [task.attemptRow workerId .succeeded none cost tokens started now] }

/-- What the two statements of `report_failure` have written. -/
def reportWritten (task : Handout) (failure : FailureReport) (started : Time) (workerId : WorkerId)
    (now : Time) (t : TaskInstance) (db : Db) : Db :=
  { db with
    taskInstances :=
      db.taskInstances.update (fun r => r.id = t.id) (TaskInstance.reportedFailed failure now)
        (TaskInstance.reportedFailed_id failure now)
        (TaskInstance.reportedFailed_position failure now)
    attempts :=
      db.attempts ++
        [task.attemptRow workerId .failed (some failure.failureClass) 0 0 started now] }

/-- The statements of `checkpoint_success`; an update of no row rolls back. -/
def checkpointStatement (cfg : Config) (p : Nat) (locked : RowKey → Bool) (s : Sys) (now : Time)
    (marked : Option TaskInstance) (moved : Option Agent) (b : TxnStatement) :
    Option TxnOutcome :=
  let gaveUp : TxnOutcome := .ends (s.setPhase p .idle) [.checkpoint p now]
  match (s.workers p).phase with
  | .committing task started (.json fields) cost tokens =>
      match marked, moved, b with
      | none, _, .next _ =>
          match (s.db.task task.id).filter (leasedBy task.id (cfg.workerId p)) with
          | none => some gaveUp
          | some t =>
              if locked (.task t.id) then none else some (.goesOn (.checkpoint now (some t) none))
      | some t, none, .next _ =>
          match (s.db.agent task.agentId).filter fun a => a.cursor = task.seq with
          | none => some gaveUp
          | some ag =>
              if locked (.agent ag.id) then none
              else some (.goesOn (.checkpoint now (some t) (some ag)))
      | some t, some ag, .commit =>
          let written :=
            checkpointWritten task fields cost tokens started (cfg.workerId p) now t ag s.db
          some (.ends ((s.setDb written).setPhase p .idle) [.checkpoint p now])
      | _, _, _ => none
  | .committing _ _ .unstorable _ _ =>
      match b with
      | .next _ => some gaveUp
      | _ => none
  | _ => none

/-- The statements of `report_failure`. -/
def reportStatement (cfg : Config) (p : Nat) (locked : RowKey → Bool) (s : Sys) (now : Time)
    (marked : Option TaskInstance) (b : TxnStatement) : Option TxnOutcome :=
  match (s.workers p).phase with
  | .failing task started failure =>
      match marked, b with
      | none, .next _ =>
          match (s.db.task task.id).filter (leasedBy task.id (cfg.workerId p)) with
          | none => some (.ends (s.setPhase p .idle) [.report p now])
          | some t =>
              if locked (.task t.id) then none else some (.goesOn (.report now (some t)))
      | some t, .commit =>
          let written := reportWritten task failure started (cfg.workerId p) now t s.db
          some (.ends ((s.setDb written).setPhase p .idle) [.report p now])
      | _, _ => none
  | _ => none

def OpenTxn.statement (cfg : Config) (i : Connection) (b : TxnStatement) (locked : RowKey → Bool)
    (s : Sys) (txn : OpenTxn) : Option TxnOutcome :=
  match i, txn with
  | .orchestrator _, .reap jitter scan =>
      scanStatement (.reap jitter) (fun t => s.db.task t.id)
        (fun t => expired scan.now t && !locked (.task t.id))
        (fun taken => taken.foldl (reclaim jitter scan.now) s.db)
        (fun t => .reap 1 jitter scan.now fun k => k ≠ t.id) s scan b
  | .orchestrator _, .finalise scan =>
      -- `NOT EXISTS` is not evaluated again: no row of `task_instances` is locked
      scanStatement .finalise (fun a => s.db.agent a.id)
        (fun a => a.status = .running && a.plan.length ≤ a.cursor && !locked (.agent a.id))
        (fun taken => finaliseTaken scan.now taken s.db)
        (fun a => .finalise 1 scan.now fun k => k ≠ a.id) s scan b
  | .orchestrator _, .reconcile age scan =>
      scanStatement (.reconcile age) (fun r => s.db.reservation r.key)
        (fun r => Ledger.orphaned age scan.now r && !locked (.action r.key))
        (fun taken => reconcileTaken scan.now taken s.db)
        (fun r => .reconcile (some age) 1 scan.now fun k => k ≠ r.key) s scan b
  | .worker p, .checkpoint now marked moved => checkpointStatement cfg p locked s now marked moved b
  | .worker p, .report now marked => reportStatement cfg p locked s now marked b
  | _, _ => none

/-- Every transaction of these kinds runs statement by statement, under row locks. -/
def locking (cfg : Config) :
    Machine.Locking Sys Action Connection RowKey Row OpenTxn TxnStatement TxnStart where
  step := step cfg
  row := fun s k => s.db.row k
  layered := Action.transacted
  actor := fun a => a.finisher.map .worker
  start := OpenTxn.start cfg
  locks := OpenTxn.locks
  statement := OpenTxn.statement cfg

abbrev LockedSys := Machine.Locked Sys Connection RowKey OpenTxn

abbrev LockedTransition :=
  Machine.Transition LockedSys (Machine.LockAction Action Connection TxnStatement TxnStart)

abbrev LockedRun (cfg : Config) (ts : List LockedTransition) (s : LockedSys) : Prop :=
  Machine.Run (locking cfg).next (.init .init) ts s

/-! ## A sweep row by row -/

section Scans

variable {ρ κ : Type} {key : ρ → κ} {current : κ → Option ρ} {still free : ρ → Bool}
  {scan scan' : RowScan ρ}

/-- The locked rows are as they were found, and no row is met twice. -/
structure RowScan.Valid (key : ρ → κ) (current : κ → Option ρ) (still : ρ → Bool)
    (scan : RowScan ρ) : Prop where
  taken : ∀ u ∈ scan.taken, current (key u) = some u ∧ still u = true
  distinct : ((scan.taken ++ scan.found).map key).Nodup

theorem RowScan.Valid.started {limit : Nat} {now : Time} {found : List ρ}
    (h : (found.map key).Nodup) :
    RowScan.Valid key current still { limit := limit, now := now, found := found } where
  taken := fun u hu => by cases hu
  distinct := h

theorem RowScan.Valid.spared {current' : κ → Option ρ} (h : scan.Valid key current still)
    (hkept : ∀ u ∈ scan.taken, current' (key u) = current (key u)) :
    scan.Valid key current' still where
  taken := fun u hu => ⟨(hkept u hu).trans (h.taken u hu).1, (h.taken u hu).2⟩
  distinct := h.distinct

/-- A visited row is stepped past, or locked as it is now. -/
theorem RowScan.Valid.visit (h : scan.Valid key current still)
    (hkey : ∀ k u, current k = some u → key u = k) (hfree : ∀ u, free u = true → still u = true)
    (hvisit : scan.visit (fun r => current (key r)) free = some scan') :
    scan'.Valid key current still ∧ scan'.now = scan.now ∧
      ∀ u ∈ scan'.taken, u ∈ scan.taken ∨ free u = true := by
  unfold RowScan.visit at hvisit
  split at hvisit
  · cases hvisit
  rename_i r rest hfound
  have hdistinct := h.distinct
  rw [hfound] at hdistinct
  -- the row is dropped from what is to be visited
  have hpassed : RowScan.Valid key current still { scan with found := rest } := by
    refine ⟨h.taken, hdistinct.sublist (List.Sublist.map key ?_)⟩
    exact List.Sublist.append_left (List.sublist_cons_self r rest) _
  split at hvisit
  · cases hvisit
  split at hvisit
  · cases hvisit
    exact ⟨hpassed, rfl, fun u hu => Or.inl hu⟩
  rename_i u hu
  split at hvisit
  · rename_i hlock
    cases hvisit
    refine ⟨⟨fun v hv => ?_, ?_⟩, rfl, fun v hv => ?_⟩
    · rcases List.mem_append.1 hv with hold | hlast
      · exact h.taken v hold
      · rw [List.mem_singleton.1 hlast, hkey _ _ hu]
        exact ⟨hu, hfree u hlock⟩
    · simpa [hkey _ _ hu] using hdistinct
    · rcases List.mem_append.1 hv with hold | hlast
      · exact Or.inl hold
      · exact Or.inr (List.mem_singleton.1 hlast ▸ hlock)
  · cases hvisit
    exact ⟨hpassed, rfl, fun v hv => Or.inl hv⟩

theorem RowScan.Valid.lock (key : ρ → κ) {rowKey : ρ → RowKey} {locked : RowKey → Bool} {contended : Bool}
    (h : scan.Valid key current still) (hkey : ∀ k u, current k = some u → key u = k)
    (hvisit : scan.visit (fun r => current (key r))
      (fun u => still u && !locked (rowKey u) && !contended) = some scan') :
    scan'.Valid key current still ∧ scan'.now = scan.now ∧
      ∀ k ∈ scan'.taken.map rowKey, k ∈ scan.taken.map rowKey ∨ locked k = false := by
  have hstill : ∀ u, (still u && !locked (rowKey u) && !contended) = true → still u = true := by
    intro u hu
    simp only [Bool.and_eq_true] at hu
    exact hu.1.1
  obtain ⟨hnext, hnow, htaken⟩ := h.visit hkey hstill hvisit
  refine ⟨hnext, hnow, fun k hk => ?_⟩
  obtain ⟨u, hu, rfl⟩ := List.mem_map.1 hk
  rcases htaken u hu with hold | hfree
  · exact Or.inl (List.mem_map_of_mem hold)
  · simp only [Bool.and_eq_true, Bool.not_eq_true'] at hfree
    exact Or.inr hfree.1.2

end Scans

/-! ## What an open transaction knows -/

/-- The rows it has locked are as it found them, and a worker is still at the end of its task. -/
def OpenTxn.Valid (cfg : Config) (i : Connection) (s : Sys) : OpenTxn → Prop
  | .reap _ scan => scan.Valid TaskInstance.id s.db.task (expired scan.now)
  | .finalise scan =>
      scan.Valid Agent.id s.db.agent fun a => a.status = .running && a.plan.length ≤ a.cursor
  | .reconcile age scan =>
      scan.Valid Reservation.key s.db.reservation (Ledger.orphaned age scan.now)
  | .checkpoint _ marked moved =>
      ∃ p task started result cost tokens, i = .worker p ∧
        (s.workers p).phase = .committing task started result cost tokens ∧
          (∀ t, marked = some t → s.db.task t.id = some t ∧
            leasedBy task.id (cfg.workerId p) t = true) ∧
          ∀ ag, moved = some ag → s.db.agent ag.id = some ag ∧ ag.id = task.agentId ∧
            ag.cursor = task.seq
  | .report _ marked =>
      ∃ p task started failure, i = .worker p ∧
        (s.workers p).phase = .failing task started failure ∧
          ∀ t, marked = some t → s.db.task t.id = some t ∧
            leasedBy task.id (cfg.workerId p) t = true

/-- The worker is about to record how its task ended. -/
def Phase.closing : Phase → Bool
  | .committing _ _ _ _ _ | .failing _ _ _ => true
  | _ => false

section Txns

variable {cfg : Config} {s s' : Sys} {p : Nat}

/-- A worker at the end of its task stays there until it records it or dies. -/
theorem step_closing {a : Action} (h : step cfg s a = some s')
    (hclosing : (s.workers p).phase.closing = true) (hother : a.finisher ≠ some p) :
    (s'.workers p).phase = (s.workers p).phase := by
  have elsewhere : ∀ {q : Nat} {u : Sys} {phase : Phase}, q ≠ p → u.workers = s.workers →
      ((u.setPhase q phase).workers p).phase = (s.workers p).phase := by
    intro q u phase hq hworkers
    rw [Sys.setPhase_workers, if_neg (Ne.symm hq), hworkers]
  cases a with
  | claim q now started locked =>
      simp only [step] at h
      split at h
      · rename_i hidle
        cases h
        have hq : p ≠ q := by
          rintro rfl
          rw [hidle] at hclosing
          cases hclosing
        unfold claimTask
        split
        · rfl
        · rw [Sys.setWorker_workers, if_neg hq]
          rfl
      · cases h
  | load q | begin q now | run q outcome | settle q now | confirm q =>
      simp only [step] at h
      split at h
      · rename_i hphase
        have hq : q ≠ p := by
          rintro rfl
          rw [hphase] at hclosing
          cases hclosing
        try split at h
        all_goals
          cases h
          exact elsewhere hq rfl
      · cases h
  | checkpoint q now =>
      have hq : q ≠ p := fun heq => hother (congrArg some heq)
      simp only [step] at h
      split at h
      · split at h
        · cases h
          exact elsewhere hq rfl
        · cases h
          exact elsewhere hq rfl
      · cases h
  | report q now =>
      have hq : q ≠ p := fun heq => hother (congrArg some heq)
      simp only [step] at h
      split at h
      · cases h
        exact elsewhere hq rfl
      · cases h
  | heartbeat q now =>
      simp only [step] at h
      split at h
      · split at h
        · cases h
        · cases h
          unfold beat
          rw [Sys.setWorker_workers]
          split
          · rename_i hq
            rw [hq]
          · rfl
      · cases h
  | straggle q taskId now =>
      simp only [step] at h
      split at h
      · cases h
        rfl
      · cases h
  | join q taskId =>
      rw [step_join h, Sys.setHeartbeats_worker]
  | abandon q =>
      cases h
      exact elsewhere (fun heq => hother (congrArg some heq)) rfl
  | crash q =>
      cases h
      rw [Sys.setWorker_workers, if_neg fun heq => hother (congrArg some heq.symm)]
  | submit forceTier plan agentIds ids now =>
      simp only [step] at h
      split at h
      · cases h
        rfl
      · cases h
        rfl
  | reap | repair | finalise | classify | reconcile | seed | ledger =>
      cases h
      rfl

end Txns

end ReliableAgents
