import ReliableAgents.Lifecycle.PriorContext
import ReliableAgents.Lifecycle.Waiting
import ReliableAgents.Orchestrator.RowLocks

/-!
# What the statements under row locks are worth

A sweep that has locked its rows is worth one sweep for each of them, at its commit, and a
checkpoint or report is worth one step: nobody else has written what it has locked.
-/

namespace ReliableAgents

open Relational

/-! ## A sweep as single sweeps -/

section Rows

variable {cfg : Config} {s : Sys} {ρ κ : Type} {key : ρ → κ}

/-- Rows written one after another, each by an action of its own that touches no other. -/
theorem rows_run {ready : Db → ρ → Prop} {one : Db → ρ → Db} {act : ρ → Action}
    {rowKey : ρ → RowKey}
    (hstep : ∀ (u : Sys) r, ready u.db r → step cfg u (act r) = some (u.setDb (one u.db r)))
    (hkeeps : ∀ db r r', key r' ≠ key r → ready db r' → ready (one db r) r')
    (hrow : ∀ db r k, k ≠ rowKey r → (one db r).row k = db.row k)
    (hact : ∀ r, (act r).finisher = none) {rows : List ρ} (hnodup : (rows.map key).Nodup)
    (hready : ∀ r ∈ rows, ready s.db r) :
    ∃ us, Machine.Run (step cfg) s us (s.setDb (rows.foldl one s.db)) ∧
      us.map Machine.Transition.action = rows.map act ∧
        ∀ c ∈ us, c.action.finisher = none ∧
          ∀ k, k ∉ rows.map rowKey → c.after.db.row k = c.before.db.row k := by
  induction rows generalizing s with
  | nil => exact ⟨[], .nil, rfl, by simp⟩
  | cons r rest ih =>
      obtain ⟨hr, hrest⟩ := List.nodup_cons.1 hnodup
      have hfirst := hstep s r (hready r List.mem_cons_self)
      have hafter : ∀ r' ∈ rest, ready (s.setDb (one s.db r)).db r' := by
        intro r' hr'
        refine hkeeps _ _ _ (fun heq => hr ?_) (hready r' (List.mem_cons_of_mem r hr'))
        rw [← heq]
        exact List.mem_map_of_mem hr'
      obtain ⟨us, hrun, hacts, hspared⟩ := ih hrest hafter
      refine ⟨_, (Machine.Run.snoc .nil hfirst).append hrun, by simp [hacts], fun c hc => ?_⟩
      rcases List.mem_append.1 hc with hhead | htail
      · rw [List.mem_singleton.1 hhead]
        refine ⟨hact r, fun k hk => hrow _ _ _ fun heq => hk ?_⟩
        rw [heq]
        exact List.mem_cons_self
      · obtain ⟨hown, hrows⟩ := hspared c htail
        exact ⟨hown, fun k hk => hrows k fun hmem => hk (List.mem_cons_of_mem _ hmem)⟩

end Rows

/-! ## What each sweep is worth -/

section Sweeps

variable {cfg : Config} {s : Sys} {now : Time}

theorem reap_only {jitter : Uuid → Time} {t : TaskInstance} (ht : s.db.task t.id = some t)
    (hexpired : expired now t = true) :
    step cfg s (.reap 1 jitter now fun k => k ≠ t.id) =
      some (s.setDb (reclaim jitter now s.db t)) := by
  have hone : expiredLeases 1 now (fun k => k ≠ t.id) s.db = [t] :=
    Table.select_only (t := s.db.taskInstances) ht hexpired _
  simp only [step, reap, hone, List.foldl_cons, List.foldl_nil]

theorem finalise_only {ag : Agent} (hag : s.db.agent ag.id = some ag)
    (hover : exhausted s.db ag = true) :
    step cfg s (.finalise 1 now fun k => k ≠ ag.id) =
      some (s.setDb (finaliseTaken now [ag] s.db)) := by
  have hone : exhaustedAgents 1 (fun k => k ≠ ag.id) s.db = [ag] :=
    Table.select_only (t := s.db.agents) hag hover _
  simp only [step, finaliseAgents, hone, finaliseTaken]

theorem reconcile_only {age : Int} {r : Reservation} (hr : s.db.reservation r.key = some r)
    (horphaned : Ledger.orphaned age now r = true) :
    step cfg s (.reconcile (some age) 1 now fun k => k ≠ r.key) =
      some (s.setDb (reconcileTaken now [r] s.db)) := by
  have hone : Ledger.reconcileRows age 1 now (fun k => k ≠ r.key) s.db = [r] :=
    Table.select_only (t := s.db.idempotency) hr horphaned _
  simp only [step, Ledger.reconcile, Option.getD_some, hone, reconcileTaken]

theorem finaliseTaken_eq_foldl (db : Db) {taken : List Agent}
    (hnodup : (taken.map Agent.id).Nodup) :
    finaliseTaken now taken db = taken.foldl (fun db ag => finaliseTaken now [ag] db) db := by
  rw [finaliseTaken, Table.update_taken _ _ hnodup]
  clear hnodup
  induction taken generalizing db with
  | nil => rfl
  | cons ag rest ih =>
      rw [List.foldl_cons, List.foldl_cons, ← ih]
      simp only [finaliseTaken, List.map_singleton, List.mem_singleton]

theorem reconcileTaken_eq_foldl (db : Db) {taken : List Reservation}
    (hnodup : (taken.map Reservation.key).Nodup) :
    reconcileTaken now taken db = taken.foldl (fun db r => reconcileTaken now [r] db) db := by
  rw [reconcileTaken, Table.update_taken _ _ hnodup]
  clear hnodup
  induction taken generalizing db with
  | nil => rfl
  | cons r rest ih =>
      rw [List.foldl_cons, List.foldl_cons, ← ih]
      simp only [reconcileTaken, List.map_singleton, List.mem_singleton]

theorem reclaim_row (jitter : Uuid → Time) (now : Time) (db : Db) (t : TaskInstance) {k : RowKey}
    (hk : k ≠ .task t.id) : (reclaim jitter now db t).row k = db.row k := by
  cases k with
  | task k =>
      have hne : k ≠ t.id := fun heq => hk (congrArg RowKey.task heq)
      exact congrArg Row.task (Table.get?_update_key (f := TaskInstance.reclaimed (jitter t.id) now)
        (fun _ => rfl) (fun _ => rfl) hne)
  | agent | action => rfl

theorem finaliseTaken_row (now : Time) (db : Db) (ag : Agent) {k : RowKey} (hk : k ≠ .agent ag.id) :
    (finaliseTaken now [ag] db).row k = db.row k := by
  cases k with
  | agent k =>
      refine congrArg Row.agent (Table.get?_update_of_ne (f := Agent.finalised now)
        (fun _ => rfl) (fun _ => rfl) fun r hr heq => hk ?_)
      rw [← heq, List.mem_singleton.1 (of_decide_eq_true hr)]
  | task | action => rfl

theorem reconcileTaken_row (now : Time) (db : Db) (r : Reservation) {k : RowKey}
    (hk : k ≠ .action r.key) :
    (reconcileTaken now [r] db).row k = db.row k := by
  cases k with
  | action k =>
      refine congrArg Row.action (Table.get?_update_of_ne
        (f := Ledger.settled Ledger.unresolved now)
        (fun _ => rfl) (fun _ => rfl) fun r' hr heq => hk ?_)
      rw [← heq, List.mem_singleton.1 (of_decide_eq_true hr)]
  | task | agent => rfl

theorem SysRun.exhausted_of_over {ts : List SysTransition} (h : SysRun cfg ts s) {ag : Agent}
    (hag : s.db.agent ag.id = some ag) (hrunning : ag.status = .running)
    (hover : ag.plan.length ≤ ag.cursor) : exhausted s.db ag = true := by
  have hnone : (s.db.taskInstances.select fun t => t.agentId = ag.id && t.status ≠ .succeeded) =
      [] := by
    refine List.eq_nil_iff_forall_not_mem.2 fun t ht => ?_
    obtain ⟨hget, hmine⟩ := Table.mem_select.1 ht
    simp only [Bool.and_eq_true, decide_eq_true_eq] at hmine
    obtain ⟨v, hv, hcommitted⟩ := h.committedPrefix (k := t.id) hget
    rw [hmine.1] at hv
    cases hag.symm.trans (Db.view_eq_some.1 hv).1
    have hdone := hcommitted.completed.2 (le_antisymm hcommitted.cursor_le hover)
    rw [hrunning] at hdone
    cases hdone
  rw [exhausted, hnone]
  simp [hrunning, hover]

end Sweeps

/-! ## The statements of each transaction -/

section Txns

variable {cfg : Config} {s s' : Sys} {p : Nat}

theorem scanStatement_cases {ρ : Type} {wrap : RowScan ρ → OpenTxn} {current : ρ → Option ρ}
    {free : ρ → Bool} {written : List ρ → Db} {act : ρ → Action} {scan : RowScan ρ}
    {b : TxnStatement} {outcome : TxnOutcome}
    (h : scanStatement wrap current free written act s scan b = some outcome) :
    (∃ contended scan', (scan.visit current fun u => free u && !contended) = some scan' ∧
        outcome = .goesOn (wrap scan')) ∨
      outcome = .ends s [] ∨
        outcome = .ends (s.setDb (written scan.taken)) (scan.taken.map act) := by
  cases b with
  | next contended =>
      obtain ⟨scan', hvisit, rfl⟩ := Option.map_eq_some_iff.1 h
      exact Or.inl ⟨contended, scan', hvisit, rfl⟩
  | commit =>
      simp only [scanStatement] at h
      split at h
      · cases h
        exact Or.inr (Or.inr rfl)
      · cases h
  | fail =>
      cases h
      exact Or.inr (Or.inl rfl)

/-- The end of a transaction of `i`: it is worth its actions, which are its own and write the
rows it has locked only. -/
structure EndsWell (cfg : Config) (i : Connection) (locks : List RowKey) (s s' : Sys)
    (worth : List Action) (us : List SysTransition) : Prop where
  run : Machine.Run (step cfg) s us s'
  worth : us.map Machine.Transition.action = worth
  own : ∀ c ∈ us, (∀ j, c.action.finisher.map Connection.worker = some j → j = i) ∧
    ∀ k, k ∉ locks → c.after.db.row k = c.before.db.row k

theorem EndsWell.nothing (cfg : Config) (i : Connection) (locks : List RowKey) (s : Sys) :
    EndsWell cfg i locks s s [] [] where
  run := .nil
  worth := rfl
  own := by simp

/-- A transaction that goes on has locked what was free, and one that ends does so well. -/
def SoundOutcome (cfg : Config) (i : Connection) (s : Sys) (locks : List RowKey)
    (locked : RowKey → Bool) : TxnOutcome → Prop
  | .goesOn txn => txn.Valid cfg i s ∧ ∀ k ∈ txn.locks, k ∈ locks ∨ locked k = false
  | .ends s' worth => ∃ us, EndsWell cfg i locks s s' worth us

/-- A sweep that has locked its rows is worth one sweep for each of them. -/
theorem scan_ends {ρ κ : Type} (key : ρ → κ) (ready : Db → ρ → Prop) {one : Db → ρ → Db}
    {act : ρ → Action} {rowKey : ρ → RowKey} (i : Connection) {taken : List ρ}
    (hstep : ∀ (u : Sys) r, ready u.db r → step cfg u (act r) = some (u.setDb (one u.db r)))
    (hkeeps : ∀ db r r', key r' ≠ key r → ready db r' → ready (one db r) r')
    (hrow : ∀ db r k, k ≠ rowKey r → (one db r).row k = db.row k)
    (hact : ∀ r, (act r).finisher = none) (hnodup : (taken.map key).Nodup)
    (hready : ∀ r ∈ taken, ready s.db r) :
    ∃ us, EndsWell cfg i (taken.map rowKey) s (s.setDb (taken.foldl one s.db)) (taken.map act)
      us := by
  obtain ⟨us, hrun, hworth, hown⟩ := rows_run hstep hkeeps hrow hact hnodup hready
  refine ⟨us, hrun, hworth, fun c hc => ⟨fun j hj => ?_, (hown c hc).2⟩⟩
  rw [(hown c hc).1] at hj
  cases hj

theorem reap_ends {jitter : Uuid → Time} {scan : RowScan TaskInstance} (i : Connection)
    (h : scan.Valid TaskInstance.id s.db.task (expired scan.now)) :
    ∃ us, EndsWell cfg i (scan.taken.map fun t => .task t.id) s
      (s.setDb (scan.taken.foldl (reclaim jitter scan.now) s.db))
      (scan.taken.map fun t => .reap 1 jitter scan.now fun k => k ≠ t.id) us := by
  have hnodup : (scan.taken.map TaskInstance.id).Nodup :=
    h.distinct.sublist ((List.sublist_append_left _ _).map _)
  refine scan_ends TaskInstance.id
    (fun db t => db.task t.id = some t ∧ expired scan.now t = true) i
    (fun u t hready => reap_only hready.1 hready.2) (fun db t t' hne hready => ?_)
    (fun db t k hk => reclaim_row _ _ db t hk) (fun _ => rfl) hnodup h.taken
  have hrow := reclaim_row jitter scan.now db t (k := .task t'.id)
    fun heq => hne (RowKey.task.inj heq)
  exact ⟨(Row.task.inj hrow).trans hready.1, hready.2⟩

theorem reconcile_ends {age : Int} {scan : RowScan Reservation} (i : Connection)
    (h : scan.Valid Reservation.key s.db.reservation (Ledger.orphaned age scan.now)) :
    ∃ us, EndsWell cfg i (scan.taken.map fun r => .action r.key) s
      (s.setDb (reconcileTaken scan.now scan.taken s.db))
      (scan.taken.map fun r => .reconcile (some age) 1 scan.now fun k => k ≠ r.key) us := by
  have hnodup : (scan.taken.map Reservation.key).Nodup :=
    h.distinct.sublist ((List.sublist_append_left _ _).map _)
  rw [reconcileTaken_eq_foldl s.db hnodup]
  refine scan_ends Reservation.key
    (fun db r => db.reservation r.key = some r ∧
      Ledger.orphaned age scan.now r = true) i
    (fun u r hready => reconcile_only hready.1 hready.2) (fun db r r' hne hready => ?_)
    (fun db r k hk => reconcileTaken_row _ db r hk) (fun _ => rfl) hnodup h.taken
  have hrow := reconcileTaken_row scan.now db r (k := .action r'.key)
    fun heq => hne (RowKey.action.inj heq)
  exact ⟨(Row.action.inj hrow).trans hready.1, hready.2⟩

theorem finalise_ends {ts : List SysTransition} (hrun : SysRun cfg ts s) {scan : RowScan Agent}
    (i : Connection) (h : scan.Valid Agent.id s.db.agent fun a =>
      a.status = .running && a.plan.length ≤ a.cursor) :
    ∃ us, EndsWell cfg i (scan.taken.map fun ag => .agent ag.id) s
      (s.setDb (finaliseTaken scan.now scan.taken s.db))
      (scan.taken.map fun ag => .finalise 1 scan.now fun k => k ≠ ag.id) us := by
  have hnodup : (scan.taken.map Agent.id).Nodup :=
    h.distinct.sublist ((List.sublist_append_left _ _).map _)
  rw [finaliseTaken_eq_foldl s.db hnodup]
  refine scan_ends Agent.id
    (fun db ag => db.agent ag.id = some ag ∧ exhausted db ag = true) i
    (fun u ag hready => finalise_only hready.1 hready.2) (fun db ag ag' hne hready => ?_)
    (fun db ag k hk => finaliseTaken_row _ db ag hk) (fun _ => rfl) hnodup fun ag hag => ?_
  · have hrow := finaliseTaken_row scan.now db ag (k := .agent ag'.id)
      fun heq => hne (RowKey.agent.inj heq)
    exact ⟨(Row.agent.inj hrow).trans hready.1, hready.2⟩
  · obtain ⟨hget, hstill⟩ := h.taken ag hag
    simp only [Bool.and_eq_true, decide_eq_true_eq] at hstill
    exact ⟨hget, hrun.exhausted_of_over hget hstill.1 hstill.2⟩

/-! ### The transactions of a worker -/

theorem EndsWell.single {a : Action} {locks : List RowKey} (h : step cfg s a = some s')
    (hown : a.finisher = some p) (hrows : ∀ k, k ∉ locks → s'.db.row k = s.db.row k) :
    EndsWell cfg (.worker p) locks s s' [a] [⟨s, a, s'⟩] where
  run := .snoc .nil h
  worth := rfl
  own := by
    intro c hc
    rw [List.mem_singleton.1 hc]
    refine ⟨fun j hj => ?_, hrows⟩
    rw [hown] at hj
    exact (Option.some.inj hj).symm

theorem count_leasedBy_of_none {taskId : Uuid} {workerId : WorkerId} {db : Db}
    (h : (db.task taskId).filter (leasedBy taskId workerId) = none) :
    db.taskInstances.count (leasedBy taskId workerId) = 0 := by
  by_contra hcount
  obtain ⟨t, ht, howner, hrunning⟩ := leasedBy_count_ne_zero hcount
  have hid : t.id = taskId := Db.id_of_task ht
  simp [ht, leasedBy, hid, howner, hrunning] at h

theorem count_leasedBy_of_task {taskId : Uuid} {workerId : WorkerId} {db : Db} {t : TaskInstance}
    (ht : db.task t.id = some t) (hleased : leasedBy taskId workerId t = true) :
    db.taskInstances.count (leasedBy taskId workerId) ≠ 0 :=
  Nat.pos_iff_ne_zero.1 (List.countP_pos_iff.2 ⟨t, Table.mem_of_get? ht, hleased⟩)

section Statements

variable {task : Handout} {started now : Time} {fields : JsonObject} {cost tokens : Int}
  {failure : FailureReport} {t : TaskInstance} {ag : Agent}

theorem checkpoint_leaseLost
    (hphase : (s.workers p).phase = .committing task started (.json fields) cost tokens)
    (hlost : (s.db.task task.id).filter (leasedBy task.id (cfg.workerId p)) = none) :
    step cfg s (.checkpoint p now) = some (s.setPhase p .idle) := by
  have hcommit : checkpointSuccess task (.json fields) cost tokens started (cfg.workerId p) now
      s.db = some (s.db, false) := by
    simp [checkpointSuccess, markSucceededSql, count_leasedBy_of_none hlost]
  simp only [step, hphase, hcommit]
  rfl

theorem checkpoint_cursorMoved
    (hphase : (s.workers p).phase = .committing task started (.json fields) cost tokens)
    (ht : s.db.task t.id = some t) (hleased : leasedBy task.id (cfg.workerId p) t = true)
    (hmoved : ((s.db.agent task.agentId).filter fun a => a.cursor = task.seq) = none) :
    step cfg s (.checkpoint p now) = some (s.setPhase p .idle) := by
  have hnone : s.db.agents.count (fun a => a.id = task.agentId && a.cursor = task.seq) = 0 := by
    refine List.countP_eq_zero.2 fun a ha hp => ?_
    simp only [Bool.and_eq_true, decide_eq_true_eq] at hp
    have hget : s.db.agent task.agentId = some a := hp.1 ▸ Table.get?_of_mem _ ha
    simp [hget, hp.2] at hmoved
  have hcommit : checkpointSuccess task (.json fields) cost tokens started (cfg.workerId p) now
      s.db = some (s.db, false) := by
    simp [checkpointSuccess, markSucceededSql, advanceAgentSql, count_leasedBy_of_task ht hleased,
      hnone]
  simp only [step, hphase, hcommit]
  rfl

theorem checkpoint_committed
    (hphase : (s.workers p).phase = .committing task started (.json fields) cost tokens)
    (ht : s.db.task t.id = some t) (hleased : leasedBy task.id (cfg.workerId p) t = true)
    (hag : s.db.agent ag.id = some ag) (hid : ag.id = task.agentId)
    (hcursor : ag.cursor = task.seq) :
    step cfg s (.checkpoint p now) =
      some
        ((s.setDb
          (checkpointWritten task fields cost tokens started (cfg.workerId p) now t ag
            s.db)).setPhase p .idle) := by
  have hcount : s.db.agents.count (fun a => a.id = task.agentId && a.cursor = task.seq) ≠ 0 :=
    Nat.pos_iff_ne_zero.1
      (List.countP_pos_iff.2 ⟨ag, Table.mem_of_get? hag, by simp [hid, hcursor]⟩)
  have htask : t.id = task.id := (leasedBy_iff.1 hleased).1
  have htasks := Table.update_one (t := s.db.taskInstances)
    (f := TaskInstance.markedSucceeded fields now) (fun _ => rfl) (fun _ => rfl) ht hleased
    fun x hx => (leasedBy_iff.1 hx).1.trans htask.symm
  have hagents := Table.update_one (t := s.db.agents)
    (f := Agent.advanced task.seq fields cost tokens now) (fun _ => rfl) (fun _ => rfl) hag
    (p := fun a => a.id = task.agentId && a.cursor = task.seq) (by simp [hid, hcursor])
    fun x hx => by
      simp only [Bool.and_eq_true, decide_eq_true_eq] at hx
      exact hx.1.trans hid.symm
  simp only [step, hphase, checkpointSuccess, markSucceededSql, advanceAgentSql, recordAttemptSql,
    if_neg (count_leasedBy_of_task ht hleased), if_neg hcount, htasks, hagents, checkpointWritten]

theorem report_leaseLost (hphase : (s.workers p).phase = .failing task started failure)
    (hlost : (s.db.task task.id).filter (leasedBy task.id (cfg.workerId p)) = none) :
    step cfg s (.report p now) = some (s.setPhase p .idle) := by
  have hreport : reportFailure task failure started (cfg.workerId p) now s.db = (s.db, false) := by
    simp [reportFailure, reportFailureSql, count_leasedBy_of_none hlost]
  simp only [step, hphase, hreport]
  rfl

theorem report_committed (hphase : (s.workers p).phase = .failing task started failure)
    (ht : s.db.task t.id = some t) (hleased : leasedBy task.id (cfg.workerId p) t = true) :
    step cfg s (.report p now) =
      some
        ((s.setDb (reportWritten task failure started (cfg.workerId p) now t s.db)).setPhase p
          .idle) := by
  have htask : t.id = task.id := (leasedBy_iff.1 hleased).1
  have htasks := Table.update_one (t := s.db.taskInstances)
    (f := TaskInstance.reportedFailed failure now) (fun _ => rfl) (fun _ => rfl) ht hleased
    fun x hx => (leasedBy_iff.1 hx).1.trans htask.symm
  simp only [step, hphase, reportFailure, reportFailureSql, recordAttemptSql,
    if_neg (count_leasedBy_of_task ht hleased), htasks, reportWritten]

theorem checkpointWritten_row (workerId : WorkerId) (db : Db) {k : RowKey} (ht : k ≠ .task t.id)
    (hag : k ≠ .agent ag.id) :
    (checkpointWritten task fields cost tokens started workerId now t ag db).row k = db.row k := by
  cases k with
  | task k =>
      have hne : k ≠ t.id := fun heq => ht (congrArg RowKey.task heq)
      exact congrArg Row.task (Table.get?_update_key
        (f := TaskInstance.markedSucceeded fields now) (fun _ => rfl) (fun _ => rfl) hne)
  | agent k =>
      have hne : k ≠ ag.id := fun heq => hag (congrArg RowKey.agent heq)
      exact congrArg Row.agent (Table.get?_update_key
        (f := Agent.advanced task.seq fields cost tokens now) (fun _ => rfl) (fun _ => rfl) hne)
  | action => rfl

theorem reportWritten_row (workerId : WorkerId) (db : Db) {k : RowKey} (hk : k ≠ .task t.id) :
    (reportWritten task failure started workerId now t db).row k = db.row k := by
  cases k with
  | task k =>
      have hne : k ≠ t.id := fun heq => hk (congrArg RowKey.task heq)
      exact congrArg Row.task (Table.get?_update_key
        (f := TaskInstance.reportedFailed failure now) (fun _ => rfl) (fun _ => rfl) hne)
  | agent | action => rfl

end Statements

theorem checkpointStatement_sound {locked : RowKey → Bool} {now : Time}
    {marked : Option TaskInstance} {moved : Option Agent} {b : TxnStatement} {outcome : TxnOutcome}
    (hvalid : (OpenTxn.checkpoint now marked moved).Valid cfg (.worker p) s)
    (h : checkpointStatement cfg p locked s now marked moved b = some outcome) :
    SoundOutcome cfg (.worker p) s (OpenTxn.checkpoint now marked moved).locks locked outcome := by
  obtain ⟨q, task, started, result, cost, tokens, hq, hphase, hmarked, hmoved⟩ := hvalid
  cases hq
  unfold checkpointStatement at h
  rw [hphase] at h
  cases result with
  | unstorable =>
      cases b with
      | commit | fail => cases h
      | next contended =>
          cases h
          have hraises : step cfg s (.checkpoint p now) = some (s.setPhase p .idle) := by
            simp only [step, hphase, checkpointSuccess]
          exact ⟨_, .single hraises rfl fun k _ => rfl⟩
  | json fields =>
      cases marked with
      | none =>
          cases b with
          | commit | fail => cases h
          | next contended =>
              dsimp only at h
              split at h
              · rename_i hlost
                cases h
                exact ⟨_, .single (checkpoint_leaseLost hphase hlost) rfl fun k _ => rfl⟩
              rename_i t ht
              split at h
              · cases h
              rename_i hfree
              cases h
              obtain ⟨hget, hleased⟩ := Option.filter_eq_some_iff.1 ht
              have hid : t.id = task.id := Db.id_of_task hget
              refine ⟨⟨p, task, started, _, cost, tokens, rfl, hphase, fun u hu => ?_,
                fun ag hag => ?_⟩, fun k hk => Or.inr ?_⟩
              · cases hu
                exact ⟨hid ▸ hget, hleased⟩
              · cases hag
              · rw [List.mem_singleton.1 hk]
                simpa using hfree
      | some t =>
          obtain ⟨ht, hleased⟩ := hmarked t rfl
          cases moved with
          | none =>
              cases b with
              | commit | fail => cases h
              | next contended =>
                  dsimp only at h
                  split at h
                  · rename_i hgone
                    cases h
                    exact ⟨_, .single (checkpoint_cursorMoved hphase ht hleased hgone) rfl
                      fun k _ => rfl⟩
                  rename_i ag hag
                  split at h
                  · cases h
                  rename_i hfree
                  cases h
                  obtain ⟨hget, hcursor⟩ := Option.filter_eq_some_iff.1 hag
                  have hid : ag.id = task.agentId := Db.id_of_agent hget
                  refine ⟨⟨p, task, started, _, cost, tokens, rfl, hphase, hmarked,
                    fun a ha => ?_⟩, fun k hk => ?_⟩
                  · cases ha
                    exact ⟨hid ▸ hget, hid, of_decide_eq_true hcursor⟩
                  · simp only [OpenTxn.locks, Option.map_some, Option.toList_some,
                      List.mem_append, List.mem_singleton] at hk
                    rcases hk with rfl | rfl
                    · exact Or.inl (by simp [OpenTxn.locks])
                    · exact Or.inr (by simpa using hfree)
          | some ag =>
              obtain ⟨hag, hid, hcursor⟩ := hmoved ag rfl
              cases b with
              | next | fail => cases h
              | commit =>
                  cases h
                  refine ⟨_, .single (checkpoint_committed hphase ht hleased hag hid hcursor) rfl
                    fun k hk => ?_⟩
                  simp only [OpenTxn.locks, Option.map_some, Option.toList_some, List.mem_append,
                    List.mem_singleton, not_or] at hk
                  exact checkpointWritten_row _ _ hk.1 hk.2

theorem reportStatement_sound {locked : RowKey → Bool} {now : Time}
    {marked : Option TaskInstance} {b : TxnStatement} {outcome : TxnOutcome}
    (hvalid : (OpenTxn.report now marked).Valid cfg (.worker p) s)
    (h : reportStatement cfg p locked s now marked b = some outcome) :
    SoundOutcome cfg (.worker p) s (OpenTxn.report now marked).locks locked outcome := by
  obtain ⟨q, task, started, failure, hq, hphase, hmarked⟩ := hvalid
  cases hq
  unfold reportStatement at h
  rw [hphase] at h
  cases marked with
  | none =>
      cases b with
      | commit | fail => cases h
      | next contended =>
          dsimp only at h
          split at h
          · rename_i hlost
            cases h
            exact ⟨_, .single (report_leaseLost hphase hlost) rfl fun k _ => rfl⟩
          rename_i t ht
          split at h
          · cases h
          rename_i hfree
          cases h
          obtain ⟨hget, hleased⟩ := Option.filter_eq_some_iff.1 ht
          have hid : t.id = task.id := Db.id_of_task hget
          refine ⟨⟨p, task, started, failure, rfl, hphase, fun u hu => ?_⟩, fun k hk => Or.inr ?_⟩
          · cases hu
            exact ⟨hid ▸ hget, hleased⟩
          · rw [List.mem_singleton.1 hk]
            simpa using hfree
  | some t =>
      obtain ⟨ht, hleased⟩ := hmarked t rfl
      cases b with
      | next | fail => cases h
      | commit =>
          cases h
          refine ⟨_, .single (report_committed hphase ht hleased) rfl fun k hk => ?_⟩
          exact reportWritten_row _ _ fun heq => hk (List.mem_singleton.2 heq)

/-! ## Every transaction is worth its single steps -/

theorem OpenTxn.start_spec {i : Connection} {c : TxnStart} {txn : OpenTxn}
    (h : OpenTxn.start cfg i c s = some txn) : txn.locks = [] ∧ txn.Valid cfg i s := by
  cases i with
  | orchestrator q =>
      cases c with
      | checkpoint | report => cases h
      | reap | finalise | reconcile =>
          cases h
          exact ⟨rfl, .started (Table.nodup_sorted _ _ _)⟩
  | worker p =>
      cases c with
      | reap | finalise | reconcile => cases h
      | checkpoint now =>
          simp only [start] at h
          split at h
          · rename_i hphase
            cases h
            exact ⟨rfl, p, _, _, _, _, _, rfl, hphase, fun t ht => (by cases ht),
              fun ag hag => (by cases hag)⟩
          · cases h
      | report now =>
          simp only [start] at h
          split at h
          · rename_i hphase
            cases h
            exact ⟨rfl, p, _, _, _, rfl, hphase, fun t ht => (by cases ht)⟩
          · cases h

theorem OpenTxn.Valid.spared {i : Connection} {txn : OpenTxn} {a : Action}
    (h : txn.Valid cfg i s) (hstep : step cfg s a = some s')
    (hactor : a.finisher.map Connection.worker ≠ some i)
    (hrows : ∀ k ∈ txn.locks, s'.db.row k = s.db.row k) : txn.Valid cfg i s' := by
  have still : ∀ p, i = .worker p → (s.workers p).phase.closing = true →
      (s'.workers p).phase = (s.workers p).phase := by
    rintro p rfl hclosing
    exact step_closing hstep hclosing fun heq => hactor (by rw [heq, Option.map_some])
  cases txn with
  | reap jitter scan =>
      exact RowScan.Valid.spared h fun t ht => Row.task.inj (hrows _ (List.mem_map_of_mem ht))
  | finalise scan =>
      exact RowScan.Valid.spared h fun ag hag => Row.agent.inj (hrows _ (List.mem_map_of_mem hag))
  | reconcile age scan =>
      exact RowScan.Valid.spared h fun r hr => Row.action.inj (hrows _ (List.mem_map_of_mem hr))
  | checkpoint now marked moved =>
      obtain ⟨p, task, started, result, cost, tokens, hi, hphase, hmarked, hmoved⟩ := h
      refine ⟨p, task, started, result, cost, tokens, hi, ?_, fun t ht => ?_, fun ag hag => ?_⟩
      · rw [still p hi (by rw [hphase]; rfl), hphase]
      · subst ht
        have hrow := Row.task.inj (hrows (.task t.id) (by simp [locks]))
        exact ⟨hrow.trans (hmarked t rfl).1, (hmarked t rfl).2⟩
      · subst hag
        have hrow := Row.agent.inj (hrows (.agent ag.id) (by simp [locks]))
        exact ⟨hrow.trans (hmoved ag rfl).1, (hmoved ag rfl).2⟩
  | report now marked =>
      obtain ⟨p, task, started, failure, hi, hphase, hmarked⟩ := h
      refine ⟨p, task, started, failure, hi, ?_, fun t ht => ?_⟩
      · rw [still p hi (by rw [hphase]; rfl), hphase]
      · subst ht
        have hrow := Row.task.inj (hrows (.task t.id) (by simp [locks]))
        exact ⟨hrow.trans (hmarked t rfl).1, (hmarked t rfl).2⟩

theorem OpenTxn.statement_sound {ts : List SysTransition} (hrun : SysRun cfg ts s)
    {i : Connection} {b : TxnStatement} {locked : RowKey → Bool} {txn : OpenTxn}
    {outcome : TxnOutcome} (hvalid : txn.Valid cfg i s)
    (h : txn.statement cfg i b locked s = some outcome) :
    SoundOutcome cfg i s txn.locks locked outcome := by
  cases i with
  | worker p =>
      cases txn with
      | reap | finalise | reconcile => cases h
      | checkpoint now marked moved => exact checkpointStatement_sound hvalid h
      | report now marked => exact reportStatement_sound hvalid h
  | orchestrator q =>
      cases txn with
      | checkpoint | report => cases h
      | reap jitter scan =>
          dsimp only [statement] at h
          rcases scanStatement_cases h with ⟨contended, scan', hvisit, rfl⟩ | rfl | rfl
          · obtain ⟨hnext, hnow, hlocks⟩ := RowScan.Valid.lock TaskInstance.id hvalid
              (fun _ _ => Db.id_of_task) hvisit
            rw [← hnow] at hnext
            exact ⟨hnext, hlocks⟩
          · exact ⟨[], .nothing cfg _ _ _⟩
          · exact reap_ends _ hvalid
      | finalise scan =>
          dsimp only [statement] at h
          rcases scanStatement_cases h with ⟨contended, scan', hvisit, rfl⟩ | rfl | rfl
          · obtain ⟨hnext, -, hlocks⟩ := RowScan.Valid.lock Agent.id hvalid
              (fun _ _ => Db.id_of_agent) hvisit
            exact ⟨hnext, hlocks⟩
          · exact ⟨[], .nothing cfg _ _ _⟩
          · exact finalise_ends hrun _ hvalid
      | reconcile age scan =>
          dsimp only [statement] at h
          rcases scanStatement_cases h with ⟨contended, scan', hvisit, rfl⟩ | rfl | rfl
          · obtain ⟨hnext, hnow, hlocks⟩ := RowScan.Valid.lock Reservation.key hvalid
              (fun _ _ hr => Table.key_of_get? hr) hvisit
            rw [← hnow] at hnext
            exact ⟨hnext, hlocks⟩
          · exact ⟨[], .nothing cfg _ _ _⟩
          · exact reconcile_ends _ hvalid

theorem locking_sound (cfg : Config) :
    (locking cfg).Sound .init fun i s txn => txn.Valid cfg i s where
  started := fun _ _ _ _ _ h => OpenTxn.start_spec h
  spared := fun _ _ _ _ _ _ hvalid hstep hspares =>
    hvalid.spared hstep hspares.actor hspares.rows
  goesOn := by
    rintro i b held s txn txn' ⟨past, hpast⟩ hvalid h
    exact OpenTxn.statement_sound hpast hvalid h
  ends := by
    rintro i b held s txn s' worth ⟨past, hpast⟩ hvalid h
    obtain ⟨us, hends⟩ := OpenTxn.statement_sound hpast hvalid h
    exact ⟨us, hends.run, hends.worth, hends.own⟩

/-- A run in which these transactions are taken statement by statement is one in which each of
them is a step, or a step for each of its rows, at its commit. -/
theorem transactions_atomic {ts : List LockedTransition} {s : LockedSys}
    (h : LockedRun cfg ts s) :
    ∃ us, SysRun cfg us s.base ∧
      us.map Machine.Transition.action = ts.flatMap (locking cfg).worth :=
  (locking_sound cfg).simulates h

end Txns

/-! ## A reap and a checkpoint at once -/

/-- The leases of processes 0 and 2 have run out. While process 0 commits its result, the reaper
steps past its row and takes the other one. -/
def reapedBeside : List (Machine.LockAction Action Connection TxnStatement TxnStart) :=
  [.act (.submit none [20] [firstAgent, secondAgent] rowId 0), .act (.claim 0 5 5 unlocked),
    .act (.claim 2 6 6 unlocked), .act (.load 0), .act (.run 0 solved), .act (.confirm 0),
    .start (.worker 0) (.checkpoint (seconds 40)), .statement (.worker 0) (.next false),
    .start (.orchestrator 0) (.reap 10 (fun _ => 0) (seconds 41)),
    .statement (.orchestrator 0) (.next false), .statement (.worker 0) (.next false),
    .statement (.orchestrator 0) (.next false), .statement (.worker 0) .commit,
    .statement (.orchestrator 0) .commit]

theorem transactions_atomic_reapedBeside :
    (∃ us, SysRun oneHost us
          (Machine.performed (locking oneHost).next (.init .init) reapedBeside).2.base ∧
        us.map Machine.Transition.action =
          (Machine.performed (locking oneHost).next (.init .init) reapedBeside).1.flatMap
            (locking oneHost).worth) ∧
      ((Machine.performed (locking oneHost).next (.init .init) reapedBeside).2.base.db.task
          (rowId firstAgent 0)).map TaskInstance.status = some .succeeded ∧
        ((Machine.performed (locking oneHost).next (.init .init) reapedBeside).2.base.db.task
          (rowId secondAgent 0)).map TaskInstance.status = some .pending := by
  have hrun := Machine.run_performed (locking oneHost).next (.init .init) reapedBeside
  exact ⟨transactions_atomic hrun, by decide +kernel, by decide +kernel⟩

end ReliableAgents
