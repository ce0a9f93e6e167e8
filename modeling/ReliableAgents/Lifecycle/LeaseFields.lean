import ReliableAgents.Lifecycle.SweepChanges
import ReliableAgents.Orchestrator.Transactions

/-!
# The lease columns of a row

`lease_owner` is cleared by every statement that takes a row from its holder.
`lease_expires` is cleared by the reaper and with a cancelled sibling, and stays behind
when the classifier routes the row.
-/

namespace ReliableAgents

open Relational

/-! ## Properties of every row -/

def Db.EachRow (P : TaskInstance → Prop) (db : Db) : Prop := ∀ k t, db.task k = some t → P t

/-- What the inserts and the assignments of claims, workers and the reaper keep. -/
structure KeptByHandouts (P : TaskInstance → Prop) : Prop where
  fresh : ∀ id agentId seq taskDefId tier now, P (.fresh id agentId seq taskDefId tier now)
  claimed : ∀ t workerId ttl now, P t → P (t.claimed workerId ttl now)
  renewed : ∀ t ttl now, t.status = .running → P t → P (t.renewed ttl now)
  succeeded : ∀ t fields now, t.status = .running → P t → P (t.markedSucceeded fields now)
  reported : ∀ t failure now, t.status = .running → P t → P (t.reportedFailed failure now)
  reclaimed : ∀ t jitter now, P t → P (t.reclaimed jitter now)

/-- What the assignments of the classifier keep. -/
structure KeptByRouting (P : TaskInstance → Prop) : Prop where
  retried : ∀ t backoff now, P t → P (t.retried backoff now)
  promoted : ∀ t tier now, P t → P (t.promoted tier now)
  killed : ∀ t now, P t → P (t.killed now)
  cancelled : ∀ t reason now, P t → P (t.cancelled reason now)

section Rows

variable {P : TaskInstance → Prop} {cfg : Config} {s : Sys} {a : Action} {db db' : Db}

theorem Db.EachRow.update (h : db.EachRow P) {p : TaskInstance → Bool}
    {f : TaskInstance → TaskInstance}
    (hrows : db'.taskInstances.rows = db.taskInstances.rows.map fun t => if p t then f t else t)
    (hf : ∀ t, p t = true → P t → P (f t)) : db'.EachRow P := by
  intro k t ht
  have hmem := Table.mem_of_get? ht
  rw [hrows] at hmem
  obtain ⟨u, hu, rfl⟩ := List.mem_map.1 hmem
  have hold := h u.id u (Table.get?_of_mem _ hu)
  split
  · exact hf u (by assumption) hold
  · exact hold

theorem Db.EachRow.statement (h : db.EachRow P) (hhandouts : KeptByHandouts P)
    (hrouting : a.classifies = true → KeptByRouting P)
    (hstatement : Statement cfg s a db db') : db'.EachRow P := by
  cases hstatement with
  | claim hclaim =>
      obtain ⟨t, -, -, -, rfl⟩ := claimOne_spec hclaim
      exact h.update rfl fun u _ => hhandouts.claimed u _ _ _
  | renew => exact h.update rfl fun u hp => hhandouts.renewed u _ _ (leasedBy_iff.1 hp).2.2
  | ledger hledger =>
      obtain ⟨table, rfl⟩ := hledger
      exact h
  | checkpoint hphase hcommit =>
      rcases checkpointSuccess_spec hcommit with
        ⟨-, rfl⟩ | ⟨fields, t, ag, -, -, -, -, -, -, -, rfl⟩
      · exact h
      · exact h.update rfl fun u hp => hhandouts.succeeded u _ _ (leasedBy_iff.1 hp).2.2
  | report hphase hreport =>
      rcases reportFailure_spec hreport with ⟨-, rfl⟩ | ⟨t, -, -, -, -, rfl⟩
      · exact h
      · exact h.update rfl fun u hp => hhandouts.reported u _ _ (leasedBy_iff.1 hp).2.2
  | reclaim => exact h.update rfl fun u _ => hhandouts.reclaimed u _ _
  | repair hbase hag hrunning hone =>
      rcases repairOne_spec hone with rfl | ⟨taskDefId, -, hinsert⟩
      · exact h
      · obtain ⟨-, -, -, -, htask, -⟩ := insertTask_spec hinsert
        intro k t ht
        rw [htask] at ht
        split at ht
        · rw [← Option.some.inj ht]
          exact hhandouts.fresh ..
        · exact h k t ht
  | finalise => exact h
  | @route limit flags now locked t routed _ _ ht hfailed hroute =>
      have hkeeps := hrouting rfl
      have hspec := routeOne_spec hroute
      split at hspec
      · rw [hspec.2]
        exact h.update rfl fun u _ => hkeeps.retried u _ _
      · rw [hspec.2]
        exact h.update rfl fun u _ => hkeeps.promoted u _ _
      · obtain ⟨-, reason, hkill⟩ := hspec
        obtain ⟨-, -, -, -, -, -, -, -, -, rfl⟩ := kill_spec hkill
        have hkilled : ({ db with
            taskInstances :=
              db.taskInstances.update (fun u => u.id = t.id) (TaskInstance.killed now) } :
            Db).EachRow P := h.update rfl fun u _ => hkeeps.killed u _
        exact hkilled.update rfl fun u _ => hkeeps.cancelled u _ _
  | submit _ hcreate | seed hcreate =>
      obtain ⟨-, -, -, -, -, hnew, -⟩ := createAgent_spec hcreate
      intro k t ht
      rcases hnew k t ht with hold | ⟨i, taskDefId, -, rfl⟩
      · exact h k t hold
      · exact hhandouts.fresh ..

theorem Db.EachRow.step {s' : Sys} (h : s.db.EachRow P) (hhandouts : KeptByHandouts P)
    (hrouting : a.classifies = true → KeptByRouting P) (hstep : step cfg s a = some s') :
    s'.db.EachRow P :=
  Machine.closure_invariant (I := Db.EachRow P)
    (fun _ _ hd hstatement => hd.statement hhandouts hrouting hstatement) h
    (step_statements hstep)

theorem Db.eachRow_init : Sys.init.db.EachRow P := by
  simp [Db.EachRow, Sys.init, Db.empty, Db.task, Table.get?, Table.empty]

end Rows

/-! ## The columns -/

/-- A running row has both columns, and a queued or dead one has neither. -/
structure TaskInstance.LeaseFields (t : TaskInstance) : Prop where
  running : t.status = .running → t.leaseOwner.isSome ∧ t.leaseExpires.isSome
  released : t.status = .pending ∨ t.status = .dead → t.leaseOwner = none ∧ t.leaseExpires = none

/-- What holds of the columns whatever is routed. -/
structure TaskInstance.OwnerFields (t : TaskInstance) : Prop where
  running : t.status = .running → t.leaseOwner.isSome
  expires : t.status = .running ∨ t.status = .failed → t.leaseExpires.isSome
  released : t.status = .pending ∨ t.status = .dead → t.leaseOwner = none

theorem ownerFields_keptByHandouts : KeptByHandouts TaskInstance.OwnerFields where
  fresh := fun _ _ _ _ _ _ => ⟨by simp, by simp, by simp⟩
  claimed := fun _ _ _ _ _ => ⟨by simp, by simp, by simp⟩
  renewed := fun t _ _ hrunning h => ⟨by simpa using h.running, by simp, by simp [hrunning]⟩
  succeeded := fun _ _ _ _ _ => ⟨by simp, by simp, by simp⟩
  reported := fun _ _ _ hrunning h =>
    ⟨by simp, fun _ => by simpa using h.expires (Or.inl hrunning), by simp⟩
  reclaimed := fun _ _ _ _ => ⟨by simp, by simp, by simp⟩

theorem ownerFields_keptByRouting : KeptByRouting TaskInstance.OwnerFields where
  retried := fun _ _ _ _ => ⟨by simp, by simp, by simp⟩
  promoted := fun _ _ _ _ => ⟨by simp, by simp, by simp⟩
  killed := fun _ _ _ => ⟨by simp, by simp, by simp⟩
  cancelled := fun _ _ _ h => ⟨by simp, by simp, by simp⟩

theorem leaseFields_keptByHandouts : KeptByHandouts TaskInstance.LeaseFields where
  fresh := fun _ _ _ _ _ _ => ⟨by simp, by simp⟩
  claimed := fun _ _ _ _ _ => ⟨by simp, by simp⟩
  renewed := fun _ _ _ hrunning h => ⟨fun _ => by simpa using (h.running hrunning).1, by simp [hrunning]⟩
  succeeded := fun _ _ _ _ _ => ⟨by simp, by simp⟩
  reported := fun _ _ _ _ _ => ⟨by simp, by simp⟩
  reclaimed := fun _ _ _ _ => ⟨by simp, by simp⟩

/-! ## Runs -/

section Runs

variable {cfg : Config} {ts : List SysTransition} {s : Sys} {c : SysTransition}

theorem SysRun.ownerFields (h : SysRun cfg ts s) : s.db.EachRow TaskInstance.OwnerFields :=
  h.invariant (I := fun u => u.db.EachRow TaskInstance.OwnerFields) Db.eachRow_init
    fun _ _ _ hI hstep =>
      hI.step ownerFields_keptByHandouts (fun _ => ownerFields_keptByRouting) hstep

def Routes (c : SysTransition) : Prop :=
  ∃ limit flags now locked, c.action = .classify limit flags now locked ∧
    takeFailed limit locked c.before.db ≠ []

/-- A routed row keeps its `lease_expires`. -/
theorem Write.onTask_released {w : Write} :
    ((w.onTask w.task).status = .pending ∨ (w.onTask w.task).status = .dead) ∧
      (w.onTask w.task).leaseExpires = w.task.leaseExpires := by
  cases w with
  | retry | promote | kill => simp [Write.onTask, Write.task]

theorem SysRun.routes_leaves (h : SysRun cfg ts s) (hc : c ∈ ts) (hroutes : Routes c) :
    ¬ c.after.db.EachRow TaskInstance.LeaseFields := by
  obtain ⟨pre, post, -, hpre, hstep, -⟩ := h.exists_split hc
  obtain ⟨limit, flags, now, locked, haction, htaken⟩ := hroutes
  obtain ⟨t, ht⟩ := List.exists_mem_of_ne_nil _ htaken
  obtain ⟨hget, hfailed⟩ := mem_takeFailed ht
  rw [haction] at hstep
  obtain ⟨w, hw, htask⟩ := step_classify_task (SysRun.atCursor hpre) hstep ht
  obtain ⟨rfl, -, -⟩ := routeWrite_spec hw
  intro hfields
  have hexpires := (SysRun.ownerFields hpre _ _ hget).expires (Or.inr hfailed)
  obtain ⟨hreleased, hsame⟩ := w.onTask_released
  rw [← hsame, ((hfields _ _ htask).released hreleased).2] at hexpires
  cases hexpires

/-- Without a routed row, a row that is released has neither column. -/
theorem SysRun.leaseFields (h : SysRun cfg ts s) (hquiet : ∀ c ∈ ts, ¬ Routes c) :
    s.db.EachRow TaskInstance.LeaseFields := by
  refine h.invariant_of (I := fun u => u.db.EachRow TaskInstance.LeaseFields)
    (fun c => ¬ Routes c) Db.eachRow_init (fun u a u' hI hstep hnot => ?_) hquiet
  by_cases hclassifies : a.classifies = true
  · cases a with
    | classify limit flags now locked =>
        have hnone : takeFailed limit locked u.db = [] := by
          by_contra hne
          exact hnot ⟨limit, flags, now, locked, rfl, hne⟩
        rw [← Option.some.inj hstep, Sys.setDb_db, classify, hnone]
        exact hI
    | _ => cases hclassifies
  · exact hI.step leaseFields_keptByHandouts (fun hyes => absurd hyes hclassifies) hstep

end Runs

/-- The columns match the status in every state of a run exactly if no failed row was routed;
and in every run a running row has both, and a queued or dead one has no owner. -/
theorem lease_fields {cfg : Config} {ts : List SysTransition} {s : Sys} (h : SysRun cfg ts s) :
    ((∀ c ∈ ts, c.after.db.EachRow TaskInstance.LeaseFields) ↔ ∀ c ∈ ts, ¬ Routes c) ∧
      s.db.EachRow TaskInstance.OwnerFields := by
  refine ⟨⟨fun hfields c hc hroutes => h.routes_leaves hc hroutes (hfields c hc),
    fun hquiet c hc => ?_⟩, h.ownerFields⟩
  obtain ⟨pre, post, rfl, hpre, hstep, -⟩ := h.exists_split hc
  have hrun : SysRun cfg (pre ++ [c]) c.after := hpre.snoc hstep
  refine hrun.leaseFields fun d hd => hquiet d ?_
  simp only [List.mem_append, List.mem_cons, List.not_mem_nil, or_false] at hd ⊢
  exact hd.imp_right Or.inl

def reclaimedHandout : List Action :=
  [submitPlan [20], .claim 0 0 0 unlocked, .reap 100 (fun _ => 0) (seconds 31) unlocked]

theorem lease_fields_reclaimed :
    (ran oneHost reclaimedHandout).2.db.taskInstances.rows.map
        (fun t => (t.status, t.attempt, t.leaseOwner, t.leaseExpires)) =
      [(.pending, 1, none, none)] ∧
      ∀ c ∈ (ran oneHost reclaimedHandout).1, c.after.db.EachRow TaskInstance.LeaseFields := by
  refine ⟨by decide +kernel, (lease_fields (run_ran oneHost reclaimedHandout)).1.2 ?_⟩
  rintro c hc ⟨limit, flags, now, locked, haction, -⟩
  have hact := Machine.action_mem_performed hc
  rw [haction] at hact
  simp [reclaimedHandout, submitPlan] at hact

/-- A failure is reported and retried: the queued row still has its `lease_expires`. -/
theorem lease_fields_retried :
    ∃ ts s, SysRun oneHost ts s ∧
      s.db.taskInstances.rows.map (fun t => (t.status, t.leaseOwner, t.leaseExpires)) =
        [(.pending, none, some (seconds 30))] ∧
      ¬ s.db.EachRow TaskInstance.LeaseFields := by
  refine ⟨_, _, run_ran oneHost
    (submitPlan [20] :: (handout 0 0 (.raised tooHard) ++ reported 0 (seconds 1))),
    by decide +kernel, fun hfields => ?_⟩
  obtain ⟨t, ht, hrow⟩ := Option.map_eq_some_iff.1 (show
    ((ran oneHost (submitPlan [20] :: (handout 0 0 (.raised tooHard) ++
      reported 0 (seconds 1)))).2.db.task (rowId firstAgent 0)).map
        (fun t => (t.status, t.leaseExpires)) = some (.pending, some (seconds 30))
    by decide +kernel)
  simp only [Prod.mk.injEq] at hrow
  have hnone := ((hfields _ t ht).released (Or.inl hrow.1)).2
  rw [hrow.2] at hnone
  cases hnone

end ReliableAgents
