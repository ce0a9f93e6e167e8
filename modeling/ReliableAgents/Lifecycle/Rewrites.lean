import ReliableAgents.Lifecycle.AtCursor
import ReliableAgents.Lifecycle.Projection

/-!
# What a statement does to one row

`TaskStep` forgets the clock. Here the row is followed statement by statement with the
action that runs it, so a lower bound on a time survives: a claim waits for `next_run_at`,
and a retry puts it off by the backoff of the attempt.
-/

namespace ReliableAgents

/-- What a statement of an action does to a row and its evidence. -/
inductive Rewrites (cfg : Config) (s : Sys) : Action → TaskView → TaskView → Prop where
  | keep {a : Action} {v : TaskView} : Rewrites cfg s a v v
  | claim {p : Nat} {now started : Time} {locked : Uuid → Bool} {v : TaskView} :
      v.row.status = .pending → v.row.nextRunAt ≤ now →
      Rewrites cfg s (.claim p now started locked) v
        (v.claimed (cfg.workerId p) cfg.leaseTtlSeconds now)
  | renew {a : Action} {now : Time} {v : TaskView} :
      v.row.status = .running →
      Rewrites cfg s a v { v with row := v.row.renewed cfg.leaseTtlSeconds now }
  | commit {p : Nat} {now started : Time} {task : Handout} {fields : JsonObject}
      {cost tokens : Int} {v : TaskView} :
      v.row.status = .running →
      Rewrites cfg s (.checkpoint p now) v
        (v.committed task fields cost tokens (cfg.workerId p) started now)
  | report {p : Nat} {now started : Time} {task : Handout} {failure : FailureReport}
      {v : TaskView} :
      (s.workers p).phase = .failing task started failure → task.id = v.row.id →
      v.row.status = .running → v.row.leaseOwner = some (cfg.workerId p) →
      Rewrites cfg s (.report p now) v
        { row := v.row.reportedFailed failure now
          evidence :=
            v.evidence ++
              [task.attemptRow (cfg.workerId p) .failed (some failure.failureClass) 0 0 started
                now] }
  | reclaim {batch : Nat} {jitter : Uuid → Time} {now : Time} {locked : Uuid → Bool}
      {v : TaskView} :
      v.row.status = .running →
      Rewrites cfg s (.reap batch jitter now locked) v
        { row := v.row.reclaimed (jitter v.row.id) now
          evidence := v.evidence ++ [v.row.reclaimRow now] }
  | retry {limit : Nat} {flags : Uuid → Flags} {now : Time} {locked : Uuid → Bool}
      {v : TaskView} :
      v.row.status = .failed → v.verdict cfg.ladder (flags v.row.id) = .retry →
      Rewrites cfg s (.classify limit flags now locked) v
        { v with row := v.row.retried (backoffSeconds v.row.attempt) now }
  | promote {limit : Nat} {flags : Uuid → Flags} {now : Time} {locked : Uuid → Bool}
      {tier : TierName} {v : TaskView} :
      v.row.status = .failed → v.verdict cfg.ladder (flags v.row.id) = .promote tier →
      Rewrites cfg s (.classify limit flags now locked) v { v with row := v.row.promoted tier now }
  | kill {limit : Nat} {flags : Uuid → Flags} {now : Time} {locked : Uuid → Bool}
      {v : TaskView} :
      v.row.status = .failed → Rewrites cfg s (.classify limit flags now locked) v (v.killed now)
  | cancel {limit : Nat} {flags : Uuid → Flags} {now cancelled : Time} {locked : Uuid → Bool}
      {reason : String} {v : TaskView} :
      v.row.status = .pending →
      Rewrites cfg s (.classify limit flags now locked) v (v.cancelled reason cancelled)

namespace Rewrites

variable {cfg : Config} {s : Sys} {a : Action} {v v' : TaskView}

theorem same (h : Rewrites cfg s a v v') : v.row.Same v'.row := by
  cases h <;> exact ⟨rfl, rfl, rfl, rfl, rfl⟩

end Rewrites

section Statement

variable {cfg : Config} {s : Sys} {a : Action} {db db' : Db} {k : Uuid} {t : TaskInstance}

theorem rewrites_of_update {r : TaskInstance} {p : TaskInstance → Bool}
    {f : TaskInstance → TaskInstance} {new : List Attempt} (ht : db.task k = some t)
    (hrows : db'.taskInstances.rows = db.taskInstances.rows.map fun t => if p t then f t else t)
    (hid : ∀ t, (f t).id = t.id) (hattempts : db'.attempts = db.attempts ++ new)
    (hown : ∀ e ∈ new, e.taskInstanceId = r.id) (hr : db.task r.id = some r)
    (hone : ∀ t, p t = true → t.id = r.id)
    (hfires : p r = true → Rewrites cfg s a (db.taskView r)
      { row := f r, evidence := db.evidence r.id ++ new })
    (hmisses : p r = false → new = []) :
    ∃ t', db'.task k = some t' ∧ Rewrites cfg s a (db.taskView t) (db'.taskView t') := by
  refine ⟨if p t then f t else t, by rw [Db.task_of_update hrows hid, ht, Option.map_some], ?_⟩
  have hkey : t.id = k := Db.id_of_task ht
  have hevidence := Db.evidence_append (k := t.id) hattempts hown
  by_cases hrow : t.id = r.id
  · have hsame : t = r := by
      rw [← hkey, hrow, hr] at ht
      exact (Option.some.inj ht).symm
    subst hsame
    rw [if_pos rfl] at hevidence
    cases hp : p t with
    | false =>
        rw [hmisses hp, List.append_nil] at hevidence
        rw [if_neg Bool.false_ne_true, Db.taskView, Db.taskView, hevidence]
        exact .keep
    | true =>
        have hview : db'.taskView (f t) = { row := f t, evidence := db.evidence t.id ++ new } := by
          rw [Db.taskView, hid, hevidence]
        rw [if_pos rfl, hview]
        exact hfires hp
  · have hp : p t = false := by
      by_contra hp
      exact hrow (hone t (by simpa using hp))
    rw [if_neg hrow] at hevidence
    rw [if_neg (by simp [hp]), Db.taskView, Db.taskView, hevidence]
    exact .keep

theorem rewrites_of_kept (hkept : db'.task k = some t)
    (hattempts : db'.attempts = db.attempts) :
    ∃ t', db'.task k = some t' ∧ Rewrites cfg s a (db.taskView t) (db'.taskView t') := by
  refine ⟨t, hkept, ?_⟩
  rw [Db.taskView_congr hattempts]
  exact .keep

theorem rewrites_of_route {limit : Nat} {flags : Uuid → Flags} {now : Time} {locked : Uuid → Bool}
    {r : TaskInstance} {routed : Routed} (hr : db.task r.id = some r) (hfailed : r.status = .failed)
    (hroute : routeOne cfg.ladder (flags r.id) now r db = some (routed, db'))
    (ht : db.task k = some t) :
    ∃ t', db'.task k = some t' ∧
      Rewrites cfg s (.classify limit flags now locked) (db.taskView t) (db'.taskView t') := by
  have hverdict := routeOne_spec hroute
  split at hverdict
  · rename_i hretry
    obtain ⟨-, rfl⟩ := hverdict
    exact rewrites_of_update ht rfl (fun _ => rfl) (List.append_nil _).symm (by simp) hr
      (fun _ hp => of_decide_eq_true hp)
      (fun _ => by rw [List.append_nil]; exact .retry hfailed hretry) fun _ => rfl
  · rename_i tier hpromote
    obtain ⟨-, rfl⟩ := hverdict
    exact rewrites_of_update ht rfl (fun _ => rfl) (List.append_nil _).symm (by simp) hr
      (fun _ hp => of_decide_eq_true hp)
      (fun _ => by rw [List.append_nil]; exact .promote hfailed hpromote) fun _ => rfl
  · obtain ⟨hdlq, -⟩ := hverdict
    rw [routeOne_eq, Option.map_eq_some_iff] at hroute
    obtain ⟨w, hw, heq⟩ := hroute
    obtain ⟨hrouted, rfl⟩ := Prod.mk.inj heq
    refine ⟨w.onTask t, by rw [w.perform_task, ht, Option.map_some], ?_⟩
    rw [Db.taskView_congr (w.perform_attempts db)]
    unfold routeWrite at hw
    split at hw
    · cases hw
      rw [hdlq] at hrouted
      cases hrouted
    · cases hw
      rw [hdlq] at hrouted
      cases hrouted
    · obtain ⟨failureClass, -, rfl⟩ := Option.map_eq_some_iff.1 hw
      simp only [Write.onTask]
      by_cases hown : t.id = r.id
      · have hsame : t = r := by
          rw [← Db.id_of_task ht, hown, hr] at ht
          exact (Option.some.inj ht).symm
        subst hsame
        rw [if_pos rfl]
        exact .kill hfailed
      · rw [if_neg hown]
        split
        · rename_i hqueued
          simp only [queuedSibling, Bool.and_eq_true, decide_eq_true_eq] at hqueued
          exact .cancel hqueued.1.2
        · exact .keep

/-- A statement rewrites a row in one of these ways, and deletes none. -/
theorem statement_rewrites (h : Statement cfg s a db db') (ht : db.task k = some t) :
    ∃ t', db'.task k = some t' ∧ Rewrites cfg s a (db.taskView t) (db'.taskView t') := by
  cases h with
  | @claim p now started locked task _ _ hclaim =>
      obtain ⟨r, hr, hclaimable, -, rfl⟩ := claimOne_spec hclaim
      obtain ⟨-, -, hpending, hdue, -⟩ := claimable_spec hclaimable
      exact rewrites_of_update ht rfl (fun _ => rfl) (List.append_nil _).symm (by simp) hr
        (fun _ hp => of_decide_eq_true hp)
        (fun _ => by rw [List.append_nil]; exact .claim hpending hdue) fun _ => rfl
  | @renew _ p taskId now _ =>
      rcases renewSql_spec taskId (cfg.workerId p) cfg.leaseTtlSeconds now db with
        ⟨-, hsame⟩ | ⟨r, hr, howner, hrunning⟩
      · rw [hsame]
        exact ⟨t, ht, .keep⟩
      · have hid : r.id = taskId := Db.id_of_task hr
        exact rewrites_of_update ht rfl (fun _ => rfl) (List.append_nil _).symm (by simp)
          (hid.symm ▸ hr) (fun _ hp => (leasedBy_iff.1 hp).1.trans hid.symm)
          (fun _ => by rw [List.append_nil]; exact .renew hrunning) fun _ => rfl
  | ledger hledger =>
      obtain ⟨table, rfl⟩ := hledger
      exact rewrites_of_kept ht rfl
  | checkpoint hphase hcommit =>
      rcases checkpointSuccess_spec hcommit with
        ⟨-, rfl⟩ | ⟨fields, r, ag, -, -, hr, howner, hrunning, -, -, rfl⟩
      · exact ⟨t, ht, .keep⟩
      · have hid : r.id = _ := Db.id_of_task hr
        refine rewrites_of_update ht rfl (fun _ => rfl) rfl ?_ (hid.symm ▸ hr)
          (fun _ hp => (leasedBy_iff.1 hp).1.trans hid.symm) (fun _ => .commit hrunning) ?_
        · simp [Handout.attemptRow, hid]
        · intro hp
          rw [leasedBy_iff.2 ⟨hid, howner, hrunning⟩] at hp
          cases hp
  | report hphase hreport =>
      rcases reportFailure_spec hreport with ⟨-, rfl⟩ | ⟨r, -, hr, howner, hrunning, rfl⟩
      · exact ⟨t, ht, .keep⟩
      · have hid : r.id = _ := Db.id_of_task hr
        refine rewrites_of_update ht rfl (fun _ => rfl) rfl ?_ (hid.symm ▸ hr)
          (fun _ hp => (leasedBy_iff.1 hp).1.trans hid.symm)
          (fun _ => .report hphase hid.symm hrunning howner) ?_
        · simp [Handout.attemptRow, hid]
        · intro hp
          rw [leasedBy_iff.2 ⟨hid, howner, hrunning⟩] at hp
          cases hp
  | @reclaim batch jitter now locked r _ hr hexpired =>
      refine rewrites_of_update ht rfl (fun _ => rfl) rfl ?_ hr
        (fun _ hp => of_decide_eq_true hp) (fun _ => .reclaim (expired_spec hexpired).1) ?_
      · simp [TaskInstance.reclaimRow]
      · simp
  | repair hbase hag hrunning hone =>
      refine rewrites_of_kept ((repairOne_rows hone).1 k t ht) ?_
      rcases repairOne_spec hone with rfl | ⟨taskDefId, -, hinsert⟩
      · rfl
      · obtain ⟨-, -, -, ⟨table, rfl⟩, -⟩ := insertTask_spec hinsert
        rfl
  | finalise => exact rewrites_of_kept ht rfl
  | route hr hfailed hroute => exact rewrites_of_route hr hfailed hroute ht
  | submit _ hcreate | seed hcreate =>
      obtain ⟨-, hattempts, -, -, hkept, -⟩ := createAgent_spec hcreate
      exact rewrites_of_kept (hkept k t ht) hattempts

/-- A report is one statement. -/
theorem step_report_rewrites {s' : Sys} {p : Nat} {now : Time}
    (h : step cfg s (.report p now) = some s') (ht : s.db.task k = some t) :
    ∃ t', s'.db.task k = some t' ∧
      Rewrites cfg s (.report p now) (s.db.taskView t) (s'.db.taskView t') := by
  simp only [step] at h
  split at h
  · rename_i hphase
    cases h
    exact statement_rewrites (.report hphase rfl) ht
  · cases h

/-- Over the statements of an action, what every rewriting keeps is kept. -/
theorem step_rewrites {s' : Sys} (h : step cfg s a = some s') {I : TaskView → Prop}
    (next : ∀ v v', I v → Rewrites cfg s a v v' → I v') (ht : s.db.task k = some t)
    (init : I (s.db.taskView t)) : ∃ t', s'.db.task k = some t' ∧ I (s'.db.taskView t') := by
  refine Machine.closure_invariant (I := fun db => ∃ t', db.task k = some t' ∧ I (db.taskView t'))
    ?_ ⟨t, ht, init⟩ (step_statements h)
  rintro db db' ⟨u, hu, hI⟩ hstatement
  obtain ⟨u', hu', hrewrites⟩ := statement_rewrites hstatement hu
  exact ⟨u', hu', next _ _ hI hrewrites⟩

end Statement

end ReliableAgents
