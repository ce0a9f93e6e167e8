import ReliableAgents.Orchestrator.Transactions
import ReliableAgents.Lifecycle.Statements
import ReliableAgents.Deployment

/-!
# Each failure is routed once

A row that is 'failed' stays as it is until a transaction that captured it commits,
and no two transactions hold it. So the failures of a task are the decisions that were
committed for it, and the one that still waits.
-/

namespace ReliableAgents

open Relational

def Db.failedAttempts (db : Db) (k : Uuid) : Nat :=
  (db.evidence k).countP fun e => e.outcome = .failed

/-- One while the row waits for a decision. -/
def Db.unrouted (db : Db) (k : Uuid) : Nat :=
  if (db.task k).any fun t => t.status = .failed then 1 else 0

/-- The decisions a commit makes for task `k`. -/
def decided (k : Uuid) (c : ConcurrentTransition) : Nat :=
  match c.action with
  | .commit q =>
      match c.before.txns q with
      | none => 0
      | some txn => txn.writes.countP fun w => w.task.id = k
  | _ => 0

/-- The committed retry, promote and dlq decisions for task `k`. -/
def decisions (k : Uuid) (ts : List ConcurrentTransition) : Nat := (ts.map (decided k)).sum

/-! ## Without the classifier -/

/-- From `db` to `db'` failures were reported and none was routed. -/
structure Reports (db db' : Db) : Prop where
  kept : ∀ t, db.task t.id = some t → t.status = .failed → db'.task t.id = some t
  balance : ∀ k, db'.failedAttempts k + db.unrouted k = db.failedAttempts k + db'.unrouted k

section Reports

variable {cfg : Config} {s : Sys} {a : Action} {db db' db'' : Db}

theorem Db.unrouted_eq_zero {k : Uuid} (h : ∀ t, db.task k = some t → t.status ≠ .failed) :
    db.unrouted k = 0 := by
  unfold Db.unrouted
  cases ht : db.task k with
  | none => rfl
  | some t => simp [h t ht]

theorem Db.unrouted_of_failed {k : Uuid} {t : TaskInstance} (ht : db.task k = some t)
    (hfailed : t.status = .failed) : db.unrouted k = 1 := by
  simp [unrouted, ht, hfailed]

theorem Db.unrouted_congr {k : Uuid} (h : db'.task k = db.task k) :
    db'.unrouted k = db.unrouted k := by
  rw [unrouted, h, unrouted]

theorem Reports.refl (db : Db) : Reports db db := ⟨fun _ ht _ => ht, fun _ => rfl⟩

theorem Reports.trans (h : Reports db db') (h' : Reports db' db'') : Reports db db'' where
  kept := fun t ht hfailed => h'.kept t (h.kept t ht hfailed) hfailed
  balance := by
    intro k
    have hfirst := h.balance k
    have hlast := h'.balance k
    omega

theorem Reports.quiet
    (hrows : ∀ k, db'.task k = db.task k ∨ (∀ t, db.task k = some t → t.status ≠ .failed) ∧
      ∀ t, db'.task k = some t → t.status ≠ .failed)
    (hattempts : ∀ k, db'.failedAttempts k = db.failedAttempts k) : Reports db db' where
  kept := by
    intro t ht hfailed
    rcases hrows t.id with hsame | ⟨hold, -⟩
    · rw [hsame, ht]
    · exact absurd hfailed (hold t ht)
  balance := by
    intro k
    have hflag : db'.unrouted k = db.unrouted k := by
      rcases hrows k with hsame | ⟨hold, hnew⟩
      · exact Db.unrouted_congr hsame
      · rw [Db.unrouted_eq_zero hold, Db.unrouted_eq_zero hnew]
    rw [hattempts k, hflag]

theorem rows_of_update {p : TaskInstance → Bool} {f : TaskInstance → TaskInstance}
    (hrows : db'.taskInstances.rows = db.taskInstances.rows.map fun t => if p t then f t else t)
    (hid : ∀ t, (f t).id = t.id)
    (hold : ∀ t, db.task t.id = some t → p t = true → t.status ≠ .failed)
    (hnew : ∀ t, p t = true → (f t).status ≠ .failed) (k : Uuid) :
    db'.task k = db.task k ∨ (∀ t, db.task k = some t → t.status ≠ .failed) ∧
      ∀ t, db'.task k = some t → t.status ≠ .failed := by
  rw [Db.task_of_update hrows hid]
  cases ht : db.task k with
  | none => exact Or.inl rfl
  | some t =>
      have hid : t.id = k := Db.id_of_task ht
      by_cases hp : p t = true
      · right
        simp only [Option.map_some, Option.some.injEq, if_pos hp, forall_eq']
        exact ⟨hold t (hid ▸ ht) hp, hnew t hp⟩
      · left
        simp [hp]

theorem failedAttempts_append {es : List Attempt} (h : db'.attempts = db.attempts ++ es)
    (k : Uuid) :
    db'.failedAttempts k = db.failedAttempts k +
      es.countP fun e => e.taskInstanceId = k && e.outcome = .failed := by
  unfold Db.failedAttempts Db.evidence
  rw [h, List.filter_append, List.countP_append, List.countP_filter (l := es)]
  simp [Bool.and_comm]

theorem failedAttempts_same (h : db'.attempts = db.attempts) (k : Uuid) :
    db'.failedAttempts k = db.failedAttempts k := by
  rw [Db.failedAttempts, Db.evidence, h]
  rfl

theorem Reports.created (hkept : ∀ k t, db.task k = some t → db'.task k = some t)
    (hnew : ∀ k t, db'.task k = some t → db.task k = some t ∨ t.status = .pending)
    (hattempts : db'.attempts = db.attempts) : Reports db db' := by
  refine .quiet (fun k => ?_) (failedAttempts_same hattempts)
  cases hold : db.task k with
  | some t => exact Or.inl (hkept k t hold)
  | none =>
      refine Or.inr ⟨by simp, fun t ht => ?_⟩
      rcases hnew k t ht with hsame | hpending
      · rw [hold] at hsame
        cases hsame
      · simp [hpending]

theorem Reports.recorded {k₀ : Uuid} {t u : TaskInstance} {e : Attempt}
    (ht : db.task k₀ = some t) (hrunning : t.status = .running)
    (htask : ∀ k, db'.task k = if k = k₀ then some u else db.task k) (hfailed : u.status = .failed)
    (hattempts : db'.attempts = db.attempts ++ [e]) (hid : e.taskInstanceId = k₀)
    (houtcome : e.outcome = .failed) : Reports db db' := by
  have hbefore : db.unrouted k₀ = 0 := Db.unrouted_eq_zero fun v hv => by
    rw [ht] at hv
    rw [← Option.some.inj hv, hrunning]
    decide
  have hafter : db'.unrouted k₀ = 1 := Db.unrouted_of_failed ((htask k₀).trans (if_pos rfl)) hfailed
  refine ⟨fun v hv hwaiting => ?_, fun k => ?_⟩
  · rw [htask, if_neg]
    · exact hv
    · intro heq
      rw [heq, ht] at hv
      rw [← Option.some.inj hv, hrunning] at hwaiting
      cases hwaiting
  · rw [failedAttempts_append hattempts]
    by_cases hk : k = k₀
    · rw [hk, hbefore, hafter]
      simp [hid, houtcome]
    · rw [Db.unrouted_congr ((htask k).trans (if_neg hk))]
      simp [hid, Ne.symm hk]

theorem Reports.report {task : Handout} {failure : FailureReport} {started : Time}
    {workerId : WorkerId} {now : Time} {ok : Bool}
    (h : reportFailure task failure started workerId now db = (db', ok)) : Reports db db' := by
  rcases reportFailure_spec h with ⟨-, rfl⟩ | ⟨t, -, ht, howner, hrunning, rfl⟩
  · exact .refl _
  have htask : ∀ k, (db.taskInstances.update (leasedBy task.id workerId)
      (TaskInstance.reportedFailed failure now)).get? k =
        if k = task.id then some (t.reportedFailed failure now) else db.task k :=
    get?_update_leasedBy ht howner hrunning
  exact .recorded ht hrunning htask rfl rfl rfl rfl

/-- No statement but the classifier's takes a row out of 'failed'. -/
theorem reports_of_statement (hclassify : a.classifies = false)
    (h : Statement cfg s a db db') : Reports db db' := by
  cases h with
  | claim hclaim =>
      obtain ⟨t, ht, hclaimable, -, rfl⟩ := claimOne_spec hclaim
      obtain ⟨-, -, hpending, -⟩ := claimable_spec hclaimable
      refine .quiet (rows_of_update rfl (fun _ => rfl) (fun u hu hp => ?_)
        (fun u _ => by simp)) (failedAttempts_same rfl)
      rw [of_decide_eq_true hp, ht] at hu
      rw [← Option.some.inj hu, hpending]
      decide
  | renew =>
      refine .quiet (rows_of_update rfl (fun _ => rfl) (fun u _ hp => ?_)
        (fun u hp => ?_)) (failedAttempts_same rfl)
      · rw [(leasedBy_iff.1 hp).2.2]
        decide
      · rw [TaskInstance.renewed_status, (leasedBy_iff.1 hp).2.2]
        decide
  | ledger hledger =>
      obtain ⟨table, rfl⟩ := hledger
      exact ⟨fun _ ht _ => ht, fun _ => rfl⟩
  | checkpoint hphase hcommit =>
      rcases checkpointSuccess_spec hcommit with
        ⟨-, rfl⟩ | ⟨fields, t, ag, -, -, -, -, -, -, -, rfl⟩
      · exact .refl _
      · refine .quiet (rows_of_update rfl (fun _ => rfl) (fun u _ hp => ?_)
          (fun u _ => by simp)) (fun k => ?_)
        · rw [(leasedBy_iff.1 hp).2.2]
          decide
        · rw [failedAttempts_append rfl]
          simp [Handout.attemptRow]
  | report hphase hreport => exact .report hreport
  | @reclaim batch jitter now locked t _ ht hexpired =>
      refine .quiet (rows_of_update rfl (fun _ => rfl) (fun u hu hp => ?_)
        (fun u _ => by simp)) (fun k => ?_)
      · rw [of_decide_eq_true hp, ht] at hu
        rw [← Option.some.inj hu, (expired_spec hexpired).1]
        decide
      · rw [reclaim, failedAttempts_append rfl]
        simp [TaskInstance.reclaimRow]
  | repair hbase hag hrunning hone =>
      rcases repairOne_spec hone with rfl | ⟨taskDefId, -, hinsert⟩
      · exact .refl _
      · obtain ⟨-, hfresh, -, ⟨table, rfl⟩, htask, -⟩ := insertTask_spec hinsert
        refine .created (fun k t ht => ?_) (fun k t ht => ?_) rfl
        · rw [htask, if_neg]
          · exact ht
          · rintro rfl
            rw [hfresh] at ht
            cases ht
        · rw [htask] at ht
          split at ht
          · exact Or.inr (by rw [← Option.some.inj ht]; rfl)
          · exact Or.inl ht
  | finalise => exact ⟨fun _ ht _ => ht, fun _ => rfl⟩
  | route => cases hclassify
  | submit _ hcreate | seed hcreate =>
      obtain ⟨-, hattempts, -, -, hkept, hnew, -⟩ := createAgent_spec hcreate
      refine .created hkept (fun k t ht => ?_) hattempts
      rcases hnew k t ht with hold | ⟨i, taskDefId, -, rfl⟩
      · exact Or.inl hold
      · exact Or.inr rfl

theorem reports_of_step {s' : Sys} (hclassify : a.classifies = false)
    (h : step cfg s a = some s') : Reports s.db s'.db :=
  Machine.closure_invariant (I := Reports s.db)
    (fun _ _ hpast hstatement => hpast.trans (reports_of_statement hclassify hstatement))
    (.refl _) (step_statements h)

end Reports

/-! ## A committed batch -/

section Writes

variable {db : Db}

theorem performAll_attempts (ws : List Write) (db : Db) :
    (ws.foldl Write.perform db).attempts = db.attempts := by
  induction ws generalizing db with
  | nil => rfl
  | cons w rest ih => exact (ih _).trans (w.perform_attempts db)

theorem Write.perform_kept {w : Write} {t : TaskInstance} (ht : db.task t.id = some t)
    (hfailed : t.status = .failed) (hne : t.id ≠ w.task.id) :
    (w.perform db).task t.id = some t := by
  rw [w.perform_task, ht, Option.map_some]
  rcases Write.onTask_other hne with hsame | ⟨-, -, hpending, -⟩
  · rw [hsame]
  · rw [hfailed] at hpending
    cases hpending

theorem performAll_kept {ws : List Write} {t : TaskInstance} (ht : db.task t.id = some t)
    (hfailed : t.status = .failed) (hne : ∀ w ∈ ws, t.id ≠ w.task.id) :
    (ws.foldl Write.perform db).task t.id = some t := by
  induction ws generalizing db with
  | nil => exact ht
  | cons w rest ih =>
      exact ih (Write.perform_kept ht hfailed (hne w List.mem_cons_self))
        fun w' hw' => hne w' (List.mem_cons_of_mem _ hw')

/-- One write on a failed row is one decision for it, and no decision for any other. -/
theorem Write.perform_unrouted {w : Write} (ht : db.task w.task.id = some w.task)
    (hfailed : w.task.status = .failed) (k : Uuid) :
    (w.perform db).unrouted k + (if w.task.id = k then 1 else 0) = db.unrouted k := by
  by_cases hk : w.task.id = k
  · subst hk
    rw [Db.unrouted_of_failed ht hfailed, if_pos rfl, Db.unrouted_eq_zero fun u hu => ?_]
    rw [w.perform_task, ht, Option.map_some, Option.some.injEq] at hu
    rcases Write.onTask_own (w := w) (t := w.task) rfl with hpending | hdead
    · simp [← hu, hpending]
    · simp [← hu, hdead]
  · rw [if_neg hk, Nat.add_zero, Db.unrouted, w.perform_task, Db.unrouted]
    cases hold : db.task k with
    | none => rfl
    | some t =>
        have hid : t.id = k := Db.id_of_task hold
        rcases Write.onTask_other (w := w) (fun heq => hk (heq.symm.trans hid)) with
          hsame | ⟨-, -, hpending, hdead⟩
        · rw [Option.map_some, hsame]
        · simp [hpending, hdead]

variable (db) in
/-- A batch over distinct failed rows makes one decision for each of them. -/
theorem performAll_unrouted {ws : List Write} (hnodup : (ws.map fun w => w.task.id).Nodup)
    (hrows : ∀ w ∈ ws, db.task w.task.id = some w.task ∧ w.task.status = .failed) (k : Uuid) :
    (ws.foldl Write.perform db).unrouted k + (ws.countP fun w => w.task.id = k) =
      db.unrouted k := by
  induction ws generalizing db with
  | nil => simp
  | cons w rest ih =>
      simp only [List.map_cons, List.nodup_cons] at hnodup
      obtain ⟨ht, hfailed⟩ := hrows w List.mem_cons_self
      have hstep := Write.perform_unrouted ht hfailed k
      have hrest := ih (w.perform db) hnodup.2 fun w' hw' => by
        obtain ⟨ht', hfailed'⟩ := hrows w' (List.mem_cons_of_mem _ hw')
        have hne : w'.task.id ≠ w.task.id := fun heq =>
          hnodup.1 (heq ▸ List.mem_map_of_mem (f := fun w => w.task.id) hw')
        exact ⟨Write.perform_kept ht' hfailed' hne, hfailed'⟩
      rw [List.foldl_cons, List.countP_cons]
      simp only [decide_eq_true_eq]
      omega

end Writes

/-! ## Locked rows -/

/-- Every captured row is still the failed row it was, locked by its transaction. -/
structure Exclusive (s : Concurrent) : Prop where
  rows : ∀ q txn, s.txns q = some txn → ∀ t ∈ txn.captured,
    s.sys.db.task t.id = some t ∧ t.status = .failed ∧ s.rowLock t.id = some q
  nodup : ∀ q txn, s.txns q = some txn → (txn.captured.map TaskInstance.id).Nodup

section Exclusive

variable {cfg : Config} {s s' : Concurrent}

theorem Exclusive.act {a : Action} (hI : Exclusive s)
    (h : Concurrent.step cfg s (.act a) = some s') : Exclusive s' := by
  obtain ⟨hclassify, sys, hstep, rfl⟩ := Concurrent.step_act h
  have hskip : ∀ rows agents, (a.skipping rows agents).classifies = false := by
    intro rows agents
    cases a <;> exact hclassify
  have hreports := reports_of_step (hskip _ _) hstep
  refine ⟨fun q txn htxn t ht => ?_, hI.nodup⟩
  obtain ⟨hrow, hfailed, hlock⟩ := hI.rows q txn htxn t ht
  exact ⟨hreports.kept t hrow hfailed, hfailed, hlock⟩

theorem Exclusive.start {q limit : Nat} {now : Time} (hI : Exclusive s)
    (h : Concurrent.step cfg s (.start q limit now) = some s') : Exclusive s' := by
  obtain ⟨found, rfl⟩ := Concurrent.step_start h
  constructor
  all_goals
    intro r txn htxn
    rw [Concurrent.setTxn_txns] at htxn
    split at htxn
  · cases htxn
    simp [Txn.captured]
  · exact hI.rows r txn htxn
  · cases htxn
    simp [Txn.captured]
  · exact hI.nodup r txn htxn

theorem Exclusive.take {q : Nat} {contended : Bool} (hI : Exclusive s)
    (h : Concurrent.step cfg s (.take q contended) = some s') : Exclusive s' := by
  obtain ⟨txn, rest, htxn, rfl | ⟨u, hu, hfailed, hfree, rfl⟩⟩ := Concurrent.step_take h
  · constructor
    all_goals
      intro r txn' htxn'
      rw [Concurrent.setTxn_txns] at htxn'
      split at htxn'
    · rename_i heq
      cases htxn'
      exact heq ▸ hI.rows q txn htxn
    · exact hI.rows r txn' htxn'
    · cases htxn'
      exact hI.nodup q txn htxn
    · exact hI.nodup r txn' htxn'
  · have hnew : ∀ r txn', s.txns r = some txn' → ∀ t ∈ txn'.captured, t.id ≠ u.id := by
      intro r txn' htxn' t ht heq
      have hlock := (hI.rows r txn' htxn' t ht).2.2
      rw [heq, hfree] at hlock
      cases hlock
    have hcaptured : ({ txn with found := rest, taken := txn.taken ++ [u] } : Txn).captured =
        txn.captured ++ [u] := by
      simp [Txn.captured]
    constructor
    · intro r txn' htxn' t ht
      rw [show _ = if r = q then _ else _ from Concurrent.setTxn_txns] at htxn'
      simp only [Function.update_apply]
      split at htxn'
      · rename_i heq
        cases htxn'
        rw [hcaptured, List.mem_append, List.mem_singleton] at ht
        rcases ht with ht | rfl
        · obtain ⟨hrow, hwaiting, hlock⟩ := hI.rows q txn htxn t ht
          exact ⟨hrow, hwaiting, by rw [if_neg (hnew q txn htxn t ht), hlock, heq]⟩
        · exact ⟨hu, hfailed, by rw [if_pos rfl, heq]⟩
      · obtain ⟨hrow, hwaiting, hlock⟩ := hI.rows r txn' htxn' t ht
        exact ⟨hrow, hwaiting, by rw [if_neg (hnew r txn' htxn' t ht), hlock]⟩
    · intro r txn' htxn'
      rw [show _ = if r = q then _ else _ from Concurrent.setTxn_txns] at htxn'
      split at htxn'
      · cases htxn'
        rw [hcaptured, List.map_append, List.nodup_append]
        refine ⟨hI.nodup q txn htxn, by simp, ?_⟩
        intro k hk k' hk' heq
        obtain ⟨t, ht, rfl⟩ := List.mem_map.1 hk
        rw [List.map_cons, List.map_nil, List.mem_singleton] at hk'
        exact hnew q txn htxn t ht (heq.trans hk')
      · exact hI.nodup r txn' htxn'

theorem routeWrite_task {ladder : Ladder} {flags : Flags} {now : Time} {task : TaskInstance}
    {db : Db} {w : Write} (h : routeWrite ladder flags now task db = some w) : w.task = task := by
  unfold routeWrite at h
  split at h
  · cases h
    rfl
  · cases h
    rfl
  · obtain ⟨failureClass, -, rfl⟩ := Option.map_eq_some_iff.1 h
    rfl

theorem Exclusive.route {q : Nat} {flags : Flags} (hI : Exclusive s)
    (h : Concurrent.step cfg s (.route q flags) = some s') : Exclusive s' := by
  obtain ⟨txn, task, rest, w, htxn, htaken, hw, hfree, rfl⟩ := Concurrent.step_route h
  have hcaptured : ({ txn with taken := rest, writes := txn.writes ++ [w] } : Txn).captured =
      txn.captured := by
    simp [Txn.captured, htaken, routeWrite_task hw]
  -- the row locks it takes are free or its own
  have hkept : ∀ r k, s.rowLock k = some r →
      (if k ∈ w.siblings then some q else s.rowLock k) = some r := by
    intro r k hlock
    split
    · rename_i hk
      simp only [Concurrent.routeWaits, Bool.or_eq_false_iff, List.any_eq_false] at hfree
      have hown := hfree.1 k hk
      rw [hlock] at hown
      simp only [ne_eq, reduceCtorEq, not_false_eq_true, decide_true, Bool.true_and,
        Option.some.injEq, decide_not, Bool.not_eq_true', decide_eq_false_iff_not, not_not] at hown
      rw [hown]
    · exact hlock
  constructor
  · intro r txn' htxn' t ht
    rw [Concurrent.route_txns] at htxn'
    split at htxn'
    · rename_i heq
      cases htxn'
      rw [hcaptured] at ht
      obtain ⟨hrow, hwaiting, hlock⟩ := hI.rows q txn htxn t ht
      exact ⟨hrow, hwaiting, hkept r t.id (heq ▸ hlock)⟩
    · obtain ⟨hrow, hwaiting, hlock⟩ := hI.rows r txn' htxn' t ht
      exact ⟨hrow, hwaiting, hkept r t.id hlock⟩
  · intro r txn' htxn'
    rw [Concurrent.route_txns] at htxn'
    split at htxn'
    · cases htxn'
      rw [hcaptured]
      exact hI.nodup q txn htxn
    · exact hI.nodup r txn' htxn'

theorem Exclusive.commit {q : Nat} (hI : Exclusive s)
    (h : Concurrent.step cfg s (.commit q) = some s') : Exclusive s' := by
  obtain ⟨txn, htxn, htaken, rfl⟩ := Concurrent.step_commit h
  refine ⟨fun r txn' htxn' t ht => ?_, fun r txn' htxn' => ?_⟩
  · obtain ⟨hne, hopen⟩ := Concurrent.release_txns.1 htxn'
    obtain ⟨hrow, hwaiting, hlock⟩ := hI.rows r txn' hopen t ht
    refine ⟨performAll_kept hrow hwaiting fun w hw heq => ?_, hwaiting,
      Concurrent.release_rowLock hne hlock⟩
    have hcaptured : w.task ∈ txn.captured :=
      List.mem_append_left _ (List.mem_map_of_mem hw)
    have hown := (hI.rows q txn htxn _ hcaptured).2.2
    rw [← heq, hlock] at hown
    exact hne (Option.some.inj hown)
  · exact hI.nodup r txn' (Concurrent.release_txns.1 htxn').2

theorem Exclusive.abort {q : Nat} (hI : Exclusive s)
    (h : Concurrent.step cfg s (.abort q) = some s') : Exclusive s' := by
  obtain ⟨-, rfl⟩ := Concurrent.step_abort h
  refine ⟨fun r txn' htxn' t ht => ?_, fun r txn' htxn' => ?_⟩
  · obtain ⟨hne, hopen⟩ := Concurrent.release_txns.1 htxn'
    obtain ⟨hrow, hwaiting, hlock⟩ := hI.rows r txn' hopen t ht
    exact ⟨hrow, hwaiting, Concurrent.release_rowLock hne hlock⟩
  · exact hI.nodup r txn' (Concurrent.release_txns.1 htxn').2

theorem Exclusive.next {a : ConcurrentAction} (hI : Exclusive s)
    (h : Concurrent.step cfg s a = some s') : Exclusive s' := by
  cases a with
  | act a => exact hI.act h
  | start q limit now => exact hI.start h
  | take q contended => exact hI.take h
  | route q flags => exact hI.route h
  | commit q => exact hI.commit h
  | abort q => exact hI.abort h

theorem exclusive_of_run {ts : List ConcurrentTransition} (h : ConcurrentRun cfg ts s) :
    Exclusive s :=
  h.invariant (I := Exclusive)
    ⟨fun _ _ htxn => (nomatch htxn), fun _ _ htxn => (nomatch htxn)⟩
    fun _ _ _ hI hstep => hI.next hstep

end Exclusive

/-! ## Runs -/

/-- The failures of every task are the decisions committed for it and the one that waits. -/
def Accounts (ts : List ConcurrentTransition) (s : Concurrent) : Prop :=
  ∀ k, s.sys.db.failedAttempts k = decisions k ts + s.sys.db.unrouted k

section Runs

variable {cfg : Config} {ts : List ConcurrentTransition} {s s' : Concurrent}

theorem decisions_snoc (k : Uuid) (c : ConcurrentTransition) :
    decisions k (ts ++ [c]) = decisions k ts + decided k c := by
  simp [decisions]

theorem Accounts.same {a : ConcurrentAction} (h : Accounts ts s) (hsys : s'.sys = s.sys)
    (hquiet : ∀ k, decided k ⟨s, a, s'⟩ = 0) : Accounts (ts ++ [⟨s, a, s'⟩]) s' := by
  intro k
  rw [hsys, decisions_snoc, hquiet, Nat.add_zero]
  exact h k

/-- Before its commit, and in its abort, a transaction writes nothing. -/
def ConcurrentAction.holdsBack : ConcurrentAction → Bool
  | .start _ _ _ | .take _ _ | .route _ _ | .abort _ => true
  | .act _ | .commit _ => false

theorem Concurrent.step_holdsBack {a : ConcurrentAction} (h : Concurrent.step cfg s a = some s')
    (hquiet : a.holdsBack = true) : s'.sys = s.sys := by
  cases a with
  | act | commit => cases hquiet
  | start q limit now =>
      obtain ⟨found, rfl⟩ := Concurrent.step_start h
      rfl
  | take q contended =>
      obtain ⟨txn, rest, -, rfl | ⟨u, -, -, -, rfl⟩⟩ := Concurrent.step_take h <;> rfl
  | route q flags =>
      obtain ⟨txn, task, rest, w, -, -, -, -, rfl⟩ := Concurrent.step_route h
      rfl
  | abort q =>
      obtain ⟨-, rfl⟩ := Concurrent.step_abort h
      rfl

theorem Accounts.next {a : ConcurrentAction} (hI : Exclusive s) (hacc : Accounts ts s)
    (h : Concurrent.step cfg s a = some s') : Accounts (ts ++ [⟨s, a, s'⟩]) s' := by
  cases a with
  | start | take | route | abort =>
      exact hacc.same (Concurrent.step_holdsBack h rfl) fun _ => rfl
  | act a =>
      obtain ⟨hclassify, sys, hstep, rfl⟩ := Concurrent.step_act h
      intro k
      have hreports := reports_of_step (by cases a <;> exact hclassify) hstep
      have hbalance := hreports.balance k
      have hbefore := hacc k
      rw [decisions_snoc, decided]
      dsimp only
      omega
  | commit q =>
      obtain ⟨txn, htxn, -, rfl⟩ := Concurrent.step_commit h
      intro k
      have hsublist : txn.writes.map (fun w => w.task.id) =
          (txn.writes.map Write.task).map TaskInstance.id := by
        rw [List.map_map]
        rfl
      have hnodup : (txn.writes.map fun w => w.task.id).Nodup := by
        rw [hsublist]
        exact (hI.nodup q txn htxn).sublist ((List.sublist_append_left _ _).map _)
      have hbatch := performAll_unrouted s.sys.db hnodup (fun w hw => by
        obtain ⟨hrow, hfailed, -⟩ := hI.rows q txn htxn w.task
          (List.mem_append_left _ (List.mem_map_of_mem hw))
        exact ⟨hrow, hfailed⟩) k
      have hattempts := failedAttempts_same (performAll_attempts txn.writes s.sys.db) k
      have hbefore := hacc k
      have hdecided : ∀ u, decided k ⟨s, .commit q, u⟩ = txn.writes.countP fun w => w.task.id = k :=
        fun u => by simp only [decided, htxn]
      rw [decisions_snoc, hdecided]
      show (txn.writes.foldl Write.perform s.sys.db).failedAttempts k =
        _ + (txn.writes.foldl Write.perform s.sys.db).unrouted k
      omega

end Runs

/-- Every failure of a task is routed exactly once: it was counted by one committed decision,
or the row is still 'failed'. A transaction that aborts never wrote, and the rows it had
captured are the ones it found. -/
theorem routed_once {cfg : Config} {ts : List ConcurrentTransition} {s : Concurrent}
    (h : ConcurrentRun cfg ts s) :
    (∀ k, s.sys.db.failedAttempts k = decisions k ts + s.sys.db.unrouted k) ∧
      (∀ c ∈ ts, c.action.holdsBack = true → c.after.sys = c.before.sys) ∧
      ∀ c ∈ ts, ∀ q txn, c.action = .abort q → c.before.txns q = some txn →
        ∀ t ∈ txn.captured, c.after.sys.db.task t.id = some t ∧ t.status = .failed := by
  have haccounts : Exclusive s ∧ Accounts ts s := by
    refine h.invariant_along (I := fun us u => Exclusive u ∧ Accounts us u) (fun _ => True)
      ⟨@exclusive_of_run cfg _ _ .nil, fun k => ?_⟩ (fun us u a u' _ _ hI hstep _ =>
        ⟨hI.1.next hstep, hI.2.next hI.1 hstep⟩) (fun _ _ => trivial)
    simp [Concurrent.init, Sys.init, Db.empty, Db.failedAttempts, Db.evidence, decisions,
      Db.unrouted, Db.task, Table.get?, Table.empty]
  refine ⟨haccounts.2, fun c hc hquiet => ?_, fun c hc q txn haction htxn t ht => ?_⟩
  · exact Concurrent.step_holdsBack (h.step_of_mem hc) hquiet
  · obtain ⟨pre, post, -, hpre, hstep, -⟩ := h.exists_split hc
    obtain ⟨hrow, hfailed, -⟩ := (exclusive_of_run hpre).rows q txn htxn t ht
    rw [Concurrent.step_holdsBack hstep (by rw [haction]; rfl)]
    exact ⟨hrow, hfailed⟩

/-- Two orchestrators take the same failure: the second steps past the locked row, the first
aborts and its successor commits a retry. -/
def overlapping : List ConcurrentAction :=
  (submitPlan [20] :: handout 0 0 (.raised tooHard) ++ [Action.report 0 (seconds 1)]).map .act ++
    [.start 0 50 (seconds 2), .start 1 50 (seconds 2), .take 0 false, .take 1 false,
      .commit 1, .route 0 {}, .abort 0, .start 0 50 (seconds 3), .take 0 false, .route 0 {},
      .commit 0]

theorem routed_once_overlapping :
    (Concurrent.ran oneHost overlapping).1.length = 16 ∧
      (Concurrent.ran oneHost overlapping).2.sys.db.failedAttempts (rowId firstAgent 0) = 1 ∧
      decisions (rowId firstAgent 0) (Concurrent.ran oneHost overlapping).1 = 1 ∧
      ∀ k, (Concurrent.ran oneHost overlapping).2.sys.db.failedAttempts k =
        decisions k (Concurrent.ran oneHost overlapping).1 +
          (Concurrent.ran oneHost overlapping).2.sys.db.unrouted k :=
  ⟨by decide +kernel, by decide +kernel, by decide +kernel,
    (routed_once (Concurrent.run_ran oneHost overlapping)).1⟩

end ReliableAgents
