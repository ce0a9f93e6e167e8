import ReliableAgents.Lifecycle.Losses
import ReliableAgents.Orchestrator.Routing

/-!
# Work is at the cursor

A row that is running or failed stands at its agent's cursor, also when rows have gone
missing and were repaired. So an agent has at most one of them, which is what keeps the
sweeps of an orchestrator out of each other's way.
-/

namespace ReliableAgents

open Relational

def TaskInstance.active (t : TaskInstance) : Prop := t.status = .running ∨ t.status = .failed

structure Db.AtCursor (db : Db) : Prop where
  active : ∀ k t, db.task k = some t → t.active →
    ∃ a, db.agent t.agentId = some a ∧ a.cursor = t.seq
  classed : ∀ k t, db.task k = some t → t.status = .failed → t.failureClass ≠ none

/-- An agent has at most one active row. -/
theorem Db.AtCursor.unique {db : Db} (h : db.AtCursor) {t u : TaskInstance}
    (ht : db.task t.id = some t) (hu : db.task u.id = some u) (hactive : t.active)
    (hactive' : u.active) (hagent : t.agentId = u.agentId) : t = u := by
  obtain ⟨a, ha, hseq⟩ := h.active _ t ht hactive
  obtain ⟨b, hb, hseq'⟩ := h.active _ u hu hactive'
  rw [hagent, hb] at ha
  cases ha
  have hrow := Db.rowAt_of_task ht
  rw [hagent, ← hseq, hseq', Db.rowAt_of_task hu] at hrow
  exact (Option.some.inj hrow).symm

/-- Rows stay in the table, at their position. -/
def KeepsPlaces (db db' : Db) : Prop :=
  ∀ k t, db.task k = some t → ∃ t', db'.task k = some t' ∧ t'.agentId = t.agentId ∧ t'.seq = t.seq

/-- The row of every handout is there, at the position the handout names, or lost. -/
def Held (s : Sys) (lost : List Uuid) (db : Db) : Prop :=
  ∀ p task, (s.workers p).phase.task? = some task → task.id ∈ lost ∨
    ∃ t, db.task task.id = some t ∧ t.agentId = task.agentId ∧ t.seq = task.seq

section Database

variable {db db' db'' : Db}

theorem KeepsPlaces.refl (db : Db) : KeepsPlaces db db := fun _ t ht => ⟨t, ht, rfl, rfl⟩

theorem KeepsPlaces.trans (h : KeepsPlaces db db') (h' : KeepsPlaces db' db'') :
    KeepsPlaces db db'' := by
  intro k t ht
  obtain ⟨u, hu, hagent, hseq⟩ := h k t ht
  obtain ⟨v, hv, hagent', hseq'⟩ := h' k u hu
  exact ⟨v, hv, hagent'.trans hagent, hseq'.trans hseq⟩

/-- Every row of `db'` was one of `db`, apart from what `f` assigns. -/
theorem KeepsPlaces.of_map {f : TaskInstance → TaskInstance}
    (htask : ∀ k, db'.task k = (db.task k).map f)
    (hplace : ∀ t, (f t).agentId = t.agentId ∧ (f t).seq = t.seq) : KeepsPlaces db db' :=
  fun k t ht => ⟨f t, by rw [htask, ht, Option.map_some], hplace t⟩

theorem KeepsPlaces.of_insert (h : ∀ k t, db.task k = some t → db'.task k = some t) :
    KeepsPlaces db db' :=
  fun k t ht => ⟨t, h k t ht, rfl, rfl⟩

theorem Db.AtCursor.of_map (h : db.AtCursor) {f : TaskInstance → TaskInstance}
    (htask : ∀ k, db'.task k = (db.task k).map f)
    (hplace : ∀ t, (f t).agentId = t.agentId ∧ (f t).seq = t.seq)
    (hactive : ∀ t, db.task t.id = some t → (f t).active → t.active)
    (hclass : ∀ t, (f t).status = .failed → (f t).failureClass ≠ none ∨
      t.status = .failed ∧ (f t).failureClass = t.failureClass)
    (hagents : ∀ k a, db.agent k = some a → ∃ a', db'.agent k = some a' ∧ a'.cursor = a.cursor) :
    db'.AtCursor := by
  constructor
  · intro k t ht hnow
    rw [htask, Option.map_eq_some_iff] at ht
    obtain ⟨u, hu, rfl⟩ := ht
    obtain ⟨a, ha, hseq⟩ := h.active k u hu (hactive u (Db.id_of_task hu ▸ hu) hnow)
    obtain ⟨a', ha', hcursor⟩ := hagents _ a ha
    rw [(hplace u).1, (hplace u).2]
    exact ⟨a', ha', hcursor.trans hseq⟩
  · intro k t ht hfailed
    rw [htask, Option.map_eq_some_iff] at ht
    obtain ⟨u, hu, rfl⟩ := ht
    rcases hclass u hfailed with hnew | ⟨hbefore, hsame⟩
    · exact hnew
    · rw [hsame]
      exact h.classed k u hu hbefore

theorem Db.AtCursor.of_insert (h : db.AtCursor)
    (hnew : ∀ k t, db'.task k = some t → db.task k = some t ∨ t.status = .pending)
    (hagents : ∀ k a, db.agent k = some a → db'.agent k = some a) : db'.AtCursor := by
  constructor
  · intro k t ht hnow
    rcases hnew k t ht with hold | hpending
    · obtain ⟨a, ha, hseq⟩ := h.active k t hold hnow
      exact ⟨a, hagents _ a ha, hseq⟩
    · rcases hnow with hrunning | hfailed
      · rw [hpending] at hrunning
        cases hrunning
      · rw [hpending] at hfailed
        cases hfailed
  · intro k t ht hfailed
    rcases hnew k t ht with hold | hpending
    · exact h.classed k t hold hfailed
    · rw [hpending] at hfailed
      cases hfailed

end Database

section Statements

variable {cfg : Config} {s : Sys} {a : Action} {db db' : Db}

theorem keepsPlaces_of_update {p : TaskInstance → Bool} {f : TaskInstance → TaskInstance}
    (hrows : db'.taskInstances.rows = db.taskInstances.rows.map fun t => if p t then f t else t)
    (hid : ∀ t, (f t).id = t.id) (hplace : ∀ t, (f t).agentId = t.agentId ∧ (f t).seq = t.seq) :
    KeepsPlaces db db' := by
  refine .of_map (Db.task_of_update hrows hid) fun t => ?_
  split
  · exact hplace t
  · exact ⟨rfl, rfl⟩

theorem repairOne_rows {ladder : Ladder} {tier : TierName} {ids : Uuid → Uuid} {now : Time}
    {ag : Agent} (h : repairOne ladder tier ids now db ag = some db') :
    (∀ k t, db.task k = some t → db'.task k = some t) ∧
      (∀ k t, db'.task k = some t → db.task k = some t ∨ t.status = .pending) ∧
      db'.agents = db.agents := by
  rcases repairOne_spec h with rfl | ⟨taskDefId, -, hinsert⟩
  · exact ⟨fun _ _ ht => ht, fun _ _ ht => Or.inl ht, rfl⟩
  obtain ⟨-, hfresh, -, ⟨table, rfl⟩, htask, -⟩ := insertTask_spec hinsert
  refine ⟨fun k t ht => ?_, fun k t ht => ?_, rfl⟩
  · rw [htask, if_neg]
    · exact ht
    · rintro rfl
      rw [hfresh] at ht
      cases ht
  · rw [htask] at ht
    split at ht
    · rw [← Option.some.inj ht]
      exact Or.inr rfl
    · exact Or.inl ht

theorem routeOne_perform {ladder : Ladder} {flags : Flags} {now : Time} {t : TaskInstance}
    {routed : Routed} (h : routeOne ladder flags now t db = some (routed, db')) :
    ∃ w : Write, routeWrite ladder flags now t db = some w ∧ db' = w.perform db := by
  rw [routeOne_eq, Option.map_eq_some_iff] at h
  obtain ⟨w, hw, heq⟩ := h
  cases heq
  exact ⟨w, hw, rfl⟩

/-- No statement deletes a row or moves it to another position. -/
theorem keepsPlaces_of_statement (h : Statement cfg s a db db') : KeepsPlaces db db' := by
  cases h with
  | claim hclaim =>
      obtain ⟨t, -, -, -, rfl⟩ := claimOne_spec hclaim
      exact keepsPlaces_of_update rfl (fun _ => rfl) fun _ => ⟨rfl, rfl⟩
  | renew => exact keepsPlaces_of_update rfl (fun _ => rfl) fun _ => ⟨rfl, rfl⟩
  | ledger hledger =>
      obtain ⟨table, rfl⟩ := hledger
      exact .refl db
  | checkpoint hphase hcommit =>
      rcases checkpointSuccess_spec hcommit with
        ⟨-, rfl⟩ | ⟨fields, t, ag, -, -, -, -, -, -, -, rfl⟩
      · exact .refl _
      · exact keepsPlaces_of_update rfl (fun _ => rfl) fun _ => ⟨rfl, rfl⟩
  | report hphase hreport =>
      rcases reportFailure_spec hreport with ⟨-, rfl⟩ | ⟨t, -, -, -, -, rfl⟩
      · exact .refl _
      · exact keepsPlaces_of_update rfl (fun _ => rfl) fun _ => ⟨rfl, rfl⟩
  | reclaim => exact keepsPlaces_of_update rfl (fun _ => rfl) fun _ => ⟨rfl, rfl⟩
  | repair hbase hag hrunning hone => exact .of_insert (repairOne_rows hone).1
  | finalise => exact .refl db
  | route ht hfailed hroute =>
      obtain ⟨w, -, rfl⟩ := routeOne_perform hroute
      exact .of_map (w.perform_task db) fun _ => ⟨Write.onTask_agentId, Write.onTask_seq⟩
  | submit _ hcreate | seed hcreate => exact .of_insert (createAgent_spec hcreate).2.2.2.2.1

theorem Db.AtCursor.update (h : db.AtCursor) {p : TaskInstance → Bool}
    {f : TaskInstance → TaskInstance}
    (hrows : db'.taskInstances.rows = db.taskInstances.rows.map fun t => if p t then f t else t)
    (hid : ∀ t, (f t).id = t.id) (hplace : ∀ t, (f t).agentId = t.agentId ∧ (f t).seq = t.seq)
    (hactive : ∀ t, p t = true → (f t).active → t.active)
    (hclass : ∀ t, p t = true → (f t).status = .failed → (f t).failureClass ≠ none)
    (hagents : db'.agents = db.agents) : db'.AtCursor := by
  refine h.of_map (Db.task_of_update hrows hid) (fun t => ?_) (fun t _ => ?_) (fun t => ?_)
    fun k ag hag => ⟨ag, by rw [Db.agent, hagents]; exact hag, rfl⟩
  · split
    · exact hplace t
    · exact ⟨rfl, rfl⟩
  · split
    · rename_i hp
      exact hactive t hp
    · exact id
  · split
    · rename_i hp
      exact fun hfailed => Or.inl (hclass t hp hfailed)
    · exact fun hfailed => Or.inr ⟨hfailed, rfl⟩

/-- A claimed row is at the cursor: the claim query requires it. -/
theorem Db.AtCursor.claim (h : db.AtCursor) {poolTier : TierName} {workerId : WorkerId} {ttl : Int}
    {now : Time} {locked : Uuid → Bool} {task : Handout}
    (hclaim : claimOne poolTier workerId ttl now locked db = some (task, db')) : db'.AtCursor := by
  obtain ⟨t, ht, hclaimable, -, rfl⟩ := claimOne_spec hclaim
  obtain ⟨ag, hag, -, -, -, -, hseq⟩ := claimable_spec hclaimable
  have htask : ∀ k, (db.taskInstances.update (fun r => r.id = t.id)
      (TaskInstance.claimed workerId ttl now)).get? k =
        if k = t.id then some (t.claimed workerId ttl now) else db.task k :=
    Table.get?_update_one ht (decide_eq_true rfl) fun _ hr => of_decide_eq_true hr
  constructor
  · intro k u hu hactive
    rw [Db.task, htask] at hu
    split at hu
    · rw [← Option.some.inj hu]
      exact ⟨ag, hag, hseq.symm⟩
    · exact h.active k u hu hactive
  · intro k u hu hfailed
    rw [Db.task, htask] at hu
    split at hu
    · rw [← Option.some.inj hu] at hfailed
      cases hfailed
    · exact h.classed k u hu hfailed

/-- The cursor moves past the only active row of its agent. -/
theorem Db.AtCursor.checkpoint (h : db.AtCursor) {task : Handout} {result : PyDict}
    {cost tokens : Int} {started : Time} {workerId : WorkerId} {now : Time} {ok : Bool}
    (hheld : ∀ t, db.task task.id = some t → t.agentId = task.agentId ∧ t.seq = task.seq)
    (hcommit : checkpointSuccess task result cost tokens started workerId now db =
      some (db', ok)) : db'.AtCursor := by
  rcases checkpointSuccess_spec hcommit with
    ⟨-, rfl⟩ | ⟨fields, t, ag, -, -, ht, howner, hrunning, hag, hcursor, rfl⟩
  · exact h
  have hid : t.id = task.id := Db.id_of_task ht
  have htask : ∀ k, (db.taskInstances.update (leasedBy task.id workerId)
      (TaskInstance.markedSucceeded fields now)).get? k =
        if k = task.id then some (t.markedSucceeded fields now) else db.task k :=
    get?_update_leasedBy ht howner hrunning
  constructor
  · intro k u hu hactive
    rw [Db.task, htask] at hu
    split at hu
    · rw [← Option.some.inj hu] at hactive
      rcases hactive with hnow | hnow <;> cases hnow
    · rename_i hne
      have huid : u.id = k := Db.id_of_task hu
      obtain ⟨b, hb, hseq⟩ := h.active k u hu hactive
      have hother : u.agentId ≠ task.agentId := by
        intro heq
        have hsame := h.unique (hid ▸ ht) (huid ▸ hu) (Or.inl hrunning) hactive
          ((hheld t ht).1.trans heq.symm)
        exact hne (huid.symm.trans (hsame ▸ hid))
      have hbid : b.id = u.agentId := Db.id_of_agent hb
      refine ⟨b, ?_, hseq⟩
      rw [Db.agent, Table.get?_update, show db.agents.get? u.agentId = some b from hb]
      simp [hbid, hother]
  · intro k u hu hfailed
    rw [Db.task, htask] at hu
    split at hu
    · rw [← Option.some.inj hu] at hfailed
      cases hfailed
    · exact h.classed k u hu hfailed

theorem Db.AtCursor.route (h : db.AtCursor) (w : Write) : (w.perform db).AtCursor := by
  have hstatus : ∀ t, (w.onTask t).active → w.onTask t = t := by
    intro t hactive
    by_cases hid : t.id = w.task.id
    · rcases Write.onTask_own hid with hnow | hnow <;> rcases hactive with hwas | hwas <;>
        rw [hnow] at hwas <;> cases hwas
    · rcases Write.onTask_other hid with hsame | ⟨-, -, -, hdead⟩
      · exact hsame
      · rcases hactive with hwas | hwas <;> rw [hdead] at hwas <;> cases hwas
  refine h.of_map (w.perform_task db) (fun _ => ⟨Write.onTask_agentId, Write.onTask_seq⟩)
    (fun t _ hactive => ?_) (fun t hfailed => Or.inr ⟨?_, Write.onTask_failureClass⟩)
    fun k ag hag => ⟨w.onAgent ag, by rw [w.perform_agent, hag, Option.map_some], ?_⟩
  · rw [← hstatus t hactive]
    exact hactive
  · rw [← hstatus t (Or.inr hfailed)]
    exact hfailed
  · cases w with
    | retry | promote => rfl
    | kill =>
        simp only [Write.onAgent]
        split <;> rfl

theorem Db.AtCursor.statement (h : db.AtCursor)
    (hheld : ∀ p task, (s.workers p).phase.task? = some task → ∀ t, db.task task.id = some t →
      t.agentId = task.agentId ∧ t.seq = task.seq)
    (hstatement : Statement cfg s a db db') : db'.AtCursor := by
  cases hstatement with
  | claim hclaim => exact h.claim hclaim
  | renew =>
      exact h.update rfl (fun _ => rfl) (fun _ => ⟨rfl, rfl⟩) (fun _ _ hactive => hactive)
        (fun t hp hfailed => by
          rw [TaskInstance.renewed_status, (leasedBy_iff.1 hp).2.2] at hfailed
          cases hfailed) rfl
  | ledger hledger =>
      obtain ⟨table, rfl⟩ := hledger
      exact ⟨h.active, h.classed⟩
  | @checkpoint p now started task result cost tokens _ _ ok hphase hcommit =>
      exact h.checkpoint (hheld p task (by rw [hphase]; rfl)) hcommit
  | report hphase hreport =>
      rcases reportFailure_spec hreport with ⟨-, rfl⟩ | ⟨t, -, -, -, -, rfl⟩
      · exact h
      · exact h.update rfl (fun _ => rfl) (fun _ => ⟨rfl, rfl⟩)
          (fun t hp _ => Or.inl (leasedBy_iff.1 hp).2.2) (fun _ _ _ => by simp) rfl
  | reclaim =>
      exact h.update rfl (fun _ => rfl) (fun _ => ⟨rfl, rfl⟩)
        (fun t _ hactive => by rcases hactive with hnow | hnow <;> cases hnow)
        (fun _ _ hfailed => by cases hfailed) rfl
  | repair hbase hag hrunning hone =>
      obtain ⟨-, hnew, hagents⟩ := repairOne_rows hone
      exact h.of_insert hnew fun k ag hag => by rw [Db.agent, hagents]; exact hag
  | finalise =>
      refine h.of_map (f := id) (fun k => (congrFun Option.map_id _).symm) (fun _ => ⟨rfl, rfl⟩)
        (fun _ _ hactive => hactive) (fun _ hfailed => Or.inr ⟨hfailed, rfl⟩) fun k ag hag => ?_
      rw [finaliseAgents, Db.agent, Table.get?_update, show db.agents.get? k = some ag from hag,
        Option.map_some]
      refine ⟨_, rfl, ?_⟩
      split <;> rfl
  | route ht hfailed hroute =>
      obtain ⟨w, -, rfl⟩ := routeOne_perform hroute
      exact h.route w
  | submit _ hcreate | seed hcreate =>
      obtain ⟨hnone, -, -, hagent, -, hnew, -⟩ := createAgent_spec hcreate
      refine h.of_insert (fun k t ht => ?_) fun k ag hag => ?_
      · rcases hnew k t ht with hold | ⟨i, taskDefId, -, rfl⟩
        · exact Or.inl hold
        · exact Or.inr rfl
      · rw [hagent, if_neg]
        · exact hag
        · rintro rfl
          rw [hnone] at hag
          cases hag

end Statements

/-! ## Runs with losses -/

section Runs

variable {cfg : Config} {s s' : Lossy}

structure Lossy.Orderly (s : Lossy) : Prop where
  cursor : s.sys.db.AtCursor
  held : Held s.sys s.lost s.sys.db

theorem Held.mono {s : Sys} {lost : List Uuid} {db db' : Db} (h : Held s lost db)
    (hkeeps : KeepsPlaces db db') : Held s lost db' := by
  intro p task htask
  rcases h p task htask with hlost | ⟨t, ht, hagent, hseq⟩
  · exact Or.inl hlost
  · obtain ⟨u, hu, hagent', hseq'⟩ := hkeeps _ t ht
    exact Or.inr ⟨u, hu, hagent'.trans hagent, hseq'.trans hseq⟩

theorem Lossy.Orderly.act {a : Action} (hI : s.Orderly)
    (h : Lossy.step cfg s (.act a) = some s') : s'.Orderly := by
  obtain ⟨hstep, hlost, hgone⟩ := Lossy.step_act h
  have hstatements := step_statements hstep
  have hkeeps : KeepsPlaces s.sys.db s'.sys.db :=
    Machine.closure_invariant (I := KeepsPlaces s.sys.db)
      (fun _ _ hpast hstatement => hpast.trans (keepsPlaces_of_statement hstatement)) (.refl _)
      hstatements
  -- a lost row that came back would still be there at the end
  have hdb := Machine.closure_invariant
    (I := fun db => Held s.sys s.lost db ∧ ((∀ k ∈ s.lost, db.task k = none) → db.AtCursor))
    (fun db db' hpast hstatement => by
      have hplaces := keepsPlaces_of_statement hstatement
      refine ⟨hpast.1.mono hplaces, fun hgone' => ?_⟩
      have hbefore : ∀ k ∈ s.lost, db.task k = none := by
        intro k hk
        cases ht : db.task k with
        | none => rfl
        | some t =>
            obtain ⟨u, hu, -⟩ := hplaces k t ht
            rw [hgone' k hk] at hu
            cases hu
      refine (hpast.2 hbefore).statement (fun p task htask t ht => ?_) hstatement
      rcases hpast.1 p task htask with hlost' | ⟨u, hu, hplace⟩
      · rw [hbefore _ hlost'] at ht
        cases ht
      · rw [ht] at hu
        cases hu
        exact hplace)
    ⟨hI.held, fun _ => hI.cursor⟩ hstatements
  refine ⟨hdb.2 hgone, fun p task htask => ?_⟩
  rw [hlost]
  rcases step_held hstep htask with hold | ⟨now, started, locked, -, hclaim⟩
  · exact hI.held.mono hkeeps p task hold
  · obtain ⟨t, ht, -, rfl, -⟩ := claimOne_task hclaim
    obtain ⟨u, hu, hagent, hseq⟩ := hkeeps _ t ht
    exact Or.inr ⟨u, hu, hagent, hseq⟩

theorem Lossy.Orderly.lose {k : Uuid} (hI : s.Orderly)
    (h : Lossy.step cfg s (.lose k) = some s') : s'.Orderly := by
  obtain ⟨-, hsys, hlost⟩ := Lossy.step_lose h
  have hrow : ∀ k' t, s'.sys.db.task k' = some t → s.sys.db.task k' = some t := by
    intro k' t ht
    rw [hsys, Sys.setDb_db, loseTask_task] at ht
    split at ht
    · cases ht
    · exact ht
  have hagents : s'.sys.db.agents = s.sys.db.agents := by
    rw [hsys]
    rfl
  refine ⟨⟨fun k' t ht hactive => ?_, fun k' t ht => hI.cursor.classed k' t (hrow k' t ht)⟩,
    fun p task htask => ?_⟩
  · rw [Db.agent, hagents]
    exact hI.cursor.active k' t (hrow k' t ht) hactive
  · rw [hsys] at htask
    rw [hlost]
    by_cases heq : task.id = k
    · exact Or.inl (heq ▸ List.mem_cons_self)
    · rcases hI.held p task htask with hgone | ⟨t, ht, hplace⟩
      · exact Or.inl (List.mem_cons_of_mem _ hgone)
      · refine Or.inr ⟨t, ?_, hplace⟩
        rw [hsys, Sys.setDb_db, loseTask_task, if_neg heq]
        exact ht

theorem LossyRun.orderly {ts : List LossyTransition} (h : LossyRun cfg ts s) : s.Orderly := by
  refine h.invariant (I := Lossy.Orderly) ⟨⟨?_, ?_⟩, fun _ _ htask => by cases htask⟩
    fun u a u' hI hstep => ?_
  · simp [Lossy.init, Sys.init, Db.empty, Db.task, Table.get?, Table.empty]
  · simp [Lossy.init, Sys.init, Db.empty, Db.task, Table.get?, Table.empty]
  · cases a with
    | act a => exact hI.act hstep
    | lose k => exact hI.lose hstep

theorem SysRun.atCursor {ts : List SysTransition} {u : Sys} (h : SysRun cfg ts u) : u.db.AtCursor :=
  (LossyRun.orderly (LossyRun.of_run h)).cursor

end Runs

end ReliableAgents
