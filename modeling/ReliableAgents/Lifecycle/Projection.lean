import ReliableAgents.Lifecycle.View
import ReliableAgents.System

/-!
# The system refines the life of each agent

Every step of the system moves the view of every agent along a path of
`AgentStep`. A statement writes rows it found (`Db.Evolves`) or inserts new ones
(`Db.Grows`).
-/

namespace ReliableAgents

open Relational Relation

namespace Db

def taskView (db : Db) (t : TaskInstance) : TaskView where
  row := t
  evidence := db.evidence t.id

def view (db : Db) (a : Uuid) : Option AgentView :=
  (db.agent a).map fun ag =>
    { agent := ag
      rows := fun i => (db.rowAt a i).map db.taskView
      deadLetters := db.deadLetters a }

theorem taskView_congr {db db' : Db} (h : db'.attempts = db.attempts) :
    db'.taskView = db.taskView := by
  funext t
  rw [taskView, taskView, Db.evidence, Db.evidence, h]

theorem view_eq_some {db : Db} {a : Uuid} {v : AgentView} :
    db.view a = some v ↔
      db.agent a = some v.agent ∧ v.rows = (fun i => (db.rowAt a i).map db.taskView) ∧
        v.deadLetters = db.deadLetters a := by
  unfold view
  constructor
  · intro h
    obtain ⟨ag, hag, rfl⟩ := Option.map_eq_some_iff.1 h
    exact ⟨hag, rfl, rfl⟩
  · rintro ⟨hag, hrows, hdead⟩
    rw [hag, Option.map_some, ← hrows, ← hdead]

theorem view_of_agent {db : Db} {a : Uuid} {ag : Agent} (h : db.agent a = some ag) :
    ∃ v, db.view a = some v ∧ v.agent = ag := by
  simp [view, h]

theorem view_rows {db : Db} {a : Uuid} {v : AgentView} (h : db.view a = some v) (i : Nat) :
    v.rows i = (db.rowAt a i).map db.taskView := by
  rw [(view_eq_some.1 h).2.1]

theorem view_row_of_task {db : Db} {k : Uuid} {t : TaskInstance} {v : AgentView}
    (ht : db.task k = some t) (hv : db.view t.agentId = some v) :
    v.rows t.seq = some (db.taskView t) := by
  rw [view_rows hv, rowAt_of_task ht]
  rfl

/-- Foreign keys, with the one the schema leaves out: `dlq` names existing agents. -/
structure Sound (db : Db) : Prop where
  tasks : ∀ k t, db.task k = some t → ∃ ag, db.agent t.agentId = some ag
  attempts : ∀ e ∈ db.attempts, ∃ t, db.task e.taskInstanceId = some t
  deadLetters : ∀ e ∈ db.dlq, ∃ ag, db.agent e.agentId = some ag

/-- Every agent's view follows a path. -/
def Moves (ladder : Ladder) (rules : Rules) (db db' : Db) : Prop :=
  ∀ a v, db.view a = some v → ∃ v', db'.view a = some v' ∧ AgentPath ladder rules v v'

/-- A transaction that writes rows it found. -/
structure Evolves (ladder : Ladder) (rules : Rules) (db db' : Db) : Prop where
  moves : Moves ladder rules db db'
  agents : ∀ a ag', db'.agent a = some ag' → ∃ ag, db.agent a = some ag
  tasks : ∀ k t', db'.task k = some t' → ∃ t, db.task k = some t ∧ t'.agentId = t.agentId
  attempts : ∀ e ∈ db'.attempts, e ∈ db.attempts ∨ ∃ t, db.task e.taskInstanceId = some t
  deadLetters : ∀ e ∈ db'.dlq, e ∈ db.dlq ∨ ∃ ag, db.agent e.agentId = some ag

def IsFresh (ladder : Ladder) (t : TaskInstance) : Prop :=
  ∃ id agentId seq taskDefId tier now, tier ∈ ladder.names ∧
    t = .fresh id agentId seq taskDefId tier now

/-- A transaction that inserts rows. -/
structure Grows (ladder : Ladder) (rules : Rules) (db db' : Db) : Prop where
  moves : Moves ladder rules db db'
  agents : ∀ a v', db'.view a = some v' →
    (∃ v, db.view a = some v) ∨
      ∃ plan tier ids now, AgentPath ladder rules (.fresh a plan tier ids now) v'
  kept : ∀ k t, db.task k = some t → db'.task k = some t
  tasks : ∀ k t', db'.task k = some t' →
    db.task k = some t' ∨
      (db.task k = none ∧ IsFresh ladder t' ∧ ∃ ag, db'.agent t'.agentId = some ag)
  attempts : db'.attempts = db.attempts
  deadLetters : db'.dlq = db.dlq

section Relations

variable {ladder : Ladder} {rules : Rules} {db db' db'' : Db}

theorem Moves.refl (db : Db) : Moves ladder rules db db := fun _ v hv => ⟨v, hv, .refl⟩

theorem Moves.trans (h : Moves ladder rules db db') (h' : Moves ladder rules db' db'') :
    Moves ladder rules db db'' := by
  intro a v hv
  obtain ⟨v', hv', hpath⟩ := h a v hv
  obtain ⟨v'', hv'', hpath'⟩ := h' a v' hv'
  exact ⟨v'', hv'', hpath.trans hpath'⟩

theorem Evolves.refl (db : Db) : Evolves ladder rules db db where
  moves := .refl db
  agents := fun _ ag hag => ⟨ag, hag⟩
  tasks := fun _ t ht => ⟨t, ht, rfl⟩
  attempts := fun _ he => Or.inl he
  deadLetters := fun _ he => Or.inl he

theorem Moves.agent (h : Moves ladder rules db db') {a : Uuid} {ag : Agent}
    (hag : db.agent a = some ag) : ∃ ag', db'.agent a = some ag' ∧ ag'.plan = ag.plan := by
  obtain ⟨v, hv, rfl⟩ := view_of_agent hag
  obtain ⟨v', hv', hpath⟩ := h a v hv
  exact ⟨v'.agent, (view_eq_some.1 hv').1, hpath.plan.1⟩

theorem Moves.task (h : Moves ladder rules db db') (hsound : db.Sound) {k : Uuid}
    {t : TaskInstance} (ht : db.task k = some t) :
    ∃ t', db'.task k = some t' ∧ TaskPath ladder rules (db.taskView t) (db'.taskView t') := by
  obtain ⟨ag, hag⟩ := hsound.tasks k t ht
  obtain ⟨v, hv, -⟩ := view_of_agent hag
  obtain ⟨v', hv', hpath⟩ := h _ v hv
  obtain ⟨u, hu, htask⟩ := hpath.task (view_row_of_task ht hv)
  rw [view_rows hv', Option.map_eq_some_iff] at hu
  obtain ⟨t', hrow, rfl⟩ := hu
  have hid : t'.id = k := htask.same.id.trans (id_of_task ht)
  exact ⟨t', hid ▸ (task_of_rowAt hrow).1, htask⟩

theorem Evolves.trans (h : Evolves ladder rules db db') (h' : Evolves ladder rules db' db'') :
    Evolves ladder rules db db'' where
  moves := h.moves.trans h'.moves
  agents := by
    intro a ag'' hag''
    obtain ⟨ag', hag'⟩ := h'.agents a ag'' hag''
    exact h.agents a ag' hag'
  tasks := by
    intro k t'' ht''
    obtain ⟨t', ht', hagent⟩ := h'.tasks k t'' ht''
    obtain ⟨t, ht, hagent'⟩ := h.tasks k t' ht'
    exact ⟨t, ht, hagent.trans hagent'⟩
  attempts := by
    intro e he
    rcases h'.attempts e he with he | ⟨t', ht'⟩
    · exact h.attempts e he
    · obtain ⟨t, ht, -⟩ := h.tasks _ t' ht'
      exact Or.inr ⟨t, ht⟩
  deadLetters := by
    intro e he
    rcases h'.deadLetters e he with he | ⟨ag', hag'⟩
    · exact h.deadLetters e he
    · exact Or.inr (h.agents _ ag' hag')

theorem Evolves.sound (h : Evolves ladder rules db db') (hsound : db.Sound) : db'.Sound where
  tasks := by
    intro k t' ht'
    obtain ⟨t, ht, hagent⟩ := h.tasks k t' ht'
    obtain ⟨ag, hag⟩ := hsound.tasks k t ht
    obtain ⟨ag', hag', -⟩ := h.moves.agent hag
    exact ⟨ag', hagent ▸ hag'⟩
  attempts := by
    intro e he
    have hold : ∃ t, db.task e.taskInstanceId = some t :=
      (h.attempts e he).elim (hsound.attempts e) id
    obtain ⟨t, ht⟩ := hold
    obtain ⟨t', ht', -⟩ := h.moves.task hsound ht
    exact ⟨t', ht'⟩
  deadLetters := by
    intro e he
    have hold : ∃ ag, db.agent e.agentId = some ag :=
      (h.deadLetters e he).elim (hsound.deadLetters e) id
    obtain ⟨ag, hag⟩ := hold
    obtain ⟨ag', hag', -⟩ := h.moves.agent hag
    exact ⟨ag', hag'⟩

theorem Grows.sound (h : Grows ladder rules db db') (hsound : db.Sound) : db'.Sound where
  tasks := by
    intro k t' ht'
    rcases h.tasks k t' ht' with ht | ⟨-, -, hag⟩
    · obtain ⟨ag, hag⟩ := hsound.tasks k t' ht
      obtain ⟨ag', hag', -⟩ := h.moves.agent hag
      exact ⟨ag', hag'⟩
    · exact hag
  attempts := by
    intro e he
    obtain ⟨t, ht⟩ := hsound.attempts e (h.attempts ▸ he)
    obtain ⟨t', ht', -⟩ := h.moves.task hsound ht
    exact ⟨t', ht'⟩
  deadLetters := by
    intro e he
    obtain ⟨ag, hag⟩ := hsound.deadLetters e (h.deadLetters ▸ he)
    obtain ⟨ag', hag', -⟩ := h.moves.agent hag
    exact ⟨ag', hag'⟩

theorem Sound.evidence_of_none (hsound : db.Sound) {k : Uuid} (hnone : db.task k = none) :
    db.evidence k = [] := by
  rw [Db.evidence, List.filter_eq_nil_iff]
  intro e he hk
  obtain ⟨t, ht⟩ := hsound.attempts e he
  rw [of_decide_eq_true hk, hnone] at ht
  cases ht

theorem Sound.rowAt_of_none (hsound : db.Sound) {a : Uuid} (hnone : db.agent a = none) (i : Nat) :
    db.rowAt a i = none := by
  cases hrow : db.rowAt a i with
  | none => rfl
  | some t =>
      obtain ⟨htask, hagent, -⟩ := task_of_rowAt hrow
      obtain ⟨ag, hag⟩ := hsound.tasks _ t htask
      rw [hagent, hnone] at hag
      cases hag

theorem Sound.deadLetters_of_none (hsound : db.Sound) {a : Uuid} (hnone : db.agent a = none) :
    db.deadLetters a = [] := by
  rw [Db.deadLetters, List.filter_eq_nil_iff]
  intro e he ha
  obtain ⟨ag, hag⟩ := hsound.deadLetters e he
  rw [of_decide_eq_true ha, hnone] at hag
  cases hag

/-- A new row has no evidence. -/
theorem Grows.evidence (h : Grows ladder rules db db') (hsound : db.Sound) {k : Uuid}
    (hnew : db.task k = none) : db'.evidence k = [] := by
  rw [Db.evidence, h.attempts]
  exact hsound.evidence_of_none hnew

end Relations

/-! ## One row -/

/-- What a statement does that writes one row, appends its evidence, and may update
the agent the row belongs to. -/
structure Writes (db db' : Db) (r : TaskInstance) (f : TaskInstance → TaskInstance)
    (g : Agent → Agent) (new : List Attempt) : Prop where
  found : db.task r.id = some r
  id : (f r).id = r.id
  rows : ∀ a i, db'.rowAt a i = if (a, i) = r.position then some (f r) else db.rowAt a i
  agents : ∀ a, db'.agent a = if a = r.agentId then (db.agent a).map g else db.agent a
  attempts : db'.attempts = db.attempts ++ new
  own : ∀ e ∈ new, e.taskInstanceId = r.id
  deadLetters : db'.dlq = db.dlq

section Writes

variable {ladder : Ladder} {rules : Rules} {db db' : Db} {r : TaskInstance}
  {f : TaskInstance → TaskInstance} {g : Agent → Agent} {new : List Attempt}

theorem evidence_append {k : Uuid} (hattempts : db'.attempts = db.attempts ++ new)
    (hown : ∀ e ∈ new, e.taskInstanceId = r.id) :
    db'.evidence k = if k = r.id then db.evidence k ++ new else db.evidence k := by
  rw [evidence, hattempts, List.filter_append]
  split
  · rename_i hk
    subst hk
    congr 1
    exact List.filter_eq_self.2 fun e he => decide_eq_true (hown e he)
  · rename_i hk
    have hnone : new.filter (fun e => e.taskInstanceId = k) = [] :=
      List.filter_eq_nil_iff.2 fun e he heq =>
        hk ((of_decide_eq_true heq).symm.trans (hown e he))
    rw [hnone, List.append_nil]
    rfl

theorem Writes.view (h : Writes db db' r f g new) {v : AgentView}
    (hv : db.view r.agentId = some v) :
    db'.view r.agentId = some
      { agent := g v.agent
        rows := fun j =>
          if j = r.seq then some { row := f r, evidence := db.evidence r.id ++ new } else v.rows j
        deadLetters := v.deadLetters } := by
  obtain ⟨hag, hrows, hdead⟩ := view_eq_some.1 hv
  refine view_eq_some.2 ⟨?_, ?_, ?_⟩
  · rw [h.agents, if_pos rfl, hag, Option.map_some]
  · funext j
    simp only [h.rows, TaskInstance.position, Prod.mk.injEq, true_and]
    split
    · simp [taskView, h.id, evidence_append h.attempts h.own]
    · rename_i hj
      simp only [hrows]
      cases ht : db.rowAt r.agentId j with
      | none => rfl
      | some t =>
          have hne : t.id ≠ r.id := by
            intro heq
            have htask := (task_of_rowAt ht).1
            rw [heq, h.found] at htask
            cases htask
            exact hj (task_of_rowAt ht).2.2.symm
          simp [taskView, evidence_append h.attempts h.own, hne]
  · rw [hdead, Db.deadLetters, Db.deadLetters, h.deadLetters]

theorem Writes.view_other (h : Writes db db' r f g new) {a : Uuid} (ha : a ≠ r.agentId) :
    db'.view a = db.view a := by
  unfold Db.view
  rw [h.agents, if_neg ha]
  congr 1
  funext ag
  congr 1
  · funext i
    rw [h.rows, if_neg (by simp [TaskInstance.position, ha])]
    cases ht : db.rowAt a i with
    | none => rfl
    | some t =>
        have hne : t.id ≠ r.id := by
          intro heq
          have htask := (task_of_rowAt ht).1
          rw [heq, h.found] at htask
          cases htask
          exact ha (task_of_rowAt ht).2.1.symm
        simp [taskView, evidence_append h.attempts h.own, hne]
  · rw [Db.deadLetters, Db.deadLetters, h.deadLetters]

theorem Writes.evolves (h : Writes db db' r f g new) (hagent : (f r).agentId = r.agentId)
    (hstep : ∀ v, db.view r.agentId = some v → v.rows r.seq = some (db.taskView r) →
      AgentStep ladder rules v
        { agent := g v.agent
          rows := fun j =>
            if j = r.seq then some { row := f r, evidence := db.evidence r.id ++ new } else v.rows j
          deadLetters := v.deadLetters }) :
    Evolves ladder rules db db' where
  moves := by
    intro a v hv
    by_cases ha : a = r.agentId
    · subst ha
      exact ⟨_, h.view hv, .single (hstep v hv (view_row_of_task h.found hv))⟩
    · exact ⟨v, (h.view_other ha).trans hv, .refl⟩
  agents := by
    intro a ag' hag'
    rw [h.agents] at hag'
    split at hag'
    · obtain ⟨ag, hag, -⟩ := Option.map_eq_some_iff.1 hag'
      exact ⟨ag, hag⟩
    · exact ⟨ag', hag'⟩
  tasks := by
    intro k t' ht'
    have hrow := rowAt_of_task ht'
    rw [h.rows] at hrow
    split at hrow
    · cases hrow
      have hk : k = r.id := (id_of_task ht').symm.trans h.id
      exact ⟨r, hk ▸ h.found, hagent⟩
    · have hold := (task_of_rowAt hrow).1
      rw [id_of_task ht'] at hold
      exact ⟨t', hold, rfl⟩
  attempts := by
    intro e he
    rw [h.attempts, List.mem_append] at he
    rcases he with he | he
    · exact Or.inl he
    · exact Or.inr ⟨r, (h.own e he).symm ▸ h.found⟩
  deadLetters := by
    intro e he
    exact Or.inl (h.deadLetters ▸ he)

end Writes

theorem evolves_of_ledger {ladder : Ladder} {rules : Rules} {db db' : Db}
    (h : ∃ table, db' = { db with idempotency := table }) : Evolves ladder rules db db' := by
  obtain ⟨table, rfl⟩ := h
  exact
    { moves := fun a v hv => ⟨v, hv, .refl⟩
      agents := fun _ ag hag => ⟨ag, hag⟩
      tasks := fun _ t ht => ⟨t, ht, rfl⟩
      attempts := fun _ he => Or.inl he
      deadLetters := fun _ he => Or.inl he }

/-! ## Each statement -/

section Statements

variable {ladder : Ladder} {rules : Rules} {db db' : Db}

/-- An update of the row `r` alone, with its evidence. -/
theorem writes_row {r : TaskInstance} (hr : db.task r.id = some r) {p : TaskInstance → Bool}
    (f : TaskInstance → TaskInstance) (hkey : ∀ t, (f t).id = t.id)
    (huniq : ∀ t, (f t).position = t.position) (new : List Attempt) (hp : p r = true)
    (hone : ∀ t, p t = true → t.id = r.id) (hown : ∀ e ∈ new, e.taskInstanceId = r.id) :
    Writes db
      { db with
        taskInstances := db.taskInstances.update p f hkey huniq
        attempts := db.attempts ++ new }
      r f id new where
  found := hr
  id := hkey r
  rows := by
    intro a i
    change (db.taskInstances.update p f hkey huniq).at? (a, i) = _
    exact Table.at?_update_one hr hp hone (a, i)
  agents := by
    intro a
    simp only [Option.map_id, id_eq, ite_self]
    rfl
  attempts := rfl
  own := hown
  deadLetters := rfl

theorem writes_row_agent {r : TaskInstance} (hr : db.task r.id = some r)
    {p : TaskInstance → Bool} (f : TaskInstance → TaskInstance) (hkey : ∀ t, (f t).id = t.id)
    (huniq : ∀ t, (f t).position = t.position) (new : List Attempt) (hp : p r = true)
    (hone : ∀ t, p t = true → t.id = r.id) (hown : ∀ e ∈ new, e.taskInstanceId = r.id)
    {ag : Agent} (hag : db.agent r.agentId = some ag) {q : Agent → Bool} (g : Agent → Agent)
    (hid : ∀ b, (g b).id = b.id) (hq : q ag = true) (hqone : ∀ b, q b = true → b.id = r.agentId) :
    Writes db
      { db with
        taskInstances := db.taskInstances.update p f hkey huniq
        agents := db.agents.update q g hid hid
        attempts := db.attempts ++ new }
      r f g new where
  found := hr
  id := hkey r
  rows := (writes_row hr f hkey huniq new hp hone hown).rows
  agents := by
    intro a
    change (db.agents.update q g hid hid).get? a = _
    rw [Table.get?_update_one hag hq hqone a]
    split
    · rename_i ha
      rw [ha, hag, Option.map_some]
    · rfl
  attempts := rfl
  own := hown
  deadLetters := rfl

theorem claimOne_evolves {poolTier : TierName} {workerId : WorkerId} {ttl : Int} {now : Time}
    {locked : Uuid → Bool} {task : Handout}
    (h : claimOne poolTier workerId ttl now locked db = some (task, db'))
    (hrules : ∀ t, db.task task.id = some t → rules.claim t workerId) :
    Evolves ladder rules db db' := by
  obtain ⟨r, hr, hclaimable, rfl, rfl⟩ := claimOne_spec h
  obtain ⟨ag, hag, hpending, -, -, hrunning, hcursor⟩ := claimable_spec hclaimable
  have hw := writes_row hr (p := fun t => t.id = r.id) (TaskInstance.claimed workerId ttl now)
    (fun _ => rfl) (fun _ => rfl) [] (decide_eq_true rfl) (fun t ht => of_decide_eq_true ht)
    (by simp)
  rw [List.append_nil] at hw
  refine hw.evolves rfl fun v hv hrow => ?_
  have hagent : v.agent = ag := Option.some.inj ((view_eq_some.1 hv).1.symm.trans hag)
  rw [List.append_nil]
  exact .claim (t := db.taskView r) workerId ttl now hrow hpending (hagent ▸ hrunning)
    (hagent ▸ hcursor.symm) (hrules r hr)

theorem leasedBy_self {taskId : Uuid} {workerId : WorkerId} {t : TaskInstance}
    (ht : db.task taskId = some t) (howner : t.leaseOwner = some workerId)
    (hrunning : t.status = .running) : leasedBy taskId workerId t = true :=
  leasedBy_iff.2 ⟨id_of_task ht, howner, hrunning⟩

theorem renewSql_evolves (taskId : Uuid) (workerId : WorkerId) (ttl : Int) (now : Time) (db : Db) :
    Evolves ladder rules db (renewSql taskId workerId ttl now db).1 := by
  rcases renewSql_spec taskId workerId ttl now db with ⟨-, heq⟩ | ⟨r, hr, howner, hrunning⟩
  · rw [heq]
    exact .refl db
  · have hid := id_of_task hr
    have hw := writes_row (hid.symm ▸ hr) (TaskInstance.renewed ttl now) (fun _ => rfl)
      (fun _ => rfl) [] (leasedBy_self hr howner hrunning)
      (fun t ht => (leasedBy_iff.1 ht).1.trans hid.symm) (by simp)
    rw [List.append_nil] at hw
    refine hw.evolves rfl fun v hv hrow => ?_
    rw [List.append_nil]
    exact .row (t := db.taskView r) hrow (.renew ttl now hrunning)

theorem reportFailure_evolves {task : Handout} {failure : FailureReport} {started : Time}
    {workerId : WorkerId} {now : Time} {ok : Bool}
    (h : reportFailure task failure started workerId now db = (db', ok))
    (hof : ∃ t, db.task task.id = some t ∧ task.Of t)
    (hrules : ∀ ag t, db.task task.id = some t → t.leaseOwner = some workerId →
      t.status = .running → db.agent task.agentId = some ag → rules.report ag t task failure) :
    Evolves ladder rules db db' := by
  obtain ⟨r, hr, hofr⟩ := hof
  rcases reportFailure_spec h with ⟨-, rfl⟩ | ⟨t, -, ht, howner, hrunning, rfl⟩
  · exact .refl _
  · rw [hr] at ht
    cases ht
    have hw := writes_row (hofr.id ▸ hr) (TaskInstance.reportedFailed failure now)
      (fun _ => rfl) (fun _ => rfl)
      [task.attemptRow workerId .failed (some failure.failureClass) 0 0 started now]
      (leasedBy_self hr howner hrunning) (fun t ht => (leasedBy_iff.1 ht).1.trans hofr.id)
      (by simp [Handout.attemptRow, hofr.id])
    refine hw.evolves rfl fun v hv hrow => ?_
    have hag := (view_eq_some.1 hv).1
    exact .row (t := db.taskView r) hrow
      (.report task failure workerId started now hrunning howner hofr
        (hrules _ r hr howner hrunning (hofr.agentId ▸ hag)))

theorem checkpointSuccess_evolves {task : Handout} {result : PyDict} {cost tokens : Int}
    {started : Time} {workerId : WorkerId} {now : Time} {ok : Bool}
    (h : checkpointSuccess task result cost tokens started workerId now db = some (db', ok))
    (hof : ∃ t, db.task task.id = some t ∧ task.Of t)
    (hrules : ∀ fields ag t, result = .json fields → db.task task.id = some t →
      t.leaseOwner = some workerId → t.status = .running → db.agent task.agentId = some ag →
      rules.commit ag t task fields cost tokens) :
    Evolves ladder rules db db' := by
  obtain ⟨r, hr, hofr⟩ := hof
  rcases checkpointSuccess_spec h with
    ⟨-, rfl⟩ | ⟨fields, t, ag, -, hresult, ht, howner, hrunning, hag, hcursor, rfl⟩
  · exact .refl _
  · rw [hr] at ht
    cases ht
    have hw := writes_row_agent (hofr.id ▸ hr) (TaskInstance.markedSucceeded fields now)
      (fun _ => rfl) (fun _ => rfl)
      [task.attemptRow workerId .succeeded none cost tokens started now]
      (leasedBy_self hr howner hrunning) (fun t ht => (leasedBy_iff.1 ht).1.trans hofr.id)
      (by simp [Handout.attemptRow, hofr.id]) (hofr.agentId ▸ hag)
      (q := fun a => a.id = task.agentId && a.cursor = task.seq)
      (Agent.advanced task.seq fields cost tokens now) (fun _ => rfl)
      (by simp [hcursor, id_of_agent hag]) (by simp +contextual [hofr.agentId])
    refine hw.evolves rfl fun v hv hrow => ?_
    have hagent : v.agent = ag :=
      Option.some.inj ((view_eq_some.1 hv).1.symm.trans (hofr.agentId ▸ hag))
    rw [hofr.seq]
    exact .commit (t := db.taskView r) task fields cost tokens workerId started now hrow hrunning
      howner hofr (hagent ▸ hcursor.trans hofr.seq)
      (hagent ▸ hrules fields ag r hresult hr howner hrunning hag)

end Statements

end Db

end ReliableAgents
