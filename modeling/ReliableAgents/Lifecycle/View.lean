import ReliableAgents.Api.Submit
import ReliableAgents.Orchestrator.Classify
import ReliableAgents.Worker.Lease
import Mathlib.Logic.Relation

/-!
# The life of one agent

An agent's view is its row, its task rows by plan position with their evidence,
and its dead letters. The relations below are the state machine of
`db/schema.sql`, told from the view alone: which process acts, and on which
copy of the row, is left out. `Rules` names what a group of results may assume
of the steps it looks at; with nothing assumed every step of the system is one.
-/

namespace ReliableAgents

structure TaskView where
  row : TaskInstance
  evidence : List Attempt

structure AgentView where
  agent : Agent
  rows : Nat → Option TaskView
  deadLetters : List DlqEntry

/-- A handout of this row, though not necessarily its latest. -/
structure Handout.Of (task : Handout) (t : TaskInstance) : Prop where
  id : task.id = t.id
  agentId : task.agentId = t.agentId
  seq : task.seq = t.seq
  taskDefId : task.taskDefId = t.taskDefId

/-- Assumptions on the steps that claim a row, write evidence or route a failure. -/
structure Rules where
  claim : TaskInstance → WorkerId → Prop
  commit : Agent → TaskInstance → Handout → JsonObject → Int → Int → Prop
  report : Agent → TaskInstance → Handout → FailureReport → Prop
  reclaim : TaskInstance → Prop
  route : Flags → TaskView → Prop

namespace Rules

def free : Rules where
  claim := fun _ _ => True
  commit := fun _ _ _ _ _ _ => True
  report := fun _ _ _ _ => True
  reclaim := fun _ => True
  route := fun _ _ => True

end Rules

namespace TaskView

@[simps] def claimed (workerId : WorkerId) (ttl : Int) (now : Time) (v : TaskView) : TaskView where
  row := v.row.claimed workerId ttl now
  evidence := v.evidence

@[simps] def committed (task : Handout) (fields : JsonObject) (cost tokens : Int)
    (workerId : WorkerId) (started now : Time) (v : TaskView) : TaskView where
  row := v.row.markedSucceeded fields now
  evidence := v.evidence ++ [task.attemptRow workerId .succeeded none cost tokens started now]

@[simps] def killed (now : Time) (v : TaskView) : TaskView where
  row := v.row.killed now
  evidence := v.evidence

@[simps] def cancelled (reason : String) (now : Time) (v : TaskView) : TaskView where
  row := v.row.cancelled reason now
  evidence := v.evidence

/-- `CANCEL_SIBLINGS_SQL` on one row of the agent. -/
def cancelQueued (reason : String) (now : Time) (v : TaskView) : TaskView :=
  if v.row.status = .pending then v.cancelled reason now else v

/-- Where `classify` sends a row with this evidence. -/
def verdict (ladder : Ladder) (flags : Flags) (v : TaskView) : Verdict :=
  ReliableAgents.verdict ladder flags (v.row.failureClass.getD .infra) v.row
    (budgets v.row.tier v.evidence)

end TaskView

/-- An agent as it is created: its plan's fresh rows at one tier, and nothing done. -/
def AgentView.fresh (agentId : Uuid) (plan : List Int) (tier : TierName) (ids : Nat → Uuid)
    (now : Time) : AgentView where
  agent := .fresh agentId plan now
  rows := fun i =>
    (plan[i]?).map fun taskDefId =>
      { row := .fresh (ids i) agentId i taskDefId tier now, evidence := [] }
  deadLetters := []

/-! ## Steps of one row -/

/-- The steps that touch one task row and its evidence, and nothing else. -/
inductive RowStep (ladder : Ladder) (rules : Rules) (ag : Agent) : TaskView → TaskView → Prop where
  | renew {v : TaskView} (ttl : Int) (now : Time) :
      v.row.status = .running →
      RowStep ladder rules ag v { v with row := v.row.renewed ttl now }
  | report {v : TaskView} (task : Handout) (failure : FailureReport) (workerId : WorkerId)
      (started now : Time) :
      v.row.status = .running → v.row.leaseOwner = some workerId → task.Of v.row →
      rules.report ag v.row task failure →
      RowStep ladder rules ag v
        { row := v.row.reportedFailed failure now
          evidence :=
            v.evidence ++
              [task.attemptRow workerId .failed (some failure.failureClass) 0 0 started now] }
  | reclaim {v : TaskView} (jitter now : Time) :
      v.row.status = .running → rules.reclaim v.row →
      RowStep ladder rules ag v
        { row := v.row.reclaimed jitter now
          evidence := v.evidence ++ [v.row.reclaimRow now] }
  | retry {v : TaskView} (flags : Flags) (backoff : Nat) (now : Time) :
      v.row.status = .failed → rules.route flags v → v.verdict ladder flags = .retry →
      RowStep ladder rules ag v { v with row := v.row.retried backoff now }
  | promote {v : TaskView} (flags : Flags) (tier : TierName) (now : Time) :
      v.row.status = .failed → rules.route flags v →
      v.verdict ladder flags = .promote tier →
      RowStep ladder rules ag v { v with row := v.row.promoted tier now }

/-- Every step of one row, apart from what it does to the agent. -/
inductive TaskStep (ladder : Ladder) (rules : Rules) : TaskView → TaskView → Prop where
  | claim {v : TaskView} (workerId : WorkerId) (ttl : Int) (now : Time) :
      v.row.status = .pending → rules.claim v.row workerId →
      TaskStep ladder rules v (v.claimed workerId ttl now)
  | row {ag : Agent} {v v' : TaskView} : RowStep ladder rules ag v v' → TaskStep ladder rules v v'
  | commit {v : TaskView} (ag : Agent) (task : Handout) (fields : JsonObject) (cost tokens : Int)
      (workerId : WorkerId) (started now : Time) :
      v.row.status = .running → v.row.leaseOwner = some workerId → task.Of v.row →
      rules.commit ag v.row task fields cost tokens →
      TaskStep ladder rules v (v.committed task fields cost tokens workerId started now)
  | kill {v : TaskView} (now : Time) :
      v.row.status = .failed → TaskStep ladder rules v (v.killed now)
  | cancel {v : TaskView} (reason : String) (now : Time) :
      v.row.status = .pending → TaskStep ladder rules v (v.cancelled reason now)

/-! ## Steps of the agent -/

namespace AgentView

@[simps] def setRow (v : AgentView) (i : Nat) (t : TaskView) : AgentView where
  agent := v.agent
  rows := fun j => if j = i then some t else v.rows j
  deadLetters := v.deadLetters

@[simps] def committed (v : AgentView) (i : Nat) (t : TaskView) (fields : JsonObject)
    (cost tokens : Int) (now : Time) : AgentView where
  agent := v.agent.advanced i fields cost tokens now
  rows := fun j => if j = i then some t else v.rows j
  deadLetters := v.deadLetters

@[simps] def killed (v : AgentView) (i : Nat) (t : TaskView) (entry : DlqEntry) (reason : String)
    (now : Time) : AgentView where
  agent := v.agent.markedFailed now
  rows := fun j =>
    if j = i then some (t.killed now) else (v.rows j).map (TaskView.cancelQueued reason now)
  deadLetters := v.deadLetters ++ [entry]

end AgentView

/-- The dead letter `_kill` writes for a row. -/
structure DlqEntry.Records (entry : DlqEntry) (v : TaskView) : Prop where
  agentId : entry.agentId = v.row.agentId
  seq : entry.seq = v.row.seq
  taskDefId : entry.taskDefId = v.row.taskDefId
  failureClass : v.row.failureClass = some entry.failureClass
  attemptTrail : entry.attemptTrail = v.evidence.map Attempt.trailEntry

inductive AgentStep (ladder : Ladder) (rules : Rules) : AgentView → AgentView → Prop where
  | claim {v : AgentView} {i : Nat} {t : TaskView} (workerId : WorkerId) (ttl : Int) (now : Time) :
      v.rows i = some t → t.row.status = .pending → v.agent.status = .running →
      v.agent.cursor = i → rules.claim t.row workerId →
      AgentStep ladder rules v (v.setRow i (t.claimed workerId ttl now))
  | row {v : AgentView} {i : Nat} {t t' : TaskView} :
      v.rows i = some t → RowStep ladder rules v.agent t t' →
      AgentStep ladder rules v (v.setRow i t')
  | commit {v : AgentView} {i : Nat} {t : TaskView} (task : Handout) (fields : JsonObject)
      (cost tokens : Int) (workerId : WorkerId) (started now : Time) :
      v.rows i = some t → t.row.status = .running → t.row.leaseOwner = some workerId →
      task.Of t.row → v.agent.cursor = i → rules.commit v.agent t.row task fields cost tokens →
      AgentStep ladder rules v
        (v.committed i (t.committed task fields cost tokens workerId started now) fields cost
          tokens now)
  | kill {v : AgentView} {i : Nat} {t : TaskView} (flags : Flags) (entry : DlqEntry)
      (reason : String) (now : Time) :
      v.rows i = some t → t.row.status = .failed → rules.route flags t →
      t.verdict ladder flags = .deadLetter → entry.Records t →
      AgentStep ladder rules v (v.killed i t entry reason now)
  | finalise {v : AgentView} (now : Time) :
      v.agent.status = .running → v.agent.plan.length ≤ v.agent.cursor →
      (∀ i t, v.rows i = some t → t.row.status = .succeeded) →
      AgentStep ladder rules v { v with agent := v.agent.finalised now }
  | insert {v : AgentView} (id : Uuid) (taskDefId : Int) (tier : TierName) (now : Time) :
      v.rows v.agent.cursor = none → v.agent.status = .running →
      v.agent.plan[v.agent.cursor]? = some taskDefId → tier ∈ ladder.names →
      AgentStep ladder rules v
        (v.setRow v.agent.cursor
          { row := .fresh id v.agent.id v.agent.cursor taskDefId tier now, evidence := [] })

abbrev AgentPath (ladder : Ladder) (rules : Rules) : AgentView → AgentView → Prop :=
  Relation.ReflTransGen (AgentStep ladder rules)

abbrev TaskPath (ladder : Ladder) (rules : Rules) : TaskView → TaskView → Prop :=
  Relation.ReflTransGen (TaskStep ladder rules)

/-! ## From the agent to one of its rows -/

section Rows

variable {ladder : Ladder} {rules : Rules}

theorem TaskView.cancelQueued_step (reason : String) (now : Time) (t : TaskView) :
    t.cancelQueued reason now = t ∨ TaskStep ladder rules t (t.cancelQueued reason now) := by
  unfold TaskView.cancelQueued
  split
  · rename_i hpending
    exact Or.inr (.cancel reason now hpending)
  · exact Or.inl rfl

/-- A step of an agent moves each of its rows by at most one step. -/
theorem AgentStep.task {v v' : AgentView} (h : AgentStep ladder rules v v') {i : Nat} {t : TaskView}
    (ht : v.rows i = some t) :
    ∃ t', v'.rows i = some t' ∧ (t' = t ∨ TaskStep ladder rules t t') := by
  have other : ∀ {j : Nat} {u : TaskView} (hu : v.rows j = some u) (u' : TaskView),
      TaskStep ladder rules u u' →
        ∃ t', (if i = j then some u' else v.rows i) = some t' ∧
          (t' = t ∨ TaskStep ladder rules t t') := by
    intro j u hu u' hstep
    by_cases hij : i = j
    · subst hij
      rw [ht] at hu
      cases hu
      exact ⟨u', if_pos rfl, Or.inr hstep⟩
    · exact ⟨t, by rw [if_neg hij, ht], Or.inl rfl⟩
  cases h with
  | claim workerId ttl now hu hpending _ _ hrules =>
      exact other hu _ (.claim workerId ttl now hpending hrules)
  | row hu hrow => exact other hu _ (.row hrow)
  | commit task fields cost tokens workerId started now hu hrunning howner hof _ hrules =>
      exact other hu _ (.commit _ task fields cost tokens workerId started now hrunning howner hof
        hrules)
  | @kill j u flags entry reason now hu hfailed _ _ _ =>
      by_cases hij : i = j
      · subst hij
        rw [ht] at hu
        cases hu
        exact ⟨_, if_pos rfl, Or.inr (.kill now hfailed)⟩
      · refine ⟨t.cancelQueued reason now, ?_, t.cancelQueued_step reason now⟩
        simp [hij, ht]
  | finalise now _ _ _ => exact ⟨t, ht, Or.inl rfl⟩
  | insert id taskDefId tier now hfree _ _ _ =>
      refine ⟨t, ?_, Or.inl rfl⟩
      have hij : i ≠ v.agent.cursor := by
        rintro rfl
        simp [hfree] at ht
      simp [hij, ht]

theorem AgentPath.task {v v' : AgentView} (h : AgentPath ladder rules v v') {i : Nat} {t : TaskView}
    (ht : v.rows i = some t) : ∃ t', v'.rows i = some t' ∧ TaskPath ladder rules t t' := by
  induction h with
  | refl => exact ⟨t, ht, .refl⟩
  | tail _ hs ih =>
      obtain ⟨u, hu, hpath⟩ := ih
      obtain ⟨u', hu', rfl | hstep⟩ := hs.task hu
      · exact ⟨_, hu', hpath⟩
      · exact ⟨u', hu', hpath.tail hstep⟩

/-! ## What never changes -/

/-- The columns no statement writes after the insert. -/
structure TaskInstance.Same (t t' : TaskInstance) : Prop where
  id : t'.id = t.id
  agentId : t'.agentId = t.agentId
  seq : t'.seq = t.seq
  taskDefId : t'.taskDefId = t.taskDefId
  maxAttemptsPerTier : t'.maxAttemptsPerTier = t.maxAttemptsPerTier

theorem TaskInstance.Same.refl (t : TaskInstance) : t.Same t := ⟨rfl, rfl, rfl, rfl, rfl⟩

theorem TaskInstance.Same.trans {t u w : TaskInstance} (h : t.Same u) (h' : u.Same w) :
    t.Same w :=
  ⟨h'.id.trans h.id, h'.agentId.trans h.agentId, h'.seq.trans h.seq,
    h'.taskDefId.trans h.taskDefId, h'.maxAttemptsPerTier.trans h.maxAttemptsPerTier⟩

theorem RowStep.same {ag : Agent} {t t' : TaskView} (h : RowStep ladder rules ag t t') :
    t.row.Same t'.row := by
  cases h <;> exact ⟨rfl, rfl, rfl, rfl, rfl⟩

theorem TaskStep.same {t t' : TaskView} (h : TaskStep ladder rules t t') : t.row.Same t'.row := by
  cases h with
  | row hrow => exact hrow.same
  | claim | commit | kill | cancel => exact ⟨rfl, rfl, rfl, rfl, rfl⟩

theorem TaskPath.same {t t' : TaskView} (h : TaskPath ladder rules t t') : t.row.Same t'.row := by
  induction h with
  | refl => exact .refl _
  | tail _ hs ih => exact ih.trans hs.same

theorem AgentStep.plan {v v' : AgentView} (h : AgentStep ladder rules v v') :
    v'.agent.plan = v.agent.plan ∧ v'.agent.id = v.agent.id := by
  cases h <;> exact ⟨rfl, rfl⟩

theorem AgentPath.plan {v v' : AgentView} (h : AgentPath ladder rules v v') :
    v'.agent.plan = v.agent.plan ∧ v'.agent.id = v.agent.id := by
  induction h with
  | refl => exact ⟨rfl, rfl⟩
  | tail _ hs ih => exact ⟨hs.plan.1.trans ih.1, hs.plan.2.trans ih.2⟩

theorem TaskStep.evidence_prefix {t t' : TaskView} (h : TaskStep ladder rules t t') :
    t.evidence <+: t'.evidence := by
  cases h with
  | row hrow =>
      cases hrow with
      | renew | retry | promote => exact List.prefix_rfl
      | report | reclaim => exact List.prefix_append _ _
  | commit => exact List.prefix_append _ _
  | claim | kill | cancel => exact List.prefix_rfl

end Rows

end ReliableAgents
