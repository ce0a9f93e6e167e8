import ReliableAgents.Lifecycle.Budgets
import ReliableAgents.Lifecycle.DeadLetters
import Mathlib.Algebra.BigOperators.Group.Finset.Basic

/-!
# What is left to do

A handout that ends in a report spends one unit of a row's budgets or closes the
row, and only the row at the cursor is ever handed out. So an agent has a number
of outcomes left that no interleaving of the processes can raise: every recorded
outcome takes one off it, and only reclaimed leases are free.
-/

namespace ReliableAgents

/-- The default of `max_attempts_per_tier`, which no insert overrides. -/
def attemptsPerTier : Nat := 2

/-- How many tiers are above one. -/
def Ladder.levelsAbove (ladder : Ladder) (name : TierName) : Nat :=
  ladder.names.length - 1 - ladder.level name

/-- The outcomes one row may take in all. -/
def Ladder.outcomesPerTask (ladder : Ladder) : Nat :=
  attemptsPerTier * ladder.names.length + (maxInfraAttempts - 1)

namespace TaskView

def outcomes (v : TaskView) : Nat := v.evidence.countP fun e => e.outcome ≠ .reclaimed

/-- The outcomes the tiers above may still take. -/
def remainingAbove (ladder : Ladder) (v : TaskView) : Nat :=
  v.tierBudget * ladder.levelsAbove v.row.tier

/-- The outcomes a row may still take. A failed row has taken the outcome that its
routing will look at, so the budget of its class counts from one more. -/
def remaining (ladder : Ladder) (v : TaskView) : Nat :=
  match v.row.status, v.row.failureClass with
  | .pending, _ | .running, _ =>
      v.remainingAbove ladder + (v.tierBudget - 1 - v.capabilitySpent v.row.tier) +
        (maxInfraAttempts - 1 - v.infraSpent) + 1
  | .failed, some .capability =>
      v.remainingAbove ladder + (v.tierBudget - v.capabilitySpent v.row.tier) +
        (maxInfraAttempts - 1 - v.infraSpent)
  | .failed, some .infra =>
      v.remainingAbove ladder + (v.tierBudget - 1 - v.capabilitySpent v.row.tier) +
        (maxInfraAttempts - v.infraSpent)
  | _, _ => 0

end TaskView

namespace AgentView

def outcomes (v : AgentView) : Nat :=
  ∑ i ∈ Finset.range v.agent.plan.length, ((v.rows i).map TaskView.outcomes).getD 0

/-- The outcomes an agent may still take: those of the row at the cursor, and a whole
task's worth for each position behind it. -/
def remaining (ladder : Ladder) (v : AgentView) : Nat :=
  match v.agent.status with
  | .running =>
      (v.agent.plan.length - 1 - v.agent.cursor) * ladder.outcomesPerTask +
        ((v.rows v.agent.cursor).map (TaskView.remaining ladder)).getD 0
  | _ => 0

end AgentView

/-! ## One row -/

section Row

variable {ladder : Ladder} {base : TierName} {v v' : TaskView} {ag : Agent}

theorem Ladder.levelsAbove_nextTier {ladder : Ladder} {current next : TierName}
    (h : ladder.nextTier current = some next) :
    ladder.levelsAbove current = ladder.levelsAbove next + 1 := by
  have hlevel := Ladder.level_nextTier h
  have hlt := Ladder.level_lt_length (Ladder.nextTier_mem h)
  unfold levelsAbove
  omega

theorem TaskView.remaining_open (h : v.row.status = .pending ∨ v.row.status = .running) :
    v.remaining ladder =
      v.remainingAbove ladder + (v.tierBudget - 1 - v.capabilitySpent v.row.tier) +
        (maxInfraAttempts - 1 - v.infraSpent) + 1 := by
  rcases h with h | h <;> simp [remaining, h]

theorem TaskView.remaining_capability (h : v.row.status = .failed)
    (hclass : v.row.failureClass = some .capability) :
    v.remaining ladder =
      v.remainingAbove ladder + (v.tierBudget - v.capabilitySpent v.row.tier) +
        (maxInfraAttempts - 1 - v.infraSpent) := by
  simp [remaining, h, hclass]

theorem TaskView.remaining_infra (h : v.row.status = .failed)
    (hclass : v.row.failureClass = some .infra) :
    v.remaining ladder =
      v.remainingAbove ladder + (v.tierBudget - 1 - v.capabilitySpent v.row.tier) +
        (maxInfraAttempts - v.infraSpent) := by
  simp [remaining, h, hclass]

theorem TaskView.remaining_poison (h : v.row.status = .failed)
    (hclass : v.row.failureClass = some .poison) : v.remaining ladder = 0 := by
  simp [remaining, h, hclass]

theorem TaskView.remaining_congr (h : v.row.status = .pending ∨ v.row.status = .running)
    (h' : v'.row.status = .pending ∨ v'.row.status = .running) (htier : v'.row.tier = v.row.tier)
    (hbudget : v'.tierBudget = v.tierBudget) (hinfra : v'.infraSpent = v.infraSpent)
    (hcapability : ∀ tier, v'.capabilitySpent tier = v.capabilitySpent tier) :
    v'.remaining ladder = v.remaining ladder := by
  rw [remaining_open h, remaining_open h', remainingAbove, remainingAbove, htier, hbudget, hinfra,
    hcapability]

/-- A report takes one outcome off what is left, whatever its class. -/
theorem InBudget.remaining_reported (h : InBudget ladder base v) {task : Handout}
    (failure : FailureReport) (workerId : WorkerId) (started now : Time)
    (hrunning : v.row.status = .running) (htier : task.tier = v.row.tier) :
    (v.reported task failure workerId started now).remaining ladder + 1 ≤ v.remaining ladder := by
  have hw := h.queued (Or.inr hrunning)
  have hinfra := hw.infra
  have hcap := hw.capability
  have hstatus : (v.reported task failure workerId started now).row.status = .failed := rfl
  have habove : (v.reported task failure workerId started now).remainingAbove ladder =
      v.remainingAbove ladder := rfl
  have hbudget : (v.reported task failure workerId started now).tierBudget = v.tierBudget := rfl
  have hrow : (v.reported task failure workerId started now).row.tier = v.row.tier := rfl
  have hclass : (v.reported task failure workerId started now).row.failureClass =
      some failure.failureClass := rfl
  rw [TaskView.remaining_open (Or.inr hrunning)]
  cases hfc : failure.failureClass with
  | infra =>
      rw [TaskView.remaining_infra hstatus (hclass.trans (congrArg some hfc)), habove, hbudget,
        hrow, TaskView.capabilitySpent_reported, TaskView.infraSpent_reported]
      simp only [hfc, reduceCtorEq, and_false, if_false, if_true]
      omega
  | capability =>
      rw [TaskView.remaining_capability hstatus (hclass.trans (congrArg some hfc)), habove, hbudget,
        hrow, TaskView.capabilitySpent_reported, TaskView.infraSpent_reported]
      simp only [hfc, htier, reduceCtorEq, and_self, if_false, if_true]
      omega
  | poison =>
      rw [TaskView.remaining_poison hstatus (hclass.trans (congrArg some hfc))]
      omega

theorem InBudget.remaining_retried (h : InBudget ladder base v) {flags : Flags} {backoff : Nat}
    {now : Time} (hfailed : v.row.status = .failed) (hverdict : v.verdict ladder flags = .retry) :
    ({ v with row := v.row.retried backoff now } : TaskView).remaining ladder ≤
      v.remaining ladder := by
  obtain ⟨fc, hfc, hw⟩ := h.routed hfailed
  obtain ⟨-, hbudget⟩ := verdict_retry hverdict
  simp only [hfc, Option.getD_some] at hbudget
  rw [TaskView.remaining_open (Or.inl rfl)]
  change v.remainingAbove ladder + (v.tierBudget - 1 - v.capabilitySpent v.row.tier) +
    (maxInfraAttempts - 1 - v.infraSpent) + 1 ≤ v.remaining ladder
  rcases hbudget with ⟨rfl, hinfra⟩ | ⟨rfl, hcap⟩
  · change v.infraSpent < maxInfraAttempts at hinfra
    rw [TaskView.remaining_infra hfailed hfc]
    omega
  · change (v.capabilitySpent v.row.tier : Int) < v.row.maxAttemptsPerTier at hcap
    rw [TaskView.remaining_capability hfailed hfc]
    unfold TaskView.tierBudget
    omega

/-- A promotion gives up a spent budget for a fresh one of the tiers above. -/
theorem InBudget.remaining_promoted (h : InBudget ladder base v) {flags : Flags} {tier : TierName}
    {now : Time} (hfailed : v.row.status = .failed)
    (hverdict : v.verdict ladder flags = .promote tier) :
    ({ v with row := v.row.promoted tier now } : TaskView).remaining ladder ≤
      v.remaining ladder := by
  obtain ⟨fc, hfc, hw⟩ := h.routed hfailed
  obtain ⟨hclass, -, hnext⟩ := verdict_promote hverdict
  simp only [hfc, Option.getD_some] at hclass
  subst hclass
  have habove : v.remainingAbove ladder =
      v.tierBudget * ladder.levelsAbove tier + v.tierBudget := by
    rw [TaskView.remainingAbove, Ladder.levelsAbove_nextTier hnext, Nat.mul_succ]
  have hpos := v.tierBudget_pos
  rw [TaskView.remaining_open (Or.inl rfl), TaskView.remaining_capability hfailed hfc, habove]
  change v.tierBudget * ladder.levelsAbove tier + (v.tierBudget - 1 - v.capabilitySpent tier) +
    (maxInfraAttempts - 1 - v.infraSpent) + 1 ≤ _
  omega

theorem InBudget.remaining_row (h : InBudget ladder base v)
    (hs : RowStep ladder stamped ag v v') :
    v'.remaining ladder + v'.outcomes ≤ v.remaining ladder + v.outcomes := by
  cases hs with
  | renew ttl now hrunning =>
      rw [TaskView.remaining_congr (v := v) (Or.inr hrunning) (Or.inr hrunning) rfl rfl rfl
        fun _ => rfl]
      exact Nat.le_refl _
  | report task failure workerId started now hrunning _ _ hstamp =>
      have hleft := h.remaining_reported failure workerId started now hrunning hstamp.1
      have hcount : (v.reported task failure workerId started now).outcomes = v.outcomes + 1 := by
        simp [TaskView.outcomes, TaskView.reported, Handout.attemptRow]
      change (v.reported task failure workerId started now).remaining ladder +
        (v.reported task failure workerId started now).outcomes ≤ _
      omega
  | reclaim jitter now hrunning _ =>
      have hcount : TaskView.outcomes ⟨v.row.reclaimed jitter now,
          v.evidence ++ [v.row.reclaimRow now]⟩ = v.outcomes := by
        simp [TaskView.outcomes, TaskInstance.reclaimRow]
      have hleft : TaskView.remaining ladder ⟨v.row.reclaimed jitter now,
          v.evidence ++ [v.row.reclaimRow now]⟩ = v.remaining ladder := by
        refine TaskView.remaining_congr (Or.inr hrunning) (Or.inl rfl) rfl rfl ?_ fun tier => ?_
        · simp [TaskView.infraSpent, infraEvidence, TaskInstance.reclaimRow]
        · simp [TaskView.capabilitySpent, capabilityEvidence, TaskInstance.reclaimRow]
      rw [hcount, hleft]
  | retry flags backoff now hfailed _ hverdict =>
      exact Nat.add_le_add_right (h.remaining_retried hfailed hverdict) _
  | promote flags tier now hfailed _ hverdict =>
      exact Nat.add_le_add_right (h.remaining_promoted hfailed hverdict) _

theorem TaskView.remaining_fresh (hbudget : v.tierBudget = attemptsPerTier)
    (hladder : 0 < ladder.names.length) (hevidence : v.evidence = [])
    (hstatus : v.row.status = .pending) : v.remaining ladder ≤ ladder.outcomesPerTask := by
  rw [remaining_open (Or.inl hstatus), remainingAbove, hbudget, Ladder.levelsAbove,
    Ladder.outcomesPerTask]
  simp only [capabilitySpent, infraSpent, hevidence, List.countP_nil, attemptsPerTier,
    maxInfraAttempts]
  omega

end Row

/-! ## The agent -/

/-- Every row of the agent is within its budgets, counted from the tier it was created at. -/
structure RowsInBudget (ladder : Ladder) (v : AgentView) : Prop where
  budget : ∀ i t, v.rows i = some t → t.tierBudget = attemptsPerTier
  rows : ∀ i t, v.rows i = some t → ∃ base, InBudget ladder base t

section Agent

variable {ladder : Ladder} {v v' : AgentView} {i : Nat} {t t' : TaskView}

theorem TaskStep.tierBudget {rules : Rules} {t t' : TaskView} (h : TaskStep ladder rules t t') :
    t'.tierBudget = t.tierBudget := by
  rw [TaskView.tierBudget, TaskView.tierBudget, h.same.maxAttemptsPerTier]

theorem RowsInBudget.fresh {agentId : Uuid} {plan : List Int} {tier : TierName} {ids : Nat → Uuid}
    {now : Time} (htier : tier ∈ ladder.names) :
    RowsInBudget ladder (.fresh agentId plan tier ids now) where
  budget := by
    intro i t ht
    obtain ⟨taskDefId, -, rfl⟩ := Option.map_eq_some_iff.1 ht
    rfl
  rows := by
    intro i t ht
    obtain ⟨taskDefId, -, rfl⟩ := Option.map_eq_some_iff.1 ht
    exact ⟨tier, InBudget.fresh ⟨_, _, _, _, _, _, htier, rfl⟩⟩

theorem RowsInBudget.step (h : RowsInBudget ladder v) (hcommitted : CommittedPrefix v)
    (hs : AgentStep ladder stamped v v') : RowsInBudget ladder v' := by
  -- every row was there before: the plan's rows are inserted with the agent
  have before : ∀ i t', v'.rows i = some t' →
      ∃ t, v.rows i = some t ∧ (t' = t ∨ TaskStep ladder stamped t t') := by
    intro i t' ht'
    have hlt := ((hcommitted.step hs).rows i).1 (by simp [ht'])
    rw [hs.plan.1] at hlt
    obtain ⟨t, ht⟩ := Option.isSome_iff_exists.1 ((hcommitted.rows i).2 hlt)
    obtain ⟨t'', ht'', hstep⟩ := hs.task ht
    rw [ht', Option.some.injEq] at ht''
    subst ht''
    exact ⟨t, ht, hstep⟩
  constructor
  · intro i t' ht'
    obtain ⟨t, ht, rfl | hstep⟩ := before i t' ht'
    · exact h.budget i _ ht
    · exact hstep.tierBudget.trans (h.budget i t ht)
  · intro i t' ht'
    obtain ⟨t, ht, rfl | hstep⟩ := before i t' ht'
    · exact h.rows i _ ht
    · obtain ⟨base, hbase⟩ := h.rows i t ht
      exact ⟨base, hbase.step hstep⟩

/-- Another row at one position changes a sum over the rows there. -/
theorem AgentView.sum_of_rows (f : TaskView → Nat) (hplan : v'.agent.plan = v.agent.plan)
    (hi : i < v.agent.plan.length) (ht : v.rows i = some t) (ht' : v'.rows i = some t')
    (hother : ∀ j, j ≠ i → (v'.rows j).map f = (v.rows j).map f) :
    ∑ j ∈ Finset.range v'.agent.plan.length, ((v'.rows j).map f).getD 0 + f t =
      ∑ j ∈ Finset.range v.agent.plan.length, ((v.rows j).map f).getD 0 + f t' := by
  have hmem := Finset.mem_range.2 hi
  have hrest : ∑ j ∈ (Finset.range v.agent.plan.length).erase i, ((v'.rows j).map f).getD 0 =
      ∑ j ∈ (Finset.range v.agent.plan.length).erase i, ((v.rows j).map f).getD 0 :=
    Finset.sum_congr rfl fun j hj => by rw [hother j (Finset.ne_of_mem_erase hj)]
  rw [hplan, ← Finset.add_sum_erase _ _ hmem, ← Finset.add_sum_erase _ _ hmem, hrest, ht, ht']
  simp only [Option.map_some, Option.getD_some]
  omega

theorem AgentView.outcomes_of_rows (hplan : v'.agent.plan = v.agent.plan)
    (hi : i < v.agent.plan.length) (ht : v.rows i = some t) (ht' : v'.rows i = some t')
    (hother : ∀ j, j ≠ i → (v'.rows j).map TaskView.outcomes = (v.rows j).map TaskView.outcomes) :
    v'.outcomes + t.outcomes = v.outcomes + t'.outcomes :=
  AgentView.sum_of_rows TaskView.outcomes hplan hi ht ht' hother

theorem AgentView.remaining_running (h : v.agent.status = .running)
    (ht : v.rows v.agent.cursor = some t) :
    v.remaining ladder =
      (v.agent.plan.length - 1 - v.agent.cursor) * ladder.outcomesPerTask + t.remaining ladder := by
  simp [remaining, h, ht]

theorem AgentView.remaining_ended (h : v.agent.status ≠ .running) : v.remaining ladder = 0 := by
  unfold remaining
  split
  · exact absurd ‹_› h
  · rfl

/-- The next task starts with a task's worth of outcomes. -/
theorem RowsInBudget.remaining_ahead (h : RowsInBudget ladder v) (hcommitted : CommittedPrefix v)
    (hrunning : v.agent.status = .running) (hi : v.agent.cursor < i) (ht : v.rows i = some t) :
    t.remaining ladder ≤ ladder.outcomesPerTask := by
  obtain ⟨-, -, hevidence, hstatus⟩ := hcommitted.ahead i t ht hi
  rw [hrunning] at hstatus
  obtain ⟨base, hbase⟩ := h.rows i t ht
  exact TaskView.remaining_fresh (h.budget i t ht)
    (Nat.zero_lt_of_lt (Ladder.level_lt_length hbase.onLadder)) hevidence (by simpa using hstatus)

theorem RowsInBudget.remaining_committed (h : RowsInBudget ladder v)
    (hcommitted : CommittedPrefix v) (hrunning : v.agent.status = .running)
    (ht : v.rows v.agent.cursor = some t) (hstatus : t.row.status = .running) {t' : TaskView}
    {fields : JsonObject} {cost tokens : Int} {now : Time} :
    (v.committed v.agent.cursor t' fields cost tokens now).remaining ladder + 1 ≤
      v.remaining ladder := by
  have hlt := hcommitted.cursor_lt ht
  have hopen : 1 ≤ t.remaining ladder := by
    rw [TaskView.remaining_open (Or.inr hstatus)]
    omega
  rw [AgentView.remaining_running hrunning ht]
  rcases Nat.lt_or_ge (v.agent.cursor + 1) v.agent.plan.length with hmore | hdone
  · obtain ⟨u, hu⟩ := Option.isSome_iff_exists.1 ((hcommitted.rows _).2 hmore)
    have hahead := h.remaining_ahead hcommitted hrunning (Nat.lt_succ_self _) hu
    have hsplit : v.agent.plan.length - 1 - v.agent.cursor =
        v.agent.plan.length - 1 - (v.agent.cursor + 1) + 1 := by omega
    rw [AgentView.remaining_running (t := u) (by simp [hrunning, hmore]) (by simp [hu]), hsplit,
      Nat.succ_mul]
    simp only [AgentView.committed_agent, Agent.advanced_plan, Agent.advanced_cursor]
    omega
  · rw [AgentView.remaining_ended (by simp [hdone])]
    omega

/-- What the row at the cursor gives up, the agent gives up. -/
theorem AgentView.remaining_setRow (hcommitted : CommittedPrefix v)
    (hrunning : v.agent.status = .running) (ht : v.rows v.agent.cursor = some t)
    (hle : t'.remaining ladder + t'.outcomes ≤ t.remaining ladder + t.outcomes) :
    (v.setRow v.agent.cursor t').remaining ladder + (v.setRow v.agent.cursor t').outcomes ≤
      v.remaining ladder + v.outcomes := by
  have hrow : (v.setRow v.agent.cursor t').rows v.agent.cursor = some t' := if_pos rfl
  have hsum : (v.setRow v.agent.cursor t').outcomes + t.outcomes = v.outcomes + t'.outcomes :=
    AgentView.outcomes_of_rows rfl (hcommitted.cursor_lt ht) ht hrow fun j hj => by simp [hj]
  rw [remaining_running (v := v.setRow v.agent.cursor t') hrunning hrow,
    remaining_running hrunning ht]
  simp only [setRow_agent]
  omega

/-- No step of an agent raises what it has left and what it has had together. -/
theorem RowsInBudget.remaining_step (h : RowsInBudget ladder v) (hcommitted : CommittedPrefix v)
    (hs : AgentStep ladder stamped v v') :
    v'.remaining ladder + v'.outcomes ≤ v.remaining ladder + v.outcomes := by
  have hrunning := hcommitted.running_of_step hs
  cases hs with
  | @claim i t workerId ttl now ht hpending _ hcursor _ =>
      subst hcursor
      have hleft : (t.claimed workerId ttl now).remaining ladder = t.remaining ladder :=
        TaskView.remaining_congr (Or.inl hpending) (Or.inr rfl) rfl rfl rfl fun _ => rfl
      have hcount : (t.claimed workerId ttl now).outcomes = t.outcomes := rfl
      exact AgentView.remaining_setRow hcommitted hrunning ht (by omega)
  | @row i t t' ht hrow =>
      obtain ⟨base, hbase⟩ := h.rows i t ht
      have hactive : t.row.status = .running ∨ t.row.status = .failed := by
        cases hrow with
        | renew _ _ hstatus | report _ _ _ _ _ hstatus | reclaim _ _ hstatus => exact Or.inl hstatus
        | retry _ _ _ hstatus | promote _ _ _ hstatus => exact Or.inr hstatus
      obtain ⟨rfl, -⟩ := hcommitted.active ht hactive
      exact AgentView.remaining_setRow hcommitted hrunning ht (hbase.remaining_row hrow)
  | @commit i t task fields cost tokens workerId started now ht hstatus _ _ hcursor _ =>
      subst hcursor
      generalize ht' : t.committed task fields cost tokens workerId started now = t'
      have hleft : (v.committed v.agent.cursor t' fields cost tokens now).remaining ladder + 1 ≤
          v.remaining ladder := h.remaining_committed hcommitted hrunning ht hstatus
      have hcount : t'.outcomes = t.outcomes + 1 := by
        simp [← ht', TaskView.outcomes, Handout.attemptRow]
      have hsum : (v.committed v.agent.cursor t' fields cost tokens now).outcomes + t.outcomes =
          v.outcomes + t'.outcomes :=
        AgentView.outcomes_of_rows rfl (hcommitted.cursor_lt ht) ht (if_pos rfl) fun j hj => by
          simp [hj]
      omega
  | @kill i t flags entry reason now ht hstatus _ _ _ =>
      obtain ⟨rfl, -⟩ := hcommitted.active ht (Or.inr hstatus)
      have hcount : (t.killed now).outcomes = t.outcomes := rfl
      have hsum : (v.killed v.agent.cursor t entry reason now).outcomes + t.outcomes =
          v.outcomes + (t.killed now).outcomes := by
        refine AgentView.outcomes_of_rows rfl (hcommitted.cursor_lt ht) ht (if_pos rfl)
          fun j hj => ?_
        simp only [AgentView.killed_rows, hj, if_false, Option.map_map]
        refine Option.map_congr fun u _ => ?_
        simp only [Function.comp_apply, TaskView.cancelQueued]
        split <;> rfl
      rw [AgentView.remaining_ended (v := v.killed v.agent.cursor t entry reason now) (by simp)]
      omega
  | finalise now _ hover _ =>
      rw [AgentView.remaining_ended (by simp), Nat.zero_add]
      exact Nat.le_add_left _ _
  | insert id taskDefId tier now hnone _ hplan _ =>
      have hlt := (List.getElem?_eq_some_iff.1 hplan).1
      rw [← hcommitted.rows, hnone] at hlt
      cases hlt

/-- What holds of the agents of a run. A seeded agent may have an empty plan: it has no
rows, and waits for the finalisation sweep. -/
structure AgentView.InOrder (ladder : Ladder) (v : AgentView) : Prop where
  started : v.agent.status ≠ .pending
  committed : v.agent.plan ≠ [] → CommittedPrefix v
  empty : v.agent.plan = [] → ∀ i, v.rows i = none
  budgets : RowsInBudget ladder v

theorem AgentStep.not_pending {rules : Rules} (hs : AgentStep ladder rules v v')
    (h : v.agent.status ≠ .pending) : v'.agent.status ≠ .pending := by
  cases hs with
  | claim | row | insert => exact h
  | commit =>
      simp only [AgentView.committed_agent, Agent.advanced_status]
      split
      · decide
      · exact h
  | kill | finalise => simp

theorem AgentView.InOrder.step (h : v.InOrder ladder) (hs : AgentStep ladder stamped v v') :
    v'.InOrder ladder ∧
      v'.remaining ladder + v'.outcomes ≤ v.remaining ladder + v.outcomes := by
  by_cases hplan : v.agent.plan = []
  · -- without rows only the finalisation sweep finds the agent
    have hnone := h.empty hplan
    cases hs with
    | claim _ _ _ ht => cases (hnone _).symm.trans ht
    | row ht _ => cases (hnone _).symm.trans ht
    | commit _ _ _ _ _ _ _ ht => cases (hnone _).symm.trans ht
    | kill _ _ _ _ ht => cases (hnone _).symm.trans ht
    | finalise now _ _ _ =>
        refine ⟨⟨by simp, fun hne => absurd hplan hne, fun _ => hnone, h.budgets.budget,
          h.budgets.rows⟩, ?_⟩
        rw [AgentView.remaining_ended (by simp), Nat.zero_add]
        exact Nat.le_add_left _ _
    | insert _ _ _ _ _ _ hat _ => simp [hplan] at hat
  · have hcommitted := h.committed hplan
    have hplan' : v'.agent.plan ≠ [] := hs.plan.1 ▸ hplan
    exact ⟨⟨hs.not_pending h.started, fun _ => hcommitted.step hs,
      fun hempty => absurd hempty hplan', h.budgets.step hcommitted hs⟩,
      h.budgets.remaining_step hcommitted hs⟩

theorem AgentView.InOrder.path (h : v.InOrder ladder) (hp : AgentPath ladder stamped v v') :
    v'.InOrder ladder ∧
      v'.remaining ladder + v'.outcomes ≤ v.remaining ladder + v.outcomes := by
  refine Machine.closure_invariant (I := fun w => w.InOrder ladder ∧
    w.remaining ladder + w.outcomes ≤ v.remaining ladder + v.outcomes) (fun u w hu hs => ?_)
    ⟨h, Nat.le_refl _⟩ hp
  obtain ⟨hw, hle⟩ := hu.1.step hs
  exact ⟨hw, hle.trans hu.2⟩

theorem TaskPath.mem_names {rules : Rules} (h : TaskPath ladder rules t t')
    (hmem : t'.row.tier ∈ ladder.names) : t.row.tier ∈ ladder.names := by
  induction h with
  | refl => exact hmem
  | tail _ hs ih =>
      refine ih ?_
      cases hs with
      | row hrow =>
          cases hrow with
          | promote flags tier now _ _ hverdict =>
              obtain ⟨-, -, hnext⟩ := verdict_promote hverdict
              exact Ladder.mem_of_nextTier hnext
          | renew | report | reclaim | retry => exact hmem
      | claim | commit | kill | cancel => exact hmem

theorem AgentView.outcomes_fresh (agentId : Uuid) (plan : List Int) (tier : TierName)
    (ids : Nat → Uuid) (now : Time) : (AgentView.fresh agentId plan tier ids now).outcomes = 0 := by
  refine Finset.sum_eq_zero fun i _ => ?_
  simp only [fresh, Option.map_map]
  cases plan[i]? <;> rfl

theorem AgentView.remaining_fresh (hladder : 0 < ladder.names.length) {agentId : Uuid}
    {plan : List Int} (hplan : plan ≠ []) {tier : TierName} {ids : Nat → Uuid} {now : Time} :
    (AgentView.fresh agentId plan tier ids now).remaining ladder ≤
      plan.length * ladder.outcomesPerTask := by
  have hlen := List.length_pos_of_ne_nil hplan
  have hrow : (AgentView.fresh agentId plan tier ids now).rows 0 =
      some { row := .fresh (ids 0) agentId 0 plan[0] tier now, evidence := [] } := by
    simp [fresh, List.getElem?_eq_getElem hlen]
  have hfirst : TaskView.remaining ladder
      { row := .fresh (ids 0) agentId 0 plan[0] tier now, evidence := [] } ≤
        ladder.outcomesPerTask := TaskView.remaining_fresh rfl hladder rfl rfl
  have hsplit : plan.length = plan.length - 1 - 0 + 1 := by omega
  rw [AgentView.remaining_running (v := .fresh agentId plan tier ids now) rfl hrow]
  calc (plan.length - 1 - 0) * ladder.outcomesPerTask + _
      ≤ (plan.length - 1 - 0) * ladder.outcomesPerTask + ladder.outcomesPerTask :=
        Nat.add_le_add_left hfirst _
    _ = plan.length * ladder.outcomesPerTask := by
        rw [← Nat.succ_mul]
        exact congrArg (· * ladder.outcomesPerTask) hsplit.symm

theorem TaskStep.outcomes_le {rules : Rules} (h : TaskStep ladder rules t t') :
    t.outcomes ≤ t'.outcomes :=
  h.evidence_prefix.sublist.countP_le

theorem TaskPath.outcomes_le {rules : Rules} (h : TaskPath ladder rules t t') :
    t.outcomes ≤ t'.outcomes := by
  induction h with
  | refl => exact Nat.le_refl _
  | tail _ hs ih => exact ih.trans hs.outcomes_le

/-- A row that was running and has come to a result has had an outcome since. -/
theorem TaskPath.outcomes_lt {rules : Rules} (h : TaskPath ladder rules t t')
    (hrunning : t.row.status = .running)
    (hended : t'.row.status = .succeeded ∨ t'.row.status = .failed) :
    t.outcomes < t'.outcomes := by
  -- along the path the row is open until its next outcome
  have hpast : t.outcomes < t'.outcomes ∨
      ¬ (t'.row.status = .succeeded ∨ t'.row.status = .failed) := by
    clear hended
    induction h with
    | refl => exact Or.inr (by rw [hrunning]; decide)
    | @tail u w hpath hs ih =>
        have hle := hs.outcomes_le
        rcases ih with hlt | hopen
        · exact Or.inl (Nat.lt_of_lt_of_le hlt hle)
        · have hbefore := TaskPath.outcomes_le hpath
          cases hs with
          | claim | kill | cancel => exact Or.inr (by simp)
          | commit =>
              left
              refine Nat.lt_of_le_of_lt hbefore ?_
              simp [TaskView.outcomes, Handout.attemptRow]
          | row hrow =>
              cases hrow with
              | renew ttl now hstatus => exact Or.inr (by simp [hstatus])
              | report =>
                  left
                  refine Nat.lt_of_le_of_lt hbefore ?_
                  simp [TaskView.outcomes, Handout.attemptRow]
              | reclaim | retry | promote => exact Or.inr (by simp)
  exact hpast.resolve_right fun hopen => hopen hended

/-- The sum over the rows, as a path sees it. -/
theorem AgentPath.outcomes_le {rules : Rules} (h : AgentPath ladder rules v v') :
    v.outcomes ≤ v'.outcomes := by
  rw [AgentView.outcomes, AgentView.outcomes, h.plan.1]
  refine Finset.sum_le_sum fun i _ => ?_
  cases ht : v.rows i with
  | none => exact Nat.zero_le _
  | some t =>
      obtain ⟨t', ht', hpath⟩ := AgentPath.task h ht
      rw [ht']
      exact hpath.outcomes_le

theorem AgentPath.outcomes_lt {rules : Rules} (h : AgentPath ladder rules v v')
    (hi : i < v.agent.plan.length) (ht : v.rows i = some t) (ht' : v'.rows i = some t')
    (hlt : t.outcomes < t'.outcomes) : v.outcomes < v'.outcomes := by
  rw [AgentView.outcomes, AgentView.outcomes, h.plan.1]
  refine Finset.sum_lt_sum (fun j _ => ?_) ⟨i, Finset.mem_range.2 hi, ?_⟩
  · cases hu : v.rows j with
    | none => exact Nat.zero_le _
    | some u =>
        obtain ⟨u', hu', hpath⟩ := AgentPath.task h hu
        rw [hu']
        exact hpath.outcomes_le
  · rw [ht, ht']
    exact hlt

end Agent

/-! ## Runs -/

section Runs

variable {cfg : Config} {ts : List SysTransition} {s : Sys} {a : Uuid} {v : AgentView}

theorem SysRun.rowsInBudget (hdistinct : Function.Injective cfg.workerId) (h : SysRun cfg ts s)
    (hv : s.db.view a = some v) : RowsInBudget cfg.ladder v := by
  have each : ∀ i t, v.rows i = some t → t.tierBudget = attemptsPerTier ∧
      ∃ base, InBudget cfg.ladder base t := by
    intro i t ht
    rw [Db.view_rows hv] at ht
    obtain ⟨row, hrow, rfl⟩ := Option.map_eq_some_iff.1 ht
    obtain ⟨-, -, t₀, -, hfresh, hpath⟩ :=
      h.task_history (SysRun.stamped_holdAlong hdistinct h) (Db.task_of_rowAt hrow).1
    refine ⟨?_, t₀.tier, (InBudget.fresh hfresh).path hpath⟩
    obtain ⟨id, agentId, seq, taskDefId, tier, now, -, rfl⟩ := hfresh
    rw [TaskView.tierBudget, hpath.same.maxAttemptsPerTier]
    rfl
  exact ⟨fun i t ht => (each i t ht).1, fun i t ht => (each i t ht).2⟩

theorem SysRun.inOrder (hdistinct : Function.Injective cfg.workerId) (h : SysRun cfg ts s)
    (hv : s.db.view a = some v) : v.InOrder cfg.ladder ∧
      v.remaining cfg.ladder + v.outcomes ≤
        v.agent.plan.length * cfg.ladder.outcomesPerTask := by
  have hbudgets := SysRun.rowsInBudget hdistinct h hv
  obtain ⟨plan, tier, ids, now, hpath⟩ :=
    h.agent_origin (SysRun.stamped_holdAlong hdistinct h) hv
  have hplan : v.agent.plan = plan := hpath.plan.1
  by_cases hne : plan = []
  · subst hne
    have hstart : (AgentView.fresh a [] tier ids now).InOrder cfg.ladder :=
      ⟨by simp [AgentView.fresh, Agent.fresh], fun h => absurd rfl h, fun _ _ => rfl,
        fun i t ht => (by cases ht), fun i t ht => (by cases ht)⟩
    obtain ⟨horder, hle⟩ := hstart.path hpath
    refine ⟨horder, ?_⟩
    have hstill : (AgentView.fresh a [] tier ids now).remaining cfg.ladder = 0 := by
      simp [AgentView.remaining, AgentView.fresh]
    rw [hstill, AgentView.outcomes_fresh] at hle
    exact hle.trans (Nat.zero_le _)
  · -- the first row says that the tier of the plan is on the ladder
    have hlen := List.length_pos_of_ne_nil hne
    have hrow : (AgentView.fresh a plan tier ids now).rows 0 =
        some { row := .fresh (ids 0) a 0 plan[0] tier now, evidence := [] } := by
      simp [AgentView.fresh, List.getElem?_eq_getElem hlen]
    obtain ⟨t, ht, htask⟩ := AgentPath.task hpath hrow
    obtain ⟨base, hbase⟩ := hbudgets.rows 0 t ht
    have htier : tier ∈ cfg.ladder.names := htask.mem_names hbase.onLadder
    have hstart : (AgentView.fresh a plan tier ids now).InOrder cfg.ladder :=
      ⟨by simp [AgentView.fresh, Agent.fresh], fun _ => CommittedPrefix.fresh hne,
        fun hempty => absurd hempty hne, RowsInBudget.fresh htier⟩
    obtain ⟨horder, hle⟩ := hstart.path hpath
    refine ⟨horder, hle.trans ?_⟩
    rw [AgentView.outcomes_fresh, Nat.add_zero, hplan]
    exact AgentView.remaining_fresh (Nat.zero_lt_of_lt (Ladder.level_lt_length htier)) hne

/-- Whatever runs on, an agent keeps within what it has left. -/
theorem SysRun.remaining_run (hdistinct : Function.Injective cfg.workerId) (h : SysRun cfg ts s)
    (hv : s.db.view a = some v) {us : List SysTransition} {s' : Sys}
    (hrun : Machine.Run (step cfg) s us s') :
    ∃ v', s'.db.view a = some v' ∧ AgentPath cfg.ladder stamped v v' ∧
      v'.remaining cfg.ladder + v'.outcomes ≤ v.remaining cfg.ladder + v.outcomes := by
  have hall := SysRun.stamped_holdAlong hdistinct (h.append hrun)
  obtain ⟨-, hmoves⟩ := run_moves hrun (SysRun.sound h)
    fun c hc => hall c (List.mem_append_right _ hc)
  obtain ⟨v', hv', hpath⟩ := hmoves a v hv
  exact ⟨v', hv', hpath, ((SysRun.inOrder hdistinct h hv).1.path hpath).2⟩

end Runs

/-- With distinct worker ids, the outcomes an agent has had and those it has left never add
up to more than its plan's budgets, and no continuation of the run adds to them. -/
theorem outcomes_bounded {cfg : Config} {ts : List SysTransition} {s : Sys}
    (hdistinct : Function.Injective cfg.workerId) (h : SysRun cfg ts s) {a : Uuid} {v : AgentView}
    (hv : s.db.view a = some v) :
    v.outcomes + v.remaining cfg.ladder ≤ v.agent.plan.length * cfg.ladder.outcomesPerTask ∧
      ∀ us s', Machine.Run (step cfg) s us s' → ∃ v', s'.db.view a = some v' ∧
        v'.outcomes + v'.remaining cfg.ladder ≤ v.outcomes + v.remaining cfg.ladder := by
  refine ⟨?_, fun us s' hrun => ?_⟩
  · have htotal := (SysRun.inOrder hdistinct h hv).2
    omega
  · obtain ⟨v', hv', -, hle⟩ := SysRun.remaining_run hdistinct h hv hrun
    exact ⟨v', hv', by omega⟩

theorem outcomes_bounded_escalation :
    ∃ v, (ran oneHost escalation).2.db.view firstAgent = some v ∧
      v.outcomes + v.remaining oneHost.ladder ≤
        v.agent.plan.length * oneHost.ladder.outcomesPerTask := by
  have hagent : ((ran oneHost escalation).2.db.agent firstAgent).isSome = true := by decide +kernel
  obtain ⟨v, hv, -⟩ := Db.view_of_agent (Option.some_get hagent).symm
  exact ⟨v, hv, (outcomes_bounded defaultWorkerId_injective (run_ran oneHost escalation) hv).1⟩

end ReliableAgents
