import ReliableAgents.Deployment
import ReliableAgents.Lifecycle.Handouts

/-!
# What a task may spend

INFRA failures are budgeted over all tiers, CAPABILITY failures at each tier, and
`attempt` by the runaway guard. The measure behind the failure bound is the
position on the ladder together with both counts: a retry needs one of the
counts below its budget, and a promotion starts the next tier's count at zero.
-/

namespace ReliableAgents

namespace TaskView

def failures (v : TaskView) : Nat := v.evidence.countP fun e => e.outcome = .failed

def infraSpent (v : TaskView) : Nat := v.evidence.countP infraEvidence

def capabilitySpent (v : TaskView) (tier : TierName) : Nat :=
  v.evidence.countP (capabilityEvidence tier)

def tierBudget (v : TaskView) : Nat := (max v.row.maxAttemptsPerTier 1).toNat

end TaskView

def Ladder.tiersFrom (ladder : Ladder) (base : TierName) : Nat :=
  ladder.names.length - ladder.level base

/-- The budgets of an open row, each overdrawn by at most the failure being routed. -/
structure Within (ladder : Ladder) (base : TierName) (v : TaskView)
    (infra capability poison : Nat) : Prop where
  infra : v.infraSpent < maxInfraAttempts + infra
  capability : v.capabilitySpent v.row.tier < v.tierBudget + capability
  failures : v.failures ≤
    v.infraSpent + v.tierBudget * (ladder.level v.row.tier - ladder.level base) +
      v.capabilitySpent v.row.tier + poison

/-- Where the failure that is being routed is counted. -/
def WithinFailed (ladder : Ladder) (base : TierName) (v : TaskView) : FailureClass → Prop
  | .infra => Within ladder base v 1 0 0
  | .capability => Within ladder base v 0 1 0
  | .poison => Within ladder base v 0 0 1

structure InBudget (ladder : Ladder) (base : TierName) (v : TaskView) : Prop where
  onLadder : v.row.tier ∈ ladder.names
  notBelow : ladder.level base ≤ ladder.level v.row.tier
  unreached : ∀ tier, ladder.level v.row.tier < ladder.level tier → v.capabilitySpent tier = 0
  total : v.failures ≤ v.tierBudget * ladder.tiersFrom base + maxInfraAttempts - 1
  queued : v.row.status = .pending ∨ v.row.status = .running → Within ladder base v 0 0 0
  routed : v.row.status = .failed →
    ∃ fc, v.row.failureClass = some fc ∧ WithinFailed ladder base v fc

section Budget

variable {ladder : Ladder} {base : TierName} {v v' : TaskView}

theorem TaskView.tierBudget_pos (v : TaskView) : 1 ≤ v.tierBudget := by
  unfold tierBudget
  omega

/-- The measure never exceeds the ladder's worth of budgets. -/
theorem Within.total {infra capability poison : Nat}
    (h : Within ladder base v infra capability poison) (hone : infra + capability + poison ≤ 1)
    (hmem : v.row.tier ∈ ladder.names) (hbase : ladder.level base ≤ ladder.level v.row.tier) :
    v.failures ≤ v.tierBudget * ladder.tiersFrom base + maxInfraAttempts - 1 := by
  have hlevel := Ladder.level_lt_length hmem
  have hladder : v.tierBudget * (ladder.level v.row.tier - ladder.level base + 1) ≤
      v.tierBudget * ladder.tiersFrom base := by
    refine Nat.mul_le_mul_left _ ?_
    unfold Ladder.tiersFrom
    omega
  rw [Nat.mul_succ] at hladder
  have hi := h.infra
  have hc := h.capability
  have hf := h.failures
  have hpos := v.tierBudget_pos
  simp only [maxInfraAttempts] at hi ⊢
  omega

theorem WithinFailed.total {fc : FailureClass} (h : WithinFailed ladder base v fc)
    (hmem : v.row.tier ∈ ladder.names) (hbase : ladder.level base ≤ ladder.level v.row.tier) :
    v.failures ≤ v.tierBudget * ladder.tiersFrom base + maxInfraAttempts - 1 := by
  cases fc with
  | infra | capability | poison => exact Within.total h (by decide) hmem hbase

theorem Within.congr {infra capability poison : Nat}
    (h : Within ladder base v infra capability poison) (htier : v'.row.tier = v.row.tier)
    (hbudget : v'.tierBudget = v.tierBudget) (hfailures : v'.failures = v.failures)
    (hinfra : v'.infraSpent = v.infraSpent)
    (hcapability : ∀ tier, v'.capabilitySpent tier = v.capabilitySpent tier) :
    Within ladder base v' infra capability poison := by
  constructor
  · rw [hinfra]
    exact h.infra
  · rw [hcapability, htier, hbudget]
    exact h.capability
  · rw [hfailures, hinfra, hcapability, htier, hbudget]
    exact h.failures

theorem InBudget.keep (h : InBudget ladder base v) (htier : v'.row.tier = v.row.tier)
    (hbudget : v'.tierBudget = v.tierBudget) (hfailures : v'.failures = v.failures)
    (hinfra : v'.infraSpent = v.infraSpent)
    (hcapability : ∀ tier, v'.capabilitySpent tier = v.capabilitySpent tier)
    (hqueued : v'.row.status = .pending ∨ v'.row.status = .running → Within ladder base v 0 0 0)
    (hopen : v'.row.status ≠ .failed) : InBudget ladder base v' where
  onLadder := htier ▸ h.onLadder
  notBelow := htier ▸ h.notBelow
  unreached := by
    intro tier hlt
    rw [hcapability]
    exact h.unreached tier (htier ▸ hlt)
  total := by
    rw [hfailures, hbudget]
    exact h.total
  queued := fun hstatus => (hqueued hstatus).congr htier hbudget hfailures hinfra hcapability
  routed := fun hstatus => absurd hstatus hopen

/-- The view after a worker's failure report. -/
def TaskView.reported (task : Handout) (failure : FailureReport) (workerId : WorkerId)
    (started now : Time) (v : TaskView) : TaskView where
  row := v.row.reportedFailed failure now
  evidence :=
    v.evidence ++ [task.attemptRow workerId .failed (some failure.failureClass) 0 0 started now]

section Counts

variable {task : Handout} {failure : FailureReport} {workerId : WorkerId} {started now : Time}

theorem TaskView.failures_reported :
    (v.reported task failure workerId started now).failures = v.failures + 1 := by
  simp [failures, reported, Handout.attemptRow]

theorem TaskView.infraSpent_reported :
    (v.reported task failure workerId started now).infraSpent =
      v.infraSpent + if failure.failureClass = .infra then 1 else 0 := by
  simp [infraSpent, reported, infraEvidence, Handout.attemptRow, List.countP_singleton]

theorem TaskView.capabilitySpent_reported (tier : TierName) :
    (v.reported task failure workerId started now).capabilitySpent tier =
      v.capabilitySpent tier +
        if task.tier = tier ∧ failure.failureClass = .capability then 1 else 0 := by
  simp [capabilitySpent, reported, capabilityEvidence, Handout.attemptRow, List.countP_singleton]

end Counts

/-- A recorded failure is counted once, at the tier of the row it is on. -/
theorem InBudget.report (h : InBudget ladder base v) (hrunning : v.row.status = .running)
    {task : Handout} {failure : FailureReport} {workerId : WorkerId} {started now : Time}
    (htier : task.tier = v.row.tier) :
    InBudget ladder base (v.reported task failure workerId started now) := by
  have hw := h.queued (Or.inr hrunning)
  have hinfra := hw.infra
  have hcap := hw.capability
  have hsum := hw.failures
  have hbudget : (v.reported task failure workerId started now).tierBudget = v.tierBudget := rfl
  have hrow : (v.reported task failure workerId started now).row.tier = v.row.tier := rfl
  -- the counts after the report, by the class of the failure
  have hafter : WithinFailed ladder base (v.reported task failure workerId started now)
      failure.failureClass := by
    cases hfc : failure.failureClass <;> refine ⟨?_, ?_, ?_⟩ <;>
      simp only [TaskView.failures_reported, TaskView.infraSpent_reported,
        TaskView.capabilitySpent_reported, hbudget, hrow, htier, hfc, reduceCtorEq, and_false,
        and_true, if_true, if_false] <;>
      omega
  refine ⟨h.onLadder, h.notBelow, fun tier hlt => ?_, ?_, ?_, fun _ => ⟨_, rfl, hafter⟩⟩
  · have hold := h.unreached tier hlt
    have hne : v.row.tier ≠ tier := by
      rintro rfl
      exact Nat.lt_irrefl _ hlt
    rw [TaskView.capabilitySpent_reported, hold, htier, if_neg fun hc => hne hc.1]
  · exact hafter.total h.onLadder h.notBelow
  · intro hstatus
    rcases hstatus with hstatus | hstatus <;> cases hstatus

theorem InBudget.retry (h : InBudget ladder base v) {flags : Flags} {backoff : Nat} {now : Time}
    (hfailed : v.row.status = .failed) (hverdict : v.verdict ladder flags = .retry) :
    InBudget ladder base { v with row := v.row.retried backoff now } := by
  obtain ⟨fc, hfc, hw⟩ := h.routed hfailed
  obtain ⟨-, hbudget⟩ := verdict_retry hverdict
  simp only [hfc, Option.getD_some] at hbudget
  refine h.keep rfl rfl rfl rfl (fun _ => rfl) (fun _ => ?_) (by simp)
  rcases hbudget with ⟨rfl, hinfra⟩ | ⟨rfl, hcap⟩
  · exact ⟨hinfra, hw.capability, hw.failures⟩
  · refine ⟨hw.infra, ?_, hw.failures⟩
    change (v.capabilitySpent v.row.tier : Int) < v.row.maxAttemptsPerTier at hcap
    unfold TaskView.tierBudget
    omega

theorem InBudget.promote (h : InBudget ladder base v) {flags : Flags} {tier : TierName} {now : Time}
    (hfailed : v.row.status = .failed) (hverdict : v.verdict ladder flags = .promote tier) :
    InBudget ladder base { v with row := v.row.promoted tier now } := by
  obtain ⟨fc, hfc, hw⟩ := h.routed hfailed
  obtain ⟨hclass, -, hnext⟩ := verdict_promote hverdict
  simp only [hfc, Option.getD_some] at hclass
  subst hclass
  have hlevel := Ladder.level_nextTier hnext
  have hnone := h.unreached tier (by omega)
  have hnotBelow := h.notBelow
  have hsteps : ladder.level tier - ladder.level base =
      ladder.level v.row.tier - ladder.level base + 1 := by omega
  refine ⟨Ladder.nextTier_mem hnext, ?_, fun other hlt => h.unreached other ?_, h.total,
    fun _ => ?_, fun hstatus => by cases hstatus⟩
  · simp only [TaskInstance.promoted_tier]
    omega
  · simp only [TaskInstance.promoted_tier] at hlt
    omega
  · have hpos := v.tierBudget_pos
    refine ⟨hw.infra, ?_, ?_⟩
    · change v.capabilitySpent tier < v.tierBudget + 0
      omega
    · change v.failures ≤ v.infraSpent +
        v.tierBudget * (ladder.level tier - ladder.level base) + v.capabilitySpent tier + 0
      have hcap := hw.capability
      have hsum := hw.failures
      rw [hsteps, Nat.mul_succ]
      omega

theorem InBudget.step (h : InBudget ladder base v) (hs : TaskStep ladder stamped v v') :
    InBudget ladder base v' := by
  cases hs with
  | claim workerId ttl now hpending _ =>
      exact h.keep rfl rfl rfl rfl (fun _ => rfl) (fun _ => h.queued (Or.inl hpending)) (by simp)
  | row hrow =>
      cases hrow with
      | renew ttl now hrunning =>
          exact h.keep rfl rfl rfl rfl (fun _ => rfl) (fun _ => h.queued (Or.inr hrunning))
            (by simp [hrunning])
      | report task failure workerId started now hrunning _ _ hstamp =>
          exact h.report hrunning hstamp.1
      | reclaim jitter now hrunning _ =>
          refine h.keep rfl rfl ?_ ?_ (fun tier => ?_) (fun _ => h.queued (Or.inr hrunning))
            (by simp)
          · simp [TaskView.failures, TaskInstance.reclaimRow]
          · simp [TaskView.infraSpent, infraEvidence, TaskInstance.reclaimRow]
          · simp [TaskView.capabilitySpent, capabilityEvidence, TaskInstance.reclaimRow]
      | retry flags backoff now hfailed _ hverdict => exact h.retry hfailed hverdict
      | promote flags tier now hfailed _ hverdict => exact h.promote hfailed hverdict
  | commit ag task fields cost tokens workerId started now hrunning _ _ _ =>
      refine h.keep rfl rfl ?_ ?_ (fun tier => ?_) (fun hstatus => ?_) (by simp)
      · simp [TaskView.failures, Handout.attemptRow]
      · simp [TaskView.infraSpent, infraEvidence, Handout.attemptRow]
      · simp [TaskView.capabilitySpent, capabilityEvidence, Handout.attemptRow]
      · rcases hstatus with hstatus | hstatus <;> cases hstatus
  | kill now _ =>
      refine h.keep rfl rfl rfl rfl (fun _ => rfl) (fun hstatus => ?_) (by simp)
      rcases hstatus with hstatus | hstatus <;> cases hstatus
  | cancel reason now _ =>
      refine h.keep rfl rfl rfl rfl (fun _ => rfl) (fun hstatus => ?_) (by simp)
      rcases hstatus with hstatus | hstatus <;> cases hstatus

theorem InBudget.path (h : InBudget ladder base v) (hp : TaskPath ladder stamped v v') :
    InBudget ladder base v' :=
  Machine.closure_invariant (fun _ _ hv hs => hv.step hs) h hp

theorem InBudget.fresh {t : TaskInstance} (h : Db.IsFresh ladder t) :
    InBudget ladder t.tier { row := t, evidence := [] } := by
  obtain ⟨id, agentId, seq, taskDefId, tier, now, htier, rfl⟩ := h
  have hw : Within ladder tier
      { row := .fresh id agentId seq taskDefId tier now, evidence := [] } 0 0 0 :=
    ⟨(by decide : 0 < 5), (by decide : 0 < 2), Nat.zero_le _⟩
  exact ⟨htier, Nat.le_refl _, fun _ _ => rfl, Nat.zero_le _, fun _ => hw,
    fun hstatus => by cases hstatus⟩

end Budget

/-- With distinct worker ids, a task's reported failures stay within its retry budgets,
counted from the tier it was created at. -/
theorem retry_budget {cfg : Config} {ts : List SysTransition} {s : Sys}
    (hdistinct : Function.Injective cfg.workerId) (h : SysRun cfg ts s) {k : Uuid}
    {t : TaskInstance} (ht : s.db.task k = some t) :
    ∃ c ∈ ts, ∃ t₀, Creates c k t₀ ∧
      (s.db.taskView t).failures ≤
        (s.db.taskView t).tierBudget * cfg.ladder.tiersFrom t₀.tier + maxInfraAttempts - 1 ∧
      (t.status = .pending ∨ t.status = .running →
        (s.db.taskView t).infraSpent ≤ maxInfraAttempts - 1 ∧
          (s.db.taskView t).capabilitySpent t.tier ≤ (s.db.taskView t).tierBudget - 1) := by
  obtain ⟨c, hc, t₀, hcreates, hfresh, hpath⟩ :=
    h.task_history (SysRun.stamped_holdAlong hdistinct h) ht
  have hbudget := (InBudget.fresh hfresh).path hpath
  refine ⟨c, hc, t₀, hcreates, hbudget.total, fun hstatus => ?_⟩
  have hw := hbudget.queued hstatus
  exact ⟨Nat.le_pred_of_lt hw.infra, Nat.le_pred_of_lt hw.capability⟩

theorem retry_budget_escalation :
    ∃ t, (ran oneHost escalation).2.db.task (rowId firstAgent 0) = some t ∧
      ∃ c ∈ (ran oneHost escalation).1, ∃ t₀, Creates c (rowId firstAgent 0) t₀ ∧
        ((ran oneHost escalation).2.db.taskView t).failures ≤
          ((ran oneHost escalation).2.db.taskView t).tierBudget *
            seededLadder.tiersFrom t₀.tier + maxInfraAttempts - 1 := by
  have ht : ((ran oneHost escalation).2.db.task (rowId firstAgent 0)).isSome = true := by
    decide +kernel
  obtain ⟨c, hc, t₀, hcreates, hfailures, -⟩ :=
    retry_budget defaultWorkerId_injective (run_ran oneHost escalation) (Option.some_get ht).symm
  exact ⟨_, (Option.some_get ht).symm, c, hc, t₀, hcreates, hfailures⟩

/-! ## The runaway guard -/

/-- No lease is reclaimed of a row that has used up its handouts. -/
def reclaimsBelowGuard : Rules :=
  { Rules.free with reclaim := fun t => t.attempt < maxTotalAttempts }

structure Guarded (v : TaskView) : Prop where
  attempt : v.row.attempt ≤ maxTotalAttempts
  queued : v.row.status = .pending → v.row.attempt < maxTotalAttempts

theorem Guarded.step {ladder : Ladder} {v v' : TaskView} (h : Guarded v)
    (hs : TaskStep ladder reclaimsBelowGuard v v') : Guarded v' := by
  have closed : ∀ {w : TaskView}, w.row.attempt = v.row.attempt → w.row.status ≠ .pending →
      Guarded w := by
    intro w hattempt hstatus
    exact ⟨hattempt ▸ h.attempt, fun hpending => absurd hpending hstatus⟩
  cases hs with
  | claim workerId ttl now hpending _ =>
      exact ⟨h.queued hpending, fun hstatus => by cases hstatus⟩
  | row hrow =>
      cases hrow with
      | renew ttl now hrunning => exact closed rfl (by simp [hrunning])
      | report => exact closed rfl (by simp)
      | reclaim jitter now _ hguard => exact ⟨h.attempt, fun _ => hguard⟩
      | retry flags backoff now _ _ hverdict =>
          exact ⟨h.attempt, fun _ => (verdict_retry hverdict).1⟩
      | promote => exact ⟨Nat.zero_le _, fun _ => (by decide : 0 < maxTotalAttempts)⟩
  | commit => exact closed rfl (by simp)
  | kill => exact closed rfl (by simp)
  | cancel => exact closed rfl (by simp)

/-- As long as the reaper returns no row to the queue that has reached
`MAX_TOTAL_ATTEMPTS`, no task is handed out more often than that. -/
theorem attempt_le_maxTotalAttempts {cfg : Config} {ts : List SysTransition} {s : Sys}
    (h : SysRun cfg ts s)
    (hguard : ∀ c ∈ ts, ∀ batch jitter now locked, c.action = .reap batch jitter now locked →
      ∀ t ∈ expiredLeases batch now locked c.before.db, t.attempt < maxTotalAttempts)
    {k : Uuid} {t : TaskInstance} (ht : s.db.task k = some t) : t.attempt ≤ maxTotalAttempts := by
  have hrules : reclaimsBelowGuard.HoldAlong cfg ts := by
    intro c hc
    constructor
    case reclaim =>
      intro batch jitter now locked t ha htaken
      exact hguard c hc batch jitter now locked ha t htaken
    all_goals intros; trivial
  obtain ⟨-, -, t₀, -, hfresh, hpath⟩ := h.task_history hrules ht
  have hborn : Guarded { row := t₀, evidence := [] } := by
    obtain ⟨id, agentId, seq, taskDefId, tier, now, -, rfl⟩ := hfresh
    exact ⟨Nat.zero_le _, fun _ => (by decide : 0 < maxTotalAttempts)⟩
  have hnow : Guarded (s.db.taskView t) :=
    Machine.closure_invariant (fun _ _ hv hs => hv.step hs) hborn hpath
  exact hnow.attempt

def Action.reaps : Action → Bool
  | .reap .. => true
  | _ => false

/-- A worker that dies right after each claim, and a reaper that returns the task to
the queue each time. -/
def crashLoop : List Action :=
  submitPlan [1] ::
    (List.range 26).flatMap fun n : Nat =>
      [.claim 0 (seconds (100 * n)) (seconds (100 * n)) unlocked, .crash 0,
        .reap 100 (fun _ => 0) (seconds (100 * n + 50)) unlocked]

theorem attempt_le_maxTotalAttempts_crashLoop :
    ∃ t, (ran oneHost (crashLoop.take 74)).2.db.task (rowId firstAgent 0) = some t ∧
      t.attempt = maxTotalAttempts ∧ t.attempt ≤ maxTotalAttempts := by
  have hlast : ((ran oneHost (crashLoop.take 74)).2.db.task (rowId firstAgent 0)).map
      TaskInstance.attempt = some maxTotalAttempts := by
    decide +kernel
  have hbelow : ∀ c ∈ (ran oneHost (crashLoop.take 74)).1, c.action.reaps = true →
      ∀ t ∈ c.before.db.taskInstances.rows, t.attempt < maxTotalAttempts := by
    decide +kernel
  obtain ⟨t, ht, hattempt⟩ := Option.map_eq_some_iff.1 hlast
  refine ⟨t, ht, hattempt,
    attempt_le_maxTotalAttempts (run_ran oneHost (crashLoop.take 74)) ?_ ht⟩
  intro c hc batch jitter now locked ha u hu
  have hreaps : c.action.reaps = true := by rw [ha]; rfl
  exact hbelow c hc hreaps u (Relational.Table.mem_of_get? (mem_expiredLeases hu).1)

/-- A task whose handouts all end in a reclaim is never routed, so nothing reads its
counter: it is handed out for the 26th time. -/
theorem crashLoop_attempt : ∃ ts s k t, SysRun oneHost ts s ∧ s.db.task k = some t ∧
    ¬ t.attempt ≤ maxTotalAttempts := by
  have hcount : ((ran oneHost crashLoop).2.db.task (rowId firstAgent 0)).map
      TaskInstance.attempt = some 26 := by
    decide +kernel
  obtain ⟨t, ht, hattempt⟩ := Option.map_eq_some_iff.1 hcount
  exact ⟨_, _, _, t, run_ran oneHost crashLoop, ht, by rw [hattempt]; decide⟩

end ReliableAgents
