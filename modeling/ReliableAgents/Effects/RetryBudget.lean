import ReliableAgents.Effects.Refusals
import ReliableAgents.Lifecycle.Rewrites

/-!
# Reconciliation against the retry budget

While a reservation is open, a handout that asks for it ends without a report: its row
stays leased until the reaper takes it back, and a reclaim is not an INFRA failure. Only an
invocation reports one, and no second invocation follows a first. So the INFRA budget
waits for `reconcile`, however late that comes.
-/

namespace ReliableAgents

open Relational

def TaskInstance.For (t : TaskInstance) (agentId : Uuid) (seq : Nat) (taskDefId : Int) : Prop :=
  t.agentId = agentId ∧ t.seq = seq ∧ t.taskDefId = taskDefId

/-- `route_one` gets to the INFRA budget of the row, and finds it spent. -/
def SpendsInfraBudget (c : SysTransition) (t : TaskInstance) : Prop :=
  ∃ limit flags now locked, c.action = .classify limit flags now locked ∧
    t ∈ takeFailed limit locked c.before.db ∧ t.failureClass.getD .infra = .infra ∧
    t.attempt < maxTotalAttempts ∧ (flags t.id).retriesEnabled = true ∧
    maxInfraAttempts ≤ infraAttempts t c.before.db

/-- No INFRA budget of the task runs out while its reservation is still open. -/
def ReconciledFirst (cfg : Config) (ts : List SysTransition) (agentId : Uuid) (seq : Nat)
    (taskDefId : Int) : Prop :=
  ∀ c ∈ ts, ∀ t, SpendsInfraBudget c t → t.For agentId seq taskDefId →
    ¬ ∃ r, c.before.db.reservation (taskKey cfg agentId seq taskDefId) = some r ∧
      r.state = .inFlight

def Phase.Troubled (agentId : Uuid) (seq : Nat) (taskDefId : Int) : Phase → Prop
  | .failing task _ failure => task.For agentId seq taskDefId ∧ failure.failureClass = .infra
  | _ => False

/-- Each INFRA failure of the task, reported or about to be, is the end of an invocation. -/
structure FailuresInvoked (agentId : Uuid) (seq : Nat) (taskDefId : Int)
    (ts : List SysTransition) (s : Sys) : Prop where
  single : ∀ p q, (s.workers p).phase.Troubled agentId seq taskDefId →
    (s.workers q).phase.Troubled agentId seq taskDefId → p = q
  unreported : ∀ p, (s.workers p).phase.Troubled agentId seq taskDefId → ∀ k t,
    s.db.task k = some t → t.For agentId seq taskDefId →
    infraAttempts t s.db < (invocations agentId seq taskDefId ts).length
  reported : ∀ k t, s.db.task k = some t → t.For agentId seq taskDefId →
    infraAttempts t s.db ≤ (invocations agentId seq taskDefId ts).length

section Step

variable {cfg : Config} {us : List SysTransition} {s s' : Sys} {a : Action} {agentId : Uuid}
  {seq : Nat} {taskDefId : Int} {p : Nat}

/-! ## Where an INFRA failure comes from -/

theorem startTask_not_troubled {registry : Int → Option TaskDef} {task : Handout} {started : Time}
    {db : Db} : ¬ (startTask registry task started db).Troubled agentId seq taskDefId := by
  unfold startTask
  split
  · exact fun h => by cases h.2
  · split
    · exact fun h => by cases h.2
    · dsimp only
      split <;> exact id

theorem settleAction_not_troubled {ladder : Ladder} {task : Handout} {started : Time}
    {key : ActionId} {result : PyDict} {now : Time} {db : Db} :
    ¬ (settleAction ladder task started key result now db).1.Troubled agentId seq taskDefId := by
  unfold settleAction finishTask
  repeat' split
  all_goals exact id

/-- A worker gets to an INFRA failure of the task by an invocation only. -/
theorem step_troubled (h : step cfg s a = some s')
    (htroubled : (s'.workers p).phase.Troubled agentId seq taskDefId) :
    (s.workers p).phase.Troubled agentId seq taskDefId ∨
      ∃ outcome, a = .run p outcome ∧ Invokes ⟨s, a, s'⟩ agentId seq taskDefId outcome := by
  rcases step_phase h p with hsame | hstep
  · exact Or.inl (hsame ▸ htroubled)
  · right
    generalize hphase : (s.workers p).phase = before at hstep
    generalize (s'.workers p).phase = after at hstep htroubled
    cases hstep with
    | claim | confirm | stop => exact htroubled.elim
    | load => exact absurd htroubled startTask_not_troubled
    | begin hbegin =>
        rcases beginAction_spec hbegin with ⟨rfl, -⟩ | ⟨status, stored, key, -, rfl⟩
        · exact htroubled.elim
        · cases status <;> exact htroubled.elim
    | @run task started ctx actionKey outcome =>
        refine ⟨outcome, rfl, p, task, started, ctx, actionKey, rfl, hphase, ?_⟩
        generalize hafter : afterRun cfg.ladder task started actionKey outcome = after at htroubled
        cases after with
        | failing held =>
            have hheld : held = task := afterRun_task? (by rw [hafter]; rfl)
            exact hheld ▸ htroubled.1
        | _ => exact htroubled.elim
    | settle hsettle =>
        rw [show after = _ from (congrArg Prod.fst hsettle).symm] at htroubled
        exact absurd htroubled settleAction_not_troubled

/-! ## Where one is counted -/

/-- Only the report of an INFRA failure counts as one. -/
theorem Rewrites.infra_le {v v' : TaskView} (h : Rewrites cfg s a v v') :
    v'.evidence.countP infraEvidence ≤ v.evidence.countP infraEvidence ∨
      v'.evidence.countP infraEvidence = v.evidence.countP infraEvidence + 1 ∧
        ∃ p now task started failure, a = .report p now ∧
          (s.workers p).phase = .failing task started failure ∧ task.id = v.row.id ∧
            failure.failureClass = .infra := by
  cases h with
  | keep | claim | renew | retry | promote | kill | cancel => exact Or.inl le_rfl
  | commit =>
      left
      simp [TaskView.committed, infraEvidence, Handout.attemptRow]
  | reclaim =>
      left
      simp [infraEvidence, TaskInstance.reclaimRow]
  | @report p now started task failure _ hphase hid =>
      by_cases hinfra : failure.failureClass = .infra
      · refine Or.inr ⟨?_, p, now, task, started, failure, rfl, hphase, hid, hinfra⟩
        simp [infraEvidence, Handout.attemptRow, hinfra]
      · left
        simp [infraEvidence, Handout.attemptRow, hinfra]

theorem Phase.Troubled.row (hsound : s.Sound)
    (h : (s.workers p).phase.Troubled agentId seq taskDefId) :
    ∃ k t, s.db.task k = some t ∧ t.For agentId seq taskDefId := by
  cases hphase : (s.workers p).phase with
  | failing task started failure =>
      rw [hphase] at h
      obtain ⟨t, ht, hof⟩ := hsound.handouts p task (by rw [hphase]; rfl)
      obtain ⟨⟨hagent, hseq, hdef⟩, -⟩ := h
      exact ⟨task.id, t, ht, hof.agentId.symm.trans hagent, hof.seq.symm.trans hseq,
        hof.taskDefId.symm.trans hdef⟩
  | _ =>
      rw [hphase] at h
      exact h.elim

/-- A step adds an INFRA failure to a row only when a worker reports it. -/
theorem step_infraAttempts (hsound : s.Sound) (h : step cfg s a = some s') {k : Uuid}
    {t' : TaskInstance} (ht' : s'.db.task k = some t') (hfor : t'.For agentId seq taskDefId) :
    infraAttempts t' s'.db = 0 ∨
      ∃ t, s.db.task k = some t ∧ t.For agentId seq taskDefId ∧
        (infraAttempts t' s'.db ≤ infraAttempts t s.db ∨
          infraAttempts t' s'.db = infraAttempts t s.db + 1 ∧
            ∃ p now, a = .report p now ∧ (s.workers p).phase.Troubled agentId seq taskDefId) := by
  cases hold : s.db.task k with
  | none =>
      left
      obtain ⟨-, hnone⟩ := step_created hsound h hold ht'
      rw [infraAttempts, Db.id_of_task ht', hnone]
      rfl
  | some t =>
      right
      have kept : t.Same t' → t.For agentId seq taskDefId := fun hsame =>
        ⟨hsame.agentId.symm.trans hfor.1, hsame.seq.symm.trans hfor.2.1,
          hsame.taskDefId.symm.trans hfor.2.2⟩
      by_cases hreports : ∃ p now, a = .report p now
      · obtain ⟨p, now, rfl⟩ := hreports
        obtain ⟨u, hu, hrewrites⟩ := step_report_rewrites h hold
        rw [ht'] at hu
        cases hu
        have hfor' := kept hrewrites.same
        refine ⟨t, rfl, hfor', hrewrites.infra_le.imp_right ?_⟩
        rintro ⟨hcount, q, later, task, started, failure, ha, hphase, hid, hinfra⟩
        refine ⟨hcount, q, later, ha, ?_⟩
        obtain ⟨r, hr, hof⟩ := hsound.handouts q task (by rw [hphase]; rfl)
        rw [hid, show (s.db.taskView t).row.id = k from Db.id_of_task hold, hold] at hr
        cases hr
        rw [hphase]
        exact ⟨hof.for hfor'.1 hfor'.2.1 hfor'.2.2, hinfra⟩
      · obtain ⟨u, hu, hsame, hle⟩ := step_rewrites h
          (I := fun v => t.Same v.row ∧ v.evidence.countP infraEvidence ≤ infraAttempts t s.db)
          (fun v v' hv hrewrites => by
            refine ⟨hv.1.trans hrewrites.same, ?_⟩
            rcases hrewrites.infra_le with hle | ⟨-, p, now, -, -, -, ha, -⟩
            · exact hle.trans hv.2
            · exact absurd ⟨p, now, ha⟩ hreports) hold ⟨.refl t, le_rfl⟩
        rw [ht'] at hu
        cases hu
        exact ⟨t, rfl, kept hsame, Or.inl hle⟩

theorem Invokes.length (us : List SysTransition) {outcome : RunOutcome} {c : SysTransition}
    (h : Invokes c agentId seq taskDefId outcome) :
    (invocations agentId seq taskDefId (us ++ [c])).length =
      (invocations agentId seq taskDefId us).length + 1 := by
  simp [invocations, invocation?_eq_some.2 h]

theorem invocations_length_le (agentId : Uuid) (seq : Nat) (taskDefId : Int)
    (us : List SysTransition) (c : SysTransition) :
    (invocations agentId seq taskDefId us).length ≤
      (invocations agentId seq taskDefId (us ++ [c])).length := by
  simp [invocations]

theorem step_report_idle {now : Time} (h : step cfg s (.report p now) = some s') :
    (s'.workers p).phase = .idle := by
  simp only [step] at h
  split at h
  · cases h
    rw [Sys.setPhase_workers, if_pos rfl]
  · cases h

theorem FailuresInvoked.step (hI : FailuresInvoked agentId seq taskDefId us s) (hsound : s.Sound)
    (h : step cfg s a = some s')
    (hone : (invocations agentId seq taskDefId (us ++ [⟨s, a, s'⟩])).length ≤ 1) :
    FailuresInvoked agentId seq taskDefId (us ++ [⟨s, a, s'⟩]) s' := by
  have hmore := invocations_length_le agentId seq taskDefId us ⟨s, a, s'⟩
  have positive : ∀ {p}, (s.workers p).phase.Troubled agentId seq taskDefId →
      0 < (invocations agentId seq taskDefId us).length := by
    intro p hp
    obtain ⟨k, t, ht, hfor⟩ := hp.row hsound
    exact Nat.zero_lt_of_lt (hI.unreported p hp k t ht hfor)
  -- an invocation is the first one, and there was nothing to report before it
  have alone : ∀ {p outcome}, Invokes ⟨s, a, s'⟩ agentId seq taskDefId outcome →
      ¬ (s.workers p).phase.Troubled agentId seq taskDefId := by
    intro p outcome hinvokes hp
    have hlength := hinvokes.length us
    have hbefore := positive hp
    omega
  refine ⟨fun p q hp hq => ?_, fun p hp k t' ht' hfor => ?_, fun k t' ht' hfor => ?_⟩
  · rcases step_troubled h hp with hp | ⟨outcome, ha, hinvokes⟩
    · rcases step_troubled h hq with hq | ⟨outcome, -, hinvokes⟩
      · exact hI.single p q hp hq
      · exact absurd hp (alone hinvokes)
    · rcases step_troubled h hq with hq | ⟨outcome', ha', -⟩
      · exact absurd hq (alone hinvokes)
      · rw [ha] at ha'
        cases ha'
        rfl
  · have hcount := step_infraAttempts hsound h ht' hfor
    rcases step_troubled h hp with hbefore | ⟨outcome, ha, hinvokes⟩
    · rcases hcount with hzero | ⟨t, ht, hfor', hle | ⟨-, q, now, ha, hq⟩⟩
      · have hpositive := positive hbefore
        omega
      · have hlt := hI.unreported p hbefore k t ht hfor'
        omega
      · -- the one worker with a failure to report has just reported it
        obtain rfl := hI.single q p hq hbefore
        subst ha
        rw [step_report_idle h] at hp
        exact hp.elim
    · have hlength := hinvokes.length us
      rcases hcount with hzero | ⟨t, ht, hfor', hle | ⟨-, q, now, ha', -⟩⟩
      · omega
      · have hle' := hI.reported k t ht hfor'
        omega
      · rw [ha] at ha'
        cases ha'
  · rcases step_infraAttempts hsound h ht' hfor with
      hzero | ⟨t, ht, hfor', hle | ⟨hcount, q, now, -, hq⟩⟩
    · omega
    · have hle' := hI.reported k t ht hfor'
      omega
    · have hlt := hI.unreported q hq k t ht hfor'
      omega

end Step

/-! ## Runs -/

section Runs

variable {cfg : Config} {ts : List SysTransition} {s : Sys} {agentId : Uuid} {seq : Nat}
  {taskDefId : Int}

/-- A side-effecting task has no more INFRA failures than invocations. -/
theorem SysRun.failuresInvoked (h : SysRun cfg ts s)
    (hledger : ∀ c ∈ ts, ∀ call, c.action ≠ .ledger call) (heffect : SideEffecting cfg taskDefId) :
    FailuresInvoked agentId seq taskDefId ts s := by
  refine h.invariant_along (I := FailuresInvoked agentId seq taskDefId) (fun c => c ∈ ts) ?_ ?_
    fun c hc => hc
  · exact ⟨fun p q hp => hp.elim, fun p hp => hp.elim, fun k t ht => by cases ht⟩
  · intro us u a u' hrun hpast hI hs hnew
    refine hI.step (SysRun.sound hrun) hs (SysRun.invocations_le_one (hrun.snoc hs) ?_ heffect)
    intro c hc
    rcases List.mem_append.1 hc with hold | hlast
    · exact hledger c (hpast c hold)
    · rw [List.mem_singleton.1 hlast]
      exact hledger _ hnew

/-- In every run in which only `run_task` and `reconcile` use the ledger, no classification
finds the INFRA budget of a side-effecting task spent while its reservation is open. -/
theorem reconciled_first (h : SysRun cfg ts s)
    (hledger : ∀ c ∈ ts, ∀ call, c.action ≠ .ledger call) (heffect : SideEffecting cfg taskDefId) :
    ReconciledFirst cfg ts agentId seq taskDefId := by
  rintro c hc t ⟨limit, flags, now, locked, -, htaken, -, -, -, hspent⟩ hfor -
  obtain ⟨pre, post, rfl, hpre, -, -⟩ := h.exists_split hc
  have hquiet : ∀ d ∈ pre, ∀ call, d.action ≠ .ledger call := fun d hd =>
    hledger d (List.mem_append_left _ hd)
  have hone : (invocations agentId seq taskDefId pre).length ≤ 1 :=
    SysRun.invocations_le_one hpre hquiet heffect
  have hcount := (SysRun.failuresInvoked hpre hquiet heffect).reported t.id t
    (mem_takeFailed htaken).1 hfor
  have hbudget : maxInfraAttempts ≤ 1 := hspent.trans (hcount.trans hone)
  exact absurd hbudget (by decide)

end Runs

/-! ## A retry that meets the reservation -/

/-- Two handouts end without a report and are taken back by the reaper; the third finds the
reservation closed. -/
def reconciledTicket : List Action :=
  refusedRetry ++
    [.reap 100 (fun _ => 0) (seconds 34) unlocked, .claim 0 (seconds 34) (seconds 34) unlocked,
      .load 0, .begin 0 (seconds 34), .reconcile none 100 (seconds 66) unlocked,
      .reap 100 (fun _ => 0) (seconds 66) unlocked, .claim 0 (seconds 66) (seconds 66) unlocked,
      .load 0, .begin 0 (seconds 66), .confirm 0, .checkpoint 0 (seconds 66)]

theorem reconciled_first_reconciledTicket :
    ((ran oneHost reconciledTicket).2.db.task (rowId firstAgent 0)).map
        (fun t => (t.status, t.attempt, infraAttempts t (ran oneHost reconciledTicket).2.db)) =
      some (.succeeded, 4, 1) ∧
      ReconciledFirst oneHost (ran oneHost reconciledTicket).1 firstAgent 0 40 := by
  have hquiet : ∀ c ∈ (ran oneHost reconciledTicket).1, c.action.callsLedger = false := by
    decide +kernel
  exact ⟨by decide +kernel, reconciled_first (run_ran oneHost reconciledTicket)
    (fun c hc => Action.ne_ledger (hquiet c hc)) ⟨_, rfl, rfl⟩⟩

end ReliableAgents
