import ReliableAgents.Lifecycle.Handouts
import ReliableAgents.Lifecycle.Tracking

/-!
# Crashes and interleavings are transparent

A worker that owns its row works on the agent's present context, at the row's tier: so
what it commits or reports is what the interpreter would have got there.
-/

namespace ReliableAgents

/-! ## What a run fixes -/

/-- How an invocation ended; `none` for a dict that cannot be stored, or a failure of a class
of its own. -/
def RunOutcome.told : RunOutcome → Option TaskOutcome
  | .returned (.dict (.json fields)) => some (.result fields)
  | .returned (.dict .unstorable) => none
  | .returned (.other _) => some (.failure .poison)
  | .raised failure => failure.failureClass.map .failure
  | .crashed _ _ => some (.failure .infra)

/-- The invocation a transition ends: the task, what it was given, and how it ended. -/
def invocation (c : SysTransition) : Option (Handout × TaskContext × RunOutcome) :=
  match c.action with
  | .run p outcome =>
      match (c.before.workers p).phase with
      | .running task _ ctx _ => some (task, ctx, outcome)
      | _ => none
  | _ => none

/-- The rows a transition routes, with the flags it reads for each. -/
def routings (c : SysTransition) : List (Flags × TaskInstance) :=
  match c.action with
  | .classify limit flags _ locked =>
      (takeFailed limit locked c.before.db).map fun t => (flags t.id, t)
  | _ => []

/-- In this transition the tasks of `a` end as `behaviour` says, and are routed under
these flags before the runaway guard. -/
structure Steady (flags : Flags) (behaviour : Behaviour) (a : Uuid) (c : SysTransition) : Prop where
  runs : ∀ x ∈ invocation c, x.1.agentId = a →
    x.2.2.told = some (behaviour x.1.taskDefId x.2.1.tier x.2.1.prior)
  routes : ∀ x ∈ routings c, x.2.agentId = a → x.1 = flags ∧ x.2.attempt < maxTotalAttempts

/-! ## Owners -/

/-- What a worker that owns its row has in hand, given the agent's context. -/
def Phase.Faithful (ladder : Ladder) (behaviour : Behaviour) (context : Context) : Phase → Prop
  | .idle | .claimed _ _ => True
  | .reserving _ _ _ | .settling _ _ _ _ => False
  | .running task _ ctx actionKey =>
      ctx.tier = task.tier ∧ ctx.prior = context ∧ actionKey = none
  | .finished task _ result cost tokens _ | .committing task _ result cost tokens =>
      (∃ fields, result = .json fields ∧
        behaviour task.taskDefId task.tier context = .result fields) ∧
          ladder.costOf task.tier = some (cost, tokens)
  | .failing task _ failure =>
      behaviour task.taskDefId task.tier context = .failure failure.failureClass

/-- Whoever owns a running row of `a` works on the agent's present context. -/
def Informed (cfg : Config) (behaviour : Behaviour) (a : Uuid) (s : Sys) : Prop :=
  ∀ p task t ag, (s.workers p).phase.task? = some task → s.db.task task.id = some t →
    t.status = .running → t.leaseOwner = some (cfg.workerId p) → t.agentId = a →
    s.db.agent a = some ag → (s.workers p).phase.Faithful cfg.ladder behaviour ag.context

section Informed

variable {ladder : Ladder} {rules : Rules} {cfg : Config} {flags : Flags} {behaviour : Behaviour}
  {s s' : Sys} {act : Action} {a : Uuid} {v v' : AgentView}

/-- The context an owner works on is still the agent's after a step. -/
theorem step_context (hsound : s.Sound) (h : step cfg s act = some s')
    (hv : s.db.view a = some v) (hcommitted : CommittedPrefix v) {k : Uuid} {t t' : TaskInstance}
    (ht : s.db.task k = some t) (hagent : t.agentId = a) (hrunning : t.status = .running)
    (ht' : s'.db.task k = some t') (hrunning' : t'.status = .running) {ag' : Agent}
    (hag' : s'.db.agent a = some ag') : ag'.context = v.agent.context := by
  have hrow := Db.view_row_of_task ht (hagent.symm ▸ hv)
  have hcursor := (hcommitted.active hrow (Or.inl hrunning)).1
  have hmoves := step_moves hsound h (Rules.free_hold cfg s act)
  obtain ⟨v', hv', hpath⟩ := hmoves a v hv
  obtain ⟨u, hu, htask⟩ := hpath.task hrow
  have hsame : t.Same u.row := htask.same
  rw [Db.view_rows hv', Option.map_eq_some_iff] at hu
  obtain ⟨t'', hrow'', rfl⟩ := hu
  have hid : t''.id = k := hsame.id.trans (Db.id_of_task ht)
  have htask'' := (Db.task_of_rowAt hrow'').1
  rw [hid, ht'] at htask''
  cases htask''
  have hcontext : v'.agent.context = v.agent.context := by
    refine AgentPath.context hpath (t := s'.db.taskView t') ?_ ?_
    · rw [Db.view_rows hv', ← hcursor, hrow'']
      rfl
    · rw [show (s'.db.taskView t').row = t' from rfl, hrunning']
      decide
  have hagent' := (Db.view_eq_some.1 hv').1
  rw [hag'] at hagent'
  cases hagent'
  exact hcontext

theorem step_owned (hdistinct : Function.Injective cfg.workerId) (hsound : s.Sound)
    (h : step cfg s act = some s') {p : Nat} {task : Handout} {t' : TaskInstance}
    (hheld : (s.workers p).phase.task? = some task) (ht' : s'.db.task task.id = some t')
    (hrunning : t'.status = .running) (howner : t'.leaseOwner = some (cfg.workerId p)) :
    ∃ t, s.db.task task.id = some t ∧ t.status = .running ∧
      t.leaseOwner = some (cfg.workerId p) ∧ t.agentId = t'.agentId := by
  rcases step_lease hsound h ht' hrunning with ⟨t, ht, hlease⟩ | ⟨q, other, hclaims, hid⟩
  · refine ⟨t, ht, hlease.status, hlease.leaseOwner ▸ howner, ?_⟩
    have hmoves := step_moves hsound h (Rules.free_hold cfg s act)
    obtain ⟨u, hu, hpath⟩ := hmoves.task hsound.db ht
    rw [ht'] at hu
    cases hu
    exact hpath.same.agentId.symm
  · -- the claimer owns the row, so it is `p` itself, which was idle
    obtain ⟨t, ht, -, howner', -⟩ := hclaims.row
    rw [hid, ht'] at ht
    cases ht
    have hq : q = p := hdistinct (Option.some.inj (howner'.symm.trans howner))
    rw [← hq, hclaims.idle] at hheld
    cases hheld

theorem afterRun_faithful {task : Handout} {started : Time} {ctx : TaskContext}
    {actionKey : Option ActionId} {outcome : RunOutcome} {context : Context}
    (h : (Phase.running task started ctx actionKey).Faithful ladder behaviour context)
    (htold : outcome.told = some (behaviour task.taskDefId ctx.tier ctx.prior)) :
    (afterRun ladder task started actionKey outcome).Faithful ladder behaviour context := by
  obtain ⟨htier, hprior, rfl⟩ := h
  rw [htier, hprior] at htold
  have hfails : ∀ failure : TaskFailure,
      failure.failureClass.map TaskOutcome.failure =
        some (behaviour task.taskDefId task.tier context) →
      (failTask task started failure).Faithful ladder behaviour context := by
    intro failure hclass
    refine failTask_of trivial fun report hreport => ?_
    rw [TaskFailure.report?_class hreport] at hclass
    exact (Option.some.inj hclass).symm
  cases outcome with
  | raised failure => exact hfails failure htold
  | crashed typeName message => exact hfails (crashFailure typeName message) htold
  | returned value =>
      cases value with
      | other typeName =>
          have hclass : (notADict task typeName).failureClass.map TaskOutcome.failure =
              some (behaviour task.taskDefId task.tier context) := htold
          rw [afterRun]
          exact hfails _ hclass
      | dict result =>
          cases result with
          | unstorable => cases htold
          | json fields =>
              have hresult := (Option.some.inj htold).symm
              simp only [afterRun, finishTask]
              split
              · trivial
              · rename_i price hprice
                exact ⟨⟨fields, rfl, hresult⟩, hprice⟩

theorem startTask_faithful {registry : Int → Option TaskDef} {task : Handout} {started : Time}
    {db : Db} {ag : Agent} {taskDef : TaskDef} (hag : db.agent task.agentId = some ag)
    (hdef : registry task.taskDefId = some taskDef) (hpure : taskDef.sideEffecting = false) :
    (startTask registry task started db).Faithful ladder behaviour ag.context := by
  simp only [startTask, hag, hdef, hpure, Bool.false_eq_true, if_false]
  exact ⟨rfl, rfl, rfl⟩

theorem step_informed (hdistinct : Function.Injective cfg.workerId) (hsound : s.Sound)
    (hinformed : Informed cfg behaviour a s) (hv : s.db.view a = some v)
    (hcommitted : CommittedPrefix v)
    (hpure : ∀ k t, s.db.task k = some t → t.agentId = a →
      ∃ taskDef, cfg.registry t.taskDefId = some taskDef ∧ taskDef.sideEffecting = false)
    (h : step cfg s act = some s') (hsteady : Steady flags behaviour a ⟨s, act, s'⟩) :
    Informed cfg behaviour a s' := by
  intro p task t' ag' hheld ht' hrunning' howner' hagent' hag'
  -- the worker was busy before, its phase was faithful to the context, which is the same
  have before : ∀ {phase : Phase}, (s.workers p).phase = phase → phase.task? = some task →
      phase.Faithful cfg.ladder behaviour ag'.context ∧ task.agentId = a ∧
        s.db.agent a = some v.agent ∧ ag'.context = v.agent.context ∧
          ∃ t, s.db.task task.id = some t ∧ task.taskDefId = t.taskDefId ∧ t.agentId = a := by
    intro phase hphase hbusy
    have hbefore : (s.workers p).phase.task? = some task := by rw [hphase, hbusy]
    obtain ⟨t, ht, hrunning, howner, hagent⟩ :=
      step_owned hdistinct hsound h hbefore ht' hrunning' howner'
    have hcontext := step_context hsound h hv hcommitted ht (hagent.trans hagent') hrunning ht'
      hrunning' hag'
    have hag := (Db.view_eq_some.1 hv).1
    have hfaithful := hinformed p task t v.agent hbefore ht hrunning howner
      (hagent.trans hagent') hag
    obtain ⟨u, hu, hof⟩ := hsound.handouts p task hbefore
    rw [ht] at hu
    cases hu
    exact ⟨hcontext ▸ hphase ▸ hfaithful, hof.agentId.trans (hagent.trans hagent'), hag, hcontext,
      t, ht, hof.taskDefId, hagent.trans hagent'⟩
  rcases step_phase h p with hsame | hstep
  · rw [hsame] at hheld ⊢
    exact (before rfl hheld).1
  · generalize hbefore : (s.workers p).phase = phase at hstep
    generalize (s'.workers p).phase = phase' at hstep hheld ⊢
    cases hstep with
    | claim | stop => trivial
    | load =>
        rw [startTask_task?] at hheld
        obtain ⟨-, hagent, hag, hcontext, t, ht, hdefId, htagent⟩ := before hbefore hheld
        obtain ⟨taskDef, hdef, hnone⟩ := hpure _ t ht htagent
        rw [hcontext]
        cases hheld
        exact startTask_faithful (hagent.symm ▸ hag) (hdefId.symm ▸ hdef) hnone
    | begin hbegin =>
        rw [show phase' = _ from (congrArg Prod.fst hbegin).symm] at hheld
        exact (before hbefore (beginAction_task? hheld ▸ rfl)).1.elim
    | @run held started ctx actionKey outcome =>
        have hsameTask := afterRun_task? hheld
        subst hsameTask
        obtain ⟨hfaithful, hagent, -⟩ := before hbefore rfl
        refine afterRun_faithful hfaithful (hsteady.runs (task, ctx, outcome) ?_ hagent)
        simp [invocation, hbefore]
    | settle hsettle =>
        rw [show phase' = _ from (congrArg Prod.fst hsettle).symm] at hheld
        exact (before hbefore (settleAction_task? hheld ▸ rfl)).1.elim
    | confirm => exact (before hbefore hheld).1

/-- What an owner has in hand is faithful, and stamped with its row. -/
theorem Informed.owner (hinformed : Informed cfg behaviour a s) (hsound : s.Sound)
    (hcoupled : Coupled cfg s) {p : Nat} {phase : Phase} {task : Handout} {t : TaskInstance}
    {ag : Agent} (hphase : (s.workers p).phase = phase) (hbusy : phase.task? = some task)
    (ht : s.db.task task.id = some t) (howner : t.leaseOwner = some (cfg.workerId p))
    (hrunning : t.status = .running) (hag : s.db.agent task.agentId = some ag) (hid : ag.id = a) :
    phase.Faithful cfg.ladder behaviour ag.context ∧ task.taskDefId = t.taskDefId ∧
      task.tier = t.tier := by
  have hheld : (s.workers p).phase.task? = some task := by rw [hphase, hbusy]
  obtain ⟨u, hu, hof⟩ := hsound.handouts p task hheld
  rw [ht] at hu
  cases hu
  have hagent : task.agentId = a := (Db.id_of_agent hag).symm.trans hid
  have hfaithful := hinformed p task t ag hheld ht hrunning howner (hof.agentId.symm.trans hagent)
    (hagent ▸ hag)
  exact ⟨hphase ▸ hfaithful, hof.taskDefId, (hcoupled p task t hheld ht hrunning howner).1⟩

/-- Informed owners commit and report what `behaviour` says. -/
theorem Informed.deterministic_hold (hinformed : Informed cfg behaviour a s) (hsound : s.Sound)
    (hcoupled : Coupled cfg s) (hsteady : Steady flags behaviour a ⟨s, act, s'⟩) :
    (deterministic cfg.ladder flags behaviour a).Hold cfg s act where
  claim := by intros; trivial
  reclaim := by intros; trivial
  commit := by
    intro p now task started fields cost tokens t ag _ hphase ht howner hrunning hag hid
    obtain ⟨⟨⟨fields', hfields, hresult⟩, hcost⟩, hdef, htier⟩ :=
      hinformed.owner hsound hcoupled hphase rfl ht howner hrunning hag hid
    cases hfields
    rw [← hdef, ← htier]
    exact ⟨hresult, hcost⟩
  report := by
    intro p now task started failure t ag _ hphase ht howner hrunning hag hid
    obtain ⟨hfailure, hdef, htier⟩ :=
      hinformed.owner hsound hcoupled hphase rfl ht howner hrunning hag hid
    rw [← hdef, ← htier]
    exact hfailure
  route := by
    intro limit flags' now locked t hact htaken hagent
    subst hact
    exact hsteady.routes (flags' t.id, t) (List.mem_map_of_mem htaken) hagent

end Informed

/-! ## Runs -/

section Runs

variable {cfg : Config} {ts : List SysTransition} {s : Sys} {c : SysTransition} {a : Uuid}
  {plan : List Int} {forceTier : Option TierName} {ids : Nat → Uuid} {now : Time} {flags : Flags}
  {behaviour : Behaviour}

/-- From its submission on the interpreter tracks an agent whose tasks are steady. -/
theorem SysRun.tracked (h : SysRun cfg ts s) (hdistinct : Function.Injective cfg.workerId)
    (hc : c ∈ ts) (hsubmits : Submits cfg c a plan forceTier ids now)
    (hpure : ∀ taskDefId ∈ plan, ∃ taskDef, cfg.registry taskDefId = some taskDef ∧
      taskDef.sideEffecting = false)
    (hsteady : ∀ d ∈ ts, Steady flags behaviour a d) :
    ∃ tier v, forceTier.or cfg.ladder.baseTier = some tier ∧ s.db.view a = some v ∧
      v.agent.plan = plan ∧
        Tracks cfg.ladder flags behaviour (cfg.ladder.rungs tier)
          (reference cfg.ladder flags behaviour tier plan) v := by
  obtain ⟨agentIds, drawn, -, ha, rfl, hsubmit⟩ := hsubmits
  obtain ⟨pre, post, rfl, hpre, hs, hpost⟩ := h.exists_split hc
  obtain ⟨hplan, -, -, tier, htier, hcreate⟩ := submitAgents_spec hsubmit
  have hview := Db.createAgents_view (SysRun.sound hpre).db hcreate ha
  have honLadder := createAgents_tier hcreate hplan (List.ne_nil_of_mem ha)
  have hafter : SysRun cfg (pre ++ [c]) c.after := hpre.snoc hs
  suffices hboth : (∃ v, s.db.view a = some v ∧ v.agent.plan = plan ∧ CommittedPrefix v ∧
      Tracks cfg.ladder flags behaviour (cfg.ladder.rungs tier)
        (reference cfg.ladder flags behaviour tier plan) v) ∧ Informed cfg behaviour a s by
    obtain ⟨⟨v, hv, hvplan, -, htracks⟩, -⟩ := hboth
    exact ⟨tier, v, htier, hv, hvplan, htracks⟩
  refine hpost.invariant_along (I := fun _ u =>
    (∃ v, u.db.view a = some v ∧ v.agent.plan = plan ∧ CommittedPrefix v ∧
      Tracks cfg.ladder flags behaviour (cfg.ladder.rungs tier)
        (reference cfg.ladder flags behaviour tier plan) v) ∧ Informed cfg behaviour a u)
    (fun d => Steady flags behaviour a d) ?_ ?_ ?_
  · refine ⟨⟨_, hview, rfl, .fresh hplan, .fresh honLadder⟩, ?_⟩
    intro p task t ag _ ht hrunning _ hagent _
    -- the rows of a new agent are pending
    have hrow := Db.view_row_of_task ht (hagent.symm ▸ hview)
    obtain ⟨taskDefId, -, heq⟩ := Option.map_eq_some_iff.1 hrow
    have hpending : t.status = .pending := by
      rw [show t = (c.after.db.taskView t).row from rfl, ← heq]
      rfl
    rw [hpending] at hrunning
    cases hrunning
  · rintro us u act u' hrun - ⟨⟨v, hv, hvplan, hcommitted, htracks⟩, hinformed⟩ hstep hnew
    have hreached : SysRun cfg (pre ++ [c] ++ us) u := hafter.append hrun
    have hsound : u.Sound := SysRun.sound hreached
    have hcoupled : Coupled cfg u := SysRun.coupled hdistinct hreached
    have hid : v.agent.id = a := Db.id_of_agent (Db.view_eq_some.1 hv).1
    have hrules := hinformed.deterministic_hold hsound hcoupled hnew
    obtain ⟨v', hv', hpath⟩ := step_moves hsound hstep hrules a v hv
    refine ⟨⟨v', hv', (AgentPath.plan hpath).1.trans hvplan, hcommitted.path hpath,
      htracks.path hcommitted (hid.symm ▸ hpath)⟩, ?_⟩
    refine step_informed hdistinct hsound hinformed hv hcommitted ?_ hstep hnew
    intro k t ht hagent
    have hrow := Db.view_row_of_task ht (hagent.symm ▸ hv)
    have hplanned := (htracks.laidOut.planned _ _ hrow).1
    rw [hvplan] at hplanned
    exact hpure _ (List.mem_of_getElem? hplanned)
  · intro d hd
    exact hsteady d (List.mem_append_right _ (List.mem_cons_of_mem _ hd))

/-- However workers crash, stall and interleave, an agent that has ended shows what the
sequential interpreter shows. -/
theorem crash_transparent (h : SysRun cfg ts s) (hdistinct : Function.Injective cfg.workerId)
    (hc : c ∈ ts) (hsubmits : Submits cfg c a plan forceTier ids now)
    (hpure : ∀ taskDefId ∈ plan, ∃ taskDef, cfg.registry taskDefId = some taskDef ∧
      taskDef.sideEffecting = false)
    (hsteady : ∀ d ∈ ts, Steady flags behaviour a d) :
    ∃ tier v, forceTier.or cfg.ladder.baseTier = some tier ∧ s.db.view a = some v ∧
      (v.agent.status = .completed ∨ v.agent.status = .failed →
        reference cfg.ladder flags behaviour tier plan = some (v.standing plan.length)) := by
  obtain ⟨tier, v, htier, hv, hplan, htracks⟩ := h.tracked hdistinct hc hsubmits hpure hsteady
  refine ⟨tier, v, htier, hv, fun hended => ?_⟩
  have hstopped : v.agent.status ≠ .running := by
    rintro hrunning
    rw [hrunning] at hended
    simp at hended
  rw [htracks.ends hstopped, hplan]

end Runs

/-! ## A run with a death and a stale worker -/

def escalating : Behaviour := fun taskDefId tier _ =>
  if taskDefId = 20 ∧ tier = "junior" then .failure .capability
  else .result (.cons "correlated" (.bool true) .nil)

/-- The first worker dies with the failure it was about to report. Later a worker stalls
over task 1 until its lease is reclaimed, and comes back after the task is committed. -/
def turbulent : List Action :=
  [submitPlan [20, 1]] ++ handout 0 0 (.raised tooHard) ++
    [.crash 0, .reap 100 (fun _ => 0) (seconds 31) unlocked] ++
    handout 0 (seconds 40) (.raised tooHard) ++ reported 0 (seconds 41) ++
    handout 0 (seconds 50) (.raised tooHard) ++ reported 0 (seconds 51) ++
    handout 1 (seconds 60) solved ++ [.confirm 1, .checkpoint 1 (seconds 61)] ++
    handout 2 (seconds 70) solved ++
    [.confirm 2, .reap 100 (fun _ => 0) (seconds 101) unlocked] ++
    handout 0 (seconds 110) solved ++
    [.confirm 0, .checkpoint 0 (seconds 111), .checkpoint 2 (seconds 112)]

example : reference seededLadder {} escalating "junior" [20, 1] = some
    { status := .completed
      cursor := 2
      context :=
        [(0, .cons "correlated" (.bool true) .nil), (1, .cons "correlated" (.bool true) .nil)]
      costUnits := 13
      tokensUsed := 4200
      tiers := [(0, "senior"), (1, "junior")] } := by
  decide

theorem turbulent_steady : ∀ d ∈ (ran oneHost turbulent).1, Steady {} escalating firstAgent d := by
  have hruns : ∀ d ∈ (ran oneHost turbulent).1, ∀ x ∈ invocation d, x.1.agentId = firstAgent →
      x.2.2.told = some (escalating x.1.taskDefId x.2.1.tier x.2.1.prior) := by
    decide +kernel
  have hroutes : ∀ d ∈ (ran oneHost turbulent).1, ∀ x ∈ routings d, x.2.agentId = firstAgent →
      x.1 = {} ∧ x.2.attempt < maxTotalAttempts := by
    decide +kernel
  exact fun d hd => ⟨hruns d hd, hroutes d hd⟩

theorem crash_transparent_turbulent :
    ∃ v, (ran oneHost turbulent).2.db.view firstAgent = some v ∧ v.agent.status = .completed ∧
      reference seededLadder {} escalating "junior" [20, 1] = some (v.standing 2) := by
  have hc : ∃ c ∈ (ran oneHost turbulent).1,
      Submits oneHost c firstAgent [20, 1] none (rowId firstAgent) 0 :=
    exists_submits (by decide +kernel) (by decide +kernel)
  obtain ⟨c, hmem, hsubmits⟩ := hc
  have hpure : ∀ taskDefId ∈ [20, 1], ∃ taskDef, oneHost.registry taskDefId = some taskDef ∧
      taskDef.sideEffecting = false := by
    intro taskDefId hd
    rcases List.mem_pair.1 hd with rfl | rfl <;> exact ⟨_, rfl, rfl⟩
  obtain ⟨tier, v, htier, hv, hended⟩ := crash_transparent (run_ran oneHost turbulent)
    defaultWorkerId_injective hmem hsubmits hpure turbulent_steady
  cases htier
  have hcompleted : ((ran oneHost turbulent).2.db.agent firstAgent).map Agent.status =
      some .completed := by
    decide +kernel
  rw [(Db.view_eq_some.1 hv).1, Option.map_some, Option.some.injEq] at hcompleted
  exact ⟨v, hv, hcompleted, hended (Or.inl hcompleted)⟩

end ReliableAgents
