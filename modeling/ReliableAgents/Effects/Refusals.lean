import ReliableAgents.Effects.Success
import ReliableAgents.Lifecycle.AtCursor
import ReliableAgents.Lifecycle.DeadLetters
import ReliableAgents.Lifecycle.PriorContext
import ReliableAgents.Tasks.ToolCalls

/-!
# A refused tool call

`tools.call` refuses before it invokes anything, but `run_task` reserves before it calls
`run` and leaves the reservation in place when `run` raises. No second invocation comes
to pass without a `release`, so the first draw decides: an admitted call is committed,
and a refused one is never made up for.
-/

namespace ReliableAgents

def invocation? (agentId : Uuid) (seq : Nat) (taskDefId : Int) (c : SysTransition) :
    Option RunOutcome :=
  match c.action with
  | .run p outcome =>
      match (c.before.workers p).phase with
      | .running task _ _ _ =>
          if task.agentId = agentId ∧ task.seq = seq ∧ task.taskDefId = taskDefId then some outcome
          else none
      | _ => none
  | _ => none

def invocations (agentId : Uuid) (seq : Nat) (taskDefId : Int) (ts : List SysTransition) :
    List RunOutcome :=
  ts.filterMap (invocation? agentId seq taskDefId)

def CallsTool (ts : List SysTransition) (t : TaskInstance) (field : String) (tool : Tool)
    (calls : Nat → ToolCall) : Prop :=
  ∀ i outcome, (invocations t.agentId t.seq t.taskDefId ts)[i]? = some outcome →
    outcome = singleCall field tool (calls i)

/-- Fewer than `MAX_INFRA_ATTEMPTS` refusals, and then an implementation that returns. -/
def RefusedThenReturns (tool : Tool) (calls : Nat → ToolCall) : Prop :=
  ∃ n < maxInfraAttempts, (∀ i < n, (calls i).refused tool = true) ∧
    (calls n).admitted tool = true ∧ ∃ out, (calls n).impl tool = .returned out

/-- The implementation was invoked once, and the task has succeeded with what it returned. -/
structure Accomplished (ts : List SysTransition) (s : Sys) (t : TaskInstance) (field : String)
    (tool : Tool) (calls : Nat → ToolCall) : Prop where
  alive : t.status ≠ .dead ∧ ∀ entry ∈ s.db.deadLetters t.agentId, entry.seq ≠ t.seq
  once : ∃! i, i < (invocations t.agentId t.seq t.taskDefId ts).length ∧
    (calls i).admitted tool = true
  result : t.status = .succeeded ∧ ∃ fields, t.result = some fields ∧
    ∃ i < (invocations t.agentId t.seq t.taskDefId ts).length, (calls i).admitted tool = true ∧
      singleCall field tool (calls i) = .returned (.dict (.json fields))

/-! ## Invocations -/

section Invocations

variable {cfg : Config} {ts : List SysTransition} {s : Sys} {agentId : Uuid} {seq : Nat}
  {taskDefId : Int}

theorem invocation?_eq_some {c : SysTransition} {outcome : RunOutcome} :
    invocation? agentId seq taskDefId c = some outcome ↔
      Invokes c agentId seq taskDefId outcome := by
  constructor
  · intro h
    unfold invocation? at h
    split at h
    · rename_i p ended haction
      split at h
      · rename_i task started ctx actionKey hphase
        split at h
        · rename_i hfor
          cases h
          exact ⟨p, task, started, ctx, actionKey, haction, hphase, hfor⟩
        · cases h
      · cases h
    · cases h
  · rintro ⟨p, task, started, ctx, actionKey, haction, hphase, hfor⟩
    simp only [invocation?, haction, hphase, if_pos hfor]

theorem mem_invocations {outcome : RunOutcome} :
    outcome ∈ invocations agentId seq taskDefId ts ↔
      ∃ c ∈ ts, Invokes c agentId seq taskDefId outcome := by
  simp only [invocations, List.mem_filterMap, invocation?_eq_some]

/-- Nothing releases the id, so no second invocation follows a first. -/
theorem SysRun.invocations_le_one (h : SysRun cfg ts s)
    (hledger : ∀ c ∈ ts, ∀ call, c.action ≠ .ledger call) (heffect : SideEffecting cfg taskDefId) :
    (invocations agentId seq taskDefId ts).length ≤ 1 := by
  by_contra hmany
  obtain ⟨first, second, rest, hlist⟩ : ∃ first second rest,
      invocations agentId seq taskDefId ts = first :: second :: rest := by
    match hlist : invocations agentId seq taskDefId ts with
    | [] | [_] => simp [hlist] at hmany
    | first :: second :: rest => exact ⟨first, second, rest, rfl⟩
  obtain ⟨pre, c, later, rfl, -, hc, hlater⟩ := List.filterMap_eq_cons_iff.1 hlist
  obtain ⟨mid, d, post, rfl, -, hd, -⟩ := List.filterMap_eq_cons_iff.1 hlater
  obtain ⟨e, he, hreleases⟩ := (at_most_once h).invocations _ _ _ _ _ _ _ _ _ _ heffect rfl
    (invocation?_eq_some.1 hc) (invocation?_eq_some.1 hd)
  refine hledger e ?_ _ hreleases.1
  rw [show pre ++ c :: (mid ++ d :: post) = (pre ++ c :: mid) ++ d :: post by simp]
  exact List.mem_append_left _ he

end Invocations

/-! ## An invocation that returns -/

def Phase.Untroubled (agentId : Uuid) (seq : Nat) (taskDefId : Int) : Phase → Prop
  | .failing task _ _ => ¬ task.For agentId seq taskDefId
  | _ => True

structure Undeterred (agentId : Uuid) (seq : Nat) (taskDefId : Int) (ts : List SysTransition)
    (s : Sys) : Prop where
  quiet : ∀ p, (s.workers p).phase.Untroubled agentId seq taskDefId
  held : invocations agentId seq taskDefId ts ≠ [] → ∃ t, s.db.rowAt agentId seq = some t ∧
    t.taskDefId = taskDefId ∧ (t.status = .running ∨ t.status = .succeeded)

def persisting (agentId : Uuid) (seq : Nat) (taskDefId : Int) : Rules :=
  { Rules.free with
    report := fun _ _ task _ => ¬ task.For agentId seq taskDefId
    reclaim := fun _ => False }

theorem TaskPath.persists {ladder : Ladder} {agentId : Uuid} {seq : Nat} {taskDefId : Int}
    {v v' : TaskView} (h : TaskPath ladder (persisting agentId seq taskDefId) v v')
    (hagent : v.row.agentId = agentId) (hseq : v.row.seq = seq)
    (hdef : v.row.taskDefId = taskDefId)
    (hopen : v.row.status = .running ∨ v.row.status = .succeeded) :
    v'.row.status = .running ∨ v'.row.status = .succeeded := by
  induction h with
  | refl => exact hopen
  | @tail w w' hpath hs ih =>
      have hsame : v.row.Same w.row := TaskPath.same hpath
      cases hs with
      | claim _ _ _ hpending => simp [hpending] at ih
      | row hrow =>
          cases hrow with
          | renew => exact ih
          | report task failure _ _ _ _ _ hof hrule =>
              refine absurd (hof.for ?_ ?_ ?_) hrule
              · exact hsame.agentId.trans hagent
              · exact hsame.seq.trans hseq
              · exact hsame.taskDefId.trans hdef
          | reclaim _ _ _ hrule => exact hrule.elim
          | retry _ _ _ hfailed | promote _ _ _ hfailed => simp [hfailed] at ih
      | commit => exact Or.inr rfl
      | kill _ hfailed => simp [hfailed] at ih
      | cancel _ _ hpending => simp [hpending] at ih

section Step

variable {cfg : Config} {us : List SysTransition} {s s' : Sys} {a : Action} {agentId : Uuid}
  {seq : Nat} {taskDefId : Int}

theorem Undeterred.persisting_hold (hu : Undeterred agentId seq taskDefId us s)
    (hleases : LeasesHold ⟨s, a, s'⟩) : (persisting agentId seq taskDefId).Hold cfg s a where
  claim := by intros; trivial
  commit := by intros; trivial
  report := by
    intro p now task started failure t ag _ hphase _ _ _ _
    have hquiet := hu.quiet p
    rw [hphase] at hquiet
    exact hquiet
  reclaim := by
    intro batch jitter now locked t ha htaken
    rw [hleases.expiredLeases ha] at htaken
    cases htaken
  route := by intros; trivial

theorem finishTask_untroubled {ladder : Ladder} {task : Handout} {started : Time}
    {result : PyDict} :
    (finishTask ladder task started result).Untroubled agentId seq taskDefId := by
  unfold finishTask
  split <;> trivial

theorem settleAction_untroubled {ladder : Ladder} {task : Handout} {started : Time}
    {key : ActionId} {result : PyDict} {now : Time} {db : Db} :
    (settleAction ladder task started key result now db).1.Untroubled agentId seq taskDefId := by
  unfold settleAction
  split
  · trivial
  · exact finishTask_untroubled

theorem afterRun_untroubled {ladder : Ladder} {task : Handout} {started : Time}
    {actionKey : Option ActionId} {outcome : RunOutcome}
    (hruns : task.For agentId seq taskDefId → ∃ result, outcome = .returned (.dict result)) :
    (afterRun ladder task started actionKey outcome).Untroubled agentId seq taskDefId := by
  by_cases hfor : task.For agentId seq taskDefId
  · obtain ⟨result, rfl⟩ := hruns hfor
    unfold afterRun
    dsimp only
    split
    · trivial
    · exact finishTask_untroubled
  · have hfails (failure : TaskFailure) :
        (failTask task started failure).Untroubled agentId seq taskDefId :=
      failTask_of trivial fun _ _ => hfor
    unfold afterRun
    split
    · exact hfails _
    · exact hfails _
    · exact hfails _
    · split
      · trivial
      · exact finishTask_untroubled

theorem startTask_untroubled (hsound : s.Sound) {p : Nat} {task : Handout} {started : Time}
    (hheld : (s.workers p).phase.task? = some task) (heffect : SideEffecting cfg taskDefId) :
    (startTask cfg.registry task started s.db).Untroubled agentId seq taskDefId := by
  obtain ⟨t, ht, hof⟩ := hsound.handouts p task hheld
  obtain ⟨ag, hag⟩ := hsound.db.tasks _ t ht
  unfold startTask
  rw [hof.agentId, hag]
  dsimp only
  split
  · rename_i hmissing
    intro hfor
    obtain ⟨taskDef, hdef, -⟩ := heffect
    rw [hfor.2.2, hdef] at hmissing
    cases hmissing
  · split <;> trivial

theorem Undeterred.step_quiet (hu : Undeterred agentId seq taskDefId us s) (hsound : s.Sound)
    (heffect : SideEffecting cfg taskDefId) (h : step cfg s a = some s')
    (hruns : ∀ outcome, Invokes ⟨s, a, s'⟩ agentId seq taskDefId outcome →
      ∃ result, outcome = .returned (.dict result)) (p : Nat) :
    (s'.workers p).phase.Untroubled agentId seq taskDefId := by
  have hp := hu.quiet p
  rcases step_phase h p with hsame | hstep
  · exact hsame ▸ hp
  · generalize hphase : (s.workers p).phase = before at hstep
    generalize (s'.workers p).phase = after at hstep ⊢
    cases hstep with
    | claim | confirm | stop => trivial
    | load => exact startTask_untroubled hsound (by rw [hphase]; rfl) heffect
    | begin hbegin =>
        rcases beginAction_spec hbegin with ⟨rfl, -⟩ | ⟨status, stored, key, -, rfl⟩
        · trivial
        · cases status <;> trivial
    | run =>
        refine afterRun_untroubled fun hfor => hruns _ ?_
        exact ⟨p, _, _, _, _, rfl, hphase, hfor⟩
    | settle hsettle =>
        rw [show after = _ from (congrArg Prod.fst hsettle).symm]
        exact settleAction_untroubled

theorem Undeterred.step_held (hu : Undeterred agentId seq taskDefId us s) (hsound : s.Sound)
    (hsole : Sole s) (h : step cfg s a = some s') (hleases : LeasesHold ⟨s, a, s'⟩)
    (hinvoked : invocations agentId seq taskDefId (us ++ [⟨s, a, s'⟩]) ≠ []) :
    ∃ t, s'.db.rowAt agentId seq = some t ∧ t.taskDefId = taskDefId ∧
      (t.status = .running ∨ t.status = .succeeded) := by
  by_cases hbefore : invocations agentId seq taskDefId us = []
  · -- this step is the first invocation, and it writes nothing
    obtain ⟨outcome, houtcome⟩ := List.exists_mem_of_ne_nil _ hinvoked
    obtain ⟨c, hc, hinvokes⟩ := mem_invocations.1 houtcome
    rcases List.mem_append.1 hc with hold | hlast
    · have hmem := mem_invocations.2 ⟨c, hold, hinvokes⟩
      rw [hbefore] at hmem
      cases hmem
    · obtain rfl := List.mem_singleton.1 hlast
      obtain ⟨p, task, started, ctx, actionKey, ha, hphase, hfor⟩ := hinvokes
      dsimp only at ha hphase
      subst ha
      have hheld : (s.workers p).phase.task? = some task := by
        rw [hphase]
        rfl
      obtain ⟨t, ht, hdef, hrunning⟩ := hsole.rowAt_running hsound hheld hfor
      obtain ⟨_, _, _, _, -, rfl⟩ := step_run h
      exact ⟨t, ht, hdef, Or.inl hrunning⟩
  · obtain ⟨t, ht, hdef, hopen⟩ := hu.held hbefore
    have hmoves := step_moves hsound h (hu.persisting_hold hleases)
    obtain ⟨t', ht', hsame, hpath⟩ := hmoves.rowAt hsound.db ht
    obtain ⟨-, hagent, hseq⟩ := Db.task_of_rowAt ht
    exact ⟨t', ht', hsame.taskDefId.trans hdef, hpath.persists hagent hseq hdef hopen⟩

end Step

/-! ## Runs -/

section Runs

variable {cfg : Config} {ts : List SysTransition} {s : Sys} {agentId : Uuid} {seq : Nat}
  {taskDefId : Int}

theorem SysRun.undeterred (h : SysRun cfg ts s) (hquiet : Undisturbed cfg ts)
    (heffect : SideEffecting cfg taskDefId)
    (hruns : ∀ c ∈ ts, ∀ outcome, Invokes c agentId seq taskDefId outcome →
      ∃ fields, outcome = .returned (.dict (.json fields))) :
    Undeterred agentId seq taskDefId ts s := by
  refine h.invariant_along (I := Undeterred agentId seq taskDefId) (fun c => c ∈ ts) ?_ ?_
    fun c hc => hc
  · exact ⟨fun p => trivial, fun hne => absurd rfl hne⟩
  · intro us u a u' hrun hpast hu hs hnew
    have hsound : u.Sound := SysRun.sound hrun
    have hsole : Sole u := SysRun.sole hrun fun c hc => hquiet.leases c (hpast c hc)
    refine ⟨hu.step_quiet hsound heffect hs fun outcome hinvokes => ?_,
      hu.step_held hsound hsole hs (hquiet.leases _ hnew)⟩
    obtain ⟨fields, hfields⟩ := hruns _ hnew outcome hinvokes
    exact ⟨.json fields, hfields⟩

/-- A dead letter stands for a dead row. -/
theorem SysRun.not_dead_lettered (h : SysRun cfg ts s) {k : Uuid} {t : TaskInstance}
    (ht : s.db.task k = some t) (halive : t.status ≠ .dead) :
    ∀ entry ∈ s.db.deadLetters t.agentId, entry.seq ≠ t.seq := by
  intro entry hentry hseq
  obtain ⟨v, plan, tier, ids, now, hv, hplan, hpath⟩ := h.row_origin ht
  have hfresh : CommittedPrefix (.fresh t.agentId plan tier ids now) := .fresh hplan
  have hcommitted : CommittedPrefix v := hfresh.path hpath
  have hdead : DeadLettered v := DeadLettered.path (.fresh t.agentId plan tier ids now) hfresh hpath
  obtain ⟨-, -, hletters⟩ := Db.view_eq_some.1 hv
  rw [← hletters] at hentry
  have hfailed : v.agent.status = .failed := by
    by_contra hfailed
    rw [hdead.spared hfailed] at hentry
    cases hentry
  obtain ⟨entry', row, hone, hrow, hrecords, -⟩ := hdead.failed hfailed
  rw [hone, List.mem_singleton] at hentry
  subst hentry
  obtain ⟨row', hrow', hstatus⟩ := hcommitted.failed hfailed
  rw [hrow] at hrow'
  cases hrow'
  have hcursor := hrow
  rw [Db.view_rows hv, Option.map_eq_some_iff] at hcursor
  obtain ⟨u, hu, rfl⟩ := hcursor
  have hat : v.agent.cursor = t.seq := by
    rw [← hseq, hrecords.seq]
    exact (Db.task_of_rowAt hu).2.2.symm
  rw [hat, Db.rowAt_of_task ht] at hu
  cases hu
  exact halive hstatus

/-- A task whose run is one tool call gets what the implementation returns, after however
many refusals the draws hold, exactly when they hold none. -/
theorem accomplished_iff_not_refused (h : SysRun cfg ts s) (hquiet : Undisturbed cfg ts)
    {k : Uuid} {t : TaskInstance} (ht : s.db.task k = some t)
    (heffect : SideEffecting cfg t.taskDefId) {field : String} {tool : Tool}
    {calls : Nat → ToolCall} (hcalls : CallsTool ts t field tool calls)
    (hreturns : RefusedThenReturns tool calls)
    (hinvoked : invocations t.agentId t.seq t.taskDefId ts ≠ [])
    (hended : t.status = .succeeded ∨ t.status = .dead) :
    Accomplished ts s t field tool calls ↔ (calls 0).refused tool = false := by
  have hone : (invocations t.agentId t.seq t.taskDefId ts).length ≤ 1 :=
    h.invocations_le_one hquiet.ledger heffect
  have hlength : (invocations t.agentId t.seq t.taskDefId ts).length = 1 := by
    have hpos := List.length_pos_of_ne_nil hinvoked
    omega
  constructor
  · intro hdone
    obtain ⟨i, ⟨hi, hadmitted⟩, -⟩ := hdone.once
    obtain rfl : i = 0 := by omega
    exact ToolCall.not_refused_of_admitted hadmitted
  · intro hfirst
    obtain ⟨n, -, hrefused, hadmitted, hout⟩ := hreturns
    obtain rfl : n = 0 := by
      by_contra hn
      have hrefusal := hrefused 0 (by omega)
      rw [hfirst] at hrefusal
      cases hrefusal
    obtain ⟨fields, hfields⟩ := singleCall_returned field hadmitted hout
    have hruns : ∀ c ∈ ts, ∀ outcome, Invokes c t.agentId t.seq t.taskDefId outcome →
        outcome = .returned (.dict (.json fields)) := by
      intro c hc outcome hinvokes
      obtain ⟨i, hi, hget⟩ := List.getElem_of_mem (mem_invocations.2 ⟨c, hc, hinvokes⟩)
      obtain rfl : i = 0 := by omega
      rw [← hfields]
      exact hcalls 0 outcome (List.getElem?_eq_some_iff.2 ⟨hi, hget⟩)
    have hu := h.undeterred hquiet heffect fun c hc outcome hinvokes =>
      ⟨fields, hruns c hc outcome hinvokes⟩
    have he : Effective cfg t.agentId t.seq t.taskDefId ts s := by
      refine h.effective hquiet heffect fun c hc outcome hinvokes => ?_
      rw [hruns c hc outcome hinvokes]
      rfl
    have hrow := Db.rowAt_of_task ht
    have hdone : t.status = .succeeded := by
      obtain ⟨u, hu', -, hopen⟩ := hu.held hinvoked
      rw [hrow] at hu'
      cases hu'
      rcases hended with hdone | hdead
      · exact hdone
      · simp [hdead] at hopen
    obtain ⟨stored, hresult, c, hc, hreturned⟩ := he.committed t hrow rfl hdone
    obtain rfl : stored = fields := by
      have hsame := hruns c hc _ hreturned
      cases hsame
      rfl
    have halive : t.status ≠ .dead := by simp [hdone]
    refine ⟨⟨halive, h.not_dead_lettered ht halive⟩, ⟨0, ⟨by omega, hadmitted⟩, ?_⟩,
      hdone, stored, hresult, 0, by omega, hadmitted, hfields⟩
    rintro j ⟨hj, -⟩
    omega

end Runs

/-! ## The ticket again, admitted and refused -/

/-- A call of a tool in mock mode that is due to open the ticket. -/
def ticketCall (random : ℚ) : ToolCall where
  config := { overrides := ∅ }
  float := fun text => .error ("could not convert string to float: '" ++ text ++ "'")
  random := random
  mock := .returned (.cons "ticket" (.str "PAY-4471") (.cons "action" (.str "create") .nil))
  live := .raised "KeyError" "'jira'"
  ms := 500

def jira : Tool :=
  { name := "jira", latencyMs := 500, failureRate := 10 / 100, sideEffecting := true }

example : jira ∈ registeredTools := by decide +kernel

theorem admitted_returns {random : ℚ} (h : 10 / 100 ≤ random) :
    (ticketCall random).admitted jira = true ∧
      ∃ out, (ticketCall random).impl jira = .returned out := by
  refine ⟨?_, _, rfl⟩
  have hrate : (ticketCall random).drawn jira = .ok (10 / 100) := by
    have hsleep : (ticketCall 0).sleep jira = .ok () := by decide +kernel
    have hsame : (ticketCall random).sleep jira = (ticketCall 0).sleep jira := rfl
    rw [ToolCall.drawn, hsame, hsleep]
    rfl
  simp only [ToolCall.admitted, hrate]
  simp only [Bool.not_eq_true', decide_eq_false_iff_not, not_lt]
  exact h

theorem callsTool_of_singleton {ts : List SysTransition} {t : TaskInstance} {field : String}
    {tool : Tool} {calls : Nat → ToolCall}
    (h : invocations t.agentId t.seq t.taskDefId ts = [singleCall field tool (calls 0)]) :
    CallsTool ts t field tool calls := by
  intro i outcome hget
  rw [h] at hget
  cases i with
  | zero => exact (Option.some.inj hget).symm
  | succ i => cases hget

def admittedTicket : List Action :=
  [submitPlan [40], .claim 0 0 0 unlocked, .load 0, .begin 0 0,
    .run 0 (singleCall "jira" jira (ticketCall (1 / 2))), .settle 0 (seconds 1), .confirm 0,
    .checkpoint 0 (seconds 1)]

theorem accomplished_iff_not_refused_admittedTicket :
    ∃ t, (ran oneHost admittedTicket).2.db.task (rowId firstAgent 0) = some t ∧
      (Accomplished (ran oneHost admittedTicket).1 (ran oneHost admittedTicket).2 t "jira" jira
          (fun _ => ticketCall (1 / 2)) ↔
        (ticketCall (1 / 2)).refused jira = false) := by
  have hrow : ((ran oneHost admittedTicket).2.db.task (rowId firstAgent 0)).map
      (fun t => (t.status, t.taskDefId,
        invocations t.agentId t.seq t.taskDefId (ran oneHost admittedTicket).1)) =
      some (.succeeded, 40, [singleCall "jira" jira (ticketCall (1 / 2))]) := by
    decide +kernel
  obtain ⟨t, ht, hread⟩ := Option.map_eq_some_iff.1 hrow
  obtain ⟨hdone, hread⟩ := Prod.mk.inj hread
  obtain ⟨hdef, hinvoked⟩ := Prod.mk.inj hread
  have hreturns : RefusedThenReturns jira fun _ => ticketCall (1 / 2) :=
    ⟨0, by decide, fun i hi => absurd hi (by omega), admitted_returns (by norm_num)⟩
  refine ⟨t, ht, accomplished_iff_not_refused (run_ran oneHost admittedTicket)
    (undisturbed_of (by decide +kernel) (by decide +kernel)) ht ?_
    (callsTool_of_singleton hinvoked) hreturns (by simp [hinvoked]) (Or.inl hdone)⟩
  rw [hdef]
  exact ⟨_, rfl, rfl⟩

/-- The first draw is a refusal, and all later ones are not. -/
def refusedOnce : Nat → ToolCall
  | 0 => ticketCall 0
  | _ + 1 => ticketCall (1 / 2)

/-- The reservation of the refused call stays, and the retry finds it closed. -/
def refusedTicket : List Action :=
  [submitPlan [40], .claim 0 0 0 unlocked, .load 0, .begin 0 0,
    .run 0 (singleCall "jira" jira (refusedOnce 0))] ++ reported 0 (seconds 1) ++
    [.reconcile none 100 (seconds 61) unlocked, .claim 0 (seconds 62) (seconds 62) unlocked,
      .load 0, .begin 0 (seconds 62), .confirm 0, .checkpoint 0 (seconds 62)]

def RetriesOn (c : SysTransition) : Prop :=
  ∀ limit flags now locked, c.action = .classify limit flags now locked →
    ∀ k, (flags k).retriesEnabled = true

/-- One refusal, and the task succeeds without its implementation ever being invoked. -/
theorem refusedTicket_not_accomplished : ∃ ts s k t, SysRun oneHost ts s ∧
    Undisturbed oneHost ts ∧ (∀ c ∈ ts, c.action.stopsWorker = false ∧ RetriesOn c) ∧
      s.db.task k = some t ∧ SideEffecting oneHost t.taskDefId ∧
        CallsTool ts t "jira" jira refusedOnce ∧ RefusedThenReturns jira refusedOnce ∧
          t.status = .succeeded ∧ ¬ Accomplished ts s t "jira" jira refusedOnce := by
  have hrow : ((ran oneHost refusedTicket).2.db.task (rowId firstAgent 0)).map
      (fun t => (t.status, t.taskDefId,
        invocations t.agentId t.seq t.taskDefId (ran oneHost refusedTicket).1)) =
      some (.succeeded, 40, [singleCall "jira" jira (refusedOnce 0)]) := by
    decide +kernel
  obtain ⟨t, ht, hread⟩ := Option.map_eq_some_iff.1 hrow
  obtain ⟨hdone, hread⟩ := Prod.mk.inj hread
  obtain ⟨hdef, hinvoked⟩ := Prod.mk.inj hread
  have hstops : ∀ c ∈ (ran oneHost refusedTicket).1, c.action.stopsWorker = false := by
    decide +kernel
  have hretries : ∀ c ∈ (ran oneHost refusedTicket).1, RetriesOn c := by
    intro c hc limit flags now locked hclassify
    have hmem : c.action ∈ refusedTicket := Machine.action_mem_performed hc
    rw [hclassify] at hmem
    simp only [refusedTicket, reported, submitPlan, List.mem_append, List.mem_cons, reduceCtorEq,
      false_or, or_false, List.not_mem_nil, Action.classify.injEq] at hmem
    obtain ⟨-, rfl, -⟩ := hmem
    exact fun _ => rfl
  refine ⟨_, _, _, t, run_ran oneHost refusedTicket,
    undisturbed_of (by decide +kernel) (by decide +kernel),
    fun c hc => ⟨hstops c hc, hretries c hc⟩, ht, ?_, callsTool_of_singleton hinvoked,
    ⟨1, by decide, ?_, admitted_returns (by norm_num)⟩, hdone, ?_⟩
  · rw [hdef]
    exact ⟨_, rfl, rfl⟩
  · intro i hi
    obtain rfl : i = 0 := by omega
    decide +kernel
  · intro haccomplished
    obtain ⟨i, ⟨hi, hadmitted⟩, -⟩ := haccomplished.once
    rw [hinvoked] at hi
    obtain rfl : i = 0 := by simpa using hi
    have hrefused : (refusedOnce 0).admitted jira = false := by decide +kernel
    rw [hrefused] at hadmitted
    cases hadmitted

end ReliableAgents
