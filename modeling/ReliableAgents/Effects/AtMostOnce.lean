import ReliableAgents.Deployment
import ReliableAgents.Effects.Holders

/-!
# At most one effect

A PROCEED answer is the only way into `task_def.run` of a side-effecting task, and it
inserts the reservation that refuses the next one. A reservation goes away through
`release` only, which `run_task` never calls; closed, it never changes again.
-/

namespace ReliableAgents

/-- The registry holds this id with `side_effecting=True`. -/
def SideEffecting (cfg : Config) (taskDefId : Int) : Prop :=
  ∃ taskDef, cfg.registry taskDefId = some taskDef ∧ taskDef.sideEffecting = true

/-- The id `run_task` reserves. -/
def taskKey (cfg : Config) (agentId : Uuid) (seq : Nat) (taskDefId : Int) : ActionId :=
  Ledger.actionId cfg.sha256 agentId.str seq ("task:" ++ toString taskDefId)

def Handout.key (cfg : Config) (task : Handout) : ActionId :=
  taskKey cfg task.agentId task.seq task.taskDefId

def Invokes (c : SysTransition) (agentId : Uuid) (seq : Nat) (taskDefId : Int)
    (outcome : RunOutcome) : Prop :=
  ∃ p task started ctx actionKey, c.action = .run p outcome ∧
    (c.before.workers p).phase = .running task started ctx actionKey ∧
    task.agentId = agentId ∧ task.seq = seq ∧ task.taskDefId = taskDefId

/-! ## The guard of `run_task` -/

/-- A side-effecting task gets past `reserving` under its own id only, and a task that
is not side-effecting runs without one. -/
def Phase.Guarded (cfg : Config) : Phase → Prop
  | .reserving task _ _ => SideEffecting cfg task.taskDefId
  | .running task _ _ none => ¬ SideEffecting cfg task.taskDefId
  | .running task _ _ (some key) => SideEffecting cfg task.taskDefId ∧ key = task.key cfg
  | .settling task _ key _ => SideEffecting cfg task.taskDefId ∧ key = task.key cfg
  | _ => True

section Guard

variable {cfg : Config} {s s' : Sys} {a : Action} {p : Nat} {key : ActionId}

theorem startTask_guarded (cfg : Config) (task : Handout) (started : Time) (db : Db) :
    (startTask cfg.registry task started db).Guarded cfg := by
  unfold startTask
  split
  · trivial
  · split
    · trivial
    · rename_i taskDef hdef
      dsimp only
      split
      · rename_i heffect
        exact ⟨taskDef, hdef, heffect⟩
      · rename_i heffect
        rintro ⟨other, hother, htrue⟩
        rw [hdef] at hother
        cases hother
        exact heffect htrue

theorem finishTask_guarded (cfg : Config) (task : Handout) (started : Time) (result : PyDict) :
    (finishTask cfg.ladder task started result).Guarded cfg := by
  unfold finishTask
  split <;> trivial

theorem PhaseStep.guarded {db db' : Db} {before after : Phase}
    (h : PhaseStep cfg db db' p a before after) (hguarded : before.Guarded cfg) :
    after.Guarded cfg := by
  cases h with
  | claim | confirm | stop => trivial
  | load => exact startTask_guarded cfg _ _ _
  | @begin task started now ctx phase hbegin =>
      rcases beginAction_spec hbegin with ⟨rfl, -⟩ | ⟨status, stored, key, hcall, rfl⟩
      · trivial
      · cases status with
        | proceed => exact ⟨hguarded, (Ledger.begin_spec hcall).1⟩
        | done | inFlight => trivial
  | @run task started ctx actionKey outcome =>
      have hfails (failure : TaskFailure) : (failTask task started failure).Guarded cfg :=
        failTask_of trivial fun _ _ => trivial
      unfold afterRun
      split
      · exact hfails _
      · exact hfails _
      · exact hfails _
      · split
        · exact hguarded
        · exact finishTask_guarded cfg _ _ _
  | settle hsettle =>
      rw [show after = _ from (congrArg Prod.fst hsettle).symm]
      unfold settleAction
      split
      · trivial
      · exact finishTask_guarded cfg _ _ _

theorem SysRun.guarded {ts : List SysTransition} (h : SysRun cfg ts s) (p : Nat) :
    (s.workers p).phase.Guarded cfg := by
  refine h.invariant (I := fun u => (u.workers p).phase.Guarded cfg) trivial ?_
  intro u a u' hguarded hs
  rcases step_phase hs p with hsame | hstep
  · exact hsame ▸ hguarded
  · exact hstep.guarded hguarded

theorem Invokes.actionKey {c : SysTransition} {agentId : Uuid} {seq : Nat} {taskDefId : Int}
    {outcome : RunOutcome} (h : Invokes c agentId seq taskDefId outcome)
    (hguarded : ∀ p, (c.before.workers p).phase.Guarded cfg)
    (heffect : SideEffecting cfg taskDefId) :
    ∃ p task started ctx, c.action = .run p outcome ∧
      (c.before.workers p).phase =
        .running task started ctx (some (taskKey cfg agentId seq taskDefId)) := by
  obtain ⟨p, task, started, ctx, actionKey, haction, hphase, rfl, rfl, rfl⟩ := h
  have hp := hguarded p
  rw [hphase] at hp
  cases actionKey with
  | none => exact absurd heffect hp
  | some key =>
      obtain ⟨-, rfl⟩ := hp
      exact ⟨p, task, started, ctx, haction, hphase⟩

/-! ## One PROCEED, one invocation -/

/-- Worker `p` is between the PROCEED it got for the id and its invocation. -/
def Running (s : Sys) (p : Nat) (key : ActionId) : Prop :=
  ∃ task started ctx, (s.workers p).phase = .running task started ctx (some key)

def InvokesUnder (c : SysTransition) (key : ActionId) : Prop :=
  ∃ p outcome, c.action = .run p outcome ∧ Running c.before p key

theorem Proceeds.reserves {c : SysTransition} (h : Proceeds cfg c key) :
    c.before.db.reservation key = none := by
  obtain ⟨agentId, seq, actionType, now, db, -, hbegin⟩ := h
  obtain ⟨-, ⟨-, -, hnone, -⟩ | ⟨-, row, -, ⟨hstatus, -⟩ | ⟨hstatus, -⟩⟩⟩ :=
    Ledger.begin_spec hbegin
  · exact hnone
  · cases hstatus
  · cases hstatus

theorem Begins.db {agentId : Uuid} {seq : Nat} {actionType : String} {now : Time}
    {status : Ledger.Status} {stored : Option JsonObject} {db : Db}
    (h : Begins s a agentId seq actionType now)
    (hanswer : Ledger.begin cfg.sha256 agentId seq actionType now s.db =
      some (status, stored, key, db))
    (hs : step cfg s a = some s') : s'.db = db := by
  rcases h with ⟨p, task, started, ctx, rfl, hphase, rfl, rfl, rfl⟩ | rfl
  · simp only [step, hphase, beginAction, hanswer, Option.some.injEq] at hs
    subst hs
    cases status <;> rfl
  · simp only [step, LedgerCall.perform, hanswer, Option.some.injEq] at hs
    subst hs
    rfl

theorem Proceeds.reserved {c : SysTransition} (h : Proceeds cfg c key)
    (hs : step cfg c.before c.action = some c.after) : c.after.db.reservation key ≠ none := by
  obtain ⟨agentId, seq, actionType, now, db, hbegins, hanswer⟩ := h
  obtain ⟨-, ⟨-, -, -, -, -, hread⟩ | ⟨-, row, -, ⟨hstatus, -⟩ | ⟨hstatus, -⟩⟩⟩ :=
    Ledger.begin_spec hanswer
  · rw [hbegins.db hanswer hs, hread, if_pos rfl]
    exact nofun
  · cases hstatus
  · cases hstatus

theorem afterRun_not_running {ladder : Ladder} {task task' : Handout} {started started' : Time}
    {actionKey actionKey' : Option ActionId} {outcome : RunOutcome} {ctx : TaskContext} :
    afterRun ladder task started actionKey outcome ≠ .running task' started' ctx actionKey' := by
  have hfails (failure : TaskFailure) :
      failTask task started failure ≠ .running task' started' ctx actionKey' :=
    failTask_of (P := fun phase => phase ≠ .running task' started' ctx actionKey') nofun
      fun _ _ => nofun
  unfold afterRun finishTask
  split
  · exact hfails _
  · exact hfails _
  · exact hfails _
  · repeat' split
    all_goals exact nofun

theorem settleAction_not_running {ladder : Ladder} {task task' : Handout} {started started' : Time}
    {key : ActionId} {result : PyDict} {now : Time} {db : Db} {ctx : TaskContext}
    {actionKey : Option ActionId} :
    (settleAction ladder task started key result now db).1 ≠
      .running task' started' ctx actionKey := by
  unfold settleAction finishTask
  repeat' split
  all_goals exact nofun

theorem startTask_not_guarded_running {registry : Int → Option TaskDef} {task task' : Handout}
    {started started' : Time} {db : Db} {ctx : TaskContext} {key : ActionId} :
    startTask registry task started db ≠ .running task' started' ctx (some key) := by
  unfold startTask
  dsimp only
  repeat' split
  all_goals exact nofun

theorem Running.open? (h : Running s p key) :
    ∃ task, (s.workers p).phase.open? = some (task, key) := by
  obtain ⟨task, started, ctx, hphase⟩ := h
  exact ⟨task, by rw [hphase]; rfl⟩

/-- A worker becomes cleared to invoke by a PROCEED answer, and only once. -/
theorem step_running (h : step cfg s a = some s') {p : Nat} (hrunning : Running s' p key) :
    (Running s p key ∧ ∀ outcome, a ≠ .run p outcome) ∨
      ∃ task now, Clears ⟨s, a, s'⟩ p task key now := by
  obtain ⟨task, started, ctx, hphase⟩ := hrunning
  rcases step_phase h p with hsame | hstep
  · refine Or.inl ⟨⟨task, started, ctx, hsame ▸ hphase⟩, ?_⟩
    rintro outcome rfl
    obtain ⟨_, _, _, _, -, rfl⟩ := step_run h
    rw [Sys.setPhase_workers, if_pos rfl] at hphase
    exact afterRun_not_running hphase
  · generalize hbefore : (s.workers p).phase = before at hstep
    generalize hafter : (s'.workers p).phase = after at hstep hphase
    cases hstep with
    | claim | confirm | stop => cases hphase
    | load => exact absurd hphase startTask_not_guarded_running
    | begin hbegin =>
        rcases beginAction_spec hbegin with ⟨rfl, -⟩ | ⟨status, stored, key', hcall, rfl⟩
        · cases hphase
        · cases status with
          | proceed =>
              cases hphase
              exact Or.inr ⟨_, _, rfl, _, _, hbefore, hafter⟩
          | done | inFlight => cases hphase
    | run => exact absurd hphase afterRun_not_running
    | settle hsettle =>
        rw [show after = _ from (congrArg Prod.fst hsettle).symm] at hphase
        exact absurd hphase settleAction_not_running

/-- What an invocation leaves behind, as long as nobody releases its id. -/
structure Spent (key : ActionId) (ts : List SysTransition) (s : Sys) : Prop where
  reserved : (∃ c ∈ ts, InvokesUnder c key) → s.db.reservation key ≠ none
  final : ∀ c ∈ ts, InvokesUnder c key → ∀ p, ¬ Running s p key

theorem Spent.step {ts : List SysTransition} (h : Spent key ts s) (hsole : SoleOpen key s)
    (hs : step cfg s a = some s') (hkept : ¬ Releases ⟨s, a, s'⟩ key) :
    Spent key (ts ++ [⟨s, a, s'⟩]) s' := by
  -- at the time of its invocation the worker held the id open
  have hheld : InvokesUnder ⟨s, a, s'⟩ key → s.db.reservation key ≠ none := by
    rintro ⟨q, outcome, -, hq⟩
    obtain ⟨task, hopen⟩ := Running.open? hq
    exact hsole.reserved q task hopen
  refine ⟨?_, fun c hc hinvokes p hp => ?_⟩
  · rintro ⟨c, hc, hinvokes⟩
    refine (step_reservation hs key).reserved ?_ hkept
    rcases List.mem_append.1 hc with hc | hc
    · exact h.reserved ⟨c, hc, hinvokes⟩
    · rw [List.mem_singleton.1 hc] at hinvokes
      exact hheld hinvokes
  · rcases step_running hs hp with ⟨hbefore, hnotRun⟩ | ⟨task, now, hclears⟩
    · rcases List.mem_append.1 hc with hc | hc
      · exact h.final c hc hinvokes p hbefore
      · rw [List.mem_singleton.1 hc] at hinvokes
        obtain ⟨q, outcome, ha, hq⟩ := hinvokes
        obtain ⟨taskP, hpOpen⟩ := Running.open? hbefore
        obtain ⟨taskQ, hqOpen⟩ := Running.open? hq
        have hsame : p = q := hsole.single p q taskP taskQ hpOpen hqOpen
        exact hnotRun outcome (hsame ▸ ha)
    · have hnone := (hclears.reserves hs).1
      rcases List.mem_append.1 hc with hc | hc
      · exact h.reserved ⟨c, hc, hinvokes⟩ hnone
      · rw [List.mem_singleton.1 hc] at hinvokes
        exact hheld hinvokes hnone

theorem SysRun.spent {ts : List SysTransition} (h : SysRun cfg ts s)
    (hkept : ∀ c ∈ ts, ¬ Releases c key) : Spent key ts s := by
  refine h.invariant_along (I := Spent key) (fun c => ¬ Releases c key) ?_ ?_ hkept
  · refine ⟨?_, ?_⟩
    · rintro ⟨c, hc, -⟩
      cases hc
    · intro c hc
      cases hc
  · intro us u a u' hrun hpast hspent hs hallowed
    exact hspent.step (SysRun.soleOpen hrun hpast) hs hallowed

/-- Between two PROCEED answers for one id somebody released it. -/
theorem reserved_of_run {ts : List SysTransition} {s s' : Sys} (h : Machine.Run (step cfg) s ts s')
    (hreserved : s.db.reservation key ≠ none) (hkept : ∀ c ∈ ts, ¬ Releases c key) :
    s'.db.reservation key ≠ none := by
  refine h.invariant_of (I := fun u => u.db.reservation key ≠ none) (fun c => ¬ Releases c key)
    hreserved ?_ hkept
  intro u a u' hu hs hallowed
  exact (step_reservation hs key).reserved hu hallowed

/-! ## A closed reservation -/

/-- A closed reservation holds a result, and no step changes it. -/
theorem ReservationStep.closed {c : SysTransition} {r : Reservation} {after : Option Reservation}
    (h : ReservationStep cfg c key (some r) after) (hdone : r.state = .done) : after = some r := by
  cases h with
  | keep => rfl
  | settle _ hopen | release _ hopen | reconcile _ hopen =>
      rw [hdone] at hopen
      cases hopen

theorem done_of_run {ts : List SysTransition} {r : Reservation}
    (h : Machine.Run (step cfg) s ts s') (hr : s.db.reservation key = some r)
    (hdone : r.state = .done) : s'.db.reservation key = some r := by
  refine h.invariant (I := fun u => u.db.reservation key = some r) hr ?_
  intro u a u' hu hs
  have hstep := step_reservation hs key
  rw [hu] at hstep
  exact hstep.closed hdone

theorem SysRun.done_result {ts : List SysTransition} (h : SysRun cfg ts s) {r : Reservation}
    (hr : s.db.reservation key = some r) (hdone : r.state = .done) :
    ∃ result, r.result = some result := by
  have hall : ∀ r, s.db.reservation key = some r → r.state = .done →
      ∃ result, r.result = some result := by
    refine h.invariant (I := fun u => ∀ r, u.db.reservation key = some r → r.state = .done →
      ∃ result, r.result = some result) (fun _ hnone => by cases hnone) ?_
    intro u a u' hu hs r hr hdone
    have hstep := step_reservation hs key
    rw [hr] at hstep
    generalize hbefore : u.db.reservation key = before at hstep
    cases hstep with
    | keep => exact hu r hbefore hdone
    | reserve => cases hdone
    | settle | reconcile => exact ⟨_, rfl⟩
  exact hall r hr hdone

/-- `run_task` of a task whose id is closed returns the stored result at once. -/
theorem begin_replays {task : Handout} {started now : Time} {ctx : TaskContext} {r : Reservation}
    {result : JsonObject} (hphase : (s.workers p).phase = .reserving task started ctx)
    (hr : s.db.reservation (task.key cfg) = some r) (hdone : r.state = .done)
    (hresult : r.result = some result) (h : step cfg s (.begin p now) = some s') :
    (s'.workers p).phase = .finished task started (.json result) 0 0 true := by
  simp only [step, hphase, Option.some.injEq] at h
  subst h
  rw [Sys.setPhase_workers, if_pos rfl]
  have hread : s.db.reservation
      (Ledger.actionId cfg.sha256 task.agentId.str task.seq task.actionType) = some r := hr
  obtain ⟨⟨status, stored, key', db'⟩, hanswer⟩ := Ledger.begin_of_reservation now hread
  obtain ⟨rfl, ⟨-, -, hnone, -⟩ | ⟨-, row, hrow, hstatus⟩⟩ := Ledger.begin_spec hanswer
  · rw [hread] at hnone
    cases hnone
  · rw [hread] at hrow
    cases hrow
    rcases hstatus with ⟨rfl, -, rfl⟩ | ⟨-, hopen, -⟩
    · simp only [beginAction, hanswer, hresult, Option.getD_some]
    · rw [hdone] at hopen
      cases hopen

/-- What the ledger promises of a run that has reached `s`. -/
structure AtMostOnce (cfg : Config) (ts : List SysTransition) (s : Sys) : Prop where
  proceeds : ∀ pre c mid d post key, ts = pre ++ c :: (mid ++ d :: post) →
    Proceeds cfg c key → Proceeds cfg d key → ∃ e ∈ mid, Releases e key
  invocations : ∀ pre c mid d post agentId seq taskDefId outcome outcome',
    SideEffecting cfg taskDefId → ts = pre ++ c :: (mid ++ d :: post) →
    Invokes c agentId seq taskDefId outcome → Invokes d agentId seq taskDefId outcome' →
    ∃ e ∈ pre ++ c :: mid, Releases e (taskKey cfg agentId seq taskDefId)
  replayed : ∀ key r, s.db.reservation key = some r → r.state = .done →
    ∃ result, r.result = some result ∧ ∀ us s', Machine.Run (step cfg) s us s' →
      s'.db.reservation key = some r ∧ ∀ p task started ctx now s'',
        (s'.workers p).phase = .reserving task started ctx → task.key cfg = key →
        step cfg s' (.begin p now) = some s'' →
        (s''.workers p).phase = .finished task started (.json result) 0 0 true

/-- In every run an id is cleared again only after a successful release, the action of a
side-effecting task is invoked again only after one, and a closed id replays its result
for ever. -/
theorem at_most_once {ts : List SysTransition} (h : SysRun cfg ts s) : AtMostOnce cfg ts s where
  proceeds := by
    rintro pre c mid d post key rfl hc hd
    obtain ⟨hpre, hs, hrest⟩ := Machine.Run.split h
    obtain ⟨hmid, -, -⟩ := Machine.Run.split hrest
    by_contra hnone
    have hkept : ∀ e ∈ mid, ¬ Releases e key := fun e he hreleases => hnone ⟨e, he, hreleases⟩
    exact reserved_of_run hmid (hc.reserved hs) hkept hd.reserves
  invocations := by
    rintro pre c mid d post agentId seq taskDefId outcome outcome' heffect rfl hc hd
    have hcut : pre ++ c :: (mid ++ d :: post) = (pre ++ c :: mid) ++ d :: post := by simp
    obtain ⟨hpre, -, -⟩ := Machine.Run.split h
    rw [hcut] at h
    obtain ⟨hbefore, -, -⟩ := Machine.Run.split h
    obtain ⟨p, task, started, ctx, ha, hp⟩ := hc.actionKey (SysRun.guarded hpre) heffect
    obtain ⟨q, task', started', ctx', -, hq⟩ := hd.actionKey (SysRun.guarded hbefore) heffect
    by_contra hnone
    have hkept : ∀ e ∈ pre ++ c :: mid, ¬ Releases e (taskKey cfg agentId seq taskDefId) :=
      fun e he hreleases => hnone ⟨e, he, hreleases⟩
    exact (SysRun.spent hbefore hkept).final c (by simp)
      ⟨p, outcome, ha, task, started, ctx, hp⟩ q ⟨task', started', ctx', hq⟩
  replayed := by
    intro key r hr hdone
    obtain ⟨result, hresult⟩ := SysRun.done_result h hr hdone
    refine ⟨result, hresult, fun us s' hrun => ?_⟩
    have hr' := done_of_run hrun hr hdone
    refine ⟨hr', ?_⟩
    rintro p task started ctx now s'' hphase rfl hs
    exact begin_replays hphase hr' hdone hresult hs

/-- The worker dies after it settled the ticket and before its checkpoint; the next
handout of the task commits the stored result. -/
def crashAfterSuccess : List Action :=
  [submitPlan [40], .claim 0 0 0 unlocked, .load 0, .begin 0 0, .run 0 ticketCreated,
    .settle 0 (seconds 1), .crash 0, .reap 100 (fun _ => 0) (seconds 31) unlocked,
    .claim 2 (seconds 40) (seconds 40) unlocked, .load 2, .begin 2 (seconds 40), .confirm 2,
    .checkpoint 2 (seconds 41)]

theorem at_most_once_crashAfterSuccess :
    ((ran oneHost crashAfterSuccess).2.db.task (rowId firstAgent 0)).map TaskInstance.status =
        some .succeeded ∧
      AtMostOnce oneHost (ran oneHost crashAfterSuccess).1 (ran oneHost crashAfterSuccess).2 :=
  ⟨by decide +kernel, at_most_once (run_ran oneHost crashAfterSuccess)⟩

end Guard

end ReliableAgents
