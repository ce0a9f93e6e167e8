import ReliableAgents.Lifecycle.CommittedPrefix
import ReliableAgents.Lifecycle.Phases
import ReliableAgents.Lifecycle.Promotion

/-!
# What a task is shown

A worker reads the agent after it claimed the task, so a stalled worker can read a
context that has moved on. Such an attempt is never recorded: the row it holds has
been committed by then, and a committed row is never running again. As long as the
row is open the context is the one of its turn.
-/

namespace ReliableAgents

/-- The context `run_task` has built for the task in hand. -/
def Phase.context? : Phase → Option TaskContext
  | .reserving _ _ ctx | .running _ _ ctx _ => some ctx
  | _ => none

/-- The outcome of a handout is recorded: a checkpoint that returned `True`, or a
failure report that updated the row. -/
inductive Records (cfg : Config) (c : SysTransition) (p : Nat) (task : Handout) : Prop where
  | success {now started : Time} {result : PyDict} {cost tokens : Int} {db' : Db} :
      c.action = .checkpoint p now →
      (c.before.workers p).phase = .committing task started result cost tokens →
      checkpointSuccess task result cost tokens started (cfg.workerId p) now c.before.db =
        some (db', true) →
      Records cfg c p task
  | failure {now started : Time} {failure : FailureReport} {db' : Db} :
      c.action = .report p now → (c.before.workers p).phase = .failing task started failure →
      reportFailure task failure started (cfg.workerId p) now c.before.db = (db', true) →
      Records cfg c p task

/-- The worker that claims in an action. -/
def Action.claimer? : Action → Option Nat
  | .claim p _ _ _ => some p
  | _ => none

/-- The attempt whose outcome `c` records ran with `ctx`: its worker had it in hand, and
has claimed nothing since. -/
def RanWith (cfg : Config) (ts : List SysTransition) (c : SysTransition) (p : Nat)
    (task : Handout) (ctx : TaskContext) : Prop :=
  ∃ pre d mid post, ts = pre ++ d :: (mid ++ c :: post) ∧
    (d.after.workers p).phase.task? = some task ∧
    (d.after.workers p).phase.context? = some ctx ∧
    (∀ e ∈ mid, e.action.claimer? ≠ some p) ∧
    Records cfg c p task

/-! ## Every agent that has a row -/

section Rows

variable {ladder : Ladder} {rules : Rules} {v v' : AgentView}

theorem AgentPath.no_rows (hp : AgentPath ladder rules v v') (hplan : v.agent.plan = [])
    (hrows : ∀ i, v.rows i = none) (i : Nat) : v'.rows i = none := by
  refine (Machine.closure_invariant
    (I := fun w : AgentView => w.agent.plan = [] ∧ ∀ i, w.rows i = none) ?_ ⟨hplan, hrows⟩ hp).2 i
  rintro w w' ⟨hnil, hnone⟩ hs
  refine ⟨hs.plan.1.trans hnil, fun j => ?_⟩
  cases hs with
  | claim _ _ _ ht => simp [hnone] at ht
  | row ht => simp [hnone] at ht
  | commit _ _ _ _ _ _ _ ht => simp [hnone] at ht
  | kill _ _ _ _ ht => simp [hnone] at ht
  | finalise => exact hnone j
  | insert _ _ _ _ _ _ hplanned => simp [hnil] at hplanned

theorem TaskPath.eq_of_terminal {t t' : TaskView} (h : TaskPath ladder rules t t')
    (hterminal : t.row.status = .succeeded ∨ t.row.status = .dead) : t' = t := by
  induction h with
  | refl => rfl
  | tail _ hs ih =>
      subst ih
      obtain ⟨hsucceeded, hdead⟩ := hs.not_terminal
      exact (hterminal.elim hsucceeded hdead).elim

end Rows

section Runs

variable {cfg : Config} {ts : List SysTransition} {s s' : Sys} {a : Action}

/-- Whoever created it, an agent that has a row started with a plan. -/
theorem SysRun.row_origin (h : SysRun cfg ts s) {k : Uuid} {t : TaskInstance}
    (ht : s.db.task k = some t) :
    ∃ v plan tier ids now, s.db.view t.agentId = some v ∧ plan ≠ [] ∧
      AgentPath cfg.ladder .free (.fresh t.agentId plan tier ids now) v := by
  obtain ⟨ag, hag⟩ := (SysRun.sound h).db.tasks k t ht
  obtain ⟨v, hv, -⟩ := Db.view_of_agent hag
  obtain ⟨plan, tier, ids, now, hpath⟩ := h.agent_origin (Rules.free_holdAlong cfg ts) hv
  have hrow := Db.view_row_of_task ht hv
  refine ⟨v, plan, tier, ids, now, hv, ?_, hpath⟩
  rintro rfl
  rw [AgentPath.no_rows hpath rfl (fun i => rfl)] at hrow
  cases hrow

theorem SysRun.committedPrefix (h : SysRun cfg ts s) {k : Uuid} {t : TaskInstance}
    (ht : s.db.task k = some t) : ∃ v, s.db.view t.agentId = some v ∧ CommittedPrefix v := by
  obtain ⟨v, plan, tier, ids, now, hv, hplan, hpath⟩ := h.row_origin ht
  exact ⟨v, hv, (CommittedPrefix.fresh hplan).path hpath⟩

/-- No worker holds a row that its agent's cursor has not reached. -/
theorem SysRun.held_reached (h : SysRun cfg ts s) {p : Nat} {task : Handout} {ag : Agent}
    (hheld : (s.workers p).phase.task? = some task)
    (hag : s.db.agent task.agentId = some ag) : task.seq ≤ ag.cursor := by
  refine h.invariant_along (I := fun _ u => ∀ p task ag, (u.workers p).phase.task? = some task →
    u.db.agent task.agentId = some ag → task.seq ≤ ag.cursor) (fun _ => True) ?_ ?_
    (fun _ _ => trivial) p task ag hheld hag
  · intro p task ag hheld
    cases hheld
  · intro us u act u' hrun _ hreached hs _ p task ag hheld hag
    have hsound : u.Sound := SysRun.sound hrun
    -- the cursor of an agent that was there before has not gone back
    have forward : ∀ ag₀, u.db.agent task.agentId = some ag₀ → ag₀.cursor ≤ ag.cursor := by
      intro ag₀ hag₀
      obtain ⟨v, hv, rfl⟩ := Db.view_of_agent hag₀
      obtain ⟨v', hv', hpath⟩ := step_moves hsound hs (Rules.free_hold cfg u act) _ v hv
      rw [(Db.view_eq_some.1 hv').1] at hag
      cases hag
      exact Machine.closure_invariant (I := fun w => v.agent.cursor ≤ w.agent.cursor)
        (fun _ _ hw hstep => hw.trans hstep.cursor_le) (Nat.le_refl _) hpath
    rcases step_held hs hheld with hold | ⟨now, started, locked, -, hclaim⟩
    · obtain ⟨t, ht, hof⟩ := hsound.handouts p task hold
      obtain ⟨ag₀, hag₀⟩ := hsound.db.tasks _ t ht
      rw [← hof.agentId] at hag₀
      exact (hreached p task ag₀ hold hag₀).trans (forward ag₀ hag₀)
    · obtain ⟨t, -, hclaimable, rfl, -⟩ := claimOne_spec hclaim
      obtain ⟨ag₀, hag₀, -, -, -, -, hcursor⟩ := claimable_spec hclaimable
      exact hcursor.le.trans (forward ag₀ hag₀)

/-- An open row in somebody's hands is the one at the cursor. -/
theorem SysRun.cursor_of_open (h : SysRun cfg ts s) {p : Nat} {task : Handout}
    (hheld : (s.workers p).phase.task? = some task) {t : TaskInstance}
    (ht : s.db.task task.id = some t) (hopen : t.status ≠ .succeeded) :
    ∃ v, s.db.view task.agentId = some v ∧ CommittedPrefix v ∧
      v.agent.cursor = task.seq ∧ v.rows v.agent.cursor = some (s.db.taskView t) := by
  obtain ⟨u, hu, hof⟩ := (SysRun.sound h).handouts p task hheld
  rw [ht] at hu
  cases hu
  obtain ⟨v, hv, hcommitted⟩ := h.committedPrefix ht
  have hrow := Db.view_row_of_task ht hv
  rw [← hof.agentId] at hv
  have hreached := h.held_reached hheld (Db.view_eq_some.1 hv).1
  have hcursor : v.agent.cursor = task.seq := by
    refine Nat.le_antisymm (Nat.le_of_not_lt fun hlt => ?_) hreached
    exact hopen (hcommitted.behind t.seq _ hrow (hof.seq ▸ hlt)).1
  refine ⟨v, hv, hcommitted, hcursor, ?_⟩
  rw [hcursor, hof.seq]
  exact hrow

end Runs

/-! ## The context in hand -/

/-- While its row is open, the context a worker has in hand is the agent's. -/
def Remembers (s : Sys) : Prop :=
  ∀ p task ctx t ag, (s.workers p).phase.task? = some task →
    (s.workers p).phase.context? = some ctx → s.db.task task.id = some t →
    t.status ≠ .succeeded → s.db.agent task.agentId = some ag → ctx.prior = ag.context

section Contexts

variable {cfg : Config} {ts : List SysTransition} {s s' : Sys} {a : Action}

theorem startTask_context? {registry : Int → Option TaskDef} {task : Handout} {started : Time}
    {db : Db} {ctx : TaskContext}
    (h : (startTask registry task started db).context? = some ctx) :
    ∃ ag, db.agent task.agentId = some ag ∧
      ctx = ⟨task.agentId, task.seq, task.tier, ag.context⟩ := by
  unfold startTask at h
  split at h
  · cases h
  · rename_i ag hag
    split at h
    · cases h
    · dsimp only at h
      split at h <;> cases h <;> exact ⟨ag, hag, rfl⟩

theorem beginAction_context? {sha256 : String → ActionId} {task : Handout} {started : Time}
    {ctx ctx' : TaskContext} {now : Time} {db : Db}
    (h : (beginAction sha256 task started ctx now db).1.context? = some ctx') : ctx' = ctx := by
  unfold beginAction at h
  split at h
  · cases h
  · split at h <;> cases h
    rfl

theorem afterRun_context? (ladder : Ladder) (task : Handout) (started : Time)
    (actionKey : Option ActionId) (outcome : RunOutcome) :
    (afterRun ladder task started actionKey outcome).context? = none := by
  have hfails : ∀ failure, (failTask task started failure).context? = none := fun _ =>
    failTask_of (P := fun phase => phase.context? = none) rfl fun _ _ => rfl
  unfold afterRun
  split
  · exact hfails _
  · exact hfails _
  · exact hfails _
  · split
    · rfl
    · unfold finishTask
      split <;> rfl

theorem settleAction_context? (ladder : Ladder) (task : Handout) (started : Time)
    (actionKey : ActionId) (result : PyDict) (now : Time) (db : Db) :
    (settleAction ladder task started actionKey result now db).1.context? = none := by
  unfold settleAction finishTask
  repeat' split
  all_goals rfl

theorem step_context? (h : step cfg s a = some s') {p : Nat} {task : Handout} {ctx : TaskContext}
    (hheld : (s'.workers p).phase.task? = some task)
    (hctx : (s'.workers p).phase.context? = some ctx) :
    (s.workers p).phase.task? = some task ∧
      ((s.workers p).phase.context? = some ctx ∨
        ∃ ag, s.db.agent task.agentId = some ag ∧
          ctx = ⟨task.agentId, task.seq, task.tier, ag.context⟩) := by
  rcases step_phase h p with hsame | hstep
  · rw [hsame] at hheld hctx
    exact ⟨hheld, Or.inl hctx⟩
  · generalize hbefore : (s.workers p).phase = phase at hstep
    generalize (s'.workers p).phase = phase' at hstep hheld hctx
    cases hstep with
    | claim | confirm | stop => cases hctx
    | load =>
        rw [startTask_task?] at hheld
        cases hheld
        exact ⟨rfl, Or.inr (startTask_context? hctx)⟩
    | begin hbegin =>
        rw [show phase' = _ from (congrArg Prod.fst hbegin).symm] at hheld hctx
        rw [beginAction_task? hheld, beginAction_context? hctx]
        exact ⟨rfl, Or.inl rfl⟩
    | run =>
        rw [afterRun_context?] at hctx
        cases hctx
    | settle hsettle =>
        rw [show phase' = _ from (congrArg Prod.fst hsettle).symm, settleAction_context?] at hctx
        cases hctx

/-- The context of an agent stays what it is as long as the row at its cursor is open. -/
theorem run_context {us : List SysTransition} (h : SysRun cfg ts s)
    (hrun : Machine.Run (step cfg) s us s') {p : Nat} {task : Handout}
    (hheld : (s.workers p).phase.task? = some task) {t' : TaskInstance}
    (ht' : s'.db.task task.id = some t') (hopen : t'.status ≠ .succeeded) :
    ∃ t ag ag', s.db.task task.id = some t ∧ t.status ≠ .succeeded ∧
      s.db.agent task.agentId = some ag ∧ s'.db.agent task.agentId = some ag' ∧
        ag'.context = ag.context := by
  have hsound : s.Sound := SysRun.sound h
  obtain ⟨t, ht, hof⟩ := hsound.handouts p task hheld
  obtain ⟨-, hmoves⟩ := run_moves hrun hsound (Rules.free_holdAlong cfg us)
  obtain ⟨u, hu, htask⟩ := hmoves.task hsound.db ht
  rw [ht'] at hu
  cases hu
  have hopen' : t.status ≠ .succeeded := by
    intro hdone
    have hsame : s'.db.taskView t' = s.db.taskView t := htask.eq_of_terminal (Or.inl hdone)
    exact hopen ((congrArg (fun w => w.row.status) hsame).trans hdone)
  obtain ⟨v, hv, -, hcursor, hrow⟩ := h.cursor_of_open hheld ht hopen'
  obtain ⟨v', hv', hpath⟩ := hmoves _ v hv
  refine ⟨t, v.agent, v'.agent, ht, hopen', (Db.view_eq_some.1 hv).1, (Db.view_eq_some.1 hv').1, ?_⟩
  obtain ⟨w, hw, -⟩ := hpath.task hrow
  refine AgentPath.context hpath hw ?_
  have hpos := hw
  rw [Db.view_rows hv', Option.map_eq_some_iff] at hpos
  obtain ⟨t'', hat, rfl⟩ := hpos
  have hmine := Db.rowAt_of_task ht'
  have hsame : t.Same t' := htask.same
  rw [hsame.agentId, hsame.seq, ← hof.agentId, ← hof.seq, ← hcursor, hat] at hmine
  cases hmine
  exact hopen

theorem SysRun.remembers (h : SysRun cfg ts s) : Remembers s := by
  refine h.invariant_along (I := fun _ u => Remembers u) (fun _ => True) ?_ ?_
    (fun _ _ => trivial)
  · intro p task ctx t ag hheld
    cases hheld
  · intro us u act u' hrun _ hremembers hs _ p task ctx t' ag' hheld hctx ht' hopen hag'
    obtain ⟨hbusy, hknown⟩ := step_context? hs hheld hctx
    obtain ⟨t, ag, ag'', ht, hopen', hag, hag'', hsame⟩ :=
      run_context hrun (Machine.Run.nil.snoc hs) hbusy ht' hopen
    rw [hag'] at hag''
    cases hag''
    rw [hsame]
    rcases hknown with hctx | ⟨ag₀, hag₀, rfl⟩
    · exact hremembers p task ctx t ag hbusy hctx ht hopen' hag
    · rw [hag] at hag₀
      cases hag₀
      rfl

theorem SysRun.context_names (h : SysRun cfg ts s) {p : Nat} {task : Handout} {ctx : TaskContext}
    (hheld : (s.workers p).phase.task? = some task)
    (hctx : (s.workers p).phase.context? = some ctx) :
    ctx.agentId = task.agentId ∧ ctx.seq = task.seq := by
  refine h.invariant (I := fun u => ∀ task ctx, (u.workers p).phase.task? = some task →
    (u.workers p).phase.context? = some ctx → ctx.agentId = task.agentId ∧ ctx.seq = task.seq)
    ?_ ?_ task ctx hheld hctx
  · intro task ctx hheld
    cases hheld
  · intro u a u' hnames hs task ctx hheld hctx
    obtain ⟨hbusy, hbefore | ⟨ag, -, rfl⟩⟩ := step_context? hs hheld hctx
    · exact hnames task ctx hbusy hbefore
    · exact ⟨rfl, rfl⟩

end Contexts

/-! ## Recorded attempts -/

/-- A recorded outcome found its row running. -/
theorem Records.running {cfg : Config} {c : SysTransition} {p : Nat} {task : Handout}
    (h : Records cfg c p task) :
    ∃ t, c.before.db.task task.id = some t ∧ t.status = .running := by
  cases h with
  | success _ _ hcommit =>
      rcases checkpointSuccess_spec hcommit with ⟨hfalse, -⟩ | ⟨_, t, _, -, -, ht, -, hrunning, -⟩
      · cases hfalse
      · exact ⟨t, ht, hrunning⟩
  | failure _ _ hreport =>
      rcases reportFailure_spec hreport with ⟨hfalse, -⟩ | ⟨t, -, ht, -, hrunning, -⟩
      · cases hfalse
      · exact ⟨t, ht, hrunning⟩

/-- A prior context holds the committed results of the `n` first tasks of `a`. -/
structure Committed (s : Sys) (a : Uuid) (n : Nat) (prior : Context) : Prop where
  keys : prior.map Prod.fst = List.range n
  results : ∀ i < n, ∃ t, s.db.rowAt a i = some t ∧ t.status = .succeeded ∧ t.result ≠ none ∧
    prior.lookup i = t.result

theorem Committed.unique {s : Sys} {a : Uuid} {n : Nat} {prior prior' : Context}
    (h : Committed s a n prior) (h' : Committed s a n prior') : prior = prior' := by
  have hkeys : prior.map Prod.fst = prior'.map Prod.fst := h.keys.trans h'.keys.symm
  have hnodup : (prior.map Prod.fst).Nodup := h.keys ▸ List.nodup_range
  have hlookup : ∀ i ∈ prior.map Prod.fst, prior.lookup i = prior'.lookup i := by
    intro i hi
    rw [h.keys, List.mem_range] at hi
    obtain ⟨t, ht, -, -, hread⟩ := h.results i hi
    obtain ⟨t', ht', -, -, hread'⟩ := h'.results i hi
    rw [ht] at ht'
    cases ht'
    exact hread.trans hread'.symm
  clear h h'
  induction prior generalizing prior' with
  | nil => exact (List.map_eq_nil_iff.1 hkeys.symm).symm
  | cons entry rest ih =>
      cases prior' with
      | nil => cases hkeys
      | cons entry' rest' =>
          obtain ⟨i, fields⟩ := entry
          obtain ⟨j, fields'⟩ := entry'
          simp only [List.map_cons, List.cons.injEq] at hkeys
          obtain ⟨rfl, hrest⟩ := hkeys
          simp only [List.map_cons, List.nodup_cons] at hnodup
          have hhead := hlookup i (by simp)
          simp only [List.lookup_cons, BEq.rfl, Option.some.injEq] at hhead
          subst hhead
          congr 1
          refine ih hrest hnodup.2 fun k hk => ?_
          have hne : (k == i) = false := by
            simp only [beq_eq_false_iff_ne, ne_eq]
            rintro rfl
            exact hnodup.1 hk
          have hread := hlookup k (List.mem_cons_of_mem _ hk)
          simpa only [List.lookup_cons, hne] using hread

/-- A recorded attempt ran with the committed results of the tasks before it. -/
theorem RanWith.committed {cfg : Config} {ts : List SysTransition} {s : Sys} (h : SysRun cfg ts s)
    {c : SysTransition} {p : Nat} {task : Handout} {ctx : TaskContext}
    (hran : RanWith cfg ts c p task ctx) :
    Committed s task.agentId task.seq ctx.prior ∧
      ∃ t, s.db.task task.id = some t ∧ task.Of t := by
  obtain ⟨pre, d, mid, post, rfl, hheld, hctx, -, hrecords⟩ := hran
  obtain ⟨hpre, hstep, hrest⟩ := h.split
  obtain ⟨hmid, hrecord, hpost⟩ := hrest.split
  have hloaded : SysRun cfg (pre ++ [d]) d.after := hpre.snoc hstep
  -- the row is running when the outcome is recorded, so it was open ever since the load
  obtain ⟨t, ht, hrunning⟩ := hrecords.running
  obtain ⟨t₀, ag₀, ag, ht₀, hopen, hag₀, hag, hsame⟩ :=
    run_context hloaded hmid hheld ht (by rw [hrunning]; decide)
  have hprior : ctx.prior = ag.context :=
    (SysRun.remembers hloaded p task ctx t₀ ag₀ hheld hctx ht₀ hopen hag₀).trans hsame.symm
  obtain ⟨v, hv, hcommitted⟩ := SysRun.committedPrefix (hloaded.append hmid) ht
  have hrow := Db.view_row_of_task ht hv
  obtain ⟨hcursor, -⟩ := hcommitted.active hrow (Or.inl hrunning)
  obtain ⟨u, hu, hof⟩ := (SysRun.sound hloaded).handouts p task hheld
  obtain ⟨hsound, hmoves⟩ :=
    run_moves hmid (SysRun.sound hloaded) (Rules.free_holdAlong cfg mid)
  obtain ⟨u', hu', hpath⟩ := hmoves.task (SysRun.sound hloaded).db hu
  have hkept : u.Same u' := hpath.same
  rw [ht] at hu'
  cases hu'
  have hagent : task.agentId = t.agentId := hof.agentId.trans hkept.agentId.symm
  have hseq : task.seq = t.seq := hof.seq.trans hkept.seq.symm
  rw [← hagent] at hv
  have hview := (Db.view_eq_some.1 hv).1
  rw [hag] at hview
  cases hview
  -- what is behind the cursor at that point is there for good
  obtain ⟨-, hlater⟩ :=
    run_moves ((Machine.Run.nil.snoc hrecord).append hpost) hsound
      (Rules.free_holdAlong cfg _)
  refine ⟨⟨?_, fun i hi => ?_⟩, ?_⟩
  · rw [hprior, hcommitted.keys, ← hcursor, ← hseq]
  · have hlt : i < v.agent.cursor := by omega
    have hle := hcommitted.cursor_le
    obtain ⟨w, hw⟩ := Option.isSome_iff_exists.1 ((hcommitted.rows i).2 (by omega))
    obtain ⟨hdone, hresult, hread⟩ := hcommitted.behind i w hw hlt
    obtain ⟨v', hv', hpath'⟩ := hlater _ v hv
    obtain ⟨w', hw', htask⟩ := hpath'.task hw
    rw [htask.eq_of_terminal (Or.inl hdone), Db.view_rows hv', Option.map_eq_some_iff] at hw'
    obtain ⟨r, hr, rfl⟩ := hw'
    exact ⟨r, hr, hdone, hresult, hprior ▸ hread⟩
  · obtain ⟨t', ht', hpath'⟩ := hlater.task hsound.db ht
    have hkept' : t.Same t' := hpath'.same
    exact ⟨t', ht', (Db.id_of_task ht').symm, hagent.trans hkept'.agentId.symm,
      hseq.trans hkept'.seq.symm, hof.taskDefId.trans
        (hkept.taskDefId.symm.trans hkept'.taskDefId.symm)⟩

/-- Recorded attempts of one task, by whomever and at whatever tiers, ran with one and the
same prior context: the committed results of exactly the tasks before it. -/
theorem same_problem {cfg : Config} {ts : List SysTransition} {s : Sys} (h : SysRun cfg ts s) :
    (∀ c p task ctx, RanWith cfg ts c p task ctx →
      Committed s task.agentId task.seq ctx.prior) ∧
    ∀ c p task ctx c' p' task' ctx', RanWith cfg ts c p task ctx →
      RanWith cfg ts c' p' task' ctx' → task.id = task'.id → ctx.prior = ctx'.prior := by
  refine ⟨fun c p task ctx hran => (hran.committed h).1, ?_⟩
  intro c p task ctx c' p' task' ctx' hran hran' hsame
  obtain ⟨hcommitted, t, ht, hof⟩ := hran.committed h
  obtain ⟨hcommitted', t', ht', hof'⟩ := hran'.committed h
  rw [← hsame, ht] at ht'
  cases ht'
  rw [hof'.agentId, hof'.seq, ← hof.agentId, ← hof.seq] at hcommitted'
  exact hcommitted.unique hcommitted'

/-- Task 20 comes second, fails twice in the junior pool and is solved by the senior one. -/
def promotedSecond : List Action :=
  submitPlan [1, 20] ::
    (handout 0 0 solved ++ [.confirm 0, .checkpoint 0 (seconds 1)] ++
      handout 0 (seconds 10) (.raised tooHard) ++ reported 0 (seconds 11) ++
      handout 0 (seconds 20) (.raised tooHard) ++ reported 0 (seconds 21) ++
      handout 1 (seconds 30) solved ++ [.confirm 1, .checkpoint 1 (seconds 31)])

theorem same_problem_promotedSecond :
    ∃ c task ctx c' task' ctx', RanWith oneHost (ran oneHost promotedSecond).1 c 0 task ctx ∧
      RanWith oneHost (ran oneHost promotedSecond).1 c' 1 task' ctx' ∧
      task.tier = "junior" ∧ task'.tier = "senior" ∧ ctx.prior ≠ [] ∧ ctx.prior = ctx'.prior := by
  have hjunior : ∃ c task ctx, RanWith oneHost (ran oneHost promotedSecond).1 c 0 task ctx ∧
      task.id = rowId firstAgent 1 ∧ task.tier = "junior" ∧ ctx.prior ≠ [] :=
    ⟨_, _, _, ⟨_, _, _, _, Machine.cut_at _ (i := 7) (j := 9) (by decide +kernel) (by decide),
      rfl, rfl, by decide +kernel, .failure rfl rfl rfl⟩, rfl, rfl, by decide +kernel⟩
  have hsenior : ∃ c task ctx, RanWith oneHost (ran oneHost promotedSecond).1 c 1 task ctx ∧
      task.id = rowId firstAgent 1 ∧ task.tier = "senior" :=
    ⟨_, _, _, ⟨_, _, _, _, Machine.cut_at _ (i := 17) (j := 20) (by decide +kernel) (by decide),
      rfl, rfl, by decide +kernel, .success rfl rfl rfl⟩, rfl, rfl⟩
  obtain ⟨c, task, ctx, hran, hid, htier, hprior⟩ := hjunior
  obtain ⟨c', task', ctx', hran', hid', htier'⟩ := hsenior
  exact ⟨c, task, ctx, c', task', ctx', hran, hran', htier, htier', hprior,
    (same_problem (run_ran oneHost promotedSecond)).2 c 0 task ctx c' 1 task' ctx' hran hran'
      (hid.trans hid'.symm)⟩

end ReliableAgents
