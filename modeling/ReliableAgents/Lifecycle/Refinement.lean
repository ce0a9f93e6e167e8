import ReliableAgents.Lifecycle.Phases
import ReliableAgents.Lifecycle.Sweeps

/-!
# Every run is a life of each of its agents

Handouts keep naming the row they were claimed from, foreign keys hold, and every
step of the system is a path of each agent's view. A group of results that
assumes `Rules` shows that the transitions of its runs obey them.
-/

namespace ReliableAgents

/-! ## Soundness of a system state -/

structure Sys.Sound (s : Sys) : Prop where
  db : s.db.Sound
  handouts : ∀ p task, (s.workers p).phase.task? = some task →
    ∃ t, s.db.task task.id = some t ∧ task.Of t

/-- The rules hold of what one action does in one state. -/
structure Rules.Hold (rules : Rules) (cfg : Config) (s : Sys) (a : Action) : Prop where
  claim : ∀ p now started locked task db' t, a = .claim p now started locked →
    claimOne (cfg.poolTier p) (cfg.workerId p) cfg.leaseTtlSeconds now locked s.db =
      some (task, db') →
    s.db.task task.id = some t → rules.claim t (cfg.workerId p)
  commit : ∀ p now task started fields cost tokens t ag, a = .checkpoint p now →
    (s.workers p).phase = .committing task started (.json fields) cost tokens →
    s.db.task task.id = some t → t.leaseOwner = some (cfg.workerId p) → t.status = .running →
    s.db.agent task.agentId = some ag → rules.commit ag t task fields cost tokens
  report : ∀ p now task started failure t ag, a = .report p now →
    (s.workers p).phase = .failing task started failure →
    s.db.task task.id = some t → t.leaseOwner = some (cfg.workerId p) → t.status = .running →
    s.db.agent task.agentId = some ag → rules.report ag t task failure
  reclaim : ∀ batch jitter now locked t, a = .reap batch jitter now locked →
    t ∈ expiredLeases batch now locked s.db → rules.reclaim t
  route : ∀ limit flags now locked t, a = .classify limit flags now locked →
    t ∈ takeFailed limit locked s.db → rules.route (flags t.id) (s.db.taskView t)

theorem Rules.free_hold (cfg : Config) (s : Sys) (a : Action) : Rules.free.Hold cfg s a := by
  constructor <;> intros <;> trivial

section Step

variable {cfg : Config} {rules : Rules} {s s' : Sys} {a : Action}

/-- Every step writes rows it found, or inserts rows. -/
theorem step_db (hsound : s.Sound) (h : step cfg s a = some s') (hrules : rules.Hold cfg s a) :
    s.db.Evolves cfg.ladder rules s'.db ∨ s.db.Grows cfg.ladder rules s'.db := by
  cases a with
  | claim q now started locked =>
      simp only [step] at h
      split at h
      · cases h
        unfold claimTask
        split
        · exact Or.inl (.refl _)
        · rename_i claimed hclaim
          exact Or.inl (Db.claimOne_evolves hclaim fun t ht =>
            hrules.claim q now started locked _ _ t rfl hclaim ht)
      · cases h
  | load q | run q outcome | confirm q =>
      simp only [step] at h
      repeat' split at h
      all_goals cases h
      all_goals exact Or.inl (.refl _)
  | begin q now =>
      simp only [step] at h
      split at h
      · cases h
        exact Or.inl (Db.evolves_of_ledger (beginAction_db ..))
      · cases h
  | settle q now =>
      simp only [step] at h
      split at h
      · cases h
        exact Or.inl (Db.evolves_of_ledger (settleAction_db ..))
      · cases h
  | checkpoint q now =>
      simp only [step] at h
      split at h
      · rename_i task started result cost tokens hphase
        split at h
        · cases h
          exact Or.inl (.refl _)
        · rename_i committed hcommit
          cases h
          refine Or.inl (Db.checkpointSuccess_evolves hcommit
            (hsound.handouts q task (by rw [hphase]; rfl)) ?_)
          rintro fields ag t rfl ht howner hrunning hag
          exact hrules.commit q now task started fields cost tokens t ag rfl hphase ht howner
            hrunning hag
      · cases h
  | report q now =>
      simp only [step] at h
      split at h
      · rename_i task started failure hphase
        cases h
        refine Or.inl (Db.reportFailure_evolves rfl
          (hsound.handouts q task (by rw [hphase]; rfl)) ?_)
        intro ag t ht howner hrunning hag
        exact hrules.report q now task started failure t ag rfl hphase ht howner hrunning hag
      · cases h
  | heartbeat q now =>
      simp only [step] at h
      split at h
      · split at h
        · cases h
        · cases h
          exact Or.inl (Db.renewSql_evolves ..)
      · cases h
  | straggle q taskId now =>
      simp only [step] at h
      split at h
      · cases h
        exact Or.inl (Db.renewSql_evolves ..)
      · cases h
  | join q taskId =>
      rw [step_join h]
      exact Or.inl (.refl _)
  | abandon q | crash q =>
      cases h
      exact Or.inl (.refl _)
  | reap batch jitter now locked =>
      cases h
      exact Or.inl (Db.reap_evolves batch jitter now locked fun t ht =>
        hrules.reclaim batch jitter now locked t rfl ht)
  | repair batch ids now locked =>
      cases h
      exact Or.inr (Db.repairStalled_grows hsound.db)
  | finalise batch now locked =>
      cases h
      exact Or.inl (Db.finaliseAgents_evolves batch now locked)
  | classify limit flags now locked =>
      cases h
      exact Or.inl (Db.classify_evolves hsound.db fun t ht =>
        hrules.route limit flags now locked t rfl ht)
  | reconcile afterSeconds batch now locked =>
      cases h
      exact Or.inl (Db.evolves_of_ledger
        (Ledger.reconcile_spec cfg.leaseTtlSeconds afterSeconds batch now locked s.db).1)
  | submit forceTier plan agentIds ids now =>
      simp only [step] at h
      split at h
      · cases h
        exact Or.inl (.refl _)
      · rename_i db hsubmit
        cases h
        obtain ⟨-, -, -, tier, -, hcreate⟩ := submitAgents_spec hsubmit
        exact Or.inr (Db.createAgents_grows hsound.db hcreate)
  | seed plan agentIds ids now =>
      cases h
      cases hseed : seed cfg.ladder plan agentIds ids now s.db with
      | none => exact Or.inl (.refl _)
      | some db => exact Or.inr (Db.createAgents_grows hsound.db hseed)
  | ledger call =>
      cases h
      refine Or.inl (Db.evolves_of_ledger ?_)
      exact call.perform_db cfg.sha256 s.db

theorem step_moves (hsound : s.Sound) (h : step cfg s a = some s') (hrules : rules.Hold cfg s a) :
    s.db.Moves cfg.ladder rules s'.db :=
  (step_db hsound h hrules).elim Db.Evolves.moves Db.Grows.moves

theorem step_sound (hsound : s.Sound) (h : step cfg s a = some s') : s'.Sound where
  db := (step_db hsound h (Rules.free_hold cfg s a)).elim (fun he => he.sound hsound.db)
    (fun hg => hg.sound hsound.db)
  handouts := by
    intro p task hheld
    rcases step_held h hheld with hheld | ⟨now, started, locked, -, hclaim⟩
    · obtain ⟨t, ht, hof⟩ := hsound.handouts p task hheld
      have hmoves := step_moves hsound h (Rules.free_hold cfg s a)
      obtain ⟨t', ht', hpath⟩ := hmoves.task hsound.db ht
      have hsame : t.Same t' := hpath.same
      exact ⟨t', ht', hof.id.trans hsame.id.symm, hof.agentId.trans hsame.agentId.symm,
        hof.seq.trans hsame.seq.symm, hof.taskDefId.trans hsame.taskDefId.symm⟩
    · obtain ⟨t, ht, -, rfl, htask⟩ := claimOne_task hclaim
      exact ⟨_, (htask _).trans (if_pos rfl), rfl, rfl, rfl, rfl⟩

/-- A row appears as it was inserted, and without evidence. -/
theorem step_created (hsound : s.Sound) (h : step cfg s a = some s') {k : Uuid} {t : TaskInstance}
    (hnone : s.db.task k = none) (ht : s'.db.task k = some t) :
    Db.IsFresh cfg.ladder t ∧ s'.db.evidence k = [] := by
  rcases step_db hsound h (Rules.free_hold cfg s a) with he | hg
  · obtain ⟨t₀, ht₀, -⟩ := he.tasks k t ht
    rw [hnone] at ht₀
    cases ht₀
  · rcases hg.tasks k t ht with hold | ⟨-, hfresh, -⟩
    · rw [hnone] at hold
      cases hold
    · exact ⟨hfresh, hg.evidence hsound.db hnone⟩

end Step

/-! ## Runs -/

/-- The rules hold of every transition of a run. -/
def Rules.HoldAlong (rules : Rules) (cfg : Config) (ts : List SysTransition) : Prop :=
  ∀ t ∈ ts, rules.Hold cfg t.before t.action

theorem Rules.free_holdAlong (cfg : Config) (ts : List SysTransition) :
    Rules.free.HoldAlong cfg ts :=
  fun t _ => free_hold cfg t.before t.action

theorem Sys.init_sound : Sys.init.Sound where
  db :=
    { tasks := fun _ _ ht => by cases ht
      attempts := fun _ he => by cases he
      deadLetters := fun _ he => by cases he }
  handouts := fun _ _ hheld => by cases hheld

section Runs

variable {cfg : Config} {rules : Rules} {ts : List SysTransition} {s s' : Sys}

theorem SysRun.sound (h : SysRun cfg ts s) : s.Sound :=
  h.invariant Sys.init_sound fun _ _ _ hsound hs => step_sound hsound hs

/-- From any sound state, every agent's view follows a path. -/
theorem run_moves (h : Machine.Run (step cfg) s ts s') (hsound : s.Sound)
    (hrules : rules.HoldAlong cfg ts) : s'.Sound ∧ s.db.Moves cfg.ladder rules s'.db := by
  refine h.invariant_of (I := fun u => u.Sound ∧ s.db.Moves cfg.ladder rules u.db)
    (fun t => rules.Hold cfg t.before t.action) ⟨hsound, .refl _⟩ ?_ hrules
  rintro u a u' ⟨husound, hmoves⟩ hs hallowed
  exact ⟨step_sound husound hs, hmoves.trans (step_moves husound hs hallowed)⟩

/-- Transition `c` created the row `k`, as `t₀`. -/
structure Creates (c : SysTransition) (k : Uuid) (t₀ : TaskInstance) : Prop where
  before : c.before.db.task k = none
  after : c.after.db.task k = some t₀

/-- Every row was created by one transition of the run, and has followed a path since. -/
theorem SysRun.task_history (h : SysRun cfg ts s) (hrules : rules.HoldAlong cfg ts) {k : Uuid}
    {t : TaskInstance} (ht : s.db.task k = some t) :
    ∃ c ∈ ts, ∃ t₀, Creates c k t₀ ∧ Db.IsFresh cfg.ladder t₀ ∧
      TaskPath cfg.ladder rules { row := t₀, evidence := [] } (s.db.taskView t) := by
  induction h generalizing t with
  | nil => cases ht
  | @snoc us u u' a hrun hs ih =>
      have hsound : u.Sound := SysRun.sound hrun
      cases hold : u.db.task k with
      | none =>
          obtain ⟨hfresh, hevidence⟩ := step_created hsound hs hold ht
          refine ⟨⟨u, a, u'⟩, by simp, t, ⟨hold, ht⟩, hfresh, ?_⟩
          rw [Db.taskView, Db.id_of_task ht, hevidence]
      | some t' =>
          have hpast : rules.HoldAlong cfg us := fun c hc => hrules c (List.mem_append_left _ hc)
          obtain ⟨c, hc, t₀, hcreates, hfresh, hpath⟩ := ih hpast hold
          have hlast := hrules ⟨u, a, u'⟩ (List.mem_append_right _ List.mem_cons_self)
          have hmoves := step_moves hsound hs hlast
          obtain ⟨t'', ht'', hstep⟩ := hmoves.task hsound.db hold
          rw [ht] at ht''
          cases ht''
          exact ⟨c, List.mem_append_left _ hc, t₀, hcreates, hfresh, hpath.trans hstep⟩

/-- Every agent was created whole, by a submission or by the harness. -/
theorem SysRun.agent_origin (h : SysRun cfg ts s) (hrules : rules.HoldAlong cfg ts) {a : Uuid}
    {v : AgentView} (hv : s.db.view a = some v) :
    ∃ plan tier ids now, AgentPath cfg.ladder rules (.fresh a plan tier ids now) v := by
  induction h generalizing v with
  | nil => cases hv
  | @snoc us u u' act hrun hs ih =>
      have hsound : u.Sound := SysRun.sound hrun
      have hlast := hrules ⟨u, act, u'⟩ (List.mem_append_right _ List.mem_cons_self)
      have hpast : rules.HoldAlong cfg us := fun c hc => hrules c (List.mem_append_left _ hc)
      have old : (∃ v₀, u.db.view a = some v₀) →
          ∃ plan tier ids now, AgentPath cfg.ladder rules (.fresh a plan tier ids now) v := by
        rintro ⟨v₀, hv₀⟩
        obtain ⟨plan, tier, ids, now, hpath⟩ := ih hpast hv₀
        obtain ⟨w, hw, hlater⟩ := step_moves hsound hs hlast a v₀ hv₀
        rw [hv] at hw
        cases hw
        exact ⟨plan, tier, ids, now, hpath.trans hlater⟩
      rcases step_db hsound hs hlast with he | hg
      · obtain ⟨ag, hag⟩ := he.agents a v.agent (Db.view_eq_some.1 hv).1
        obtain ⟨v₀, hv₀, -⟩ := Db.view_of_agent hag
        exact old ⟨v₀, hv₀⟩
      · rcases hg.agents a v hv with hold | hborn
        · exact old hold
        · exact hborn

/-- Transition `c` is the submission that created agent `a`, for this plan at this tier. -/
def Submits (cfg : Config) (c : SysTransition) (a : Uuid) (plan : List Int)
    (forceTier : Option TierName) (ids : Nat → Uuid) (now : Time) : Prop :=
  ∃ agentIds drawn, c.action = .submit forceTier plan agentIds drawn now ∧
    a ∈ agentIds ∧ ids = drawn a ∧
    submitAgents cfg.ladder cfg.taskDefs cfg.maxActiveAgents forceTier plan agentIds drawn now
      c.before.db = .ok c.after.db

/-- A submitted agent starts with its plan's fresh rows and has followed a path since. -/
theorem SysRun.agent_history (h : SysRun cfg ts s) (hrules : rules.HoldAlong cfg ts)
    {c : SysTransition} (hc : c ∈ ts) {a : Uuid} {plan : List Int} {forceTier : Option TierName}
    {ids : Nat → Uuid} {now : Time} (hsubmits : Submits cfg c a plan forceTier ids now) :
    plan ≠ [] ∧ ∃ tier v, forceTier.or cfg.ladder.baseTier = some tier ∧ s.db.view a = some v ∧
      AgentPath cfg.ladder rules (.fresh a plan tier ids now) v := by
  obtain ⟨agentIds, drawn, -, ha, rfl, hsubmit⟩ := hsubmits
  obtain ⟨pre, post, rfl, hpre, hs, hpost⟩ := h.exists_split hc
  obtain ⟨hplan, -, -, tier, htier, hcreate⟩ := submitAgents_spec hsubmit
  have hsound : c.before.Sound := SysRun.sound hpre
  have hview := Db.createAgents_view hsound.db hcreate ha
  have hlater : rules.HoldAlong cfg post := fun t ht =>
    hrules t (List.mem_append_right _ (List.mem_cons_of_mem _ ht))
  obtain ⟨-, hmoves⟩ := run_moves hpost (step_sound hsound hs) hlater
  obtain ⟨v, hv, hpath⟩ := hmoves a _ hview
  exact ⟨hplan, tier, v, htier, hv, hpath⟩

end Runs

end ReliableAgents
