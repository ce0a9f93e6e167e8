import ReliableAgents.Deployment
import ReliableAgents.Lifecycle.Refinement

/-!
# What a promotion costs

A row climbs one level at a time, and each level it left was paid for by
CAPABILITY evidence at that level. Nothing else writes a tier, so a row ahead of
its agent's cursor is where it was created.
-/

namespace ReliableAgents

/-- Every ladder level from `base` up to the row's own, its own excluded, was paid for. -/
structure PaidFor (ladder : Ladder) (base : TierName) (v : TaskView) : Prop where
  onLadder : v.row.tier ∈ ladder.names
  notBelow : ladder.level base ≤ ladder.level v.row.tier
  paid : ∀ tier ∈ ladder.names, ladder.level base ≤ ladder.level tier →
    ladder.level tier < ladder.level v.row.tier →
    max v.row.maxAttemptsPerTier 1 ≤ (v.evidence.countP (capabilityEvidence tier) : Int)

section Task

variable {ladder : Ladder} {rules : Rules} {base : TierName} {v v' : TaskView}

theorem PaidFor.mono (h : PaidFor ladder base v) (hsame : v.row.Same v'.row)
    (htier : v'.row.tier = v.row.tier) (hevidence : v.evidence <+: v'.evidence) :
    PaidFor ladder base v' where
  onLadder := htier ▸ h.onLadder
  notBelow := htier ▸ h.notBelow
  paid := by
    intro tier htierMem hbase hlt
    rw [htier] at hlt
    have hold := h.paid tier htierMem hbase hlt
    have hmore := hevidence.sublist.countP_le (p := capabilityEvidence tier)
    rw [hsame.maxAttemptsPerTier]
    omega

/-- Only a promotion changes a row's tier, and it climbs to the next one. -/
theorem TaskStep.tier (h : TaskStep ladder rules v v') :
    v'.row.tier = v.row.tier ∨
      ∃ flags, rules.route flags v ∧ v.verdict ladder flags = .promote v'.row.tier ∧
        v'.evidence = v.evidence := by
  cases h with
  | row hrow =>
      cases hrow with
      | promote flags tier now _ hrules hverdict => exact Or.inr ⟨flags, hrules, hverdict, rfl⟩
      | renew | report | reclaim | retry => exact Or.inl rfl
  | claim | commit | kill | cancel => exact Or.inl rfl

theorem PaidFor.step (hbudget : 1 ≤ v.row.maxAttemptsPerTier) (h : PaidFor ladder base v)
    (hs : TaskStep ladder rules v v') : PaidFor ladder base v' := by
  rcases hs.tier with hsame | ⟨flags, -, hverdict, hevidence⟩
  · exact h.mono hs.same hsame hs.evidence_prefix
  · obtain ⟨-, hspent, hnext⟩ := verdict_promote hverdict
    have hlevel := Ladder.level_nextTier hnext
    have hnotBelow := h.notBelow
    refine ⟨Ladder.nextTier_mem hnext, by omega, fun tier htier hbase hlt => ?_⟩
    rw [hs.same.maxAttemptsPerTier, hevidence]
    rcases Nat.lt_or_ge (ladder.level tier) (ladder.level v.row.tier) with hbelow | hreached
    · exact h.paid tier htier hbase hbelow
    · -- the level just left: its own evidence is what the verdict read
      have heq : tier = v.row.tier := Ladder.level_inj htier (by omega)
      subst heq
      have hcount : (budgets v.row.tier v.evidence).capability =
          v.evidence.countP (capabilityEvidence v.row.tier) := rfl
      rw [hcount] at hspent
      omega

theorem PaidFor.path (hbudget : 1 ≤ v.row.maxAttemptsPerTier) (h : PaidFor ladder base v)
    (hp : TaskPath ladder rules v v') : PaidFor ladder base v' := by
  induction hp with
  | refl => exact h
  | tail hpast hs ih =>
      have hsame : v.row.Same _ := TaskPath.same hpast
      exact ih.step (hsame.maxAttemptsPerTier.symm ▸ hbudget) hs

theorem PaidFor.fresh {t : TaskInstance} (h : Db.IsFresh ladder t) :
    PaidFor ladder t.tier { row := t, evidence := [] } where
  onLadder := by
    obtain ⟨id, agentId, seq, taskDefId, tier, now, htier, rfl⟩ := h
    exact htier
  notBelow := Nat.le_refl _
  paid := fun _ _ hbase hlt => absurd hbase (Nat.not_le_of_gt hlt)

end Task

/-! ## Ahead of the cursor -/

/-- Rows ahead of the cursor are queued, or cancelled with their agent. -/
def AgentView.Queued (v : AgentView) : Prop :=
  ∀ i t, v.rows i = some t → v.agent.cursor < i →
    t.row.status = .pending ∨ t.row.status = .dead

section Agent

variable {ladder : Ladder} {rules : Rules} {v v' : AgentView}

theorem AgentView.fresh_queued (agentId : Uuid) (plan : List Int) (tier : TierName)
    (ids : Nat → Uuid) (now : Time) : (AgentView.fresh agentId plan tier ids now).Queued := by
  intro i t ht _
  obtain ⟨d, -, rfl⟩ := Option.map_eq_some_iff.1 ht
  exact Or.inl rfl

theorem AgentStep.cursor_le (h : AgentStep ladder rules v v') :
    v.agent.cursor ≤ v'.agent.cursor := by
  cases h with
  | commit => exact Nat.le_succ _
  | claim | row | kill | finalise | insert => exact Nat.le_refl _

/-- A row ahead of the cursor after a step is as it was, or was just cancelled. -/
theorem AgentStep.ahead (hq : v.Queued) (h : AgentStep ladder rules v v') {i : Nat} {t' : TaskView}
    (ht' : v'.rows i = some t') (hi : v'.agent.cursor < i) :
    ∃ t, v.rows i = some t ∧ (t' = t ∨ ∃ reason now, t' = t.cancelled reason now) := by
  have hcursor := h.cursor_le
  cases h with
  | claim workerId ttl now ht hpending hrunning heq _ =>
      simp only [AgentView.setRow_agent] at hi
      rw [AgentView.setRow_rows, if_neg (by omega)] at ht'
      exact ⟨t', ht', Or.inl rfl⟩
  | @row j t u ht hrow =>
      simp only [AgentView.setRow_agent] at hi
      rw [AgentView.setRow_rows] at ht'
      split at ht'
      · rename_i hij
        subst hij
        have hqueued := hq i t ht hi
        cases hrow with
        | renew _ _ hstatus | report _ _ _ _ _ hstatus | reclaim _ _ hstatus
        | retry _ _ _ hstatus | promote _ _ _ hstatus => simp [hstatus] at hqueued
      · exact ⟨t', ht', Or.inl rfl⟩
  | @commit j t task fields cost tokens workerId started now ht hstatus _ _ heq _ =>
      simp only [AgentView.committed_agent, Agent.advanced_cursor] at hi
      rw [AgentView.committed_rows, if_neg (by omega)] at ht'
      exact ⟨t', ht', Or.inl rfl⟩
  | @kill j t flags entry reason now ht hstatus _ _ _ =>
      simp only [AgentView.killed_agent, Agent.markedFailed_cursor] at hi
      rw [AgentView.killed_rows] at ht'
      split at ht'
      · rename_i hij
        subst hij
        have hqueued := hq i t ht hi
        simp [hstatus] at hqueued
      · obtain ⟨u, hu, rfl⟩ := Option.map_eq_some_iff.1 ht'
        refine ⟨u, hu, ?_⟩
        unfold TaskView.cancelQueued
        split
        · exact Or.inr ⟨reason, now, rfl⟩
        · exact Or.inl rfl
  | finalise now _ _ _ => exact ⟨t', ht', Or.inl rfl⟩
  | insert id taskDefId tier now hfree _ _ _ =>
      simp only [AgentView.setRow_agent] at hi
      rw [AgentView.setRow_rows, if_neg (by omega)] at ht'
      exact ⟨t', ht', Or.inl rfl⟩

theorem AgentView.Queued.step (hq : v.Queued) (h : AgentStep ladder rules v v') : v'.Queued := by
  intro i t' ht' hi
  have hcursor := h.cursor_le
  obtain ⟨t, ht, rfl | ⟨reason, now, rfl⟩⟩ := h.ahead hq ht' hi
  · exact hq i _ ht (by omega)
  · exact Or.inr rfl

theorem AgentView.Queued.path (hq : v.Queued) (hp : AgentPath ladder rules v v') : v'.Queued :=
  Machine.closure_invariant (fun _ _ hv hs => hv.step hs) hq hp

/-- A row that is still ahead of the cursor has kept its tier. -/
theorem AgentPath.tier_ahead (hq : v.Queued) (hp : AgentPath ladder rules v v') {i : Nat}
    {t' : TaskView} (ht' : v'.rows i = some t') (hi : v'.agent.cursor < i) :
    ∃ t, v.rows i = some t ∧ t'.row.tier = t.row.tier := by
  induction hp generalizing t' with
  | refl => exact ⟨t', ht', rfl⟩
  | tail hpast hs ih =>
      have hcursor := hs.cursor_le
      obtain ⟨u, hu, hsame⟩ := hs.ahead (hq.path hpast) ht' hi
      obtain ⟨t, ht, htier⟩ := ih hu (by omega)
      refine ⟨t, ht, ?_⟩
      rcases hsame with rfl | ⟨reason, now, rfl⟩ <;> exact htier

end Agent

/-! ## Runs -/

section Runs

variable {cfg : Config} {ts : List SysTransition} {s : Sys}

/-- The rule that only the rows a `classify` action took are routed. -/
def routedBy (s : Sys) (a : Action) : Rules :=
  { Rules.free with
    route := fun flags v => ∃ limit flagsOf now locked,
      a = .classify limit flagsOf now locked ∧ v.row ∈ takeFailed limit locked s.db ∧
        flags = flagsOf v.row.id ∧ v = s.db.taskView v.row }

theorem routedBy_hold (cfg : Config) (s : Sys) (a : Action) : (routedBy s a).Hold cfg s a where
  claim := by intros; trivial
  commit := by intros; trivial
  report := by intros; trivial
  reclaim := by intros; trivial
  route := fun limit flags now locked _ ha ht => ⟨limit, flags, now, locked, ha, ht, rfl, rfl⟩

/-- Transition `c` took the row `t` and routed it 'promote', to `tier`. -/
def RoutedPromote (cfg : Config) (c : SysTransition) (t : TaskInstance) (tier : TierName) : Prop :=
  ∃ limit flags now locked, c.action = .classify limit flags now locked ∧
    t ∈ takeFailed limit locked c.before.db ∧
    (c.before.db.taskView t).verdict cfg.ladder (flags t.id) = .promote tier

/-- A step changes the tier of a row only by routing that very row 'promote'. -/
theorem step_tier {s s' : Sys} {a : Action} (hsound : s.Sound) (h : step cfg s a = some s')
    {k : Uuid} {t t' : TaskInstance} (ht : s.db.task k = some t) (ht' : s'.db.task k = some t') :
    t'.tier = t.tier ∨ RoutedPromote cfg ⟨s, a, s'⟩ t t'.tier := by
  obtain ⟨u, hu, hpath⟩ := (step_moves hsound h (routedBy_hold cfg s a)).task hsound.db ht
  rw [ht'] at hu
  cases hu
  have follow : ∀ w, TaskPath cfg.ladder (routedBy s a) (s.db.taskView t) w →
      w.row.tier = t.tier ∨ RoutedPromote cfg ⟨s, a, s'⟩ t w.row.tier := by
    intro w hw
    induction hw with
    | refl => exact Or.inl rfl
    | @tail w w' hpast hs ih =>
        rcases hs.tier with hsame | ⟨flags, hroute, hverdict, -⟩
        · rw [hsame]
          exact ih
        · obtain ⟨limit, flagsOf, now, locked, ha, htaken, rfl, hview⟩ := hroute
          have hid : w.row.id = t.id := TaskPath.same hpast |>.id
          have hrow : w.row = t := by
            have hget := (mem_takeFailed htaken).1
            rw [hid, Db.id_of_task ht, ht] at hget
            exact (Option.some.inj hget).symm
          rw [hrow] at htaken hview hverdict
          rw [hview] at hverdict
          exact Or.inr ⟨limit, flagsOf, now, locked, ha, htaken, hverdict⟩
  exact follow _ hpath

theorem SysRun.queued (h : SysRun cfg ts s) {a : Uuid} {v : AgentView} (hv : s.db.view a = some v) :
    v.Queued := by
  obtain ⟨plan, tier, ids, now, hpath⟩ := h.agent_origin (Rules.free_holdAlong cfg ts) hv
  exact (AgentView.fresh_queued a plan tier ids now).path hpath

/-- In every reachable state a task's promotions are paid for since its creation; a row
ahead of its agent's cursor is still at its creation tier; and no step changes the tier
of any row but the one it routes 'promote'. -/
theorem promotion_paid (h : SysRun cfg ts s) {k : Uuid} {t : TaskInstance}
    (ht : s.db.task k = some t) :
    (∃ c ∈ ts, ∃ t₀, Creates c k t₀ ∧ PaidFor cfg.ladder t₀.tier (s.db.taskView t) ∧
        ∀ ag, s.db.agent t.agentId = some ag → ag.cursor < t.seq → t.tier = t₀.tier) ∧
      ∀ d ∈ ts, ∀ u u', d.before.db.task k = some u → d.after.db.task k = some u' →
        u'.tier = u.tier ∨ RoutedPromote cfg d u u'.tier := by
  constructor
  · obtain ⟨c, hc, t₀, hcreates, hfresh, hpath⟩ := h.task_history (Rules.free_holdAlong cfg ts) ht
    have hbudget : 1 ≤ t₀.maxAttemptsPerTier := by
      obtain ⟨id, agentId, seq, taskDefId, tier, now, -, rfl⟩ := hfresh
      exact (by decide : (1 : Int) ≤ 2)
    refine ⟨c, hc, t₀, hcreates, (PaidFor.fresh hfresh).path hbudget hpath, ?_⟩
    intro ag hag hahead
    obtain ⟨pre, post, rfl, hpre, hs, hpost⟩ := h.exists_split hc
    have hrun : SysRun cfg (pre ++ [c]) c.after := .snoc hpre hs
    obtain ⟨ag₀, hag₀⟩ := hrun.sound.db.tasks k t₀ hcreates.after
    obtain ⟨v₀, hv₀, -⟩ := Db.view_of_agent hag₀
    obtain ⟨-, hmoves⟩ := run_moves hpost hrun.sound (Rules.free_holdAlong cfg post)
    obtain ⟨v, hv, hagentPath⟩ := hmoves _ v₀ hv₀
    have hsame : t₀.Same t := hpath.same
    rw [← hsame.agentId] at hv hv₀
    have hcursor : v.agent.cursor < t.seq := by
      have heq : v.agent = ag := Option.some.inj ((Db.view_eq_some.1 hv).1.symm.trans hag)
      rw [heq]
      exact hahead
    obtain ⟨u, hu, htier⟩ := hagentPath.tier_ahead (hrun.queued hv₀)
      (Db.view_row_of_task ht hv) hcursor
    have hborn : v₀.rows t.seq = some (c.after.db.taskView t₀) := by
      rw [hsame.seq]
      exact Db.view_row_of_task hcreates.after (hsame.agentId ▸ hv₀)
    rw [hborn] at hu
    cases hu
    exact htier
  · intro d hd u u' hu hu'
    obtain ⟨pre, post, -, hpre, hs, -⟩ := h.exists_split hd
    exact step_tier (SysRun.sound hpre) hs hu hu'

end Runs

theorem promotion_paid_escalation :
    ∃ t, (ran oneHost escalation).2.db.task (rowId firstAgent 0) = some t ∧
      ∃ c ∈ (ran oneHost escalation).1, ∃ t₀, Creates c (rowId firstAgent 0) t₀ ∧
        PaidFor seededLadder t₀.tier ((ran oneHost escalation).2.db.taskView t) := by
  have ht : ((ran oneHost escalation).2.db.task (rowId firstAgent 0)).isSome = true := by
    decide +kernel
  have hpaid := promotion_paid (run_ran oneHost escalation) (Option.some_get ht).symm
  obtain ⟨⟨c, hc, t₀, hcreates, hfor, -⟩, -⟩ := hpaid
  exact ⟨_, (Option.some_get ht).symm, c, hc, t₀, hcreates, hfor⟩

end ReliableAgents
