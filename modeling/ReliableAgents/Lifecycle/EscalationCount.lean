import ReliableAgents.Common.Metrics
import ReliableAgents.Deployment
import ReliableAgents.Lifecycle.Promotion
import ReliableAgents.Lifecycle.Rewrites
import ReliableAgents.Lifecycle.SweepChanges

/-!
# Counting escalations

The snapshot counts the rows that are not at the base tier. A row gets off the base tier by
a promotion, and none comes back; but a row can also be inserted off it, and a promoted row
that goes missing is repaired at the base tier, under a new id.
-/

namespace ReliableAgents

open Relational

/-- `classify` has routed the row 'promote' in the run. -/
def PromotedIn (cfg : Config) (ts : List SysTransition) (k : Uuid) : Prop :=
  ∃ c ∈ ts, ∃ t tier, t.id = k ∧ RoutedPromote cfg c t tier

theorem PromotedIn.failed {cfg : Config} {ts : List SysTransition} {k : Uuid}
    (h : PromotedIn cfg ts k) :
    ∃ c ∈ ts, ∃ t ∈ c.before.db.taskInstances.rows, t.id = k ∧ t.status = .failed := by
  obtain ⟨c, hc, t, tier, hid, limit, flags, now, locked, -, htaken, -⟩ := h
  obtain ⟨hget, hfailed⟩ := mem_takeFailed htaken
  exact ⟨c, hc, t, Table.mem_of_get? hget, hid, hfailed⟩

def InsertedAt (ts : List SysTransition) (k : Uuid) (tier : TierName) : Prop :=
  ∃ c ∈ ts, ∃ t₀, Creates c k t₀ ∧ t₀.tier = tier

theorem Ladder.nextTier_ne_base {ladder : Ladder} {base current next : TierName}
    (hbase : ladder.baseTier = some base) (h : ladder.nextTier current = some next) :
    next ≠ base := by
  intro heq
  have hlevel := Ladder.level_nextTier h
  have hfirst : ladder.level base = 0 := by
    obtain ⟨t, ht, rfl⟩ := Option.map_eq_some_iff.1 hbase
    obtain ⟨rest, hrest⟩ := List.head?_eq_some_iff.1 ht
    simp [Ladder.level, Ladder.names, hrest]
  rw [heq, hfirst] at hlevel
  omega

/-! ## The tier of a row -/

section Step

variable {cfg : Config} {s s' : Sys} {a : Action} {t : TaskInstance}

/-- A row that is routed 'promote' is moved to the tier it is routed to. -/
theorem RoutedPromote.moves {c : SysTransition} {tier : TierName}
    (h : RoutedPromote cfg c t tier) (hcursor : c.before.db.AtCursor)
    (hstep : step cfg c.before c.action = some c.after) :
    ∃ now, c.after.db.task t.id = some (t.promoted tier now) := by
  obtain ⟨limit, flags, now, locked, haction, ht, hverdict⟩ := h
  rw [haction] at hstep
  obtain ⟨w, hw, htask⟩ := step_classify_task hcursor hstep ht
  have hroute : routeOne cfg.ladder (flags t.id) now t c.before.db =
      some (w.routed, w.perform c.before.db) := by
    rw [routeOne_eq, hw, Option.map_some]
  have hspec := routeOne_spec hroute
  have hverdict' : verdict cfg.ladder (flags t.id) (t.failureClass.getD .infra) t
      (budgets t.tier (c.before.db.evidence t.id)) = .promote tier := hverdict
  rw [hverdict'] at hspec
  have hget := (mem_takeFailed ht).1
  have hown : (w.perform c.before.db).task t.id = some (t.promoted tier now) := by
    rw [hspec.2, Db.task, promoteSql, Table.get?_update,
      show c.before.db.taskInstances.get? t.id = _ from hget]
    simp
  rw [w.perform_task, hget, Option.map_some] at hown
  exact ⟨now, by rw [htask, hown]⟩

theorem Write.onTask_tier_other {w : Write} (h : t.id ≠ w.task.id) :
    (w.onTask t).tier = t.tier := by
  cases w with
  | retry task now => simp [onTask, show t.id ≠ task.id from h]
  | promote task tier now => simp [onTask, show t.id ≠ task.id from h]
  | kill task entry siblings cancelReason now =>
      simp only [onTask, show t.id ≠ task.id from h, if_false]
      split <;> rfl

theorem foldl_onTask_tier {writes : List Write} (h : ∀ w ∈ writes, t.id ≠ w.task.id) :
    (writes.foldl Write.onTask t).tier = t.tier := by
  induction writes generalizing t with
  | nil => rfl
  | cons w rest ih =>
      have hrest : ∀ w' ∈ rest, (w.onTask t).id ≠ w'.task.id := fun w' hw' => by
        rw [Write.onTask_id]
        exact h w' (List.mem_cons_of_mem _ hw')
      exact (ih hrest).trans (Write.onTask_tier_other (h w List.mem_cons_self))

/-- Only routing 'promote' rewrites a tier. -/
theorem Rewrites.tier {v v' : TaskView} (h : Rewrites cfg s a v v') :
    v'.row.tier = v.row.tier ∨
      ∃ limit flags now locked, a = .classify limit flags now locked ∧
        v.verdict cfg.ladder (flags v.row.id) = .promote v'.row.tier := by
  cases h with
  | promote _ hverdict => exact Or.inr ⟨_, _, _, _, rfl, hverdict⟩
  | keep | claim | renew | commit | report | reclaim | retry | kill | cancel => exact Or.inl rfl

theorem step_classify_tier {limit : Nat} {flags : Uuid → Flags} {now : Time}
    {locked : Uuid → Bool} (hcursor : s.db.AtCursor)
    (h : step cfg s (.classify limit flags now locked) = some s') (ht : s.db.task t.id = some t) :
    ∃ t', s'.db.task t.id = some t' ∧
      (t'.tier = t.tier ∨
        RoutedPromote cfg ⟨s, .classify limit flags now locked, s'⟩ t t'.tier) := by
  by_cases htaken : t ∈ takeFailed limit locked s.db
  · obtain ⟨w, hw, htask⟩ := step_classify_task hcursor h htaken
    have hroute : routeOne cfg.ladder (flags t.id) now t s.db =
        some (w.routed, w.perform s.db) := by
      rw [routeOne_eq, hw, Option.map_some]
    have hrouted : ∃ t', (w.perform s.db).task t.id = some t' ∧
        Rewrites cfg s (.classify limit flags now locked) (s.db.taskView t)
          ((w.perform s.db).taskView t') :=
      rewrites_of_route ht (mem_takeFailed htaken).2 hroute ht
    obtain ⟨t', ht', hrewrites⟩ := hrouted
    rw [w.perform_task, ht, Option.map_some, Option.some.injEq] at ht'
    refine ⟨_, htask, ?_⟩
    rw [ht']
    refine hrewrites.tier.imp_right ?_
    rintro ⟨limit', flags', now', locked', haction, hverdict⟩
    cases haction
    exact ⟨limit, flags, now, locked, rfl, htaken, hverdict⟩
  · have hrows : ∀ u ∈ takeFailed limit locked s.db, s.db.task u.id = some u ∧
        u.status = .failed ∧ u.failureClass ≠ none := by
      intro u hu
      obtain ⟨hget, hfailed⟩ := mem_takeFailed hu
      exact ⟨hget, hfailed, hcursor.classed _ u hget hfailed⟩
    have hagents := hcursor.agents_nodup (takeFailed_nodup limit locked s.db)
      fun u hu => mem_takeFailed hu
    have hclassify := @classify_eq_performAll cfg.ladder now s.db flags _ hagents hrows
    rw [← Option.some.inj h, Sys.setDb_db, classify, hclassify, Option.getD_some, performAll_task,
      ht, Option.map_some]
    refine ⟨_, rfl, Or.inl (foldl_onTask_tier fun w hw heq => htaken ?_)⟩
    obtain ⟨u, hu, hroute⟩ := List.mem_filterMap.1 hw
    obtain ⟨rfl, -⟩ := routeWrite_spec hroute
    have hget := (hrows _ hu).1
    rw [← heq, ht] at hget
    rw [Option.some.inj hget]
    exact hu

/-- While work is at the cursor, a step changes the tier of a row only by routing it
'promote', and deletes none. -/
theorem step_keeps_tier (hcursor : s.db.AtCursor) (h : step cfg s a = some s') {k : Uuid}
    (ht : s.db.task k = some t) :
    ∃ t', s'.db.task k = some t' ∧
      (t'.tier = t.tier ∨ RoutedPromote cfg ⟨s, a, s'⟩ t t'.tier) := by
  by_cases hclassify : ∃ limit flags now locked, a = .classify limit flags now locked
  · obtain ⟨limit, flags, now, locked, rfl⟩ := hclassify
    obtain rfl := Db.id_of_task ht
    exact step_classify_tier hcursor h ht
  · have hkept : ∀ v v', v.row.tier = t.tier → Rewrites cfg s a v v' → v'.row.tier = t.tier := by
      intro v v' hv hrewrites
      rcases hrewrites.tier with hsame | ⟨limit, flags, now, locked, heq, -⟩
      · exact hsame.trans hv
      · exact absurd ⟨limit, flags, now, locked, heq⟩ hclassify
    obtain ⟨t', ht', htier⟩ := step_rewrites h hkept ht rfl
    exact ⟨t', ht', Or.inl htier⟩

end Step

/-! ## Where the rows are -/

/-- As long as it is there, a promoted row is off the base tier, and any other is where it
was inserted. -/
structure TiersAccount (cfg : Config) (base : TierName) (ts : List SysTransition) (s : Lossy) :
    Prop where
  promoted : ∀ k, PromotedIn cfg ts k → k ∈ s.lost ∨ ∃ t, s.sys.db.task k = some t ∧ t.tier ≠ base
  kept : ∀ k tier, InsertedAt ts k tier → ¬ PromotedIn cfg ts k →
    k ∈ s.lost ∨ ∃ t, s.sys.db.task k = some t ∧ t.tier = tier
  inserted : ∀ k t, s.sys.db.task k = some t → ∃ tier, InsertedAt ts k tier

section Runs

variable {cfg : Config} {base : TierName} {us : List SysTransition} {ts : List LossyTransition}
  {s s' : Lossy} {k : Uuid} {tier : TierName}

theorem PromotedIn.mono (h : PromotedIn cfg us k) (c : SysTransition) :
    PromotedIn cfg (us ++ [c]) k := by
  obtain ⟨d, hd, hrouted⟩ := h
  exact ⟨d, List.mem_append_left _ hd, hrouted⟩

theorem TiersAccount.act {a : Action} (hI : TiersAccount cfg base us s)
    (hbase : cfg.ladder.baseTier = some base) (hcursor : s.sys.db.AtCursor)
    (h : Lossy.step cfg s (.act a) = some s') :
    TiersAccount cfg base (us ++ [⟨s.sys, a, s'.sys⟩]) s' := by
  obtain ⟨hstep, hlost, -⟩ := Lossy.step_act h
  refine ⟨?_, ?_, ?_⟩
  · rintro k ⟨c, hc, t, tier, rfl, hrouted⟩
    rw [hlost]
    rcases List.mem_append.1 hc with hold | hnew
    · refine (hI.promoted t.id ⟨c, hold, t, tier, rfl, hrouted⟩).imp_right ?_
      rintro ⟨u, hu, hoff⟩
      obtain ⟨u', hu', htier⟩ := step_keeps_tier hcursor hstep hu
      refine ⟨u', hu', ?_⟩
      rcases htier with hsame | ⟨_, _, _, _, _, _, hverdict⟩
      · exact hsame ▸ hoff
      · exact Ladder.nextTier_ne_base hbase (verdict_promote hverdict).2.2
    · right
      obtain rfl := List.mem_singleton.1 hnew
      obtain ⟨now, hmoved⟩ := hrouted.moves hcursor hstep
      obtain ⟨_, _, _, _, _, _, hverdict⟩ := hrouted
      exact ⟨_, hmoved, Ladder.nextTier_ne_base hbase (verdict_promote hverdict).2.2⟩
  · rintro k tier ⟨c, hc, t₀, hcreates, rfl⟩ hnot
    rw [hlost]
    rcases List.mem_append.1 hc with hold | hnew
    · have hstill : ¬ PromotedIn cfg us k := fun hpast => hnot (hpast.mono _)
      refine (hI.kept k _ ⟨c, hold, t₀, hcreates, rfl⟩ hstill).imp_right ?_
      rintro ⟨u, hu, htier⟩
      obtain ⟨u', hu', hsame | hrouted⟩ := step_keeps_tier hcursor hstep hu
      · exact ⟨u', hu', hsame.trans htier⟩
      · exact absurd ⟨_, List.mem_append_right _ List.mem_cons_self, u, u'.tier,
          Db.id_of_task hu, hrouted⟩ hnot
    · obtain rfl := List.mem_singleton.1 hnew
      exact Or.inr ⟨t₀, hcreates.after, rfl⟩
  · intro k t ht
    cases hold : s.sys.db.task k with
    | none =>
        exact ⟨t.tier, ⟨s.sys, a, s'.sys⟩, by simp, t, ⟨hold, ht⟩, rfl⟩
    | some u =>
        obtain ⟨tier, c, hc, hcreates⟩ := hI.inserted k u hold
        exact ⟨tier, c, List.mem_append_left _ hc, hcreates⟩

theorem TiersAccount.lose {gone : Uuid} (hI : TiersAccount cfg base us s)
    (h : Lossy.step cfg s (.lose gone) = some s') : TiersAccount cfg base us s' := by
  obtain ⟨-, hsys, hlost⟩ := Lossy.step_lose h
  have still : ∀ {k : Uuid} {p : TaskInstance → Prop},
      (k ∈ s.lost ∨ ∃ t, s.sys.db.task k = some t ∧ p t) →
      k ∈ s'.lost ∨ ∃ t, s'.sys.db.task k = some t ∧ p t := by
    rintro k p (hgone | ⟨t, ht, hp⟩)
    · exact Or.inl (hlost ▸ List.mem_cons_of_mem _ hgone)
    · by_cases heq : k = gone
      · exact Or.inl (hlost ▸ heq ▸ List.mem_cons_self)
      · refine Or.inr ⟨t, ?_, hp⟩
        rw [hsys, Sys.setDb_db, loseTask_task, if_neg heq]
        exact ht
  refine ⟨fun k hpromoted => still (hI.promoted k hpromoted),
    fun k tier hinserted hnot => still (hI.kept k tier hinserted hnot), fun k t ht => ?_⟩
  rw [hsys, Sys.setDb_db, loseTask_task] at ht
  split at ht
  · cases ht
  · exact hI.inserted k t ht

theorem LossyRun.tiersAccount (h : LossyRun cfg ts s) (hbase : cfg.ladder.baseTier = some base) :
    TiersAccount cfg base (Lossy.acted ts) s := by
  refine h.invariant_along (I := fun us u => TiersAccount cfg base (Lossy.acted us) u)
    (fun _ => True) ?_ (fun us u a u' hrun _ hI hstep _ => ?_) (fun _ _ => trivial)
  · refine ⟨fun k hpromoted => ?_, fun k tier hinserted => ?_, fun k t ht => by cases ht⟩
    · obtain ⟨c, hc, -⟩ := hpromoted
      cases hc
    · obtain ⟨c, hc, -⟩ := hinserted
      cases hc
  · cases a with
    | act a =>
        rw [Lossy.acted_snoc_act]
        exact hI.act hbase (LossyRun.orderly hrun).cursor hstep
    | lose k =>
        rw [Lossy.acted_snoc_lose]
        exact hI.lose hstep

end Runs

/-! ## The metric -/

theorem Metrics.snapshot_promoted {ladder : Ladder} {leaseTtlSeconds : Int} {now : Time} {db : Db}
    {m : Metrics.Snapshot} (h : Metrics.snapshot ladder leaseTtlSeconds now db = some m) :
    ∃ base, ladder.baseTier = some base ∧ m.escalation.promoted = Metrics.promotions base db ∧
      m.cost.allJuniorWouldNeverFinish = Metrics.promotions base db := by
  unfold Metrics.snapshot at h
  split at h
  · rename_i cheap dear hcheap hdear
    cases h
    exact ⟨cheap.name, by rw [Ladder.baseTier, hcheap]; rfl, rfl, rfl⟩
  · cases h

/-- The rows the snapshot counts. -/
theorem offBase_finite (base : TierName) (db : Db) :
    {k | ∃ t, db.task k = some t ∧ t.tier ≠ base}.Finite := by
  refine (db.taskInstances.rows.map TaskInstance.id).toFinset.finite_toSet.subset ?_
  rintro k ⟨t, ht, -⟩
  simpa using ⟨t, Table.mem_of_get? ht, Table.key_of_get? ht⟩

theorem Metrics.promotions_eq_ncard (base : TierName) (db : Db) :
    Metrics.promotions base db = Set.ncard {k | ∃ t, db.task k = some t ∧ t.tier ≠ base} := by
  rw [Metrics.promotions, Table.count_eq_ncard]
  simp only [decide_eq_true_eq]
  rfl

/-- The snapshot's two counts are the number of escalated tasks exactly if as many escalated
rows have gone missing as rows inserted off the base tier are there without having been
escalated. -/
theorem escalation_count {cfg : Config} {ts : List LossyTransition} {s : Lossy}
    (h : LossyRun cfg ts s) {leaseTtlSeconds : Int} {now : Time} {m : Metrics.Snapshot}
    (hm : Metrics.snapshot cfg.ladder leaseTtlSeconds now s.sys.db = some m) :
    m.cost.allJuniorWouldNeverFinish = m.escalation.promoted ∧
      (m.escalation.promoted = Set.ncard {k | PromotedIn cfg (Lossy.acted ts) k} ↔
        Set.ncard {k | PromotedIn cfg (Lossy.acted ts) k ∧ k ∈ s.lost} =
          Set.ncard {k | ¬ PromotedIn cfg (Lossy.acted ts) k ∧ k ∉ s.lost ∧
            ∃ tier, InsertedAt (Lossy.acted ts) k tier ∧ cfg.ladder.baseTier ≠ some tier}) := by
  obtain ⟨base, hbase, hpromoted, hcost⟩ := Metrics.snapshot_promoted hm
  have haccount := h.tiersAccount hbase
  rw [hpromoted, hcost, Metrics.promotions_eq_ncard]
  refine ⟨rfl, ?_⟩
  have hoff := offBase_finite base s.sys.db
  have hescalated : {k | PromotedIn cfg (Lossy.acted ts) k}.Finite := by
    refine (hoff.union s.lost.toFinset.finite_toSet).subset fun k hk => ?_
    rcases haccount.promoted k hk with hgone | hrow
    · exact Or.inr (by simpa using hgone)
    · exact Or.inl hrow
  rw [Set.ncard_eq_ncard_iff_ncard_sdiff_eq_ncard_sdiff hoff hescalated, eq_comm]
  -- what is escalated but not counted is gone; what is counted but not escalated was put there
  have hgone : {k | PromotedIn cfg (Lossy.acted ts) k} \
      {k | ∃ t, s.sys.db.task k = some t ∧ t.tier ≠ base} =
        {k | PromotedIn cfg (Lossy.acted ts) k ∧ k ∈ s.lost} := by
    ext k
    refine and_congr_right fun hk => ⟨(haccount.promoted k hk).resolve_right, ?_⟩
    rintro hlost ⟨t, ht, -⟩
    rw [h.lost k hlost] at ht
    cases ht
  have hstray : {k | ∃ t, s.sys.db.task k = some t ∧ t.tier ≠ base} \
      {k | PromotedIn cfg (Lossy.acted ts) k} =
        {k | ¬ PromotedIn cfg (Lossy.acted ts) k ∧ k ∉ s.lost ∧
          ∃ tier, InsertedAt (Lossy.acted ts) k tier ∧ cfg.ladder.baseTier ≠ some tier} := by
    ext k
    refine and_comm.trans (and_congr_right fun hnot => ⟨?_, ?_⟩)
    · rintro ⟨t, ht, htier⟩
      have hthere : k ∉ s.lost := fun hlost => by
        rw [h.lost k hlost] at ht
        cases ht
      obtain ⟨tier, hinserted⟩ := haccount.inserted k t ht
      obtain ⟨u, hu, rfl⟩ := (haccount.kept k tier hinserted hnot).resolve_left hthere
      rw [ht, Option.some.injEq] at hu
      refine ⟨hthere, _, hinserted, ?_⟩
      rw [hbase, ← hu]
      exact fun heq => htier (Option.some.inj heq).symm
    · rintro ⟨hthere, tier, hinserted, hne⟩
      obtain ⟨t, ht, rfl⟩ := (haccount.kept k tier hinserted hnot).resolve_left hthere
      exact ⟨t, ht, fun heq => hne (by rw [hbase, heq])⟩
  rw [hgone, hstray]

/-- The row of an agent is lost and repaired, and the repaired one is escalated. -/
def repairedEscalation : List LossyAction :=
  [.act (submitPlan [20]), .lose (rowId firstAgent 0),
    .act (.repair 50 (fun _ => ⟨7⟩) 0 unlocked)] ++
  (handout 0 0 (.raised tooHard) ++ reported 0 (seconds 1) ++
    handout 0 (seconds 10) (.raised tooHard) ++ reported 0 (seconds 11)).map .act

theorem escalation_count_repairedEscalation :
    ∃ m, Metrics.snapshot seededLadder 30 0 (Lossy.ran oneHost repairedEscalation).2.sys.db =
        some m ∧
      (Lossy.ran oneHost repairedEscalation).2.lost = [rowId firstAgent 0] ∧
      m.escalation.promoted = 1 ∧ m.escalation.promoted =
        Set.ncard {k | PromotedIn oneHost (Lossy.acted (Lossy.ran oneHost repairedEscalation).1) k} := by
  have hjunior : ∀ c ∈ Lossy.acted (Lossy.ran oneHost repairedEscalation).1,
      ∀ t ∈ c.after.db.taskInstances.rows, c.before.db.task t.id = none → t.tier = "junior" := by
    decide +kernel
  have hfailed : ∀ c ∈ Lossy.acted (Lossy.ran oneHost repairedEscalation).1,
      ∀ t ∈ c.before.db.taskInstances.rows, t.status = .failed →
        t.id ∉ (Lossy.ran oneHost repairedEscalation).2.lost := by
    decide +kernel
  have hcount := @escalation_count oneHost _ _ (Lossy.run_ran oneHost repairedEscalation) 30 0 _ rfl
  refine ⟨_, rfl, by decide +kernel, by decide +kernel, hcount.2.2 (congrArg Set.ncard ?_)⟩
  ext k
  refine ⟨?_, ?_⟩
  · rintro ⟨hpromoted, hgone⟩
    obtain ⟨c, hc, t, ht, rfl, hstatus⟩ := hpromoted.failed
    exact absurd hgone (hfailed c hc t ht hstatus)
  · rintro ⟨-, -, tier, ⟨c, hc, t₀, hcreates, rfl⟩, hne⟩
    have hnew := hcreates.before
    rw [← Db.id_of_task hcreates.after] at hnew
    rw [hjunior c hc t₀ (Table.mem_of_get? hcreates.after) hnew] at hne
    exact absurd rfl hne

/-- A submission under `force_tier` is counted as an escalation. -/
def pinnedSubmission : List LossyAction := [.act (.submit (some "senior") [1] [firstAgent] rowId 0)]

theorem escalation_count_pinned :
    ∃ ts s m, LossyRun oneHost ts s ∧ Metrics.snapshot seededLadder 30 0 s.sys.db = some m ∧
      m.escalation.promoted = 1 ∧
      Set.ncard {k | PromotedIn oneHost (Lossy.acted ts) k} = 0 := by
  refine ⟨_, _, _, Lossy.run_ran oneHost pinnedSubmission, rfl, by decide +kernel, ?_⟩
  have hrunning : ∀ c ∈ Lossy.acted (Lossy.ran oneHost pinnedSubmission).1,
      ∀ t ∈ c.before.db.taskInstances.rows, t.status ≠ .failed := by
    decide +kernel
  have hnone : ∀ k, ¬ PromotedIn oneHost (Lossy.acted (Lossy.ran oneHost pinnedSubmission).1) k :=
    fun k hpromoted => by
      obtain ⟨c, hc, t, ht, -, hfailed⟩ := hpromoted.failed
      exact hrunning c hc t ht hfailed
  simp [hnone]

end ReliableAgents
