import ReliableAgents.Lifecycle.Losses
import ReliableAgents.Orchestrator.Transactions

/-!
# At one tier

`force_tier` is read in two places: where the API inserts a plan's rows, and where
the classifier would promote. The two other inserts choose a tier without it:
`harness.seed` leaves it to the column default, and `repair_stalled` takes the base
tier. As long as none of them inserts or moves a row off the pin, everything is at it.
-/

namespace ReliableAgents

open Relational

/-- What a handout at `tier` may be charged: its price, or nothing for a replay. -/
def Ladder.Charges (ladder : Ladder) (tier : TierName) (cost tokens : Int) : Prop :=
  (cost = 0 ∧ tokens = 0) ∨ ladder.costOf tier = some (cost, tokens)

structure Db.At (ladder : Ladder) (tier : TierName) (db : Db) : Prop where
  rows : ∀ k t, db.task k = some t → t.tier = tier
  attempts : ∀ e ∈ db.attempts, e.tier = tier ∧ ladder.Charges tier e.costUnits e.tokens

/-- What a worker has in hand is at `tier`: the handout, the context its task runs with,
and the price of its result. -/
def Phase.At (ladder : Ladder) (tier : TierName) : Phase → Prop
  | .idle => True
  | .claimed task _ | .settling task _ _ _ | .failing task _ _ => task.tier = tier
  | .reserving task _ ctx | .running task _ ctx _ => task.tier = tier ∧ ctx.tier = tier
  | .finished task _ _ cost tokens _ | .committing task _ _ cost tokens =>
      task.tier = tier ∧ ladder.Charges tier cost tokens

/-- Every row, every piece of evidence and every handout is at `tier`. -/
structure Sys.At (cfg : Config) (tier : TierName) (s : Sys) : Prop where
  db : s.db.At cfg.ladder tier
  workers : ∀ p, (s.workers p).phase.At cfg.ladder tier

/-- An insert chooses `tier` or has nothing to insert, and a classification cannot promote. -/
def Action.OnPin (cfg : Config) (tier : TierName) (db : Db) : Action → Prop
  | .submit forceTier _ agentIds _ _ =>
      forceTier.or cfg.ladder.baseTier = some tier ∨ agentIds = []
  | .seed plan agentIds _ _ => tier = "junior" ∨ plan = [] ∨ agentIds = []
  | .repair batch _ _ locked =>
      cfg.ladder.baseTier = some tier ∨ stalledAgents batch locked db = []
  | .classify _ flags _ _ => ∀ k, (flags k).forceTier ≠ none
  | _ => True

/-! ## The database -/

section Database

variable {ladder : Ladder} {tier : TierName} {db db' : Db}

/-- An update keeps the rows at the tier if its assignment does. -/
theorem Db.At.task_update (h : db.At ladder tier) {p : TaskInstance → Bool}
    {f : TaskInstance → TaskInstance}
    (hrows : db'.taskInstances.rows = db.taskInstances.rows.map fun t => if p t then f t else t)
    (hf : ∀ t, (f t).tier = t.tier) :
    ∀ k t, db'.task k = some t → t.tier = tier := by
  intro k t ht
  have hmem := Table.mem_of_get? ht
  rw [hrows] at hmem
  obtain ⟨u, hu, rfl⟩ := List.mem_map.1 hmem
  have hold := h.rows u.id u (Table.get?_of_mem _ hu)
  split
  · exact (hf u).trans hold
  · exact hold

theorem Db.At.update (h : db.At ladder tier) {p : TaskInstance → Bool}
    {f : TaskInstance → TaskInstance}
    (hrows : db'.taskInstances.rows = db.taskInstances.rows.map fun t => if p t then f t else t)
    (hf : ∀ t, (f t).tier = t.tier) (hattempts : db'.attempts = db.attempts) : db'.At ladder tier where
  rows := h.task_update hrows hf
  attempts := hattempts ▸ h.attempts

theorem Db.At.record (h : db.At ladder tier) {p : TaskInstance → Bool}
    {f : TaskInstance → TaskInstance}
    (hrows : db'.taskInstances.rows = db.taskInstances.rows.map fun t => if p t then f t else t)
    (hf : ∀ t, (f t).tier = t.tier) {e : Attempt} (hattempts : db'.attempts = db.attempts ++ [e]) (htier : e.tier = tier)
    (hcost : ladder.Charges tier e.costUnits e.tokens) : db'.At ladder tier where
  rows := h.task_update hrows hf
  attempts := by
    intro e' he'
    rw [hattempts] at he'
    rcases List.mem_append.1 he' with he' | he'
    · exact h.attempts e' he'
    · rw [List.mem_singleton.1 he']
      exact ⟨htier, hcost⟩

theorem Db.At.created (h : db.At ladder tier) {plan : List Int} {ids : Uuid → Nat → Uuid}
    {now : Time} {agentId : Uuid}
    (hcreate : createAgent ladder plan tier ids now db agentId = some db') :
    db'.At ladder tier := by
  obtain ⟨-, hattempts, -, -, -, hnew, -⟩ := createAgent_spec hcreate
  refine ⟨fun k t ht => ?_, hattempts ▸ h.attempts⟩
  rcases hnew k t ht with hold | ⟨i, taskDefId, -, rfl⟩
  · exact h.rows k t hold
  · rfl

theorem Db.At.repaired (h : db.At ladder tier) {ids : Uuid → Uuid} {now : Time} {ag : Agent}
    (hrepair : repairOne ladder tier ids now db ag = some db') : db'.At ladder tier := by
  rcases repairOne_spec hrepair with rfl | ⟨taskDefId, -, hinsert⟩
  · exact h
  · obtain ⟨-, -, -, ⟨table, rfl⟩, htask, -⟩ := insertTask_spec hinsert
    refine ⟨fun k t ht => ?_, h.attempts⟩
    rw [htask] at ht
    split at ht
    · rw [← Option.some.inj ht]
      rfl
    · exact h.rows k t ht

/-- A decision that is no promotion moves no row to another tier. -/
theorem Db.At.decided (h : db.At ladder tier) {now : Time} {t : TaskInstance} {d : Decision}
    {routed : Routed} (hstays : ∀ next, d ≠ .promote next)
    (hperform : d.perform now t db = some (routed, db')) : db'.At ladder tier := by
  cases d with
  | promote next => exact absurd rfl (hstays next)
  | retry =>
      cases hperform
      exact h.update rfl (fun _ => rfl) rfl
  | dlq reason =>
      obtain ⟨killed, hkill, heq⟩ := Option.map_eq_some_iff.1 hperform
      cases heq
      obtain ⟨-, -, -, -, -, -, -, -, -, rfl⟩ := kill_spec hkill
      have hkilled : ({ db with
          taskInstances :=
            db.taskInstances.update (fun u => u.id = t.id) (TaskInstance.killed now) } : Db).At
          ladder tier := h.update rfl (fun _ => rfl) rfl
      exact hkilled.update rfl (fun _ => rfl) rfl

/-- Under a pin no decision is a promotion. -/
theorem decision_pinned {flags : Flags} {t : TaskInstance} {evidence : List Attempt}
    (hpin : flags.forceTier ≠ none) (next : TierName) :
    decision ladder flags t evidence ≠ .promote next := by
  obtain ⟨pinned, hpinned⟩ := Option.ne_none_iff_exists'.1 hpin
  unfold decision
  simp only [hpinned]
  repeat' split
  all_goals simp

end Database

/-! ## The workers -/

section Workers

variable {cfg : Config} {tier : TierName} {s s' : Sys} {a : Action}

theorem startTask_at {registry : Int → Option TaskDef} {task : Handout} {started : Time} {db : Db}
    (h : task.tier = tier) : (startTask registry task started db).At cfg.ladder tier := by
  unfold startTask
  split
  · exact h
  · split
    · exact h
    · dsimp only
      split <;> exact ⟨h, h⟩

theorem finishTask_at {task : Handout} {started : Time} {result : PyDict}
    (h : task.tier = tier) : (finishTask cfg.ladder task started result).At cfg.ladder tier := by
  unfold finishTask
  cases hcost : cfg.ladder.costOf task.tier with
  | none => trivial
  | some price => exact ⟨h, Or.inr (h ▸ hcost)⟩

theorem beginAction_at {sha256 : String → ActionId} {task : Handout} {started : Time}
    {ctx : TaskContext} {now : Time} {db : Db} (h : task.tier = tier ∧ ctx.tier = tier) :
    (beginAction sha256 task started ctx now db).1.At cfg.ladder tier := by
  unfold beginAction
  split
  · trivial
  · split
    · exact h
    · exact ⟨h.1, Or.inl ⟨rfl, rfl⟩⟩
    · trivial

theorem afterRun_at {task : Handout} {started : Time} {actionKey : Option ActionId}
    {outcome : RunOutcome} (h : task.tier = tier) :
    (afterRun cfg.ladder task started actionKey outcome).At cfg.ladder tier := by
  have hfails : ∀ failure, (failTask task started failure).At cfg.ladder tier := fun _ =>
    failTask_of trivial fun _ _ => h
  unfold afterRun
  split
  · exact hfails _
  · exact hfails _
  · exact hfails _
  · split
    · exact h
    · exact finishTask_at h

theorem settleAction_at {task : Handout} {started : Time} {key : ActionId} {result : PyDict}
    {now : Time} {db : Db} (h : task.tier = tier) :
    (settleAction cfg.ladder task started key result now db).1.At cfg.ladder tier := by
  unfold settleAction
  split
  · trivial
  · exact finishTask_at h

/-- A worker keeps the tier of its handout, and a claim hands out the row's. -/
theorem Sys.At.phase (hat : s.At cfg tier) (h : step cfg s a = some s') (p : Nat) :
    (s'.workers p).phase.At cfg.ladder tier := by
  have hbefore := hat.workers p
  rcases step_phase h p with hsame | hphase
  · rw [hsame]
    exact hbefore
  · generalize (s.workers p).phase = before at hphase hbefore
    generalize (s'.workers p).phase = after at hphase
    cases hphase with
    | claim hclaim =>
        obtain ⟨t, ht, -, rfl, -⟩ := claimOne_spec hclaim
        exact hat.db.rows _ t ht
    | load => exact startTask_at hbefore
    | begin hbegin =>
        rw [show after = _ from (congrArg Prod.fst hbegin).symm]
        exact beginAction_at hbefore
    | run => exact afterRun_at hbefore.1
    | settle hsettle =>
        rw [show after = _ from (congrArg Prod.fst hsettle).symm]
        exact settleAction_at hbefore
    | confirm => exact hbefore
    | stop => trivial

end Workers

/-! ## Runs -/

section Runs

variable {cfg : Config} {tier : TierName} {s s' : Sys} {a : Action} {db db' : Db}

/-- A statement of an action on the pin keeps the database there. -/
theorem Db.At.statement (hat : s.At cfg tier)
    (hsubmit : ∀ forceTier plan agentIds ids now, a = .submit forceTier plan agentIds ids now →
      forceTier.or cfg.ladder.baseTier = some tier)
    (hseed : ∀ plan agentIds ids now, a = .seed plan agentIds ids now →
      tier = "junior" ∨ plan = [])
    (hrepair : ∀ batch ids now locked, a = .repair batch ids now locked →
      cfg.ladder.baseTier = some tier)
    (hclassify : ∀ limit flags now locked, a = .classify limit flags now locked →
      ∀ k, (flags k).forceTier ≠ none)
    (h : db.At cfg.ladder tier) (hstatement : Statement cfg s a db db') :
    db'.At cfg.ladder tier := by
  cases hstatement with
  | claim hclaim =>
      obtain ⟨t, -, -, -, rfl⟩ := claimOne_spec hclaim
      exact h.update rfl (fun _ => rfl) rfl
  | renew => exact h.update rfl (fun _ => rfl) rfl
  | ledger hledger =>
      obtain ⟨table, rfl⟩ := hledger
      exact ⟨h.rows, h.attempts⟩
  | @checkpoint p now started task result cost tokens _ _ ok hphase hcommit =>
      have hheld := hat.workers p
      rw [hphase] at hheld
      rcases checkpointSuccess_spec hcommit with
        ⟨-, rfl⟩ | ⟨fields, t, ag, -, -, -, -, -, -, -, rfl⟩
      · exact h
      · exact h.record rfl (fun _ => rfl) rfl hheld.1 hheld.2
  | @report p now started task failure _ _ ok hphase hreport =>
      have hheld := hat.workers p
      rw [hphase] at hheld
      rcases reportFailure_spec hreport with ⟨-, rfl⟩ | ⟨t, -, -, -, -, rfl⟩
      · exact h
      · exact h.record rfl (fun _ => rfl) rfl hheld (Or.inl ⟨rfl, rfl⟩)
  | @reclaim batch jitter now locked t _ ht hexpired =>
      exact h.record rfl (fun _ => rfl) rfl (h.rows _ t ht) (Or.inl ⟨rfl, rfl⟩)
  | @repair batch ids now locked ag base _ _ hbase hag hrunning hone =>
      rw [hrepair batch ids now locked rfl, Option.some.injEq] at hbase
      subst hbase
      exact h.repaired hone
  | finalise => exact ⟨h.rows, h.attempts⟩
  | route ht hfailed hroute =>
      rw [routeOne_eq_perform] at hroute
      exact h.decided (decision_pinned (hclassify _ _ _ _ rfl _)) hroute
  | @submit forceTier plan agentIds ids now chosen agentId _ _ hchosen hcreate =>
      rw [hsubmit forceTier plan agentIds ids now rfl, Option.some.injEq] at hchosen
      subst hchosen
      exact h.created hcreate
  | @seed plan agentIds ids now agentId _ _ hcreate =>
      rcases hseed plan agentIds ids now rfl with rfl | rfl
      · exact h.created hcreate
      · rw [createAgent, Option.bind_eq_some_iff] at hcreate
        obtain ⟨mid, hinsert, hnone⟩ := hcreate
        obtain ⟨-, ⟨table, rfl⟩, -⟩ := insertAgent_spec hinsert
        cases hnone
        exact ⟨h.rows, h.attempts⟩

theorem step_idle_insert (h : step cfg s a = some s')
    (hidle : (∃ batch ids now locked, a = .repair batch ids now locked ∧
        stalledAgents batch locked s.db = []) ∨
      (∃ plan ids now, a = .seed plan [] ids now) ∨
        ∃ forceTier plan ids now, a = .submit forceTier plan [] ids now) : s'.db = s.db := by
  rcases hidle with
    ⟨batch, ids, now, locked, rfl, hnone⟩ | ⟨plan, ids, now, rfl⟩ | ⟨forceTier, plan, ids, now, rfl⟩
  · cases h
    rw [Sys.setDb_db, repairStalled]
    split
    · rfl
    · rw [hnone]
      rfl
  · cases h
    rfl
  · simp only [step] at h
    split at h
    · cases h
      rfl
    · rename_i db hsubmit
      cases h
      obtain ⟨-, -, -, tier, -, hcreate⟩ := submitAgents_spec hsubmit
      cases hcreate
      rfl

theorem Sys.At.next (hat : s.At cfg tier) (hon : a.OnPin cfg tier s.db)
    (h : step cfg s a = some s') : s'.At cfg tier := by
  refine ⟨?_, fun p => hat.phase h p⟩
  by_cases hidle : (∃ batch ids now locked, a = .repair batch ids now locked ∧
      stalledAgents batch locked s.db = []) ∨ (∃ plan ids now, a = .seed plan [] ids now) ∨
        ∃ forceTier plan ids now, a = .submit forceTier plan [] ids now
  · rw [step_idle_insert h hidle]
    exact hat.db
  · refine Machine.closure_invariant (I := Db.At cfg.ladder tier)
      (fun d d' hd hstatement => hd.statement hat ?_ ?_ ?_ ?_ hstatement) hat.db
      (step_statements h)
    · rintro forceTier plan agentIds ids now rfl
      rcases hon with htier | rfl
      · exact htier
      · exact absurd (Or.inr (Or.inr ⟨forceTier, plan, ids, now, rfl⟩)) hidle
    · rintro plan agentIds ids now rfl
      rcases hon with hjunior | hplan | rfl
      · exact Or.inl hjunior
      · exact Or.inr hplan
      · exact absurd (Or.inr (Or.inl ⟨plan, ids, now, rfl⟩)) hidle
    · rintro batch ids now locked rfl
      rcases hon with hbase | hnone
      · exact hbase
      · exact absurd (Or.inl ⟨batch, ids, now, locked, rfl, hnone⟩) hidle
    · rintro limit flags now locked rfl
      exact hon

theorem Sys.At.lose (hat : s.At cfg tier) (k : Uuid) : (s.setDb (loseTask k s.db)).At cfg tier := by
  refine ⟨⟨fun k' t ht => ?_, fun e he => ?_⟩, hat.workers⟩
  · rw [Sys.setDb_db, loseTask_task] at ht
    split at ht
    · cases ht
    · exact hat.db.rows k' t ht
  · exact hat.db.attempts e (List.mem_of_mem_filter he)

/-- A row stays in the table when others are inserted. -/
def KeepsTasks (db db' : Db) : Prop := ∀ k t, db.task k = some t → db'.task k = some t

theorem createAgents_keepsTasks {plan : List Int} {agentIds : List Uuid} {ids : Uuid → Nat → Uuid}
    {now : Time} {ladder : Ladder}
    (h : createAgents ladder plan tier agentIds ids now db = some db') : KeepsTasks db db' :=
  Machine.foldlM_related (r := KeepsTasks) (fun _ _ _ ht => ht)
    (fun _ _ _ hfirst hrest k t ht => hrest k t (hfirst k t ht))
    (fun _ _ _ hcreate => (createAgent_spec hcreate).2.2.2.2.1) h

theorem repairOne_keepsTasks {ladder : Ladder} {ids : Uuid → Uuid} {now : Time} {ag : Agent}
    (h : repairOne ladder tier ids now db ag = some db') : KeepsTasks db db' := by
  intro k t ht
  rcases repairOne_spec h with rfl | ⟨taskDefId, -, hinsert⟩
  · exact ht
  · obtain ⟨-, hfresh, -, -, htask, -⟩ := insertTask_spec hinsert
    rw [htask, if_neg]
    · exact ht
    · rintro rfl
      rw [hfresh] at ht
      cases ht

/-- Agents that are created at another tier have rows at another tier. -/
theorem created_off {plan : List Int} {agentIds : List Uuid} {ids : Uuid → Nat → Uuid} {now : Time}
    {ladder : Ladder} {chosen : TierName} (hne : chosen ≠ tier) (hplan : plan ≠ [])
    (hids : agentIds ≠ []) (h : createAgents ladder plan chosen agentIds ids now db = some db') :
    ¬ db'.At ladder tier := by
  intro hat
  obtain ⟨taskDefId, restPlan, rfl⟩ := List.exists_cons_of_ne_nil hplan
  obtain ⟨agentId, rest, rfl⟩ := List.exists_cons_of_ne_nil hids
  rw [createAgents, List.foldlM_cons, Option.bind_eq_bind, Option.bind_eq_some_iff] at h
  obtain ⟨mid, hfirst, hrest⟩ := h
  obtain ⟨-, -, -, -, -, -, hrow⟩ := createAgent_spec hfirst
  have hzero := hrow agentId 0
  rw [if_pos ⟨rfl, by simp⟩] at hzero
  have htask := (Db.task_of_rowAt hzero).1
  exact hne (hat.rows _ _ (createAgents_keepsTasks hrest _ _ htask))

/-- The condition on inserts is exact: one off the pin that goes through leaves a row off it. -/
theorem Sys.At.off_pin (hoff : ¬ a.OnPin cfg tier s.db) (hinsert : a.classifies = false)
    (h : step cfg s a = some s') (hwrites : s'.db ≠ s.db) : ¬ s'.At cfg tier := by
  intro hat
  cases a with
  | classify limit flags now locked => cases hinsert
  | submit forceTier plan agentIds ids now =>
      obtain ⟨htier, hids⟩ : forceTier.or cfg.ladder.baseTier ≠ some tier ∧ agentIds ≠ [] := by
        simpa [Action.OnPin] using hoff
      simp only [step] at h
      split at h
      · cases h
        exact hwrites rfl
      · rename_i db hsubmit
        cases h
        obtain ⟨hplan, -, -, chosen, hchosen, hcreate⟩ := submitAgents_spec hsubmit
        exact created_off (fun heq => htier (hchosen.trans (congrArg some heq))) hplan hids hcreate
          hat.db
  | seed plan agentIds ids now =>
      obtain ⟨hjunior, hplan, hids⟩ : tier ≠ "junior" ∧ plan ≠ [] ∧ agentIds ≠ [] := by
        simpa [Action.OnPin] using hoff
      cases h
      rw [Sys.setDb_db] at hwrites
      cases hseed : seed cfg.ladder plan agentIds ids now s.db with
      | none => exact hwrites (by rw [hseed]; rfl)
      | some db =>
          refine created_off (Ne.symm hjunior) hplan hids hseed ?_
          have hdb := hat.db
          rwa [Sys.setDb_db, hseed, Option.getD_some] at hdb
  | repair batch ids now locked =>
      obtain ⟨hbase, hstalled⟩ : cfg.ladder.baseTier ≠ some tier ∧
          stalledAgents batch locked s.db ≠ [] := by
        simpa [Action.OnPin] using hoff
      cases h
      rw [Sys.setDb_db] at hwrites
      cases hrepair : repairStalled cfg.ladder batch ids now locked s.db with
      | none => exact hwrites (by rw [hrepair]; rfl)
      | some db =>
          have hdb := hat.db.rows
          rw [Sys.setDb_db, hrepair, Option.getD_some] at hdb
          obtain ⟨ag, rest, hcons⟩ := List.exists_cons_of_ne_nil hstalled
          have hag : ag ∈ stalledAgents batch locked s.db := by simp [hcons]
          obtain ⟨-, -, -, hnone⟩ := mem_stalledAgents hag
          unfold repairStalled at hrepair
          split at hrepair
          · cases hrepair
          · rename_i base hchosen
            rw [hcons, List.foldlM_cons, Option.bind_eq_bind, Option.bind_eq_some_iff] at hrepair
            obtain ⟨mid, hfirst, hrest⟩ := hrepair
            have hkept : KeepsTasks mid db :=
              Machine.foldlM_related (r := KeepsTasks) (fun _ _ _ ht => ht)
                (fun _ _ _ hone hmore k t ht => hmore k t (hone k t ht))
                (fun _ _ _ hone => repairOne_keepsTasks hone) hrest
            unfold repairOne at hfirst
            split at hfirst
            · cases hfirst
            · simp only [hnone, Option.isSome_none, Bool.false_eq_true, if_false] at hfirst
              obtain ⟨-, -, -, -, htask, -⟩ := insertTask_spec hfirst
              have htier := hdb _ _ (hkept _ _ ((htask _).trans (if_pos rfl)))
              exact hbase (hchosen.trans (congrArg some htier))
  | _ => exact hoff trivial

end Runs

end ReliableAgents
