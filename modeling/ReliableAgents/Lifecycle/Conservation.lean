import ReliableAgents.Api.AdmissionBound
import ReliableAgents.Common.Metrics
import ReliableAgents.Lifecycle.DeadLetters
import ReliableAgents.Lifecycle.PriorContext
import ReliableAgents.Orchestrator.Tick

/-!
# What the snapshot conserves

The snapshot counts agents, tasks, dead letters and reclaims by separate queries on
separate tables. In every reachable state they add up: each agent an accepted request
opened has one status, each position of its plan one row with one status, and what a
row's status may be is settled by its agent's cursor and status.
-/

namespace ReliableAgents

open Relational

/-! ## One agent -/

def hasStatus (status : TaskStatus) (t : TaskInstance) : Bool := t.status = status

namespace AgentView

def tally (v : AgentView) (p : TaskInstance → Bool) : Nat :=
  (List.range v.agent.plan.length).countP fun i => (v.rows i).any fun t => p t.row

/-- The counts of an agent's rows and dead letters follow from its cursor and its status. -/
structure Balances (v : AgentView) : Prop where
  started : v.agent.status ≠ .pending
  rows : ∀ i, (v.rows i).isSome = true ↔ i < v.agent.plan.length
  succeeded : v.tally (hasStatus .succeeded) = v.agent.cursor
  dead : v.tally (hasStatus .dead) =
    if v.agent.status = .failed then v.agent.plan.length - v.agent.cursor else 0
  taken : v.tally (hasStatus .running) + v.tally (hasStatus .failed) ≤
    if v.agent.status = .running then 1 else 0
  deadLetters : v.deadLetters.length = if v.agent.status = .failed then 1 else 0

end AgentView

section Tallies

variable {v : AgentView}

theorem CommittedPrefix.row_status (h : CommittedPrefix v) {i : Nat} {t : TaskView}
    (ht : v.rows i = some t) :
    (t.row.status = .succeeded ↔ i < v.agent.cursor) ∧
      (t.row.status = .dead ↔ v.agent.status = .failed ∧ v.agent.cursor ≤ i) := by
  rcases lt_trichotomy i v.agent.cursor with hlt | rfl | hlt
  · have hdone := (h.behind i t ht hlt).1
    simp [hdone, hlt, hlt.not_ge]
  · have hopen : v.agent.status = .running ∨ v.agent.status = .failed := by
      cases hstatus : v.agent.status with
      | pending => exact absurd hstatus h.status
      | running => exact Or.inl rfl
      | completed => exact absurd (h.completed.1 hstatus) (h.cursor_lt ht).ne
      | failed => exact Or.inr rfl
    rcases hopen with hrunning | hfailed
    · obtain ⟨t', ht', hstatus⟩ := h.running hrunning
      rw [ht] at ht'
      cases ht'
      rcases hstatus with hstatus | hstatus | hstatus <;> simp [hstatus, hrunning]
    · obtain ⟨t', ht', hstatus⟩ := h.failed hfailed
      rw [ht] at ht'
      cases ht'
      simp [hstatus, hfailed]
  · have hahead := (h.ahead i t ht hlt).2.2.2
    split at hahead
    · rename_i hfailed
      simp [hahead, hfailed, hlt.le, hlt.le.not_gt]
    · rename_i hfailed
      simp [hahead, hfailed, hlt.le.not_gt]

theorem AgentView.tally_of_forall {p : TaskInstance → Bool} {q : Nat → Bool}
    (hrows : ∀ i, (v.rows i).isSome = true ↔ i < v.agent.plan.length)
    (h : ∀ i t, v.rows i = some t → (p t.row = true ↔ q i = true)) :
    v.tally p = (List.range v.agent.plan.length).countP q := by
  refine List.countP_congr fun i hi => ?_
  obtain ⟨t, ht⟩ := Option.isSome_iff_exists.1 ((hrows i).2 (List.mem_range.1 hi))
  simpa [ht] using h i t ht

theorem AgentView.Balances.tally_all (h : v.Balances) :
    v.tally (fun _ => true) = v.agent.plan.length := by
  rw [AgentView.tally_of_forall (q := fun _ => true) h.rows fun _ _ _ => Iff.rfl,
    List.countP_true, List.length_range]

theorem CommittedPrefix.tally_dead (h : CommittedPrefix v) :
    v.tally (hasStatus .dead) =
      if v.agent.status = .failed then v.agent.plan.length - v.agent.cursor else 0 := by
  rw [AgentView.tally_of_forall
    (q := fun i => v.agent.status = .failed && ¬ i < v.agent.cursor) h.rows]
  · split
    · rename_i hfailed
      have hsplit := List.length_eq_countP_add_countP (fun i => decide (i < v.agent.cursor))
        (l := List.range v.agent.plan.length)
      rw [countP_range_lt h.cursor_le, List.length_range] at hsplit
      simp only [hfailed, decide_true, Bool.true_and]
      simp only [decide_eq_true_eq] at hsplit
      omega
    · rename_i hfailed
      simp [hfailed]
  · intro i t ht
    simpa [hasStatus] using (h.row_status ht).2

theorem CommittedPrefix.tally_taken (h : CommittedPrefix v) :
    v.tally (hasStatus .running) + v.tally (hasStatus .failed) ≤
      if v.agent.status = .running then 1 else 0 := by
  have hactive : ∀ status : TaskStatus, status = .running ∨ status = .failed →
      ∀ i, ((v.rows i).any fun t => hasStatus status t.row) = true →
        decide (i = v.agent.cursor ∧ v.agent.status = .running) = true := by
    intro status hstatus i hany
    obtain ⟨t, ht, heq⟩ := (Option.any_eq_true _ _).1 hany
    exact decide_eq_true (h.active ht (of_decide_eq_true heq ▸ hstatus))
  refine (countP_add_le (fun i hany => ?_) (hactive .running (.inl rfl))
    (hactive .failed (.inr rfl))).trans ?_
  · obtain ⟨t, ht, heq⟩ := (Option.any_eq_true _ _).1 hany
    simp [ht, hasStatus, show t.row.status = .running from of_decide_eq_true heq]
  · split
    · rename_i hrunning
      simp only [hrunning, and_true]
      exact List.nodup_iff_count_le_one.1 List.nodup_range _
    · rename_i hrunning
      simp [hrunning]

theorem CommittedPrefix.balances (h : CommittedPrefix v) (hdead : DeadLettered v) :
    v.Balances where
  started := h.status
  rows := h.rows
  succeeded := by
    rw [AgentView.tally_of_forall (q := fun i => i < v.agent.cursor) h.rows,
      countP_range_lt h.cursor_le]
    exact fun i t ht => by simpa [hasStatus] using (h.row_status ht).1
  dead := h.tally_dead
  taken := h.tally_taken
  deadLetters := by
    split
    · rename_i hfailed
      obtain ⟨entry, -, hone, -⟩ := hdead.failed hfailed
      rw [hone, List.length_singleton]
    · rename_i hfailed
      rw [hdead.spared hfailed, List.length_nil]

/-- An agent that was given no plan is completed by the sweep, or still running. -/
theorem AgentPath.balances_empty {ladder : Ladder} {rules : Rules} {a : Uuid} {tier : TierName}
    {ids : Nat → Uuid} {now : Time} (hp : AgentPath ladder rules (.fresh a [] tier ids now) v) :
    v.Balances := by
  have hrows := AgentPath.no_rows hp rfl fun _ => rfl
  have hplan : v.agent.plan = [] := hp.plan.1
  obtain ⟨hcursor, hstatus, hdead⟩ : v.agent.cursor = 0 ∧
      (v.agent.status = .running ∨ v.agent.status = .completed) ∧ v.deadLetters = [] := by
    clear hplan hrows
    induction hp with
    | refl => exact ⟨rfl, Or.inl rfl, rfl⟩
    | @tail w _ hpast hs ih =>
        have hnone := AgentPath.no_rows hpast rfl fun _ => rfl
        cases hs with
        | claim _ _ _ ht => simp [hnone] at ht
        | row ht => simp [hnone] at ht
        | commit _ _ _ _ _ _ _ ht => simp [hnone] at ht
        | kill _ _ _ _ ht => simp [hnone] at ht
        | finalise => exact ⟨ih.1, Or.inr rfl, ih.2.2⟩
        | insert _ _ _ _ _ _ hplanned =>
            rw [(AgentPath.plan hpast).1] at hplanned
            cases hplanned
  have hfailed : v.agent.status ≠ .failed := by rcases hstatus with h | h <;> simp [h]
  have hnever : ∀ p, v.tally p = 0 := fun p => by simp [AgentView.tally, hplan]
  exact
    { started := by rcases hstatus with h | h <;> simp [h]
      rows := fun i => by simp [hrows, hplan]
      succeeded := by rw [hnever, hcursor]
      dead := by rw [hnever, if_neg hfailed]
      taken := by simp [hnever]
      deadLetters := by rw [hdead, if_neg hfailed, List.length_nil] }

theorem SysRun.balances {cfg : Config} {ts : List SysTransition} {s : Sys} (h : SysRun cfg ts s)
    {a : Uuid} (hv : s.db.view a = some v) : v.Balances := by
  obtain ⟨plan, tier, ids, now, hpath⟩ := h.agent_origin (Rules.free_holdAlong cfg ts) hv
  by_cases hplan : plan = []
  · subst hplan
    exact AgentPath.balances_empty hpath
  · have hfresh : CommittedPrefix (.fresh a plan tier ids now) := .fresh hplan
    exact (hfresh.path hpath).balances
      (DeadLettered.path (.fresh a plan tier ids now) hfresh hpath)

end Tallies

/-! ## The tables -/

/-- The agents in the order they were opened, each with its plan. -/
def Db.enrolled (db : Db) : List (Uuid × List Int) := db.agents.rows.map fun a => (a.id, a.plan)

def Db.reclaims (db : Db) : Nat := db.attempts.countP fun e => e.outcome = .reclaimed

/-- The agents a transition opens: those of an accepted request, and no others. -/
def opened (cfg : Config) (c : SysTransition) : List (Uuid × List Int) :=
  match c.action with
  | .submit forceTier plan agentIds ids now =>
      match submitAgents cfg.ladder cfg.taskDefs cfg.maxActiveAgents forceTier plan agentIds ids now
          c.before.db with
      | .error _ => []
      | .ok _ => agentIds.map fun a => (a, plan)
  | .seed plan agentIds ids now =>
      match seed cfg.ladder plan agentIds ids now c.before.db with
      | none => []
      | some _ => agentIds.map fun a => (a, plan)
  | _ => []

def reclaimed (c : SysTransition) : Nat :=
  match c.action with
  | .reap batch _ now locked => (expiredLeases batch now locked c.before.db).length
  | _ => 0

section Writes

variable {cfg : Config} {s s' : Sys} {db db' : Db} {a : Action}

theorem enrolled_of_update {p : Agent → Bool} {f : Agent → Agent}
    (hkey : ∀ ag, (f ag).id = ag.id) (hplan : ∀ ag, (f ag).plan = ag.plan)
    (h : db'.agents = db.agents.update p f hkey hkey) : db'.enrolled = db.enrolled := by
  rw [Db.enrolled, h, Table.update, List.map_map]
  refine List.map_congr_left fun ag _ => ?_
  simp only [Function.comp]
  split
  · rw [hkey, hplan]
  · rfl

theorem enrolled_of_agents (h : db'.agents = db.agents) : db'.enrolled = db.enrolled := by
  rw [Db.enrolled, h, Db.enrolled]

theorem Statement.enrolled (hcreates : a.creates = false) (h : Statement cfg s a db db') :
    db'.enrolled = db.enrolled := by
  cases h with
  | submit | seed => cases hcreates
  | renew | reclaim => exact enrolled_of_agents rfl
  | claim hclaim =>
      obtain ⟨-, -, -, -, rfl⟩ := claimOne_spec hclaim
      exact enrolled_of_agents rfl
  | ledger hledger =>
      obtain ⟨table, rfl⟩ := hledger
      exact enrolled_of_agents rfl
  | @checkpoint _ now _ task _ cost tokens _ _ _ _ hcommit =>
      rcases checkpointSuccess_spec hcommit with ⟨-, rfl⟩ | ⟨fields, -, -, -, -, -, -, -, -, -, rfl⟩
      · rfl
      · exact enrolled_of_update (f := Agent.advanced task.seq fields cost tokens now)
          (fun _ => rfl) (fun _ => rfl) rfl
  | report _ hreport =>
      rcases reportFailure_spec hreport with ⟨-, rfl⟩ | ⟨-, -, -, -, -, rfl⟩
      · rfl
      · exact enrolled_of_agents rfl
  | repair _ _ _ hrepair =>
      rcases repairOne_spec hrepair with rfl | ⟨_, -, hinsert⟩
      · rfl
      · obtain ⟨-, -, -, ⟨table, rfl⟩, -⟩ := insertTask_spec hinsert
        exact enrolled_of_agents rfl
  | @finalise _ now =>
      exact enrolled_of_update (f := Agent.finalised now) (fun _ => rfl) (fun _ => rfl) rfl
  | @route _ _ now _ _ _ _ _ _ _ hroute =>
      have hspec := routeOne_spec hroute
      split at hspec
      · rw [hspec.2]
        exact enrolled_of_agents rfl
      · rw [hspec.2]
        exact enrolled_of_agents rfl
      · obtain ⟨-, reason, hkill⟩ := hspec
        obtain ⟨-, -, -, -, -, -, -, -, -, rfl⟩ := kill_spec hkill
        exact enrolled_of_update (f := Agent.markedFailed now) (fun _ => rfl) (fun _ => rfl) rfl

theorem createAgents_enrolled {ladder : Ladder} {plan : List Int} {tier : TierName}
    {agentIds : List Uuid} {ids : Uuid → Nat → Uuid} {now : Time}
    (h : createAgents ladder plan tier agentIds ids now db = some db') :
    db'.enrolled = db.enrolled ++ agentIds.map fun b => (b, plan) := by
  unfold createAgents at h
  induction agentIds generalizing db with
  | nil =>
      cases h
      simp
  | cons b rest ih =>
      rw [List.foldlM_cons, Option.bind_eq_bind, Option.bind_eq_some_iff] at h
      obtain ⟨mid, hmid, hrest⟩ := h
      unfold createAgent at hmid
      rw [Option.bind_eq_some_iff] at hmid
      obtain ⟨inserted, hinserted, hplan⟩ := hmid
      obtain ⟨⟨table, rfl⟩, -⟩ := insertPlan_spec hplan
      obtain ⟨agents, hagents, rfl⟩ := Option.map_eq_some_iff.1 hinserted
      obtain ⟨-, -, hrows⟩ := Table.insert?_eq_some hagents
      rw [ih hrest, Db.enrolled, hrows]
      simp [Db.enrolled]

theorem step_enrolled (h : step cfg s a = some s') :
    s'.db.enrolled = s.db.enrolled ++ opened cfg ⟨s, a, s'⟩ := by
  by_cases hcreates : a.creates = true
  · cases a with
    | submit forceTier plan agentIds ids now =>
        simp only [step] at h
        simp only [opened]
        cases hsubmit : submitAgents cfg.ladder cfg.taskDefs cfg.maxActiveAgents forceTier plan
            agentIds ids now s.db with
        | error refusal =>
            rw [hsubmit] at h
            cases h
            exact (List.append_nil _).symm
        | ok db =>
            rw [hsubmit] at h
            cases h
            obtain ⟨-, -, -, tier, -, hcreate⟩ := submitAgents_spec hsubmit
            exact createAgents_enrolled hcreate
    | seed plan agentIds ids now =>
        cases h
        simp only [opened]
        cases hseed : seed cfg.ladder plan agentIds ids now s.db with
        | none => exact (List.append_nil _).symm
        | some db => exact createAgents_enrolled hseed
    | _ => cases hcreates
  · rw [Bool.not_eq_true] at hcreates
    have hsame : s'.db.enrolled = s.db.enrolled :=
      Machine.closure_invariant (I := fun db => db.enrolled = s.db.enrolled)
        (fun _ _ hpast hs => (hs.enrolled hcreates).trans hpast) rfl (step_statements h)
    cases a with
    | submit | seed => cases hcreates
    | _ => simp only [hsame, opened, List.append_nil]

/-- Only the reaper records a reclaim. -/
theorem Statement.reclaims (h : Statement cfg s a db db') :
    db'.reclaims = db.reclaims ∨ ∃ batch jitter now locked, a = .reap batch jitter now locked := by
  cases h with
  | submit _ hcreate | seed hcreate =>
      left
      rw [Db.reclaims, (createAgent_spec hcreate).2.1, Db.reclaims]
  | renew | finalise => exact Or.inl rfl
  | reclaim => exact Or.inr ⟨_, _, _, _, rfl⟩
  | claim hclaim =>
      obtain ⟨-, -, -, -, rfl⟩ := claimOne_spec hclaim
      exact Or.inl rfl
  | ledger hledger =>
      obtain ⟨table, rfl⟩ := hledger
      exact Or.inl rfl
  | checkpoint _ hcommit =>
      rcases checkpointSuccess_spec hcommit with ⟨-, rfl⟩ | ⟨fields, -, -, -, -, -, -, -, -, -, rfl⟩
      · exact Or.inl rfl
      · left
        simp [Db.reclaims, Handout.attemptRow]
  | report _ hreport =>
      rcases reportFailure_spec hreport with ⟨-, rfl⟩ | ⟨-, -, -, -, -, rfl⟩
      · exact Or.inl rfl
      · left
        simp [Db.reclaims, Handout.attemptRow]
  | repair _ _ _ hrepair =>
      rcases repairOne_spec hrepair with rfl | ⟨_, -, hinsert⟩
      · exact Or.inl rfl
      · obtain ⟨-, -, -, ⟨table, rfl⟩, -⟩ := insertTask_spec hinsert
        exact Or.inl rfl
  | route _ _ hroute =>
      have hspec := routeOne_spec hroute
      split at hspec
      · rw [hspec.2]
        exact Or.inl rfl
      · rw [hspec.2]
        exact Or.inl rfl
      · obtain ⟨-, reason, hkill⟩ := hspec
        obtain ⟨-, -, -, -, -, -, -, -, -, rfl⟩ := kill_spec hkill
        exact Or.inl rfl

theorem step_reclaims (h : step cfg s a = some s') :
    s'.db.reclaims = s.db.reclaims + reclaimed ⟨s, a, s'⟩ := by
  by_cases hreap : ∃ batch jitter now locked, a = .reap batch jitter now locked
  · obtain ⟨batch, jitter, now, locked, rfl⟩ := hreap
    cases h
    have htakes := reclaims_takes jitter now (expiredLeases batch now locked s.db) s.db
    have hrows : ((expiredLeases batch now locked s.db).map (TaskInstance.reclaimRow now)).countP
        (fun e => e.outcome = .reclaimed) = (expiredLeases batch now locked s.db).length := by
      rw [List.countP_map]
      exact List.countP_eq_length.2 fun t _ => rfl
    rw [Sys.setDb_db, reap, Db.reclaims, htakes.attempts, List.countP_append]
    exact congrArg (s.db.reclaims + ·) hrows
  · have hsame : s'.db.reclaims = s.db.reclaims :=
      Machine.closure_invariant (I := fun db => db.reclaims = s.db.reclaims)
        (fun _ _ hpast hs => (hs.reclaims.resolve_right hreap).trans hpast) rfl
        (step_statements h)
    cases a with
    | reap => exact absurd ⟨_, _, _, _, rfl⟩ hreap
    | _ => simp only [hsame, reclaimed, Nat.add_zero]

end Writes

/-! ## The snapshot -/

section Runs

variable {cfg : Config} {ts : List SysTransition} {s : Sys}

theorem SysRun.enrolled (h : SysRun cfg ts s) : s.db.enrolled = ts.flatMap (opened cfg) := by
  induction h with
  | nil => rfl
  | snoc _ hs ih =>
      rw [step_enrolled hs, ih, List.flatMap_append, List.flatMap_singleton]

theorem SysRun.reclaims (h : SysRun cfg ts s) : s.db.reclaims = (ts.map reclaimed).sum := by
  induction h with
  | nil => rfl
  | snoc _ hs ih =>
      rw [step_reclaims hs, ih, List.map_append, List.sum_append, List.map_singleton,
        List.sum_singleton]

theorem SysRun.view_of_row (h : SysRun cfg ts s) {ag : Agent} (hag : ag ∈ s.db.agents.rows) :
    ∃ v, s.db.view ag.id = some v ∧ v.agent = ag ∧ v.Balances := by
  have hget : s.db.agent ag.id = some ag := Table.get?_of_mem _ hag
  obtain ⟨v, hv, heq⟩ := Db.view_of_agent hget
  exact ⟨v, hv, heq, h.balances hv⟩

/-- The rows of the table, counted agent by agent. -/
theorem SysRun.count_tasks (h : SysRun cfg ts s) (p : TaskInstance → Bool) :
    s.db.taskInstances.count p =
      (s.db.agents.rows.map fun ag => ((s.db.view ag.id).map fun v => v.tally p).getD 0).sum := by
  rw [Table.count, countP_by_owner p TaskInstance.agentId s.db.agents.keyNodup, List.map_map]
  · refine congrArg List.sum (List.map_congr_left fun ag hag => ?_)
    obtain ⟨v, hv, rfl, hbalances⟩ := h.view_of_row hag
    rw [hv, Option.map_some, Option.getD_some]
    refine (Table.count_by_position s.db.taskInstances p v.agent.id (n := v.agent.plan.length)
      fun i t ht => ?_).trans ?_
    · refine (hbalances.rows i).1 ?_
      rw [Db.view_rows hv, Option.isSome_map]
      exact Option.isSome_iff_exists.2 ⟨t, ht⟩
    · refine List.countP_congr fun i _ => ?_
      rw [Db.view_rows hv, Option.any_map]
      rfl
  · intro t ht
    obtain ⟨ag, hag⟩ := h.sound.db.tasks t.id t (Table.get?_of_mem _ ht)
    rw [← Db.id_of_agent hag]
    exact List.mem_map_of_mem (Table.mem_of_get? hag)

theorem SysRun.count_tasks_eq (h : SysRun cfg ts s) {p : TaskInstance → Bool} {f : Agent → Nat}
    (hf : ∀ v : AgentView, v.Balances → v.tally p = f v.agent) :
    s.db.taskInstances.count p = (s.db.agents.rows.map f).sum := by
  rw [h.count_tasks]
  refine congrArg List.sum (List.map_congr_left fun ag hag => ?_)
  obtain ⟨v, hv, rfl, hbalances⟩ := h.view_of_row hag
  rw [hv, Option.map_some, Option.getD_some, hf v hbalances]

theorem SysRun.count_taken (h : SysRun cfg ts s) :
    s.db.taskInstances.count (hasStatus .running) + s.db.taskInstances.count (hasStatus .failed) ≤
      s.db.agents.count fun ag => ag.status = .running := by
  rw [h.count_tasks, h.count_tasks, ← List.sum_map_add, Table.count, ← sum_indicator]
  refine List.sum_le_sum fun ag hag => ?_
  obtain ⟨v, hv, rfl, hbalances⟩ := h.view_of_row hag
  simpa [hv] using hbalances.taken

theorem SysRun.count_deadLetters (h : SysRun cfg ts s) :
    s.db.dlq.length = s.db.agents.count fun ag => ag.status = .failed := by
  rw [← List.countP_true, countP_by_owner _ DlqEntry.agentId s.db.agents.keyNodup, List.map_map,
    Table.count, ← sum_indicator]
  · refine congrArg List.sum (List.map_congr_left fun ag hag => ?_)
    obtain ⟨v, hv, rfl, hbalances⟩ := h.view_of_row hag
    have hletters := hbalances.deadLetters
    rw [(Db.view_eq_some.1 hv).2.2] at hletters
    simpa [Db.deadLetters, List.countP_eq_length_filter] using hletters
  · intro entry hentry
    obtain ⟨ag, hag⟩ := h.sound.db.deadLetters entry hentry
    rw [← Db.id_of_agent hag]
    exact List.mem_map_of_mem (Table.mem_of_get? hag)

/-- Every agent has a row at its cursor, so no agent is stalled. -/
theorem SysRun.count_stalled (h : SysRun cfg ts s) : s.db.agents.count (stalled s.db) = 0 := by
  refine List.countP_eq_zero.2 fun ag hag hstalled => ?_
  obtain ⟨v, hv, rfl, hbalances⟩ := h.view_of_row hag
  simp only [stalled, Bool.and_eq_true, decide_eq_true_eq, Option.isNone_iff_eq_none] at hstalled
  have hrow := (hbalances.rows v.agent.cursor).2 hstalled.1.2
  rw [Db.view_rows hv, Option.isSome_map, hstalled.2] at hrow
  cases hrow

theorem count_started {rows : List Agent} (hstarted : ∀ ag ∈ rows, ag.status ≠ .pending) :
    (rows.countP fun ag => ag.status = .running) + (rows.countP fun ag => ag.status = .completed) +
      (rows.countP fun ag => ag.status = .failed) = rows.length := by
  induction rows with
  | nil => rfl
  | cons ag rest ih =>
      have hrest := ih fun b hb => hstarted b (List.mem_cons_of_mem _ hb)
      have hag := hstarted ag List.mem_cons_self
      simp only [List.countP_cons, List.length_cons]
      cases hstatus : ag.status <;> simp [hstatus] at hag ⊢ <;> omega

theorem count_statuses (rows : List TaskInstance) :
    rows.countP (hasStatus .pending) + rows.countP (hasStatus .running) +
      rows.countP (hasStatus .succeeded) + rows.countP (hasStatus .failed) +
      rows.countP (hasStatus .dead) = rows.length := by
  induction rows with
  | nil => rfl
  | cons t rest ih =>
      simp only [List.countP_cons, List.length_cons]
      cases hstatus : t.status <;> simp [hasStatus, hstatus] at ih ⊢ <;> omega

end Runs

/-- What the numbers of one snapshot have to do with each other and with the run. -/
structure Metrics.Snapshot.Conserves (m : Metrics.Snapshot) (cfg : Config)
    (ts : List SysTransition) (db : Db) : Prop where
  /-- No accepted agent is lost, added or given another plan. -/
  enrolled : db.enrolled = ts.flatMap (opened cfg)
  agents : m.agents.running + m.agents.completed + m.agents.failed =
    (ts.flatMap (opened cfg)).length
  tasks : m.tasks.total = ((ts.flatMap (opened cfg)).map fun a => a.2.length).sum
  statuses : m.tasks.pending + m.tasks.running + m.tasks.succeeded + m.tasks.failed +
    m.tasks.dead = m.tasks.total
  succeeded : m.tasks.succeeded = (db.agents.rows.map Agent.cursor).sum
  /-- What failed agents had left to do, and nothing else, is dead. -/
  dead : m.tasks.dead =
    ((db.agents.select fun a => a.status = .failed).map fun a => a.plan.length - a.cursor).sum
  /-- No agent has two tasks in hand. -/
  taken : m.tasks.running + m.tasks.failed ≤ m.agents.running
  deadLetters : m.dlqSize = m.agents.failed
  stalled : m.recovery.stalledAgents = 0
  leasesReclaimed : m.recovery.leasesReclaimed = (ts.map reclaimed).sum
  orphaned : m.recovery.orphanedLeases ≤ m.tasks.running

theorem snapshot_conserves {cfg : Config} {ts : List SysTransition} {s : Sys}
    (h : SysRun cfg ts s) {now : Time} {m : Metrics.Snapshot}
    (hm : Metrics.snapshot cfg.ladder cfg.leaseTtlSeconds now s.db = some m) :
    m.Conserves cfg ts s.db := by
  unfold Metrics.snapshot at hm
  split at hm
  · cases hm
    exact
      { enrolled := h.enrolled
        agents := by
          rw [← h.enrolled, Db.enrolled, List.length_map]
          refine count_started fun ag hag => ?_
          obtain ⟨v, -, rfl, hbalances⟩ := h.view_of_row hag
          exact hbalances.started
        tasks := by
          rw [← h.enrolled, Db.enrolled, List.map_map, ← List.countP_true]
          exact h.count_tasks_eq fun v hv => hv.tally_all
        statuses := count_statuses _
        succeeded := h.count_tasks_eq (p := hasStatus .succeeded) fun v hv => hv.succeeded
        dead := by
          have hsum := h.count_tasks_eq (p := hasStatus .dead)
            (f := fun ag => if ag.status = .failed then ag.plan.length - ag.cursor else 0)
            fun v hv => hv.dead
          have hshare := sum_share s.db.agents.rows (fun ag => ag.status = .failed)
            fun ag => ag.plan.length - ag.cursor
          simp only [decide_eq_true_eq] at hshare
          exact hsum.trans hshare
        taken := h.count_taken
        deadLetters := h.count_deadLetters
        stalled := h.count_stalled
        leasesReclaimed := h.reclaims
        orphaned := List.countP_mono_left fun t _ ht => decide_eq_true (expired_spec ht).1 }
  · cases hm

/-- A lease is reclaimed, and the next worker finds task 20 malformed. -/
def reclaimedThenDead : List Action :=
  submitPlan [20, 1] :: .claim 0 0 0 unlocked :: .reap 10 (fun _ => 0) (seconds 200) unlocked ::
    (handout 2 (seconds 201) (.raised ⟨some .poison, some "malformed input"⟩) ++ reported 2 (seconds 202))

theorem snapshot_conserves_reclaimedThenDead :
    ∃ m : Metrics.Snapshot,
      m.Conserves oneHost (ran oneHost reclaimedThenDead).1 (ran oneHost reclaimedThenDead).2.db ∧
        m.tasks.dead = 2 ∧ m.dlqSize = 1 ∧ m.recovery.leasesReclaimed = 1 := by
  have hnumbers : ((Metrics.snapshot oneHost.ladder oneHost.leaseTtlSeconds (seconds 300)
      (ran oneHost reclaimedThenDead).2.db).map fun m =>
        (m.tasks.dead, m.dlqSize, m.recovery.leasesReclaimed)) = some (2, 1, 1) := by
    decide +kernel
  obtain ⟨m, hm, heq⟩ := Option.map_eq_some_iff.1 hnumbers
  simp only [Prod.mk.injEq] at heq
  exact ⟨m, snapshot_conserves (run_ran oneHost reclaimedThenDead) hm, heq⟩

end ReliableAgents
