import ReliableAgents.Deployment
import ReliableAgents.Lifecycle.Conservation
import ReliableAgents.Lifecycle.SweepChanges
import ReliableAgents.Machine.Workflow

/-!
# The journal of the agents

What a client may see of a run: agents start, their tasks commit results, they end.
Whatever the workers, the sweeps and the crashes in between, the run shows the events of
sequential workflows, and the `agents` table is their record.
-/

namespace ReliableAgents

open Relational Workflow

abbrev AgentEvent := Event Uuid Int JsonObject

def AgentStatus.ending : AgentStatus → Option Workflow.Ending
  | .completed => some .completed
  | .failed => some .failed
  | .pending | .running => none

/-- An agent as the record of a workflow. -/
def Agent.life (ag : Agent) : Life Int JsonObject where
  plan := ag.plan
  results := ag.context.map Prod.snd
  ending := ag.status.ending

def Db.lives (db : Db) : Uuid → Option (Life Int JsonObject) := fun a => (db.agent a).map Agent.life

def Decision.kills : Decision → Bool
  | .dlq _ => true
  | _ => false

/-- What a checkpoint shows: its result, and the end of the agent if it was the last one. -/
def checkpointed (task : Handout) (fields : JsonObject) (cost tokens : Int) (started : Time)
    (workerId : WorkerId) (now : Time) (db : Db) : List AgentEvent :=
  match checkpointSuccess task (.json fields) cost tokens started workerId now db with
  | some (db', true) =>
      .advanced task.agentId task.seq fields ::
        if (db'.agent task.agentId).map Agent.status = some .completed then
          [.ended task.agentId .completed]
        else []
  | _ => []

/-- What a transition shows of the agents. -/
def observed (cfg : Config) (c : SysTransition) : List AgentEvent :=
  match c.action with
  | .submit _ _ _ _ _ | .seed _ _ _ _ => (opened cfg c).map fun b => .started b.1 b.2
  | .checkpoint p now =>
      match (c.before.workers p).phase with
      | .committing task started (.json fields) cost tokens =>
          checkpointed task fields cost tokens started (cfg.workerId p) now c.before.db
      | _ => []
  | .classify limit flags _ locked =>
      ((takeFailed limit locked c.before.db).filter fun t =>
        (decision cfg.ladder (flags t.id) t (c.before.db.evidence t.id)).kills).map fun t =>
          .ended t.agentId .failed
  | .finalise batch _ locked =>
      (exhaustedAgents batch locked c.before.db).map fun ag => .ended ag.id .completed
  | _ => []

/-! ## One agent -/

section Lives

variable {db db' : Db} {a : Uuid} {ag ag' : Agent}

theorem Db.lives_of_agent (h : db.agent a = some ag) : db.lives a = some ag.life := by
  simp [lives, h]

theorem Db.lives_of_agents (h : ∀ b, db'.agent b = db.agent b) : db'.lives = db.lives :=
  funext fun b => congrArg (Option.map Agent.life) (h b)

theorem Db.lives_update (hagent : db'.agent a = some ag)
    (hother : ∀ b, b ≠ a → db'.agent b = db.agent b) :
    db'.lives = Function.update db.lives a (some ag.life) := by
  funext b
  by_cases hb : b = a
  · rw [hb, Function.update_self, lives_of_agent hagent]
  · rw [Function.update_of_ne hb, lives, lives, hother b hb]

/-- The results of an agent are in the order of its plan, one for each position behind the
cursor. -/
structure Agent.Ordered (ag : Agent) : Prop where
  keys : ag.context.map Prod.fst = List.range ag.cursor
  within : ag.cursor ≤ ag.plan.length

theorem Agent.Ordered.results (h : ag.Ordered) : ag.life.results.length = ag.cursor := by
  have hlength := congrArg List.length h.keys
  simpa [Agent.life] using hlength

theorem Agent.life_open (ag : Agent) (h : ag.status = .running) : ag.life.ending = none := by
  simp [life, AgentStatus.ending, h]

theorem Agent.Ordered.advance (h : ag.Ordered) (hrunning : ag.status = .running)
    (hlt : ag.cursor < ag.plan.length) (fields : JsonObject) :
    ag.life.advance ag.cursor fields =
      some { plan := ag.plan, results := ag.life.results ++ [fields] } := by
  rw [Life.advance_eq (ag.life_open hrunning) h.results.symm hlt, ag.life_open hrunning]
  rfl

theorem Agent.Ordered.advanced_life (h : ag.Ordered) (hrunning : ag.status = .running)
    (fields : JsonObject) (cost tokens : Int) (now : Time) :
    (ag.advanced ag.cursor fields cost tokens now).life =
      { plan := ag.plan
        results := ag.life.results ++ [fields]
        ending := if ag.plan.length ≤ ag.cursor + 1 then some .completed else none } := by
  have hfresh : ag.cursor ∉ ag.context.map Prod.fst := by
    rw [h.keys, List.mem_range]
    exact lt_irrefl _
  simp only [Agent.life, Agent.advanced, Context.merge_of_fresh fields hfresh, List.map_append,
    List.map_singleton, hrunning, ge_iff_le]
  split <;> rfl

theorem SysRun.ordered {cfg : Config} {ts : List SysTransition} {s : Sys} (h : SysRun cfg ts s)
    (hag : s.db.agent a = some ag) : ag.Ordered := by
  obtain ⟨v, hv, rfl⟩ := Db.view_of_agent hag
  obtain ⟨plan, tier, ids, now, hpath⟩ := h.agent_origin (Rules.free_holdAlong cfg ts) hv
  by_cases hplan : plan = []
  · subst hplan
    -- without a plan nothing but the finalisation happens
    have hempty : (∀ i, v.rows i = none) ∧ v.agent.plan = [] ∧ v.agent.context = [] ∧
        v.agent.cursor = 0 := by
      refine Machine.closure_invariant (I := fun w : AgentView => (∀ i, w.rows i = none) ∧
        w.agent.plan = [] ∧ w.agent.context = [] ∧ w.agent.cursor = 0) ?_
        ⟨fun _ => rfl, rfl, rfl, rfl⟩ hpath
      rintro w w' ⟨hnone, hnil, hcontext, hcursor⟩ hs
      cases hs with
      | claim _ _ _ ht => cases (hnone _).symm.trans ht
      | row ht => cases (hnone _).symm.trans ht
      | commit _ _ _ _ _ _ _ ht => cases (hnone _).symm.trans ht
      | kill _ _ _ _ ht => cases (hnone _).symm.trans ht
      | finalise => exact ⟨hnone, hnil, hcontext, hcursor⟩
      | insert _ _ _ _ _ _ hplanned => simp [hnil] at hplanned
    obtain ⟨-, -, hcontext, hcursor⟩ := hempty
    exact ⟨by simp [hcontext, hcursor], hcursor ▸ Nat.zero_le _⟩
  · have hcommitted := (CommittedPrefix.fresh hplan).path hpath
    exact ⟨hcommitted.keys, hcommitted.cursor_le⟩

end Lives

/-! ## Each transition shows what it does -/

section Shows

variable {cfg : Config} {ts : List SysTransition} {s s' : Sys} {db db' : Db}

theorem createAgents_lives {ladder : Ladder} {plan : List Int} {tier : TierName}
    {agentIds : List Uuid} {ids : Uuid → Nat → Uuid} {now : Time}
    (h : createAgents ladder plan tier agentIds ids now db = some db') :
    Workflow.replay db.lives ((agentIds.map fun b => (b, plan)).map fun b => .started b.1 b.2) =
      some db'.lives := by
  unfold createAgents at h
  induction agentIds generalizing db with
  | nil =>
      cases h
      rfl
  | cons b rest ih =>
      rw [List.foldlM_cons, Option.bind_eq_bind, Option.bind_eq_some_iff] at h
      obtain ⟨mid, hmid, hrest⟩ := h
      obtain ⟨hnone, -, -, hagents, -⟩ := createAgent_spec hmid
      have hstart : apply db.lives (.started b plan) = some mid.lives := by
        have hfresh : mid.agent b = some (.fresh b plan now) := by rw [hagents, if_pos rfl]
        have hlives : mid.lives =
            Function.update db.lives b (some (Agent.fresh b plan now).life) :=
          Db.lives_update hfresh fun k hk => by rw [hagents, if_neg hk]
        have hfree : db.lives b = none := by simp [Db.lives, hnone]
        rw [apply_started hfree, hlives]
        rfl
      rw [List.map_cons, List.map_cons, replay_cons hstart]
      exact ih hrest

theorem checkpointSuccess_agent {task : Handout} {fields : JsonObject} {cost tokens : Int}
    {started : Time} {workerId : WorkerId} {now : Time} {ok : Bool}
    (h : checkpointSuccess task (.json fields) cost tokens started workerId now db =
      some (db', ok)) :
    ok = false ∧ db' = db ∨ ok = true ∧ (∃ t, db.task task.id = some t ∧ t.status = .running) ∧
      ∃ ag, db.agent task.agentId = some ag ∧ ag.cursor = task.seq ∧
        ∀ b, db'.agent b =
          if b = task.agentId then some (ag.advanced task.seq fields cost tokens now)
          else db.agent b := by
  rcases checkpointSuccess_spec h with
    ⟨rfl, rfl⟩ | ⟨_, t, ag, rfl, heq, ht, -, hrunning, hag, hcursor, rfl⟩
  · exact Or.inl ⟨rfl, rfl⟩
  · cases heq
    refine Or.inr ⟨rfl, ⟨t, ht, hrunning⟩, ag, hag, hcursor, fun b => ?_⟩
    have hself : (decide (ag.id = task.agentId) && decide (ag.cursor = task.seq)) = true := by
      simp [hcursor, Db.id_of_agent hag]
    have hone : ∀ r : Agent, (decide (r.id = task.agentId) && decide (r.cursor = task.seq)) = true →
        r.id = task.agentId := by
      intro r hr
      simp only [Bool.and_eq_true, decide_eq_true_eq] at hr
      exact hr.1
    exact @Table.get?_update_one _ _ _ _ _ _ db.agents _
      (Agent.advanced task.seq fields cost tokens now) (fun _ => rfl) (fun _ => rfl) _ _ hag hself
      hone b

theorem checkpointed_lives {task : Handout} {fields : JsonObject} {cost tokens : Int}
    {started : Time} {workerId : WorkerId} {now : Time} {ok : Bool}
    (hagent : ∀ t ag, db.task task.id = some t → t.status = .running →
      db.agent task.agentId = some ag →
        ag.Ordered ∧ ag.status = .running ∧ ag.cursor < ag.plan.length)
    (h : checkpointSuccess task (.json fields) cost tokens started workerId now db =
      some (db', ok)) :
    Workflow.replay db.lives (checkpointed task fields cost tokens started workerId now db) =
      some db'.lives := by
  unfold checkpointed
  rw [h]
  rcases checkpointSuccess_agent h with
    ⟨rfl, rfl⟩ | ⟨rfl, ⟨t, ht, hleased⟩, ag, hag, hcursor, hagents⟩
  · rfl
  obtain ⟨hordered, hrunning, hlt⟩ := hagent t ag ht hleased hag
  have hnext : db'.agent task.agentId = some (ag.advanced task.seq fields cost tokens now) := by
    rw [hagents, if_pos rfl]
  have hlives : db'.lives = Function.update db.lives task.agentId
      (some (ag.advanced task.seq fields cost tokens now).life) :=
    Db.lives_update hnext fun b hb => by rw [hagents, if_neg hb]
  have hadvance := hordered.advance hrunning hlt fields
  have hlife := hordered.advanced_life hrunning fields cost tokens now
  rw [hcursor] at hadvance hlife
  rw [replay_cons (apply_advanced (Db.lives_of_agent hag) hadvance), hlives, hnext, hlife,
    Option.map_some, Agent.advanced_status, hrunning, ← hcursor]
  by_cases hlast : ag.plan.length ≤ ag.cursor + 1
  · have hfull : (ag.life.results ++ [fields]).length = ag.plan.length := by
      rw [List.length_append, hordered.results, List.length_singleton]
      omega
    have hfinish := @Life.finish_eq _ _ { plan := ag.plan, results := ag.life.results ++ [fields] }
      rfl .completed fun _ => hfull
    rw [if_pos hlast, if_pos rfl, if_pos hlast,
      replay_cons (apply_ended (Function.update_self _ _ _) hfinish), Function.update_idem]
    rfl
  · rw [if_neg hlast, if_neg (by decide), if_neg hlast]
    rfl

theorem performAll_agent (writes : List Write) (db : Db) (b : Uuid) :
    (writes.foldl Write.perform db).agent b =
      (db.agent b).map fun ag => writes.foldl Write.onAgent ag := by
  induction writes generalizing db with
  | nil => simp
  | cons w rest ih =>
      rw [List.foldl_cons, ih, w.perform_agent, Option.map_map]
      rfl

theorem foldl_onAgent_life (writes : List Write) (ag : Agent) :
    (writes.foldl Write.onAgent ag).life =
      if ag.id ∈ writes.filterMap Write.agent? then { ag.life with ending := some .failed }
      else ag.life := by
  induction writes generalizing ag with
  | nil => rfl
  | cons w rest ih =>
      rw [List.foldl_cons, ih, Write.onAgent_id]
      cases w with
      | retry | promote => rfl
      | kill task entry siblings cancelReason now =>
          by_cases hag : ag.id = task.agentId
          · simp [Write.agent?, Write.onAgent, hag, Agent.life, AgentStatus.ending]
          · simp [Write.agent?, Write.onAgent, hag]

theorem mem_killed {ladder : Ladder} {flags : Uuid → Flags} {now : Time} {rows : List TaskInstance}
    (hclass : ∀ t ∈ rows, t.failureClass ≠ none) {b : Uuid} :
    b ∈ (rows.filterMap fun t => routeWrite ladder (flags t.id) now t db).filterMap Write.agent? ↔
      b ∈ (rows.filter fun t => (decision ladder (flags t.id) t (db.evidence t.id)).kills).map
        TaskInstance.agentId := by
  have hrow : ∀ t ∈ rows, (routeWrite ladder (flags t.id) now t db).bind Write.agent? = some b ↔
      (decision ladder (flags t.id) t (db.evidence t.id)).kills = true ∧ t.agentId = b := by
    intro t ht
    obtain ⟨failureClass, hfc⟩ := Option.ne_none_iff_exists'.1 (hclass t ht)
    unfold routeWrite
    cases decision ladder (flags t.id) t (db.evidence t.id) <;>
      simp [Decision.kills, Write.agent?, hfc]
  rw [List.filterMap_filterMap, List.mem_filterMap, List.mem_map]
  constructor
  · rintro ⟨t, ht, heq⟩
    obtain ⟨hkills, hagent⟩ := (hrow t ht).1 heq
    exact ⟨t, List.mem_filter.2 ⟨ht, hkills⟩, hagent⟩
  · rintro ⟨t, ht, hagent⟩
    obtain ⟨hmem, hkills⟩ := List.mem_filter.1 ht
    exact ⟨t, hmem, (hrow t hmem).2 ⟨hkills, hagent⟩⟩

theorem classify_lives {ladder : Ladder} {limit : Nat} {flags : Uuid → Flags} {now : Time}
    {locked : Uuid → Bool} (hcursor : db.AtCursor)
    (hrunning : ∀ t ∈ takeFailed limit locked db, ∃ ag, db.agent t.agentId = some ag ∧
      ag.status = .running) :
    ∃ db', classify ladder limit flags now locked db = some db' ∧
      Workflow.replay db.lives (((takeFailed limit locked db).filter fun t =>
        (decision ladder (flags t.id) t (db.evidence t.id)).kills).map fun t =>
          .ended t.agentId .failed) = some db'.lives := by
  have hrows : ∀ t ∈ takeFailed limit locked db, db.task t.id = some t ∧ t.status = .failed ∧
      t.failureClass ≠ none := by
    intro t ht
    obtain ⟨hget, hfailed⟩ := mem_takeFailed ht
    exact ⟨hget, hfailed, hcursor.classed _ t hget hfailed⟩
  have hagents := hcursor.agents_nodup (takeFailed_nodup limit locked db) fun t ht =>
    mem_takeFailed ht
  refine ⟨_, classify_eq_performAll flags hagents hrows, ?_⟩
  have hnodup : (((takeFailed limit locked db).filter fun t =>
      (decision ladder (flags t.id) t (db.evidence t.id)).kills).map TaskInstance.agentId).Nodup :=
    hagents.sublist (List.filter_sublist.map _)
  have hfails : ∀ b ∈ ((takeFailed limit locked db).filter fun t =>
      (decision ladder (flags t.id) t (db.evidence t.id)).kills).map TaskInstance.agentId,
      ∃ ag, db.agent b = some ag ∧
        ag.life.finish .failed = some { ag.life with ending := some .failed } := by
    intro b hb
    obtain ⟨t, ht, rfl⟩ := List.mem_map.1 hb
    obtain ⟨ag, hag, hstatus⟩ := hrunning t (List.mem_filter.1 ht).1
    exact ⟨ag, hag, Life.finish_eq (ag.life_open hstatus) fun heq => by cases heq⟩
  have hids := replay_ended .failed hnodup fun b hb => by
    obtain ⟨ag, hag, hfinish⟩ := hfails b hb
    exact ⟨_, _, Db.lives_of_agent hag, hfinish⟩
  rw [List.map_map] at hids
  refine hids.trans (congrArg some (funext fun b => ?_))
  rw [Db.lives, Db.lives, performAll_agent, Option.map_map]
  have hkilled := @mem_killed db ladder flags now _ (fun t ht => (hrows t ht).2.2) b
  cases hag : db.agent b with
  | none => simp
  | some ag =>
      have hid : ag.id = b := Db.id_of_agent hag
      rw [Option.map_some, Option.map_some, Option.bind_some, Function.comp_apply,
        foldl_onAgent_life, hid]
      split
      · rename_i hb
        obtain ⟨ag', hag', hfinish⟩ := hfails b hb
        cases hag.symm.trans hag'
        rw [if_pos (hkilled.2 hb), hfinish]
      · rename_i hb
        rw [if_neg fun hmem => hb (hkilled.1 hmem)]

theorem finaliseAgents_lives {batch : Nat} {now : Time} {locked : Uuid → Bool}
    (hordered : ∀ a ag, db.agent a = some ag → ag.Ordered) :
    Workflow.replay db.lives ((exhaustedAgents batch locked db).map fun ag =>
      .ended ag.id .completed) = some (finaliseAgents batch now locked db).lives := by
  have hnodup : ((exhaustedAgents batch locked db).map Agent.id).Nodup :=
    orderedBatch_map_nodup _ _ _ (Table.select_map_nodup _ _)
  have hcompletes : ∀ b ∈ (exhaustedAgents batch locked db).map Agent.id,
      ∃ ag, db.agent b = some ag ∧
        ag.life.finish .completed = some { ag.life with ending := some .completed } := by
    intro b hb
    obtain ⟨ag, hmem, rfl⟩ := List.mem_map.1 hb
    obtain ⟨hag, hrunning, hover, -⟩ := mem_exhaustedAgents hmem
    refine ⟨ag, hag, Life.finish_eq (ag.life_open hrunning) fun _ => ?_⟩
    rw [(hordered _ ag hag).results]
    exact le_antisymm (hordered _ ag hag).within hover
  have hids := replay_ended .completed hnodup fun b hb => by
    obtain ⟨ag, hag, hfinish⟩ := hcompletes b hb
    exact ⟨_, _, Db.lives_of_agent hag, hfinish⟩
  rw [List.map_map] at hids
  refine hids.trans (congrArg some (funext fun b => ?_))
  have hagents : (finaliseAgents batch now locked db).agent b =
      (db.agent b).map fun ag =>
        if ag.id ∈ (exhaustedAgents batch locked db).map Agent.id then ag.finalised now else ag := by
    simpa [finaliseAgents, Db.agent] using Table.get?_update db.agents
      (fun ag => ag.id ∈ (exhaustedAgents batch locked db).map Agent.id) (Agent.finalised now)
      (fun _ => rfl) (fun _ => rfl) b
  rw [Db.lives, Db.lives, hagents, Option.map_map]
  cases hag : db.agent b with
  | none => simp
  | some ag =>
      have hid : ag.id = b := Db.id_of_agent hag
      rw [Option.map_some, Option.map_some, Option.bind_some, Function.comp_apply, hid]
      split
      · rename_i hb
        obtain ⟨ag', hag', hfinish⟩ := hcompletes b hb
        cases hag.symm.trans hag'
        rw [hfinish]
        rfl
      · rfl

end Shows

/-! ## Runs -/

/-- The transactions that open, commit, kill or finalise. -/
def Action.shows : Action → Bool
  | .submit _ _ _ _ _ | .seed _ _ _ _ | .checkpoint _ _ | .classify _ _ _ _ | .finalise _ _ _ =>
      true
  | _ => false

section Runs

variable {cfg : Config} {ts : List SysTransition} {s s' : Sys} {db db' : Db} {a : Action}

theorem Statement.agents_eq (hshows : a.shows = false) (h : Statement cfg s a db db') :
    db'.agents = db.agents := by
  cases h with
  | submit | seed | checkpoint | route | finalise => cases hshows
  | renew | reclaim => rfl
  | claim hclaim =>
      obtain ⟨-, -, -, -, rfl⟩ := claimOne_spec hclaim
      rfl
  | ledger hledger =>
      obtain ⟨table, rfl⟩ := hledger
      rfl
  | report _ hreport =>
      rcases reportFailure_spec hreport with ⟨-, rfl⟩ | ⟨-, -, -, -, -, rfl⟩
      · rfl
      · rfl
  | repair _ _ _ hrepair =>
      rcases repairOne_spec hrepair with rfl | ⟨_, -, hinsert⟩
      · rfl
      · obtain ⟨-, -, -, ⟨table, rfl⟩, -⟩ := insertTask_spec hinsert
        rfl

/-- The agent of a task in hand, or failed, is running and stands at it. -/
theorem SysRun.agent_of_active (h : SysRun cfg ts s) {t : TaskInstance}
    (ht : s.db.task t.id = some t) (hactive : t.active) :
    ∃ ag, s.db.agent t.agentId = some ag ∧ ag.status = .running ∧ ag.cursor < ag.plan.length := by
  obtain ⟨v, hv, hcommitted⟩ := h.committedPrefix ht
  have hagent := (Db.view_eq_some.1 hv).1
  have hrow := Db.view_row_of_task ht hv
  obtain ⟨ag, hag, hcursor⟩ := h.atCursor.active _ t ht hactive
  cases hagent.symm.trans hag
  rw [← hcursor] at hrow
  have hlt : v.agent.cursor < v.agent.plan.length :=
    (hcommitted.rows _).1 (by rw [hrow, Option.isSome_some])
  refine ⟨v.agent, hagent, ?_, hlt⟩
  cases hstatus : v.agent.status with
  | running => rfl
  | pending => exact absurd hstatus hcommitted.status
  | completed => exact absurd (hcommitted.completed.1 hstatus) hlt.ne
  | failed =>
      obtain ⟨u, hu, hdead⟩ := hcommitted.failed hstatus
      rw [hrow] at hu
      cases hu
      rcases hactive with hleased | hfailed
      · cases hleased.symm.trans hdead
      · cases hfailed.symm.trans hdead

/-- Every transition shows events that are legal for the agents as they are, and leaves the
agents that these events make. -/
theorem step_lives (hrun : SysRun cfg ts s) (h : step cfg s a = some s') :
    Workflow.replay s.db.lives (observed cfg ⟨s, a, s'⟩) = some s'.db.lives := by
  by_cases hshows : a.shows = true
  · cases a with
    | submit forceTier plan agentIds ids now =>
        simp only [step] at h
        simp only [observed, opened]
        cases hsubmit : submitAgents cfg.ladder cfg.taskDefs cfg.maxActiveAgents forceTier plan
            agentIds ids now s.db with
        | error refusal =>
            rw [hsubmit] at h
            cases h
            rfl
        | ok db =>
            rw [hsubmit] at h
            cases h
            obtain ⟨-, -, -, tier, -, hcreate⟩ := submitAgents_spec hsubmit
            exact createAgents_lives hcreate
    | seed plan agentIds ids now =>
        cases h
        simp only [observed, opened]
        cases hseed : seed cfg.ladder plan agentIds ids now s.db with
        | none => rfl
        | some db => exact createAgents_lives hseed
    | checkpoint p now =>
        simp only [step] at h
        simp only [observed]
        cases hphase : (s.workers p).phase with
        | committing task started result cost tokens =>
            rw [hphase] at h
            cases hcommit : checkpointSuccess task result cost tokens started (cfg.workerId p) now
                s.db with
            | none =>
                simp only [hcommit] at h
                cases h
                cases result with
                | unstorable => rfl
                | json fields => simp [checkpointed, hcommit, Workflow.replay]
            | some committed =>
                simp only [hcommit] at h
                cases h
                cases result with
                | unstorable => cases hcommit
                | json fields =>
                    refine checkpointed_lives (fun t ag ht hleased hag => ?_) hcommit
                    obtain ⟨u, hu, hof⟩ := hrun.sound.handouts p task (by rw [hphase]; rfl)
                    cases ht.symm.trans hu
                    have hself : s.db.task t.id = some t := hof.id ▸ ht
                    obtain ⟨ag', hag', hrunning, hlt⟩ := hrun.agent_of_active hself (Or.inl hleased)
                    rw [hof.agentId] at hag
                    cases hag.symm.trans hag'
                    exact ⟨hrun.ordered hag, hrunning, hlt⟩
        | _ =>
            rw [hphase] at h
            cases h
    | classify limit flags now locked =>
        cases h
        obtain ⟨db', hclassify, hreplay⟩ := @classify_lives s.db cfg.ladder limit flags now locked
          hrun.atCursor fun t ht => by
            obtain ⟨hget, hfailed⟩ := mem_takeFailed ht
            obtain ⟨ag, hag, hrunning, -⟩ := hrun.agent_of_active hget (Or.inr hfailed)
            exact ⟨ag, hag, hrunning⟩
        simp only [observed, hclassify, Option.getD_some, Sys.setDb_db]
        exact hreplay
    | finalise batch now locked =>
        cases h
        exact finaliseAgents_lives fun b ag hag => hrun.ordered hag
    | _ => cases hshows
  · rw [Bool.not_eq_true] at hshows
    have hagents : s'.db.agents = s.db.agents :=
      Machine.closure_invariant (I := fun db => db.agents = s.db.agents)
        (fun _ _ hpast hs => (hs.agents_eq hshows).trans hpast) rfl (step_statements h)
    have hlives : s'.db.lives = s.db.lives :=
      Db.lives_of_agents fun b => by rw [Db.agent, hagents, Db.agent]
    rw [hlives]
    cases a with
    | submit | seed | checkpoint | classify | finalise => cases hshows
    | _ => rfl

/-- A run shows the events of sequential workflows, and the `agents` table is their record: what
has happened to an agent can be read off its row. -/
theorem workflow_refined (h : SysRun cfg ts s) :
    Workflow.replay (fun _ => none) (ts.flatMap (observed cfg)) = some s.db.lives ∧
      ∀ b, (ts.flatMap (observed cfg)).filter (fun e => e.about = b) = historyOf s.db.lives b := by
  have hreplay : Workflow.replay (fun _ => none) (ts.flatMap (observed cfg)) =
      some s.db.lives := by
    induction h with
    | nil => rfl
    | snoc hpast hs ih =>
        rw [List.flatMap_append, List.flatMap_singleton, replay_append, ih, Option.bind_some]
        exact step_lives hpast hs
  exact ⟨hreplay, replay_historyOf hreplay⟩

theorem workflow_refined_escalation :
    ((ran oneHost escalation).1.flatMap (observed oneHost)).filter
        (fun e => e.about = firstAgent) =
      [.started firstAgent [20, 1], .advanced firstAgent 0 (.cons "correlated" (.bool true) .nil)] := by
  have hrow : historyOf (ran oneHost escalation).2.db.lives firstAgent =
      [.started firstAgent [20, 1],
        .advanced firstAgent 0 (.cons "correlated" (.bool true) .nil)] := by
    decide +kernel
  exact ((workflow_refined (run_ran oneHost escalation)).2 firstAgent).trans hrow

end Runs

end ReliableAgents
