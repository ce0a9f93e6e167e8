import ReliableAgents.Common.Metrics
import ReliableAgents.Lifecycle.Refinement
import ReliableAgents.Lifecycle.Statements
import ReliableAgents.Deployment

/-!
# Two ledgers of the cost

What an agent cost is kept on its row and again in its evidence. A step posts to
both at once: the rows it adds to `attempts` say by how much each agent's account
grew, whoever else acted in between.
-/

namespace ReliableAgents

open Relational

abbrev Account := Int × Int × Nat

def Agent.account (a : Agent) : Account := (a.costUnits, a.tokensUsed, a.cursor)

def Attempt.account (e : Attempt) : Account :=
  (e.costUnits, e.tokens, if e.outcome = .succeeded then 1 else 0)

def Db.attemptsOf (db : Db) (a : Uuid) : List Attempt := db.attempts.filter fun e => e.agentId = a

def Db.account (db : Db) (a : Uuid) : Account := ((db.agent a).map Agent.account).getD 0

/-- What evidence charges to `a`. -/
def posted (a : Uuid) (attempts : List Attempt) : Account :=
  ((attempts.filter fun e => e.agentId = a).map Attempt.account).sum

theorem posted_append (a : Uuid) (old new : List Attempt) :
    posted a (old ++ new) = posted a old + posted a new := by
  simp [posted]

theorem posted_eq (a : Uuid) (attempts : List Attempt) :
    posted a attempts =
      (((attempts.filter fun e => e.agentId = a).map Attempt.costUnits).sum,
        ((attempts.filter fun e => e.agentId = a).map Attempt.tokens).sum,
        (attempts.filter fun e => e.agentId = a).countP fun e => e.outcome = .succeeded) := by
  unfold posted
  induction attempts.filter fun e => e.agentId = a with
  | nil => rfl
  | cons e rest ih =>
      rw [List.map_cons, List.sum_cons, ih]
      simp [Attempt.account, List.countP_cons, Nat.add_comm]

theorem posted_of_free {a : Uuid} {new : List Attempt} (h : ∀ e ∈ new, e.account = 0) :
    posted a new = 0 := by
  refine List.sum_eq_zero fun x hx => ?_
  obtain ⟨e, he, rfl⟩ := List.mem_map.1 hx
  exact h e (List.mem_of_mem_filter he)

/-- Between `db` and `db'` the evidence grew by `new`, and each account by what `new`
charges to it. -/
structure Posts (db db' : Db) (new : List Attempt) : Prop where
  attempts : db'.attempts = db.attempts ++ new
  accounts : ∀ a, db'.account a = db.account a + posted a new
  free : ∀ e ∈ new, e.outcome ≠ .succeeded → e.account = 0

section Posts

variable {cfg : Config} {s : Sys} {act : Action} {db db' db'' : Db} {new new' : List Attempt}

theorem Posts.refl (db : Db) : Posts db db [] where
  attempts := (List.append_nil _).symm
  accounts := fun _ => (add_zero _).symm
  free := fun _ he => by cases he

theorem Posts.trans (h : Posts db db' new) (h' : Posts db' db'' new') :
    Posts db db'' (new ++ new') where
  attempts := by rw [h'.attempts, h.attempts, List.append_assoc]
  accounts := fun a => by rw [h'.accounts, h.accounts, posted_append, add_assoc]
  free := fun e he => (List.mem_append.1 he).elim (h.free e) (h'.free e)

/-- Where no account changes, the new evidence is free. -/
theorem Posts.quiet (hattempts : db'.attempts = db.attempts ++ new)
    (hfree : ∀ e ∈ new, e.account = 0) (haccounts : ∀ a, db'.account a = db.account a) :
    Posts db db' new where
  attempts := hattempts
  accounts := fun a => by rw [posted_of_free hfree, add_zero, haccounts]
  free := fun e he _ => hfree e he

theorem Posts.unchanged (hattempts : db'.attempts = db.attempts) (hagents : db'.agents = db.agents) :
    Posts db db' [] :=
  .quiet (hattempts.trans (List.append_nil _).symm) (by simp)
    (fun a => by rw [Db.account, Db.agent, hagents]; rfl)

theorem posts_of_agents {p : Agent → Bool} {f : Agent → Agent} (hkey : ∀ a, (f a).id = a.id)
    (huniq : ∀ a, (f a).id = a.id) (hsame : ∀ a, (f a).account = a.account)
    (hattempts : db'.attempts = db.attempts)
    (hagents : db'.agents = db.agents.update p f hkey huniq) : Posts db db' [] := by
  refine .quiet (hattempts.trans (List.append_nil _).symm) (by simp) fun a => ?_
  rw [Db.account, Db.agent, hagents, Table.get?_update, Option.map_map, Db.account, Db.agent]
  congr 2
  funext ag
  simp only [Function.comp]
  split
  · exact hsame ag
  · rfl

/-- The row of a checkpoint says what its agent was advanced by. -/
theorem posts_checkpoint {task : Handout} {result : PyDict} {cost tokens : Int} {started : Time}
    {workerId : WorkerId} {now : Time} {ok : Bool}
    (h : checkpointSuccess task result cost tokens started workerId now db = some (db', ok)) :
    ∃ new, Posts db db' new := by
  rcases checkpointSuccess_spec h with ⟨-, rfl⟩ | ⟨fields, t, a, -, -, -, -, -, ha, hcursor, rfl⟩
  · exact ⟨[], .refl _⟩
  have hid := Db.id_of_agent ha
  have hagent : ∀ b, (db.agents.update (fun a => a.id = task.agentId && a.cursor = task.seq)
      (Agent.advanced task.seq fields cost tokens now)).get? b =
        if b = task.agentId then some (a.advanced task.seq fields cost tokens now)
        else db.agent b :=
    Table.get?_update_one ha (by simp [hid, hcursor]) (by simp +contextual)
  refine ⟨_, rfl, fun b => ?_, by simp [Handout.attemptRow]⟩
  by_cases hb : b = task.agentId
  · subst hb
    rw [Db.account, Db.agent, hagent, if_pos rfl, Db.account, ha]
    simp [posted, Handout.attemptRow, Attempt.account, Agent.account]
  · have hother : ¬ task.agentId = b := fun he => hb he.symm
    rw [Db.account, Db.agent, hagent, if_neg hb, Db.account]
    simp [posted, Handout.attemptRow, hother]

theorem posts_createAgent {ladder : Ladder} {plan : List Int} {tier : TierName}
    {ids : Uuid → Nat → Uuid} {now : Time} {agentId : Uuid}
    (h : createAgent ladder plan tier ids now db agentId = some db') : Posts db db' [] := by
  obtain ⟨hnone, hattempts, -, hagent, -⟩ := createAgent_spec h
  refine .quiet (hattempts.trans (List.append_nil _).symm) (by simp) fun a => ?_
  rw [Db.account, hagent, Db.account]
  split
  · rename_i ha
    rw [ha, hnone]
    rfl
  · rfl

theorem Statement.posts (h : Statement cfg s act db db') : ∃ new, Posts db db' new := by
  cases h with
  | renew => exact ⟨[], .unchanged rfl rfl⟩
  | claim hclaim =>
      obtain ⟨-, -, -, -, rfl⟩ := claimOne_spec hclaim
      exact ⟨[], .unchanged rfl rfl⟩
  | ledger hledger =>
      obtain ⟨table, rfl⟩ := hledger
      exact ⟨[], .unchanged rfl rfl⟩
  | checkpoint _ hcommit => exact posts_checkpoint hcommit
  | report _ hreport =>
      rcases reportFailure_spec hreport with ⟨-, rfl⟩ | ⟨-, -, -, -, -, rfl⟩
      · exact ⟨[], .refl _⟩
      · exact ⟨_, .quiet rfl (by simp [Handout.attemptRow, Attempt.account]) fun a => rfl⟩
  | reclaim =>
      exact ⟨_, .quiet rfl (by simp [TaskInstance.reclaimRow, Attempt.account]) fun a => rfl⟩
  | repair _ _ _ hrepair =>
      rcases repairOne_spec hrepair with rfl | ⟨_, -, hinsert⟩
      · exact ⟨[], .refl _⟩
      · obtain ⟨-, -, -, ⟨table, rfl⟩, -⟩ := insertTask_spec hinsert
        exact ⟨[], .unchanged rfl rfl⟩
  | @finalise _ now =>
      refine ⟨[], posts_of_agents (f := Agent.finalised now) (fun _ => rfl) (fun _ => rfl) ?_ rfl
        rfl⟩
      exact fun _ => rfl
  | @route _ _ now _ _ _ _ _ _ _ hroute =>
      have hspec := routeOne_spec hroute
      split at hspec
      · rw [hspec.2]
        exact ⟨[], .unchanged rfl rfl⟩
      · rw [hspec.2]
        exact ⟨[], .unchanged rfl rfl⟩
      · obtain ⟨-, reason, hkill⟩ := hspec
        obtain ⟨-, -, -, -, -, -, -, -, -, rfl⟩ := kill_spec hkill
        refine ⟨[], posts_of_agents (f := Agent.markedFailed now) (fun _ => rfl) (fun _ => rfl) ?_
          rfl rfl⟩
        exact fun _ => rfl
  | submit _ hcreate => exact ⟨[], posts_createAgent hcreate⟩
  | seed hcreate => exact ⟨[], posts_createAgent hcreate⟩

theorem step_posts {s' : Sys} (h : step cfg s act = some s') : ∃ new, Posts s.db s'.db new := by
  refine Machine.closure_invariant (I := fun db => ∃ new, Posts s.db db new) ?_ ⟨[], .refl _⟩
    (step_statements h)
  rintro u v ⟨new, hposts⟩ hs
  obtain ⟨new', hposts'⟩ := hs.posts
  exact ⟨new ++ new', hposts.trans hposts'⟩

end Posts

/-! ## Runs -/

section Runs

variable {cfg : Config} {rules : Rules} {ts : List SysTransition} {s : Sys}

theorem TaskPath.evidence_agentId {ladder : Ladder} {v v' : TaskView}
    (hp : TaskPath ladder rules v v') (h : ∀ e ∈ v.evidence, e.agentId = v.row.agentId) :
    ∀ e ∈ v'.evidence, e.agentId = v'.row.agentId := by
  refine Machine.closure_invariant
    (I := fun w : TaskView => ∀ e ∈ w.evidence, e.agentId = w.row.agentId) ?_ h hp
  intro w w' hw hs
  have record : ∀ {e : Attempt}, w'.evidence = w.evidence ++ [e] →
      w'.row.agentId = w.row.agentId → e.agentId = w.row.agentId →
        ∀ e ∈ w'.evidence, e.agentId = w'.row.agentId := by
    intro e hevidence hsame he e' he'
    rw [hevidence] at he'
    rw [hsame]
    rcases List.mem_append.1 he' with hold | hnew
    · exact hw e' hold
    · rw [List.mem_singleton.1 hnew]
      exact he
  cases hs with
  | claim | kill | cancel => exact hw
  | commit ag task fields cost tokens workerId started now _ _ hof _ =>
      exact record rfl rfl hof.agentId
  | row hrow =>
      cases hrow with
      | renew | retry | promote => exact hw
      | report task failure workerId started now _ _ hof _ => exact record rfl rfl hof.agentId
      | reclaim => exact record rfl rfl rfl

theorem SysRun.attempt_owner (h : SysRun cfg ts s) {e : Attempt} (he : e ∈ s.db.attempts) :
    ∃ ag, s.db.agent e.agentId = some ag := by
  obtain ⟨t, ht⟩ := (SysRun.sound h).db.attempts e he
  obtain ⟨-, -, t₀, -, -, hpath⟩ := h.task_history (Rules.free_holdAlong cfg ts) ht
  have hagent : e.agentId = t.agentId := by
    refine TaskPath.evidence_agentId hpath (by simp) e (List.mem_filter.2 ⟨he, ?_⟩)
    exact decide_eq_true (Db.id_of_task ht).symm
  rw [hagent]
  exact (SysRun.sound h).db.tasks _ t ht

/-- The two ledgers of a database agree. -/
structure Db.Balanced (db : Db) : Prop where
  accounts : ∀ a, db.account a = posted a db.attempts
  free : ∀ e ∈ db.attempts, e.outcome ≠ .succeeded → e.account = 0

theorem Posts.balanced {db db' : Db} {new : List Attempt} (h : Posts db db' new)
    (hbalanced : db.Balanced) : db'.Balanced where
  accounts := fun a => by rw [h.accounts, hbalanced.accounts, h.attempts, posted_append]
  free := by
    intro e he
    rw [h.attempts] at he
    exact (List.mem_append.1 he).elim (hbalanced.free e) (h.free e)

theorem SysRun.balanced (h : SysRun cfg ts s) : s.db.Balanced := by
  refine h.invariant (I := fun u => u.db.Balanced) ?_ ?_
  · exact ⟨fun _ => rfl, by simp [Sys.init, Db.empty]⟩
  · intro u act u' hbalanced hs
    obtain ⟨new, hposts⟩ := step_posts hs
    exact hposts.balanced hbalanced

theorem Db.Balanced.agent {db : Db} (h : db.Balanced) {a : Uuid} {ag : Agent}
    (hag : db.agent a = some ag) :
    ag.costUnits = ((db.attemptsOf a).map Attempt.costUnits).sum ∧
      ag.tokensUsed = ((db.attemptsOf a).map Attempt.tokens).sum ∧
      (db.attemptsOf a).countP (fun e => e.outcome = .succeeded) = ag.cursor := by
  have haccount := h.accounts a
  rw [Db.account, hag, Option.map_some, Option.getD_some, posted_eq] at haccount
  simp only [Agent.account, Prod.mk.injEq] at haccount
  exact ⟨haccount.1, haccount.2.1, haccount.2.2.symm⟩

/-- Over all agents, what they spent is what the evidence records. -/
theorem Db.Balanced.spent {db : Db} (h : db.Balanced)
    (howned : ∀ e ∈ db.attempts, ∃ ag, db.agent e.agentId = some ag) :
    Metrics.spent db = (db.attempts.map Attempt.costUnits).sum := by
  have hrow : ∀ ag ∈ db.agents.rows, ag.costUnits =
      ((db.attempts.filter fun e => e.agentId = ag.id).map Attempt.costUnits).sum :=
    fun ag hag => (h.agent (Table.get?_of_mem _ hag)).1
  have hall : db.attempts.filter (fun e => e.agentId ∈ db.agents.rows.map Agent.id) =
      db.attempts := by
    refine List.filter_eq_self.2 fun e he => ?_
    obtain ⟨ag, hag⟩ := howned e he
    rw [← Db.id_of_agent hag]
    exact decide_eq_true (List.mem_map_of_mem (Table.mem_of_get? hag))
  calc Metrics.spent db
      = (db.agents.rows.map fun ag =>
          ((db.attempts.filter fun e => e.agentId = ag.id).map Attempt.costUnits).sum).sum := by
        rw [Metrics.spent, List.map_congr_left hrow]
    _ = ((db.agents.rows.map Agent.id).map fun a =>
          ((db.attempts.filter fun e => e.agentId = a).map Attempt.costUnits).sum).sum := by
        rw [List.map_map, Function.comp_def]
    _ = (db.attempts.map Attempt.costUnits).sum := by
        rw [sum_fibres _ _ db.agents.keyNodup, hall]

end Runs

/-- In every reachable state the cost on the agents' rows is the cost in their evidence,
only successes cost anything, and there are as many of them as the cursor says. -/
theorem cost_ledgers_agree {cfg : Config} {ts : List SysTransition} {s : Sys}
    (h : SysRun cfg ts s) :
    (∀ a ag, s.db.agent a = some ag →
      ag.costUnits = ((s.db.attemptsOf a).map Attempt.costUnits).sum ∧
        ag.tokensUsed = ((s.db.attemptsOf a).map Attempt.tokens).sum ∧
        (s.db.attemptsOf a).countP (fun e => e.outcome = .succeeded) = ag.cursor) ∧
    (∀ e ∈ s.db.attempts, e.costUnits ≠ 0 → e.outcome = .succeeded) ∧
    ∀ now m, Metrics.snapshot cfg.ladder cfg.leaseTtlSeconds now s.db = some m →
      m.cost.unitsSpent = (s.db.attempts.map Attempt.costUnits).sum := by
  have hbalanced := h.balanced
  refine ⟨fun a ag hag => hbalanced.agent hag, fun e he hcost => ?_, fun now m hm => ?_⟩
  · by_contra hne
    exact hcost (congrArg Prod.fst (hbalanced.free e he hne))
  · obtain ⟨-, -, -, -, hspent, -⟩ := Metrics.snapshot_cost hm
    exact hspent.trans (hbalanced.spent fun e he => SysRun.attempt_owner h he)

theorem cost_ledgers_agree_escalation :
    ∃ m, Metrics.snapshot seededLadder 30 0 (ran oneHost escalation).2.db = some m ∧
      m.cost.unitsSpent = 12 ∧
      m.cost.unitsSpent = ((ran oneHost escalation).2.db.attempts.map Attempt.costUnits).sum :=
  ⟨_, rfl, by decide +kernel, (cost_ledgers_agree (run_ran oneHost escalation)).2.2 0 _ rfl⟩

end ReliableAgents
