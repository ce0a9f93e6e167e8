import ReliableAgents.Orchestrator.Sweeps

/-!
# Submission

`submit_agents` of `api/main.py` and `seed` of `chaos/harness.py`. Both insert
the agent and every row of its plan in one transaction; the API checks the plan
and the admission bound first.
-/

namespace ReliableAgents

open Relational

/-- The insert into `agents` with its column defaults. -/
@[simps] def Agent.fresh (id : Uuid) (plan : List Int) (now : Time) : Agent where
  id := id
  plan := plan
  createdAt := now
  updatedAt := now

def insertAgent (a : Agent) (db : Db) : Option Db :=
  (db.agents.insert? a).map fun table => { db with agents := table }

/-- The rows of a plan from position `seq` on; `ids` are the drawn row ids. -/
def insertPlan (ladder : Ladder) (agentId : Uuid) (tier : TierName) (ids : Nat → Uuid)
    (now : Time) : Nat → List Int → Db → Option Db
  | _, [], db => some db
  | seq, taskDefId :: rest, db =>
      (insertTask ladder (.fresh (ids seq) agentId seq taskDefId tier now) db).bind
        (insertPlan ladder agentId tier ids now (seq + 1) rest)

/-- One agent and all its rows. -/
def createAgent (ladder : Ladder) (plan : List Int) (tier : TierName) (ids : Uuid → Nat → Uuid)
    (now : Time) (db : Db) (agentId : Uuid) : Option Db :=
  (insertAgent (.fresh agentId plan now) db).bind
    (insertPlan ladder agentId tier (ids agentId) now 0 plan)

def createAgents (ladder : Ladder) (plan : List Int) (tier : TierName) (agentIds : List Uuid)
    (ids : Uuid → Nat → Uuid) (now : Time) (db : Db) : Option Db :=
  agentIds.foldlM (createAgent ladder plan tier ids now) db

def activeAgents (db : Db) : Nat := db.agents.count fun a => a.status = .running

inductive SubmitError where
  | unknownTaskIds (ids : List Int)
  | emptyPlan
  | noTiers
  | atCapacity (active requested : Nat)
  | insertFailed
deriving DecidableEq, Repr

/-- `submit_agents`: `agentIds` are the drawn ids, one for each requested agent. -/
def submitAgents (ladder : Ladder) (taskDefs : List Int) (maxActiveAgents : Nat)
    (forceTier : Option TierName) (plan : List Int) (agentIds : List Uuid)
    (ids : Uuid → Nat → Uuid) (now : Time) (db : Db) : Except SubmitError Db :=
  let unknown := plan.filter fun tid => tid ∉ taskDefs
  if unknown ≠ [] then .error (.unknownTaskIds (unknown.dedup.insertionSort (· ≤ ·)))
  else if plan = [] then .error .emptyPlan
  else
    match forceTier.or ladder.baseTier with
    | none => .error .noTiers
    | some tier =>
        if activeAgents db + agentIds.length > maxActiveAgents then
          .error (.atCapacity (activeAgents db) agentIds.length)
        else
          match createAgents ladder plan tier agentIds ids now db with
          | none => .error .insertFailed
          | some db' => .ok db'

/-- `harness.seed`: no admission check, and the tier is the column default. -/
def seed (ladder : Ladder) (plan : List Int) (agentIds : List Uuid) (ids : Uuid → Nat → Uuid)
    (now : Time) (db : Db) : Option Db :=
  createAgents ladder plan "junior" agentIds ids now db

/-! ## What a submission inserts -/

theorem submitAgents_spec {ladder : Ladder} {taskDefs : List Int} {maxActiveAgents : Nat}
    {forceTier : Option TierName} {plan : List Int} {agentIds : List Uuid}
    {ids : Uuid → Nat → Uuid} {now : Time} {db db' : Db}
    (h : submitAgents ladder taskDefs maxActiveAgents forceTier plan agentIds ids now db =
      .ok db') :
    plan ≠ [] ∧ (∀ tid ∈ plan, tid ∈ taskDefs) ∧
      activeAgents db + agentIds.length ≤ maxActiveAgents ∧
      ∃ tier, forceTier.or ladder.baseTier = some tier ∧
        createAgents ladder plan tier agentIds ids now db = some db' := by
  unfold submitAgents at h
  dsimp only at h
  split at h
  · cases h
  rename_i hunknown
  split at h
  · cases h
  rename_i hempty
  split at h
  · cases h
  rename_i tier htier
  split at h
  · cases h
  rename_i hroom
  split at h
  · cases h
  rename_i created hcreated
  cases h
  refine ⟨hempty, fun tid htid => ?_, not_lt.1 hroom, tier, htier, hcreated⟩
  by_contra hnot
  exact hunknown fun hnil =>
    absurd (hnil ▸ List.mem_filter.2 ⟨htid, by simpa using hnot⟩) List.not_mem_nil

theorem submitAgents_eq_ok {ladder : Ladder} {taskDefs : List Int} {maxActiveAgents : Nat}
    {forceTier : Option TierName} {plan : List Int} {agentIds : List Uuid}
    {ids : Uuid → Nat → Uuid} {now : Time} {tier : TierName} {db db' : Db}
    (hplan : plan ≠ []) (hknown : ∀ tid ∈ plan, tid ∈ taskDefs)
    (hroom : activeAgents db + agentIds.length ≤ maxActiveAgents)
    (htier : forceTier.or ladder.baseTier = some tier)
    (hcreate : createAgents ladder plan tier agentIds ids now db = some db') :
    submitAgents ladder taskDefs maxActiveAgents forceTier plan agentIds ids now db = .ok db' := by
  have hunknown : plan.filter (fun tid => tid ∉ taskDefs) = [] := by
    simpa [List.filter_eq_nil_iff] using hknown
  unfold submitAgents
  dsimp only
  rw [if_neg (not_not_intro hunknown), if_neg hplan, htier]
  simp only [not_lt.2 hroom, if_false, hcreate]

theorem insertAgent_spec {a : Agent} {db db' : Db} (h : insertAgent a db = some db') :
    db.agent a.id = none ∧ (∃ table, db' = { db with agents := table }) ∧
      ∀ k, db'.agent k = if k = a.id then some a else db.agent k := by
  unfold insertAgent at h
  cases hins : db.agents.insert? a with
  | none => simp [hins] at h
  | some table =>
      simp only [hins, Option.map_some, Option.some.injEq] at h
      subst h
      exact ⟨(Table.insert?_eq_some hins).1, ⟨table, rfl⟩, fun k => Table.get?_insert? hins k⟩

theorem insertPlan_spec {ladder : Ladder} {agentId : Uuid} {tier : TierName} {ids : Nat → Uuid}
    {now : Time} {seq : Nat} {plan : List Int} {db db' : Db}
    (h : insertPlan ladder agentId tier ids now seq plan db = some db') :
    (∃ table, db' = { db with taskInstances := table }) ∧
      (∀ k t, db'.task k = some t → db.task k = some t ∨
        ∃ i taskDefId, plan[i]? = some taskDefId ∧ tier ∈ ladder.names ∧
          t = .fresh (ids (seq + i)) agentId (seq + i) taskDefId tier now) ∧
      (∀ k t, db.task k = some t → db'.task k = some t) ∧
      ∀ a i, db'.rowAt a i =
        if a = agentId ∧ seq ≤ i ∧ i < seq + plan.length then
          (plan[i - seq]?).map fun taskDefId =>
            .fresh (ids i) agentId i taskDefId tier now
        else db.rowAt a i := by
  induction plan generalizing seq db with
  | nil =>
      cases h
      refine ⟨⟨db'.taskInstances, rfl⟩, fun k t ht => Or.inl ht, fun k t ht => ht, fun a i => ?_⟩
      rw [if_neg]
      simp only [List.length_nil]
      omega
  | cons taskDefId rest ih =>
      simp only [insertPlan, Option.bind_eq_some_iff] at h
      obtain ⟨mid, hmid, hrest⟩ := h
      obtain ⟨htier, hfresh, -, ⟨table, hmidDb⟩, htask, hrow⟩ := insertTask_spec hmid
      obtain ⟨⟨table', hdb'⟩, hnew, hold, hrows⟩ := ih hrest
      refine ⟨⟨table', by rw [hdb', hmidDb]⟩, fun k t ht => ?_, fun k t ht => ?_, fun a i => ?_⟩
      · rcases hnew k t ht with hk | ⟨i, d, hd, hin, rfl⟩
        · rw [htask] at hk
          split at hk
          · right
            exact ⟨0, taskDefId, rfl, htier, (Option.some.inj hk).symm⟩
          · exact Or.inl hk
        · right
          refine ⟨i + 1, d, by simpa using hd, hin, ?_⟩
          rw [show seq + (i + 1) = seq + 1 + i by omega]
      · refine hold k t ?_
        rw [htask, if_neg]
        · exact ht
        · rintro rfl
          exact absurd (hfresh.symm.trans ht) (by simp)
      · rw [hrows, hrow]
        simp only [TaskInstance.position, TaskInstance.fresh_agentId, TaskInstance.fresh_seq,
          Prod.mk.injEq, List.length_cons]
        by_cases ha : a = agentId
        · rcases Nat.lt_trichotomy i seq with hi | rfl | hi
          · rw [if_neg (by omega), if_neg (by omega), if_neg (by omega)]
          · rw [if_neg (by omega), if_pos ⟨ha, rfl⟩, if_pos ⟨ha, by omega⟩]
            simp
          · obtain ⟨j, rfl⟩ : ∃ j, i = seq + 1 + j := ⟨i - (seq + 1), by omega⟩
            have hidx : seq + 1 + j - seq = j + 1 := by omega
            by_cases hj : j < rest.length
            · rw [if_pos ⟨ha, by omega⟩, if_pos ⟨ha, by omega⟩, hidx]
              simp
            · rw [if_neg (by omega), if_neg (by omega), if_neg (by omega)]
        · simp [ha]

theorem createAgent_spec {ladder : Ladder} {plan : List Int} {tier : TierName}
    {ids : Uuid → Nat → Uuid} {now : Time} {db db' : Db} {agentId : Uuid}
    (h : createAgent ladder plan tier ids now db agentId = some db') :
    db.agent agentId = none ∧ db'.attempts = db.attempts ∧ db'.dlq = db.dlq ∧
      (∀ k, db'.agent k = if k = agentId then some (.fresh agentId plan now) else db.agent k) ∧
      (∀ k t, db.task k = some t → db'.task k = some t) ∧
      (∀ k t, db'.task k = some t → db.task k = some t ∨
        ∃ i taskDefId, tier ∈ ladder.names ∧
          t = .fresh (ids agentId i) agentId i taskDefId tier now) ∧
      ∀ a i, db'.rowAt a i =
        if a = agentId ∧ i < plan.length then
          (plan[i]?).map fun taskDefId =>
            .fresh (ids agentId i) agentId i taskDefId tier now
        else db.rowAt a i := by
  unfold createAgent at h
  rw [Option.bind_eq_some_iff] at h
  obtain ⟨mid, hmid, hplan⟩ := h
  obtain ⟨hnone, ⟨agents, rfl⟩, hagent⟩ := insertAgent_spec hmid
  obtain ⟨⟨table, hdb'⟩, hnew, hold, hrow⟩ := insertPlan_spec hplan
  refine ⟨hnone, by rw [hdb'], by rw [hdb'], fun k => ?_, fun k t ht => hold k t ht,
    fun k t ht => ?_, fun a i => ?_⟩
  · rw [hdb']
    exact hagent k
  · rcases hnew k t ht with hk | ⟨i, d, -, htier, heq⟩
    · exact Or.inl hk
    · exact Or.inr ⟨0 + i, d, htier, heq⟩
  · rw [hrow]
    simp only [Nat.zero_le, true_and, Nat.zero_add, Nat.sub_zero]
    rfl

/-- The foreign key on `tiers` lets rows be created on the ladder only. -/
theorem createAgents_tier {ladder : Ladder} {plan : List Int} {tier : TierName}
    {agentIds : List Uuid} {ids : Uuid → Nat → Uuid} {now : Time} {db db' : Db}
    (h : createAgents ladder plan tier agentIds ids now db = some db') (hplan : plan ≠ [])
    (hids : agentIds ≠ []) : tier ∈ ladder.names := by
  obtain ⟨taskDefId, restPlan, rfl⟩ := List.exists_cons_of_ne_nil hplan
  obtain ⟨agentId, rest, rfl⟩ := List.exists_cons_of_ne_nil hids
  rw [createAgents, List.foldlM_cons, Option.bind_eq_bind, Option.bind_eq_some_iff] at h
  obtain ⟨mid, hcreate, -⟩ := h
  rw [createAgent, Option.bind_eq_some_iff] at hcreate
  obtain ⟨inserted, -, hrows⟩ := hcreate
  rw [insertPlan, Option.bind_eq_some_iff] at hrows
  obtain ⟨first, hfirst, -⟩ := hrows
  exact (insertTask_spec hfirst).1

end ReliableAgents
