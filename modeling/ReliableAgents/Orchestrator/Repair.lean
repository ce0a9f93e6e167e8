import ReliableAgents.Orchestrator.Tick
import ReliableAgents.Relational.Groups

/-!
# Stall repair

`REPAIR_SQL` of `orchestrator/queue.py`, column by column: a plan is an array indexed
from 1 with no length when it is empty, the cursor is counted from 0. One run repairs the
oldest stalled agents of its batch, exactly, and a sequence of runs repairs all of them.
-/

namespace ReliableAgents

open Relational

/-! ## The statement -/

/-- `xs[i]` of an array: `NULL` outside it. -/
def pgElement (xs : List Int) (i : Int) : Option Int := if 1 ≤ i then xs[(i - 1).toNat]? else none

/-- `array_length(xs, 1)`: `NULL` when it is empty. -/
def pgLength (xs : List Int) : Option Int := if xs.isEmpty then none else some xs.length

/-- A row of the `stalled` CTE. -/
structure StalledRow where
  agentId : Uuid
  seq : Nat
  taskDefId : Option Int
deriving DecidableEq, Repr

def Agent.stalledRow (a : Agent) : StalledRow where
  agentId := a.id
  seq := a.cursor
  taskDefId := pgElement a.plan (a.cursor + 1)

/-- The `WHERE` of the CTE. -/
def stalledWhere (db : Db) (a : Agent) : Bool :=
  a.status = .running && (a.cursor : Int) < (pgLength a.plan).getD 0 &&
    (db.taskInstances.select fun t => t.agentId = a.id && t.seq = a.cursor).isEmpty

def stalledCte (batch : Nat) (locked : Uuid → Bool) (db : Db) : List StalledRow :=
  (orderedBatch Agent.createdAt batch
    (db.agents.select fun a => stalledWhere db a && !locked a.id)).map Agent.stalledRow

/-- The insert of one row of the CTE, with the rows returned so far: nothing on a conflict,
`none` when a constraint is violated (`task_def_id` is `NOT NULL`). -/
def insertStalled (ladder : Ladder) (tier : TierName) (ids : Uuid → Uuid) (now : Time)
    (s : Db × List TaskInstance) (r : StalledRow) : Option (Db × List TaskInstance) :=
  match r.taskDefId with
  | none => none
  | some taskDefId =>
      if (s.1.rowAt r.agentId r.seq).isSome then some s
      else
        (insertTask ladder (.fresh (ids r.agentId) r.agentId r.seq taskDefId tier now) s.1).map
          fun db => (db, s.2 ++ [.fresh (ids r.agentId) r.agentId r.seq taskDefId tier now])

/-- `REPAIR_SQL`, with the rows it returns. -/
def repairSql (ladder : Ladder) (batch : Nat) (ids : Uuid → Uuid) (now : Time)
    (locked : Uuid → Bool) (db : Db) : Option (Db × List TaskInstance) :=
  match ladder.baseTier with
  | none => none
  | some tier => (stalledCte batch locked db).foldlM (insertStalled ladder tier ids now) (db, [])

/-- `stalled_agents`: `STALLED_COUNT_SQL`. -/
def stalledCount (db : Db) : Nat := db.agents.count (stalledWhere db)

/-! ## Indices and lengths -/

theorem pgElement_cursor (plan : List Int) (cursor : Nat) :
    pgElement plan (cursor + 1) = plan[cursor]? := by
  unfold pgElement
  rw [if_pos (by omega)]
  congr 1
  omega

theorem lt_pgLength {plan : List Int} {cursor : Nat} :
    (cursor : Int) < (pgLength plan).getD 0 ↔ cursor < plan.length := by
  unfold pgLength
  cases plan with
  | nil => simp
  | cons x rest =>
      simp only [List.isEmpty_cons, Bool.false_eq_true, if_false, Option.getD_some]
      omega

theorem stalledWhere_eq (db : Db) (a : Agent) : stalledWhere db a = stalled db a := by
  have hrow : (db.taskInstances.select fun t => t.agentId = a.id && t.seq = a.cursor).isEmpty =
      (db.rowAt a.id a.cursor).isNone := by
    rw [Bool.eq_iff_iff, List.isEmpty_iff, Option.isNone_iff_eq_none, Db.rowAt,
      Table.at?_eq_none, Table.select, List.filter_eq_nil_iff]
    refine forall₂_congr fun t _ => not_congr ?_
    simp [TaskInstance.position]
  unfold stalledWhere stalled
  rw [hrow, decide_eq_decide.2 lt_pgLength]

theorem stalledCte_eq (batch : Nat) (locked : Uuid → Bool) (db : Db) :
    stalledCte batch locked db = (stalledAgents batch locked db).map Agent.stalledRow := by
  simp only [stalledCte, stalledAgents, stalledWhere_eq]

/-! ## One run -/

section Inserts

variable {ladder : Ladder} {tier : TierName} {ids : Uuid → Uuid} {now : Time} {db : Db}

theorem repairRows_cons {a : Agent} {rest : List Agent} (hplan : a.cursor < a.plan.length) :
    repairRows tier ids now (a :: rest) =
      .fresh (ids a.id) a.id a.cursor a.plan[a.cursor] tier now ::
        repairRows tier ids now rest := by
  simp [repairRows, List.getElem?_eq_getElem hplan]

theorem mem_repairRows {agents : List Agent} {t : TaskInstance} :
    t ∈ repairRows tier ids now agents ↔ ∃ a ∈ agents, ∃ taskDefId,
      a.plan[a.cursor]? = some taskDefId ∧
        t = .fresh (ids a.id) a.id a.cursor taskDefId tier now := by
  simp only [repairRows, List.mem_filterMap, Option.map_eq_some_iff]
  refine exists_congr fun a => and_congr_right fun _ => exists_congr fun i => ?_
  exact and_congr_right fun _ => eq_comm

theorem insertStalled_fold {agents : List Agent} (hnodup : (agents.map Agent.id).Nodup)
    (hstalled : ∀ a ∈ agents, a.cursor < a.plan.length ∧ db.rowAt a.id a.cursor = none)
    (done : List TaskInstance) :
    (agents.map Agent.stalledRow).foldlM (insertStalled ladder tier ids now) (db, done) =
      ((repairRows tier ids now agents).foldlM (fun db t => insertTask ladder t db) db).map
        fun db' => (db', done ++ repairRows tier ids now agents) := by
  induction agents generalizing db done with
  | nil => simp [repairRows]
  | cons a rest ih =>
      simp only [List.map_cons, List.nodup_cons] at hnodup
      obtain ⟨hplan, hnone⟩ := hstalled a List.mem_cons_self
      have htask : a.stalledRow.taskDefId = some a.plan[a.cursor] := by
        rw [Agent.stalledRow, pgElement_cursor, List.getElem?_eq_getElem hplan]
      rw [repairRows_cons hplan, List.map_cons, List.foldlM_cons, List.foldlM_cons, insertStalled,
        htask]
      simp only [Agent.stalledRow, hnone, Option.isSome_none, Bool.false_eq_true, if_false]
      cases hinsert : insertTask ladder
          (.fresh (ids a.id) a.id a.cursor a.plan[a.cursor] tier now) db with
      | none => rfl
      | some mid =>
          have hrest := @ih mid hnodup.2 (fun b hb => ?_)
            (done ++ [.fresh (ids a.id) a.id a.cursor a.plan[a.cursor] tier now])
          · simpa using hrest
          · obtain ⟨hplan', hnone'⟩ := hstalled b (List.mem_cons_of_mem _ hb)
            obtain ⟨-, -, -, -, -, hrow⟩ := insertTask_spec hinsert
            have hne : b.id ≠ a.id := fun heq => hnodup.1 (heq ▸ List.mem_map_of_mem hb)
            refine ⟨hplan', ?_⟩
            rw [hrow, if_neg]
            · exact hnone'
            · simp [TaskInstance.position, hne]

end Inserts

section OneRun

variable {ladder : Ladder} {batch : Nat} {ids : Uuid → Uuid} {now : Time} {locked : Uuid → Bool}
  {db : Db}

theorem stalledAgents_nodup (batch : Nat) (locked : Uuid → Bool) (db : Db) :
    ((stalledAgents batch locked db).map Agent.id).Nodup :=
  orderedBatch_map_nodup _ _ _ (Table.select_map_nodup _ _)

theorem stalledAgents_at {a : Agent} (h : a ∈ stalledAgents batch locked db) :
    a.cursor < a.plan.length ∧ db.rowAt a.id a.cursor = none :=
  (mem_stalledAgents h).2.2

/-- The statement is the sweep of the system model, with its returned rows. -/
theorem repairSql_eq {tier : TierName} (htier : ladder.baseTier = some tier) :
    repairSql ladder batch ids now locked db =
      (repairStalled ladder batch ids now locked db).map fun db' =>
        (db', repairRows tier ids now (stalledAgents batch locked db)) := by
  unfold repairSql repairStalled
  rw [htier]
  dsimp only
  rw [stalledCte_eq, insertStalled_fold (stalledAgents_nodup batch locked db)
    (fun a ha => stalledAgents_at ha), repairs_eq_inserts (stalledAgents_nodup batch locked db)
    (fun a ha => stalledAgents_at ha)]
  rfl

/-- The drawn ids are new: no row has one yet, and no two agents drew the same. -/
structure Drawn (ids : Uuid → Uuid) (db : Db) : Prop where
  unused : ∀ a ∈ db.agents.rows, db.task (ids a.id) = none
  distinct : (db.agents.rows.map fun a => ids a.id).Nodup

theorem repairRows_insertable {tier : TierName} (htier : ladder.baseTier = some tier)
    (hdrawn : Drawn ids db) :
    Insertable ladder db (repairRows tier ids now (stalledAgents batch locked db)) := by
  have hpick : ∀ {κ : Type} (f : TaskInstance → κ) (g : Agent → κ),
      (∀ a i, f (.fresh (ids a.id) a.id a.cursor i tier now) = g a) →
      (repairRows tier ids now (stalledAgents batch locked db)).map f =
        (stalledAgents batch locked db).map g := by
    intro κ f g hfg
    have hall : ∀ agents : List Agent, (∀ a ∈ agents, a.cursor < a.plan.length) →
        (repairRows tier ids now agents).map f = agents.map g := by
      intro agents hagents
      induction agents with
      | nil => rfl
      | cons a rest ih =>
          rw [repairRows_cons (hagents a List.mem_cons_self), List.map_cons, List.map_cons, hfg,
            ih fun b hb => hagents b (List.mem_cons_of_mem _ hb)]
    exact hall _ fun a ha => (stalledAgents_at ha).1
  have hmem : ∀ a ∈ stalledAgents batch locked db, a ∈ db.agents.rows := fun a ha =>
    Table.mem_of_get? (mem_stalledAgents ha).1
  refine ⟨fun t ht => ?_, ?_, ?_⟩
  · obtain ⟨a, -, i, -, rfl⟩ := mem_repairRows.1 ht
    exact Ladder.baseTier_mem htier
  · rw [List.map_append, hpick TaskInstance.id (fun a => ids a.id) fun _ _ => rfl]
    refine List.nodup_append.2 ⟨db.taskInstances.keyNodup, ?_, ?_⟩
    · refine List.Nodup.map_on (fun a ha b hb heq => ?_)
        (List.Nodup.of_map _ (stalledAgents_nodup batch locked db))
      exact List.inj_on_of_nodup_map hdrawn.distinct (hmem a ha) (hmem b hb) heq
    · rintro k hk l hl rfl
      obtain ⟨t, ht, hid⟩ := List.mem_map.1 hk
      obtain ⟨a, ha, rfl⟩ := List.mem_map.1 hl
      exact (Table.get?_eq_none _).1 (hdrawn.unused a (hmem a ha)) t ht hid
  · rw [List.map_append, hpick TaskInstance.position (fun a => (a.id, a.cursor)) fun _ _ => rfl]
    refine List.nodup_append.2 ⟨db.taskInstances.uniqNodup, ?_, ?_⟩
    · have hids := stalledAgents_nodup batch locked db
      have hfst : (stalledAgents batch locked db).map Agent.id =
          ((stalledAgents batch locked db).map fun a => (a.id, a.cursor)).map Prod.fst := by
        simp
      rw [hfst] at hids
      exact List.Nodup.of_map _ hids
    · rintro u hu v hv rfl
      obtain ⟨t, ht, hpos⟩ := List.mem_map.1 hu
      obtain ⟨a, ha, rfl⟩ := List.mem_map.1 hv
      exact (Table.at?_eq_none _).1 (stalledAgents_at ha).2 t ht hpos

/-- A run that does not raise appends the rows of its agents and changes nothing else. -/
theorem repairSql_spec {tier : TierName} {db' : Db} {rows : List TaskInstance}
    (htier : ladder.baseTier = some tier)
    (h : repairSql ladder batch ids now locked db = some (db', rows)) :
    rows = repairRows tier ids now (stalledAgents batch locked db) ∧
      (repairChange rows).Takes db db' := by
  rw [repairSql_eq htier, Option.map_eq_some_iff] at h
  obtain ⟨mid, hrepair, heq⟩ := h
  cases heq
  refine ⟨rfl, ?_⟩
  unfold repairStalled at hrepair
  simp only [htier] at hrepair
  rw [repairs_eq_inserts (stalledAgents_nodup batch locked db) fun a ha => stalledAgents_at ha]
    at hrepair
  by_cases hinsertable :
      Insertable ladder db (repairRows tier ids now (stalledAgents batch locked db))
  · obtain ⟨db₂, hinserts, htakes⟩ := inserts_takes hinsertable
    rw [hinserts, Option.some.injEq] at hrepair
    exact hrepair ▸ htakes
  · rw [inserts_eq_none hinsertable] at hrepair
    cases hrepair

theorem repairSql_succeeds {tier : TierName} (htier : ladder.baseTier = some tier)
    (hdrawn : Drawn ids db) :
    ∃ db', repairSql ladder batch ids now locked db =
      some (db', repairRows tier ids now (stalledAgents batch locked db)) := by
  have hinsertable : Insertable ladder db
      (repairRows tier ids now (stalledAgents batch locked db)) :=
    repairRows_insertable htier hdrawn
  obtain ⟨db', hinserts, -⟩ := inserts_takes hinsertable
  refine ⟨db', ?_⟩
  rw [repairSql_eq htier, repairStalled, htier]
  dsimp only
  rw [repairs_eq_inserts (stalledAgents_nodup batch locked db) fun a ha => stalledAgents_at ha,
    hinserts]
  rfl

end OneRun

/-! ## Which agents -/

section Oldest

variable {tier : TierName} {ids : Uuid → Uuid} {now : Time} {batch : Nat} {db db' : Db}

/-- `t` is the repair of agent `a`. -/
structure RepairOf (tier : TierName) (now : Time) (a : Agent) (t : TaskInstance) : Prop where
  agentId : t.agentId = a.id
  seq : t.seq = a.cursor
  taskDefId : a.plan[a.cursor]? = some t.taskDefId
  tier : t.tier = tier
  status : t.status = .pending
  nextRunAt : t.nextRunAt = now

theorem repairRows_forall₂ {agents : List Agent}
    (hplans : ∀ a ∈ agents, a.cursor < a.plan.length) :
    List.Forall₂ (RepairOf tier now) agents (repairRows tier ids now agents) := by
  induction agents with
  | nil => exact .nil
  | cons a rest ih =>
      have hplan := hplans a List.mem_cons_self
      rw [repairRows_cons hplan]
      refine .cons ?_ (ih fun b hb => hplans b (List.mem_cons_of_mem _ hb))
      exact ⟨rfl, rfl, List.getElem?_eq_getElem hplan, rfl, rfl, rfl⟩

theorem stalledAgents_unlocked (batch : Nat) (db : Db) :
    stalledAgents batch unlocked db =
      orderedBatch Agent.createdAt batch (db.agents.select (stalled db)) := by
  simp [stalledAgents, unlocked]

theorem stalledCount_eq (db : Db) : stalledCount db = (db.agents.select (stalled db)).length := by
  rw [stalledCount, funext (stalledWhere_eq db), Table.count, List.countP_eq_length_filter]
  rfl

/-- After a run the repaired agents, and only they, are no longer stalled. -/
theorem stalled_after {agents : List Agent} (hagents : ∀ b ∈ agents, db.agent b.id = some b)
    (hplans : ∀ b ∈ agents, b.cursor < b.plan.length)
    (htakes : (repairChange (repairRows tier ids now agents)).Takes db db') {a : Agent}
    (ha : db.agent a.id = some a) :
    stalled db' a = true ↔ stalled db a = true ∧ a ∉ agents := by
  have hrows : db'.taskInstances.rows =
      db.taskInstances.rows ++ repairRows tier ids now agents := by
    simpa [repairChange, Change.apply] using htakes.tasks
  have hrow : db'.rowAt a.id a.cursor = none ↔ db.rowAt a.id a.cursor = none ∧ a ∉ agents := by
    rw [Db.rowAt, Db.rowAt, Table.at?_eq_none, Table.at?_eq_none, hrows]
    simp only [List.mem_append, or_imp, forall_and]
    refine and_congr_right fun _ => ⟨fun hnew hmem => ?_, fun hout t ht hpos => ?_⟩
    · have hplan := hplans a hmem
      refine hnew (.fresh (ids a.id) a.id a.cursor a.plan[a.cursor] tier now) ?_ rfl
      exact mem_repairRows.2 ⟨a, hmem, _, List.getElem?_eq_getElem hplan, rfl⟩
    · obtain ⟨b, hb, i, -, rfl⟩ := mem_repairRows.1 ht
      have hid : b.id = a.id := congrArg Prod.fst hpos
      have hsame := hagents b hb
      rw [hid, ha, Option.some.injEq] at hsame
      exact hout (hsame ▸ hb)
  unfold stalled
  simp only [Bool.and_eq_true, decide_eq_true_eq, Option.isNone_iff_eq_none, hrow]
  tauto

theorem stalledCount_after {ladder : Ladder} {rows : List TaskInstance}
    (htier : ladder.baseTier = some tier)
    (h : repairSql ladder batch ids now unlocked db = some (db', rows)) :
    stalledCount db' = stalledCount db - batch := by
  obtain ⟨rfl, htakes⟩ := repairSql_spec htier h
  have hagents : db'.agents.rows = db.agents.rows := by
    simpa [repairChange] using htakes.agents
  have hafter : ∀ a ∈ db.agents.rows, (stalled db' a = true ↔
      (a ∉ stalledAgents batch unlocked db && stalled db a) = true) := by
    intro a ha
    rw [stalled_after (fun b hb => (mem_stalledAgents hb).1) (fun b hb => (stalledAgents_at hb).1)
      htakes (Table.get?_of_mem _ ha)]
    simp [and_comm]
  have hnodup : (db.agents.select (stalled db)).Nodup :=
    List.Nodup.of_map _ (Table.select_map_nodup db.agents (stalled db))
  rw [stalledCount, funext (stalledWhere_eq db'), Table.count, hagents, List.countP_congr hafter,
    ← List.countP_filter, stalledCount_eq, stalledAgents_unlocked]
  exact countP_notMem_orderedBatch Agent.createdAt batch hnodup

structure Draws where
  ids : Uuid → Uuid
  now : Time

/-- Runs one after the other, each with its own draws. -/
def repairRuns (ladder : Ladder) (batch : Nat) (runs : List Draws) (db : Db) : Option Db :=
  runs.foldlM (fun db run =>
    (repairSql ladder batch run.ids run.now unlocked db).map Prod.fst) db

theorem stalledCount_repairRuns {ladder : Ladder} (htier : ladder.baseTier = some tier)
    {runs : List Draws} (h : repairRuns ladder batch runs db = some db') :
    stalledCount db' = stalledCount db - runs.length * batch := by
  unfold repairRuns at h
  induction runs generalizing db with
  | nil =>
      cases h
      simp
  | cons run rest ih =>
      rw [List.foldlM_cons] at h
      obtain ⟨mid, hfirst, hrest⟩ := Option.bind_eq_some_iff.1 h
      obtain ⟨⟨mid', rows⟩, hrepair, rfl⟩ := Option.map_eq_some_iff.1 hfirst
      rw [ih hrest, stalledCount_after htier hrepair, List.length_cons, Nat.succ_mul]
      omega

/-- What a run of `repair_stalled` has done: the rows it returned are those of the oldest
stalled agents, the base pool can claim each of them, and nothing else has changed. -/
structure RepairsOldest (tier : TierName) (now : Time) (batch : Nat) (db db' : Db)
    (rows : List TaskInstance) : Prop where
  written : db'.taskInstances.rows = db.taskInstances.rows ++ rows
  kept : db' = { db with taskInstances := db'.taskInstances }
  count : rows.length = min batch (stalledCount db)
  oldest : ∃ agents : List Agent, agents.Nodup ∧ List.Forall₂ (RepairOf tier now) agents rows ∧
    (∀ a ∈ agents, a ∈ db.agents.rows ∧ stalledWhere db a = true) ∧
    ∀ a ∈ agents, ∀ b ∈ db.agents.rows, stalledWhere db b = true → b ∉ agents →
      a.createdAt ≤ b.createdAt
  claimable : ∀ t ∈ rows, ∀ later, now ≤ later → claimable db' tier later t = true

theorem repairSql_oldest {ladder : Ladder} {rows : List TaskInstance}
    (htier : ladder.baseTier = some tier)
    (h : repairSql ladder batch ids now unlocked db = some (db', rows)) :
    RepairsOldest tier now batch db db' rows := by
  obtain ⟨rfl, htakes⟩ := repairSql_spec htier h
  have hagents : db'.agents = db.agents := by
    refine Table.ext_rows ?_
    simpa [repairChange] using htakes.agents
  have hforall := @repairRows_forall₂ tier ids now (stalledAgents batch unlocked db)
    fun a ha => (stalledAgents_at ha).1
  have hmem : ∀ a ∈ stalledAgents batch unlocked db,
      a ∈ db.agents.rows ∧ stalledWhere db a = true := by
    intro a ha
    rw [stalledAgents_unlocked] at ha
    obtain ⟨hget, hstalled⟩ := Table.mem_select.1 (mem_of_mem_orderedBatch ha)
    exact ⟨Table.mem_of_get? hget, (stalledWhere_eq db a).trans hstalled⟩
  constructor
  · simpa [repairChange, Change.apply] using htakes.tasks
  · refine Db.ext_rows ?_ rfl ?_ ?_ ?_
    · simpa [repairChange] using htakes.agents
    · simpa [repairChange] using htakes.attempts
    · simpa [repairChange] using htakes.idempotency
    · simpa [repairChange] using htakes.dlq
  · rw [← hforall.length_eq, stalledAgents_unlocked, length_orderedBatch, stalledCount_eq]
  · refine ⟨_, List.Nodup.of_map _ (stalledAgents_nodup batch unlocked db), hforall, hmem, ?_⟩
    intro a ha b hb hstalled hout
    rw [stalledAgents_unlocked] at ha hout
    refine orderedBatch_le ha (List.mem_filter.2 ⟨hb, ?_⟩) hout
    rw [← stalledWhere_eq]
    exact hstalled
  · intro t ht later hlater
    obtain ⟨a, ha, i, -, rfl⟩ := mem_repairRows.1 ht
    obtain ⟨hagent, hrunning, -, -⟩ := mem_stalledAgents ha
    have hagent' : db'.agent a.id = some a := by
      rw [Db.agent, hagents]
      exact hagent
    simp [ReliableAgents.claimable, hagent', hrunning, hlater]

end Oldest

end ReliableAgents
