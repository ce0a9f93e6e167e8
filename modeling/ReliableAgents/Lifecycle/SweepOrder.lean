import ReliableAgents.Lifecycle.SweepChanges

/-!
# The order of the sweeps

Any two sweeps of a pass make independent changes, and each leaves the other the rows
it would have selected, so a pass may run them in any order; and none of them finds
anything to do right after it ran.
-/

namespace ReliableAgents

open Relational

/-! ## What a sweep does to the rows of another's selection -/

section Rows

variable {cfg : Config} {tick : Tick} {db : Db} {sweep : Sweep} {t : TaskInstance} {a : Agent}

theorem task_of_mem (h : t ∈ db.taskInstances.rows) : db.task t.id = some t :=
  Table.get?_of_mem _ h

theorem agent_of_mem (h : a ∈ db.agents.rows) : db.agent a.id = some a :=
  Table.get?_of_mem _ h

theorem expired_of_mem_ids (ht : t ∈ db.taskInstances.rows)
    (hid : t.id ∈ (expiredRows db tick.now).map TaskInstance.id) :
    t ∈ expiredRows db tick.now := by
  obtain ⟨u, hu, heq⟩ := List.mem_map.1 hid
  have hget := (mem_expiredRows.1 hu).1
  rw [heq, task_of_mem ht] at hget
  exact Option.some.inj hget ▸ hu

theorem exhausted_of_mem_ids (ha : a ∈ db.agents.rows)
    (hid : a.id ∈ (exhaustedRows db).map Agent.id) : a ∈ exhaustedRows db := by
  obtain ⟨b, hb, heq⟩ := List.mem_map.1 hid
  have hget := (mem_exhaustedRows.1 hb).1
  rw [heq, agent_of_mem ha] at hget
  exact Option.some.inj hget ▸ hb

variable (cfg tick sweep) in
/-- A sweep that changes a row takes it out of no status but the one it selects, and puts
it into none that another selects. -/
theorem change_status (ht : t ∈ db.taskInstances.rows) {status : TaskStatus}
    (hstatus : status = .succeeded ∨ (status = .running ∧ sweep ≠ .reap) ∨
      (status = .failed ∧ sweep ≠ .classify)) :
    (tick.change cfg db sweep).tasks.on t = t ∨
      t.status ≠ status ∧ ((tick.change cfg db sweep).tasks.on t).status ≠ status := by
  cases sweep with
  | repair | finalise | reconcile => exact Or.inl rfl
  | reap =>
      simp only [Tick.change, reapChange]
      split
      · rename_i hid
        have hexpired := (mem_expiredRows.1 (expired_of_mem_ids ht hid)).2
        rw [(expired_spec hexpired).1, TaskInstance.reclaimed_status]
        right
        rcases hstatus with rfl | ⟨-, hne⟩ | ⟨rfl, -⟩
        · decide
        · exact absurd rfl hne
        · decide
      · exact Or.inl rfl
  | classify =>
      rcases hstatus with rfl | ⟨rfl, -⟩ | ⟨-, hne⟩
      · exact onTask_cases (p := (· ≠ .succeeded)) (by decide) (by decide) (by decide) ht
      · exact onTask_cases (p := (· ≠ .running)) (by decide) (by decide) (by decide) ht
      · exact absurd rfl hne

theorem change_position (t : TaskInstance) :
    ((tick.change cfg db sweep).tasks.on t).id = t.id ∧
      ((tick.change cfg db sweep).tasks.on t).position = t.position := by
  cases sweep with
  | repair | finalise | reconcile => exact ⟨rfl, rfl⟩
  | reap =>
      simp only [Tick.change, reapChange]
      split <;> exact ⟨rfl, rfl⟩
  | classify => exact ⟨foldl_onTask_id _ t, foldl_onTask_position _ t⟩

theorem change_agentId (t : TaskInstance) :
    ((tick.change cfg db sweep).tasks.on t).agentId = t.agentId :=
  congrArg Prod.fst (change_position t).2

theorem change_new_eq_nil (h : sweep ≠ .repair) : (tick.change cfg db sweep).tasks.new = [] := by
  cases sweep with
  | repair => exact absurd rfl h
  | _ => rfl

/-- A repaired row is new, and queued for an agent that had nothing at its cursor. -/
theorem mem_inserted (h : t ∈ tick.inserted cfg db) :
    db.task t.id = none ∧ t.status = .pending ∧
      ∃ ag, db.agent t.agentId = some ag ∧ stalled db ag = true ∧ t.seq = ag.cursor := by
  unfold Tick.inserted at h
  split at h
  · cases h
  rename_i tier htier
  dsimp only at h
  split at h
  · rename_i hinsertable
    have hfresh : db.task t.id = none := by
      refine (Table.get?_eq_none _).2 fun u hu heq => ?_
      have hnodup := hinsertable.2.1
      rw [List.map_append] at hnodup
      exact List.disjoint_of_nodup_append hnodup (List.mem_map_of_mem hu)
        (heq ▸ List.mem_map_of_mem h)
    obtain ⟨ag, hag, hrow⟩ := List.mem_filterMap.1 h
    obtain ⟨taskDefId, -, rfl⟩ := Option.map_eq_some_iff.1 hrow
    obtain ⟨hget, hstalled⟩ := mem_stalledRows.1 hag
    exact ⟨hfresh, rfl, ag, hget, hstalled, rfl⟩
  · cases h

theorem mem_change_new (h : t ∈ (tick.change cfg db sweep).tasks.new) :
    sweep = .repair ∧ t ∈ tick.inserted cfg db := by
  cases sweep with
  | repair => exact ⟨rfl, h⟩
  | _ => cases h

/-- An agent that has a row waiting for a decision is neither stalled nor exhausted. -/
theorem rowAt_of_failed (hcursor : db.AtCursor) (ht : t ∈ failedRows db)
    (hag : db.agent t.agentId = some a) : db.rowAt a.id a.cursor = some t := by
  obtain ⟨hget, hfailed⟩ := mem_failedRows.1 ht
  obtain ⟨b, hb, hseq⟩ := hcursor.active _ t hget (Or.inr hfailed)
  rw [hag] at hb
  cases hb
  rw [Db.id_of_agent hag, hseq]
  exact Db.rowAt_of_task hget

variable (cfg tick sweep) in
/-- A sweep that changes an agent closes it: an exhausted one, or one whose work failed. -/
theorem change_agent (hcursor : db.AtCursor) (ha : a ∈ db.agents.rows) :
    (tick.change cfg db sweep).agents.on a = a ∨
      (sweep = .finalise ∧ a ∈ exhaustedRows db ∧
        (tick.change cfg db sweep).agents.on a = a.finalised tick.now) ∨
      (sweep = .classify ∧ ∃ t ∈ failedRows db, t.agentId = a.id) := by
  cases sweep with
  | reap | repair | reconcile => exact Or.inl rfl
  | finalise =>
      simp only [Tick.change, finaliseChange]
      split
      · rename_i hid
        exact Or.inr (Or.inl ⟨trivial, exhausted_of_mem_ids ha hid, rfl⟩)
      · exact Or.inl rfl
  | classify =>
      by_cases hkilled : ∃ w ∈ tick.writes cfg db, w.agent? = some a.id
      · obtain ⟨w, hw, hagent⟩ := hkilled
        obtain ⟨hrow, hid, -⟩ := agent_of_mem_writes hcursor hw hagent
        exact Or.inr (Or.inr ⟨rfl, w.task, hrow, hid⟩)
      · exact Or.inl (foldl_onAgent_apart fun w hw hagent => hkilled ⟨w, hw, hagent⟩)

variable (cfg tick db sweep) in
theorem change_agent_fields (a : Agent) :
    ((tick.change cfg db sweep).agents.on a).id = a.id ∧
      ((tick.change cfg db sweep).agents.on a).plan = a.plan ∧
      ((tick.change cfg db sweep).agents.on a).cursor = a.cursor := by
  cases sweep with
  | reap | repair | reconcile => exact ⟨rfl, rfl, rfl⟩
  | finalise =>
      simp only [Tick.change, finaliseChange]
      split <;> exact ⟨rfl, rfl, rfl⟩
  | classify => exact ⟨foldl_onAgent_id _ a, onAgent_plan _ a⟩

theorem change_agents_new : (tick.change cfg db sweep).agents.new = [] := by
  cases sweep <;> rfl

end Rows

/-! ## Selections seen by the next sweep -/

section Stability

variable {cfg : Config} {tick : Tick} {db db' : Db} {sweep : Sweep} {a : Agent}

theorem expired_of_status {now : Time} {t : TaskInstance} (h : t.status ≠ .running) :
    expired now t = false := by
  simp [expired, h]

theorem expiredRows_stable (htakes : (tick.change cfg db sweep).Takes db db')
    (hne : sweep ≠ .reap) : expiredRows db' tick.now = expiredRows db tick.now := by
  rw [expiredRows, Table.select, htakes.tasks, Change.filter_apply (q := expired tick.now)]
  · rfl
  · intro t ht
    rcases change_status cfg tick sweep ht (Or.inr (Or.inl ⟨rfl, hne⟩)) with
      hsame | ⟨hwas, hnow⟩
    · exact Or.inl ⟨hsame, rfl⟩
    · exact Or.inr ⟨expired_of_status hnow, expired_of_status hwas⟩
  · intro t ht
    have hpending := (mem_inserted (mem_change_new ht).2).2.1
    exact expired_of_status (by simp [hpending])

theorem failedRows_stable (htakes : (tick.change cfg db sweep).Takes db db')
    (hne : sweep ≠ .classify) : failedRows db' = failedRows db := by
  rw [failedRows, Table.select, htakes.tasks,
    Change.filter_apply (q := fun t => t.status = .failed)]
  · rfl
  · intro t ht
    rcases change_status cfg tick sweep ht (Or.inr (Or.inr ⟨rfl, hne⟩)) with
      hsame | ⟨hwas, hnow⟩
    · exact Or.inl ⟨hsame, rfl⟩
    · exact Or.inr ⟨decide_eq_false hnow, decide_eq_false hwas⟩
  · intro t ht
    simp [(mem_inserted (mem_change_new ht).2).2.1]

/-- Rows are added by the repair sweep only, and none is moved. -/
theorem rowAt_isNone_stable (htakes : (tick.change cfg db sweep).Takes db db')
    (hne : sweep ≠ .repair) (k : Uuid) (i : Nat) :
    (db'.rowAt k i).isNone = (db.rowAt k i).isNone := by
  have hrows : db'.taskInstances.rows =
      db.taskInstances.rows.map (tick.change cfg db sweep).tasks.on := by
    rw [htakes.tasks, Change.apply, change_new_eq_nil hne, List.append_nil]
  rw [Db.rowAt, Table.at?_of_rows_map hrows (fun t => (change_position t).2), Option.isNone_map]
  rfl

theorem stalled_stable (htakes : (tick.change cfg db sweep).Takes db db')
    (hne : sweep ≠ .repair) (a : Agent) : stalled db' a = stalled db a := by
  rw [stalled, rowAt_isNone_stable htakes hne]
  rfl

theorem stalled_false_of_failed (hcursor : db.AtCursor) {t : TaskInstance} (ht : t ∈ failedRows db)
    (ha : a ∈ db.agents.rows) (hid : t.agentId = a.id) {b : Agent} (hb : b.id = a.id)
    (hsame : b.cursor = a.cursor) : stalled db b = false := by
  have hrow := rowAt_of_failed hcursor ht (hid ▸ agent_of_mem ha)
  simp [stalled, hb, hsame, hrow]

theorem stalledRows_stable (hcursor : db.AtCursor)
    (htakes : (tick.change cfg db sweep).Takes db db') (hne : sweep ≠ .repair) :
    stalledRows db' = stalledRows db := by
  rw [stalledRows, Table.select, htakes.agents, Change.filter_apply (q := stalled db)]
  · rfl
  · intro a ha
    obtain ⟨hid, -, hsame⟩ := change_agent_fields cfg tick db sweep a
    rw [stalled_stable htakes hne, stalled_stable htakes hne]
    rcases change_agent cfg tick sweep hcursor ha with
      hkept | ⟨-, hexhausted, hfinal⟩ | ⟨-, t, ht, hagent⟩
    · exact Or.inl ⟨hkept, rfl⟩
    · right
      have hdone := (mem_exhaustedRows.1 hexhausted).2
      simp only [exhausted, Bool.and_eq_true, decide_eq_true_eq] at hdone
      rw [hfinal]
      exact ⟨by simp [stalled], by simp [stalled, hdone.1.2]⟩
    · exact Or.inr ⟨stalled_false_of_failed hcursor ht ha hagent hid hsame,
        stalled_false_of_failed hcursor ht ha hagent rfl rfl⟩
  · intro a ha
    rw [change_agents_new] at ha
    cases ha

def unfinished (db : Db) (k : Uuid) : Bool :=
  !(db.taskInstances.select fun t => t.agentId = k && t.status ≠ .succeeded).isEmpty

theorem exhausted_eq (db : Db) (a : Agent) :
    exhausted db a = (a.status = .running && a.plan.length ≤ a.cursor && !unfinished db a.id) := by
  simp [exhausted, unfinished]

theorem unfinished_stable (htakes : (tick.change cfg db sweep).Takes db db') {k : Uuid}
    (hnew : ∀ t ∈ (tick.change cfg db sweep).tasks.new, t.agentId ≠ k) :
    unfinished db' k = unfinished db k := by
  have hsame : ∀ t ∈ db.taskInstances.rows,
      (decide (((tick.change cfg db sweep).tasks.on t).agentId = k) &&
        decide (((tick.change cfg db sweep).tasks.on t).status ≠ .succeeded)) =
      (decide (t.agentId = k) && decide (t.status ≠ .succeeded)) := by
    intro t ht
    rw [change_agentId]
    rcases change_status cfg tick sweep ht (Or.inl rfl) with
      hkept | ⟨hwas, hnow⟩
    · rw [hkept]
    · simp [hwas, hnow]
  have hnone : (tick.change cfg db sweep).tasks.new.filter
      (fun t => decide (t.agentId = k) && decide (t.status ≠ .succeeded)) = [] :=
    List.filter_eq_nil_iff.2 fun t ht => by simp [hnew t ht]
  rw [unfinished, Table.select, htakes.tasks, Change.apply, List.filter_append, hnone,
    List.append_nil, List.filter_map, List.isEmpty_map, unfinished, Table.select]
  congr 2
  exact List.filter_congr hsame

theorem exhausted_false_of_failed {t : TaskInstance} (ht : t ∈ failedRows db) {b : Agent}
    (hid : t.agentId = b.id) : exhausted db b = false := by
  obtain ⟨hget, hfailed⟩ := mem_failedRows.1 ht
  have hmem : t ∈ db.taskInstances.select fun t => t.agentId = b.id && t.status ≠ .succeeded :=
    Table.mem_select.2 ⟨hget, by simp [hid, hfailed]⟩
  have hunfinished : unfinished db b.id = true := by
    cases hempty : (db.taskInstances.select fun t => t.agentId = b.id && t.status ≠ .succeeded) with
    | nil =>
        rw [hempty] at hmem
        cases hmem
    | cons u rest =>
        rw [unfinished, hempty]
        rfl
  simp [exhausted_eq, hunfinished]

theorem exhausted_stable (htakes : (tick.change cfg db sweep).Takes db db')
    {b : Agent} (hb : db.agent b.id = some a) (hplan : b.plan = a.plan)
    (hcursor : b.cursor = a.cursor) : exhausted db' b = exhausted db b := by
  rw [exhausted_eq, exhausted_eq]
  by_cases hlen : b.plan.length ≤ b.cursor
  · rw [unfinished_stable htakes]
    intro t ht heq
    obtain ⟨-, -, ag, hag, hstalled, -⟩ := mem_inserted (mem_change_new ht).2
    rw [heq, hb] at hag
    cases hag
    have hshort := (stalled_spec hstalled).2.1
    rw [hplan, hcursor] at hlen
    omega
  · simp [hlen]

theorem exhaustedRows_stable (hcursor : db.AtCursor)
    (htakes : (tick.change cfg db sweep).Takes db db') (hne : sweep ≠ .finalise) :
    exhaustedRows db' = exhaustedRows db := by
  rw [exhaustedRows, Table.select, htakes.agents, Change.filter_apply (q := exhausted db)]
  · rfl
  · intro a ha
    obtain ⟨hid, hplan, hsame⟩ := change_agent_fields cfg tick db sweep a
    rw [exhausted_stable htakes (agent_of_mem ha) rfl rfl,
      exhausted_stable htakes (hid ▸ agent_of_mem ha) hplan hsame]
    rcases change_agent cfg tick sweep hcursor ha with
      hkept | ⟨heq, -⟩ | ⟨-, t, ht, hagent⟩
    · exact Or.inl ⟨hkept, rfl⟩
    · exact absurd heq hne
    · exact Or.inr ⟨exhausted_false_of_failed ht (hagent.trans hid.symm),
        exhausted_false_of_failed ht hagent⟩
  · intro a ha
    rw [change_agents_new] at ha
    cases ha

theorem orphanedRows_stable (htakes : (tick.change cfg db sweep).Takes db db')
    (hne : sweep ≠ .reconcile) (age : Int) (now : Time) :
    orphanedRows db' age now = orphanedRows db age now := by
  have hrows : db'.idempotency.rows = db.idempotency.rows := by
    rw [htakes.idempotency]
    cases sweep with
    | reconcile => exact absurd rfl hne
    | _ => exact Change.none_apply
  rw [orphanedRows, Table.select, hrows]
  rfl

theorem inserted_stable (hcursor : db.AtCursor)
    (htakes : (tick.change cfg db sweep).Takes db db') (hne : sweep ≠ .repair) :
    tick.inserted cfg db' = tick.inserted cfg db := by
  have hrows : db'.taskInstances.rows =
      db.taskInstances.rows.map (tick.change cfg db sweep).tasks.on := by
    rw [htakes.tasks, Change.apply, change_new_eq_nil hne, List.append_nil]
  have hids : db'.taskInstances.rows.map TaskInstance.id =
      db.taskInstances.rows.map TaskInstance.id := by
    rw [hrows, List.map_map]
    exact List.map_congr_left fun t _ => (change_position t).1
  have hplaces : db'.taskInstances.rows.map TaskInstance.position =
      db.taskInstances.rows.map TaskInstance.position := by
    rw [hrows, List.map_map]
    exact List.map_congr_left fun t _ => (change_position t).2
  have hinsertable : ∀ rows, Insertable cfg.ladder db' rows ↔ Insertable cfg.ladder db rows := by
    intro rows
    rw [Insertable, List.map_append, List.map_append, hids, hplaces, ← List.map_append,
      ← List.map_append]
    rfl
  unfold Tick.inserted
  rw [stalledRows_stable hcursor htakes hne]
  cases cfg.ladder.baseTier with
  | none => rfl
  | some tier => exact if_congr (hinsertable _) rfl rfl

theorem evidence_stable (htakes : (tick.change cfg db sweep).Takes db db') {t : TaskInstance}
    (ht : t ∈ failedRows db) :
    db'.evidence t.id = db.evidence t.id := by
  have hnone : (tick.change cfg db sweep).attempts.filter (fun e => e.taskInstanceId = t.id) =
      [] := by
    refine List.filter_eq_nil_iff.2 fun e he => ?_
    cases sweep with
    | reap =>
        obtain ⟨u, hu, rfl⟩ := List.mem_map.1 he
        obtain ⟨hget, hexpired⟩ := mem_expiredRows.1 hu
        obtain ⟨hget', hfailed⟩ := mem_failedRows.1 ht
        intro heq
        have hid : u.id = t.id := of_decide_eq_true heq
        rw [hid, hget'] at hget
        rw [← Option.some.inj hget, expired_of_status (by simp [hfailed])] at hexpired
        cases hexpired
    | _ => cases he
  rw [Db.evidence, htakes.attempts, List.filter_append, hnone, List.append_nil, Db.evidence]

theorem queuedSiblings_stable (hcursor : db.AtCursor)
    (htakes : (tick.change cfg db sweep).Takes db db') (hne : sweep ≠ .classify)
    {t : TaskInstance} (ht : t ∈ failedRows db) :
    queuedSiblings t.agentId db' = queuedSiblings t.agentId db := by
  obtain ⟨hget, hfailed⟩ := mem_failedRows.1 ht
  refine queuedSiblings_of_change htakes.tasks (fun r hr => ?_) fun r hr => ?_
  · cases sweep with
    | repair | finalise | reconcile => exact Or.inl rfl
    | classify => exact absurd rfl hne
    | reap =>
        by_cases hid : r.id ∈ (expiredRows db tick.now).map TaskInstance.id
        · right
          obtain ⟨hget', hexpired⟩ := mem_expiredRows.1 (expired_of_mem_ids hr hid)
          have hagent : r.agentId ≠ t.agentId := by
            intro heq
            have hsame := hcursor.unique hget' hget (Or.inl (expired_spec hexpired).1)
              (Or.inr hfailed) heq
            rw [hsame, expired_of_status (by simp [hfailed])] at hexpired
            cases hexpired
          exact ⟨queuedSibling_of_agentId (by rw [change_agentId]; exact hagent),
            queuedSibling_of_agentId hagent⟩
        · exact Or.inl (if_neg hid)
  · obtain ⟨-, -, ag, hag, hstalled, -⟩ := mem_inserted (mem_change_new hr).2
    refine queuedSibling_of_agentId fun heq => ?_
    rw [heq] at hag
    have hrow := rowAt_of_failed hcursor ht hag
    rw [(stalled_spec hstalled).2.2] at hrow
    cases hrow

theorem writes_stable (hcursor : db.AtCursor)
    (htakes : (tick.change cfg db sweep).Takes db db') (hne : sweep ≠ .classify) :
    tick.writes cfg db' = tick.writes cfg db := by
  rw [Tick.writes, failedRows_stable htakes hne]
  exact List.filterMap_congr fun t ht => routeWrite_congr (evidence_stable htakes ht)
    (queuedSiblings_stable hcursor htakes hne ht)

/-- A sweep finds after another what it would have found before it. -/
theorem change_stable (hcursor : db.AtCursor) {other : Sweep} (hne : sweep ≠ other)
    (htakes : (tick.change cfg db sweep).Takes db db') :
    tick.change cfg db' other = tick.change cfg db other := by
  cases other with
  | reap => exact congrArg (reapChange tick.jitter tick.now) (expiredRows_stable htakes hne)
  | repair => exact congrArg repairChange (inserted_stable hcursor htakes hne)
  | finalise =>
      exact congrArg (finaliseChange tick.now) (exhaustedRows_stable hcursor htakes hne)
  | classify => exact congrArg classifyChange (writes_stable hcursor htakes hne)
  | reconcile =>
      exact congrArg (reconcileChange tick.now) (orphanedRows_stable htakes hne _ _)

end Stability

/-! ## Independence -/

section Independence

variable {cfg : Config} {tick : Tick} {db : Db}

theorem reap_repair_independent :
    (tick.change cfg db .reap).Independent (tick.change cfg db .repair) db where
  agents := Change.independent_none
  tasks :=
    { swap := fun _ _ => rfl
      left := fun t ht => by
        have hfresh := (mem_inserted ht).1
        refine if_neg fun hid => ?_
        obtain ⟨u, hu, heq⟩ := List.mem_map.1 hid
        rw [← heq, (mem_expiredRows.1 hu).1] at hfresh
        cases hfresh
      right := fun _ ht => by cases ht
      one := Or.inl rfl }
  attempts := Or.inr rfl
  idempotency := Change.independent_none
  dlq := Or.inl rfl

theorem reap_classify_independent :
    (tick.change cfg db .reap).Independent (tick.change cfg db .classify) db where
  agents := Change.independent_none.symm
  tasks :=
    { swap := Change.swap_of_disjoint
        (p := fun k => k ∈ (expiredRows db tick.now).map TaskInstance.id)
        (q := fun k => ∃ w ∈ tick.writes cfg db, k = w.task.id ∨ k ∈ w.siblings)
        (fun t => (change_position t).1) (foldl_onTask_id _) (fun t ht => if_neg ht)
        (fun t ht => foldl_onTask_apart fun w hw => not_or.1 fun hk => ht ⟨w, hw, hk⟩)
        fun t ht ⟨hid, w, hw, hk⟩ => by
          have hrunning := (expired_spec (mem_expiredRows.1 (expired_of_mem_ids ht hid)).2).1
          obtain ⟨u, hu, hstatus, -⟩ := touched_of_mem_writes hw hk
          rw [task_of_mem ht, Option.some.injEq] at hu
          rw [← hu, hrunning] at hstatus
          rcases hstatus with hwas | hwas <;> cases hwas
      left := fun _ ht => by cases ht
      right := fun _ ht => by cases ht
      one := Or.inl rfl }
  attempts := Or.inr rfl
  idempotency := Change.independent_none
  dlq := Or.inl rfl

theorem repair_classify_independent :
    (tick.change cfg db .repair).Independent (tick.change cfg db .classify) db where
  agents := Change.independent_none.symm
  tasks :=
    { swap := fun _ _ => rfl
      left := fun _ ht => by cases ht
      right := fun t ht => onTask_of_fresh (mem_inserted ht).1
      one := Or.inr rfl }
  attempts := Or.inl rfl
  idempotency := Change.independent_none
  dlq := Or.inl rfl

theorem finalise_classify_independent (hcursor : db.AtCursor) :
    (tick.change cfg db .finalise).Independent (tick.change cfg db .classify) db where
  agents :=
    { swap := Change.swap_of_disjoint
        (p := fun k => k ∈ (exhaustedRows db).map Agent.id)
        (q := fun k => ∃ w ∈ tick.writes cfg db, w.agent? = some k)
        (fun a => (change_agent_fields cfg tick db _ a).1) (foldl_onAgent_id _) (fun a ha => if_neg ha)
        (fun a ha => foldl_onAgent_apart fun w hw hagent => ha ⟨w, hw, hagent⟩)
        fun a ha ⟨hid, w, hw, hagent⟩ => by
          have hdone := (mem_exhaustedRows.1 (exhausted_of_mem_ids ha hid)).2
          obtain ⟨hrow, heq, -⟩ := agent_of_mem_writes hcursor hw hagent
          rw [exhausted_false_of_failed hrow heq] at hdone
          cases hdone
      left := fun _ ha => by cases ha
      right := fun _ ha => by cases ha
      one := Or.inl rfl }
  tasks := Change.independent_none.symm
  attempts := Or.inl rfl
  idempotency := Change.independent_none
  dlq := Or.inl rfl

theorem reap_finalise_independent :
    (tick.change cfg db .reap).Independent (tick.change cfg db .finalise) db where
  agents := Change.independent_none.symm
  tasks := Change.independent_none
  attempts := Or.inr rfl
  idempotency := Change.independent_none
  dlq := Or.inl rfl

theorem repair_finalise_independent :
    (tick.change cfg db .repair).Independent (tick.change cfg db .finalise) db where
  agents := Change.independent_none.symm
  tasks := Change.independent_none
  attempts := Or.inl rfl
  idempotency := Change.independent_none
  dlq := Or.inl rfl

theorem reconcile_independent {sweep : Sweep} (hne : sweep ≠ .reconcile) :
    (tick.change cfg db sweep).Independent (tick.change cfg db .reconcile) db where
  agents := Change.independent_none
  tasks := Change.independent_none
  attempts := Or.inr rfl
  idempotency := by
    cases sweep with
    | reconcile => exact absurd rfl hne
    | _ => exact Change.independent_none.symm
  dlq := Or.inr rfl

theorem sweeps_independent (hcursor : db.AtCursor) {sweep other : Sweep} (hne : sweep ≠ other) :
    (tick.change cfg db sweep).Independent (tick.change cfg db other) db := by
  cases sweep <;> cases other
  all_goals first
    | exact absurd rfl hne
    | exact reconcile_independent hne
    | exact (reconcile_independent hne.symm).symm
    | exact reap_repair_independent
    | exact reap_repair_independent.symm
    | exact reap_finalise_independent
    | exact reap_finalise_independent.symm
    | exact reap_classify_independent
    | exact reap_classify_independent.symm
    | exact repair_finalise_independent
    | exact repair_finalise_independent.symm
    | exact repair_classify_independent
    | exact repair_classify_independent.symm
    | exact finalise_classify_independent hcursor
    | exact (finalise_classify_independent hcursor).symm

end Independence

/-! ## A second time -/

section Idempotence

variable {cfg : Config} {tick : Tick} {db db' : Db} {sweep : Sweep}

theorem DbChange.Takes.eq_of_idle {c : DbChange} (h : c.Takes db db')
    (hagents : ∀ a, c.agents.on a = a) (htasks : ∀ t, c.tasks.on t = t)
    (hreservations : ∀ r, c.idempotency.on r = r) (hnew : c.agents.new = [] ∧ c.tasks.new = [] ∧
      c.attempts = [] ∧ c.idempotency.new = [] ∧ c.dlq = []) : db' = db := by
  have hmap : ∀ {ρ : Type} (rows : List ρ) (f : ρ → ρ), (∀ r, f r = r) → rows.map f = rows :=
    fun rows f hf => (List.map_congr_left fun r _ => hf r).trans (List.map_id rows)
  obtain ⟨h1, h2, h3, h4, h5⟩ := hnew
  refine Db.ext_rows ?_ ?_ ?_ ?_ ?_
  · rw [h.agents, Change.apply, hmap _ _ hagents, h1, List.append_nil]
  · rw [h.tasks, Change.apply, hmap _ _ htasks, h2, List.append_nil]
  · rw [h.attempts, h3, List.append_nil]
  · rw [h.idempotency, Change.apply, hmap _ _ hreservations, h4, List.append_nil]
  · rw [h.dlq, h5, List.append_nil]

def Tick.idle (cfg : Config) (tick : Tick) (db : Db) : Sweep → Prop
  | .reap => expiredRows db tick.now = []
  | .repair => tick.inserted cfg db = []
  | .finalise => exhaustedRows db = []
  | .classify => failedRows db = []
  | .reconcile => orphanedRows db cfg.graceSeconds tick.now = []

theorem Tick.Takes.eq_of_idle (htakes : (tick.change cfg db sweep).Takes db db')
    (hidle : tick.idle cfg db sweep) : db' = db := by
  refine htakes.eq_of_idle ?_ ?_ ?_ ?_
  all_goals cases sweep
  all_goals simp only [Tick.idle] at hidle
  all_goals simp [Tick.change, reapChange, repairChange, finaliseChange, classifyChange,
    reconcileChange, Tick.writes, Change.none, hidle]

theorem expiredRows_after (htakes : (tick.change cfg db .reap).Takes db db') :
    expiredRows db' tick.now = [] := by
  rw [expiredRows, Table.select, htakes.tasks, Change.filter_apply_eq_nil]
  · rfl
  · intro t ht
    by_cases hid : t.id ∈ (expiredRows db tick.now).map TaskInstance.id
    · rw [show (tick.change cfg db .reap).tasks.on t = _ from if_pos hid]
      exact expired_of_status (by simp)
    · rw [show (tick.change cfg db .reap).tasks.on t = t from if_neg hid]
      by_contra hexpired
      exact hid (List.mem_map_of_mem
        (mem_expiredRows.2 ⟨task_of_mem ht, by simpa using hexpired⟩))
  · exact fun _ ht => by cases ht

theorem exhaustedRows_after (htakes : (tick.change cfg db .finalise).Takes db db') :
    exhaustedRows db' = [] := by
  rw [exhaustedRows, Table.select, htakes.agents, Change.filter_apply_eq_nil]
  · rfl
  · intro a ha
    by_cases hid : a.id ∈ (exhaustedRows db).map Agent.id
    · rw [show (tick.change cfg db .finalise).agents.on a = _ from if_pos hid]
      simp [exhausted]
    · rw [show (tick.change cfg db .finalise).agents.on a = a from if_neg hid,
        exhausted_stable htakes (agent_of_mem ha) rfl rfl]
      by_contra hexhausted
      exact hid (List.mem_map_of_mem
        (mem_exhaustedRows.2 ⟨agent_of_mem ha, by simpa using hexhausted⟩))
  · exact fun _ ha => by cases ha

theorem failedRows_after (hcursor : db.AtCursor)
    (htakes : (tick.change cfg db .classify).Takes db db') : failedRows db' = [] := by
  rw [failedRows, Table.select, htakes.tasks, Change.filter_apply_eq_nil]
  · rfl
  · intro t ht
    refine decide_eq_false ?_
    by_cases hfailed : t.status = .failed
    · have hrow : t ∈ failedRows db := mem_failedRows.2 ⟨task_of_mem ht, hfailed⟩
      obtain ⟨w, hw⟩ := routeWrite_exists cfg.ladder tick.flags tick.now db
        (hcursor.classed _ t (task_of_mem ht) hfailed)
      exact foldl_onTask_routed
        ⟨w, mem_writes.2 ⟨t, hrow, hw⟩, by rw [(routeWrite_spec hw).1]⟩
    · exact foldl_onTask_status (p := (· ≠ .failed)) (by decide) (by decide) hfailed
  · exact fun _ ht => by cases ht

theorem orphanedRows_after (htakes : (tick.change cfg db .reconcile).Takes db db') :
    orphanedRows db' cfg.graceSeconds tick.now = [] := by
  rw [orphanedRows, Table.select, htakes.idempotency, Change.filter_apply_eq_nil]
  · rfl
  · intro r hr
    by_cases hid : r.key ∈ (orphanedRows db cfg.graceSeconds tick.now).map Reservation.key
    · rw [show (tick.change cfg db .reconcile).idempotency.on r = _ from if_pos hid]
      simp [Ledger.orphaned, Ledger.settled]
    · rw [show (tick.change cfg db .reconcile).idempotency.on r = r from if_neg hid]
      by_contra horphaned
      have hmem : r ∈ orphanedRows db cfg.graceSeconds tick.now :=
        (List.mem_insertionSort _).2 (List.mem_filter.2 ⟨hr, by simpa using horphaned⟩)
      exact hid (List.mem_map_of_mem hmem)
  · exact fun _ hr => by cases hr

/-- A repair inserts a row for every stalled agent, or nothing at all. -/
theorem stalledRows_after (htakes : (tick.change cfg db .repair).Takes db db') :
    stalledRows db' = [] ∨ db' = db := by
  by_cases hidle : tick.inserted cfg db = []
  · exact Or.inr (Tick.Takes.eq_of_idle htakes hidle)
  left
  have hagents : db'.agents.rows = db.agents.rows := by
    rw [htakes.agents]
    exact Change.none_apply
  have hrows : db'.taskInstances.rows = db.taskInstances.rows ++ tick.inserted cfg db := by
    rw [htakes.tasks]
    simp [Tick.change, repairChange, Change.apply]
  obtain ⟨tier, hinserted⟩ : ∃ tier, tick.inserted cfg db =
      repairRows tier tick.ids tick.now (stalledRows db) := by
    unfold Tick.inserted at hidle ⊢
    cases htier : cfg.ladder.baseTier with
    | none => simp [htier] at hidle
    | some tier =>
        simp only [htier] at hidle ⊢
        split at hidle
        · rename_i hinsertable
          exact ⟨tier, if_pos hinsertable⟩
        · exact absurd rfl hidle
  have hpresent : ∀ t ∈ db'.taskInstances.rows, (db'.rowAt t.agentId t.seq).isNone = false := by
    intro t ht
    rw [Db.rowAt_of_task (task_of_mem ht)]
    rfl
  have hnone : db'.agents.rows.filter (stalled db') = [] := by
    refine List.filter_eq_nil_iff.2 fun a ha hstalled => ?_
    obtain ⟨hrunning, hplan, hmissing⟩ := stalled_spec hstalled
    rw [hagents] at ha
    cases hold : db.rowAt a.id a.cursor with
    | some t =>
        obtain ⟨hget, hagent, hseq⟩ := Db.task_of_rowAt hold
        have hthere := hpresent t (by
          rw [hrows]
          exact List.mem_append_left _ (Table.mem_of_get? hget))
        rw [hagent, hseq, hmissing] at hthere
        cases hthere
    | none =>
        have hfresh : TaskInstance.fresh (tick.ids a.id) a.id a.cursor a.plan[a.cursor] tier
            tick.now ∈ tick.inserted cfg db := by
          rw [hinserted, repairRows, List.mem_filterMap]
          refine ⟨a, mem_stalledRows.2 ⟨agent_of_mem ha, ?_⟩, ?_⟩
          · simp [stalled, hrunning, hplan, hold]
          · rw [List.getElem?_eq_getElem hplan]
            rfl
        have hthere := hpresent _ (by
          rw [hrows]
          exact List.mem_append_right _ hfresh)
        rw [TaskInstance.fresh_agentId, TaskInstance.fresh_seq, hmissing] at hthere
        cases hthere
  rw [stalledRows, Table.select, hnone]
  rfl

theorem idle_after (hcursor : db.AtCursor) (htakes : (tick.change cfg db sweep).Takes db db') :
    tick.idle cfg db' sweep ∨ db' = db := by
  cases sweep with
  | reap => exact Or.inl (expiredRows_after htakes)
  | finalise => exact Or.inl (exhaustedRows_after htakes)
  | classify => exact Or.inl (failedRows_after hcursor htakes)
  | reconcile => exact Or.inl (orphanedRows_after htakes)
  | repair =>
      refine (stalledRows_after htakes).imp_left fun hnone => ?_
      rw [Tick.idle, Tick.inserted, hnone]
      cases cfg.ladder.baseTier with
      | none => rfl
      | some tier => exact ite_self _

end Idempotence

/-! ## A pass in any order -/

section Orders

variable {cfg : Config} {tick : Tick} {db : Db}

/-- What a pass relies on: work is at the cursor, and no batch limit is binding. -/
structure Tick.Ready (cfg : Config) (tick : Tick) (db : Db) : Prop where
  cursor : db.AtCursor
  fits : tick.Fits cfg db

theorem Db.AtCursor.perform (h : db.AtCursor) (sweep : Sweep) :
    (tick.perform cfg db sweep).AtCursor := by
  let idleSys : Sys := { db := db, workers := fun _ => {} }
  have hstatements := step_statements (tick.step_action cfg idleSys sweep)
  exact Machine.closure_invariant (I := Db.AtCursor)
    (fun _ _ hpast hstatement => hpast.statement
      (fun _ _ htask => by cases htask) hstatement) h hstatements

theorem Tick.Fits.perform (hcursor : db.AtCursor) (hfits : tick.Fits cfg db) (sweep : Sweep) :
    tick.Fits cfg (tick.perform cfg db sweep) := by
  have htakes := Tick.takes hcursor hfits sweep
  constructor
  · by_cases hsame : sweep = .reap
    · subst hsame
      rw [expiredRows_after htakes]
      exact Nat.zero_le _
    · rw [expiredRows_stable htakes hsame]
      exact hfits.reap
  · by_cases hsame : sweep = .repair
    · subst hsame
      rcases stalledRows_after htakes with hnone | heq
      · rw [hnone]
        exact Nat.zero_le _
      · rw [heq]
        exact hfits.repair
    · rw [stalledRows_stable hcursor htakes hsame]
      exact hfits.repair
  · by_cases hsame : sweep = .finalise
    · subst hsame
      rw [exhaustedRows_after htakes]
      exact Nat.zero_le _
    · rw [exhaustedRows_stable hcursor htakes hsame]
      exact hfits.finalise
  · by_cases hsame : sweep = .classify
    · subst hsame
      rw [failedRows_after hcursor htakes]
      exact Nat.zero_le _
    · rw [failedRows_stable htakes hsame]
      exact hfits.classify
  · by_cases hsame : sweep = .reconcile
    · subst hsame
      rw [orphanedRows_after htakes]
      exact Nat.zero_le _
    · rw [orphanedRows_stable htakes hsame]
      exact hfits.reconcile

theorem Tick.Ready.perform (h : tick.Ready cfg db) (sweep : Sweep) :
    tick.Ready cfg (tick.perform cfg db sweep) :=
  ⟨h.cursor.perform sweep, h.fits.perform h.cursor sweep⟩

theorem perform_comm (h : tick.Ready cfg db) (sweep other : Sweep) :
    tick.perform cfg (tick.perform cfg db sweep) other =
      tick.perform cfg (tick.perform cfg db other) sweep := by
  by_cases hne : sweep = other
  · rw [hne]
  have hfirst := Tick.takes h.cursor h.fits sweep
  have hfirst' := Tick.takes h.cursor h.fits other
  have hready := h.perform sweep
  have hready' := h.perform other
  have hsecond := Tick.takes hready.cursor hready.fits other
  have hsecond' := Tick.takes hready'.cursor hready'.fits sweep
  rw [change_stable h.cursor hne hfirst] at hsecond
  rw [change_stable h.cursor (Ne.symm hne) hfirst'] at hsecond'
  exact (sweeps_independent h.cursor hne).comm hfirst hsecond hfirst' hsecond'

theorem perform_idem (h : tick.Ready cfg db) (sweep : Sweep) :
    tick.perform cfg (tick.perform cfg db sweep) sweep = tick.perform cfg db sweep := by
  have hready := h.perform sweep
  rcases idle_after h.cursor (Tick.takes h.cursor h.fits sweep) with hidle | hsame
  · exact Tick.Takes.eq_of_idle (Tick.takes hready.cursor hready.fits sweep) hidle
  · rw [hsame]
    exact hsame

end Orders

/-- From every state of a run with losses, a pass leads to the same database in any order of
its sweeps, and right after it, or after any one sweep, running a sweep again changes nothing. -/
theorem sweep_order {cfg : Config} {ts : List LossyTransition} {s : Lossy}
    (h : LossyRun cfg ts s) {tick : Tick} (hfits : tick.Fits cfg s.sys.db) {order : List Sweep}
    (horder : order.Perm Sweep.all) :
    order.foldl (tick.perform cfg) s.sys.db = Sweep.all.foldl (tick.perform cfg) s.sys.db ∧
      (∀ sweep, tick.perform cfg (tick.perform cfg s.sys.db sweep) sweep =
        tick.perform cfg s.sys.db sweep) ∧
      ∀ sweep, tick.perform cfg (order.foldl (tick.perform cfg) s.sys.db) sweep =
        order.foldl (tick.perform cfg) s.sys.db := by
  have hready : tick.Ready cfg s.sys.db := ⟨h.orderly.cursor, hfits⟩
  have keeps : ∀ db sweep, tick.Ready cfg db → tick.Ready cfg (tick.perform cfg db sweep) :=
    fun _ sweep hdb => hdb.perform sweep
  have comm : ∀ db sweep other, tick.Ready cfg db →
      tick.perform cfg (tick.perform cfg db sweep) other =
        tick.perform cfg (tick.perform cfg db other) sweep :=
    fun _ sweep other hdb => perform_comm hdb sweep other
  refine ⟨foldl_perm keeps comm horder hready, fun sweep => perform_idem hready sweep,
    fun sweep => ?_⟩
  have hmem : sweep ∈ order := horder.mem_iff.2 (by cases sweep <;> decide)
  exact foldl_absorbs keeps comm (fun _ sweep hdb => perform_idem hdb sweep) hmem hready

/-- Three plans: a claim that has expired, a failure that has been reported, and an agent
whose row is lost. -/
def lossyBacklog : List LossyAction :=
  [.act (.submit none [1] [firstAgent] rowId 0), .act (.submit none [20] [⟨2⟩] rowId 1)] ++
    (handout 0 (seconds 1) solved ++ handout 2 (seconds 2) (.raised tooHard) ++
      [Action.report 2 (seconds 3)]).map .act ++
    [.act (.submit none [10] [⟨3⟩] rowId (seconds 4)), .lose (rowId ⟨3⟩ 0)]

def lateTick : Tick where
  now := seconds 100
  jitter := fun _ => seconds 5
  ids := fun agentId => ⟨agentId.bits + 5000⟩
  flags := {}
  reaperBatch := 100
  orchestratorBatch := 50
  classifyLimit := 100

def backwards : List Sweep := [.reconcile, .classify, .finalise, .repair, .reap]

theorem sweep_order_backwards :
    backwards.foldl (lateTick.perform oneHost) (Lossy.ran oneHost lossyBacklog).2.sys.db =
        Sweep.all.foldl (lateTick.perform oneHost) (Lossy.ran oneHost lossyBacklog).2.sys.db ∧
      ((Lossy.ran oneHost lossyBacklog).2.sys.db.taskInstances.rows.map
        fun t => t.status) = [.running, .failed] ∧
      ((Sweep.all.foldl (lateTick.perform oneHost)
        (Lossy.ran oneHost lossyBacklog).2.sys.db).taskInstances.rows.map
          fun t => t.status) = [.pending, .pending, .pending] :=
  ⟨(@sweep_order oneHost _ _ (Lossy.run_ran oneHost lossyBacklog) lateTick
    ⟨by decide +kernel, by decide +kernel, by decide +kernel, by decide +kernel,
      by decide +kernel⟩ backwards (by decide)).1, by decide +kernel, by decide +kernel⟩

end ReliableAgents
