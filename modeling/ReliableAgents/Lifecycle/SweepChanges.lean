import ReliableAgents.Lifecycle.AtCursor
import ReliableAgents.Orchestrator.Tick

/-!
# What the sweeps leave to one another

As long as work is at the cursor, the failures of one classification belong to
different agents, and no sweep touches a row that another one selects: each of them
finds what it would have found before.
-/

namespace ReliableAgents

open Relational

/-! ## One classification as a change -/

section Classification

variable {ladder : Ladder} {flags : Flags} {now : Time} {db db' : Db} {t : TaskInstance}
  {w : Write} {writes : List Write}

variable (ladder flags now db) in
theorem routeWrite_exists (h : t.failureClass ≠ none) :
    ∃ w, routeWrite ladder flags now t db = some w := by
  obtain ⟨failureClass, hclass⟩ := Option.ne_none_iff_exists'.1 h
  unfold routeWrite
  split
  · exact ⟨_, rfl⟩
  · exact ⟨_, rfl⟩
  · rw [hclass]
    exact ⟨_, rfl⟩

/-- What a write is about: its row, queued rows of that row's agent, and the agent. -/
theorem routeWrite_spec (h : routeWrite ladder flags now t db = some w) :
    w.task = t ∧ (∀ k ∈ w.siblings, k ∈ queuedSiblings t.agentId db) ∧
      ∀ a, w.agent? = some a → a = t.agentId := by
  unfold routeWrite at h
  split at h
  · cases h
    exact ⟨rfl, by simp [Write.siblings], by simp [Write.agent?]⟩
  · cases h
    exact ⟨rfl, by simp [Write.siblings], by simp [Write.agent?]⟩
  · obtain ⟨failureClass, -, rfl⟩ := Option.map_eq_some_iff.1 h
    exact ⟨rfl, fun k hk => hk, fun a ha => (Option.some.inj ha).symm⟩

/-- `route_one` reads the evidence of the row, and which rows are queued behind it. -/
theorem routeWrite_congr (hevidence : db'.evidence t.id = db.evidence t.id)
    (hsiblings : queuedSiblings t.agentId db' = queuedSiblings t.agentId db) :
    routeWrite ladder flags now t db' = routeWrite ladder flags now t db := by
  unfold routeWrite
  rw [hevidence, hsiblings]

theorem mem_queuedSiblings {agentId k : Uuid} :
    k ∈ queuedSiblings agentId db ↔
      ∃ u, db.task k = some u ∧ u.agentId = agentId ∧ u.status = .pending := by
  rw [queuedSiblings, List.mem_map]
  constructor
  · rintro ⟨u, hu, rfl⟩
    obtain ⟨hget, hqueued⟩ := Table.mem_select.1 hu
    simp only [queuedSibling, Bool.and_eq_true, decide_eq_true_eq] at hqueued
    exact ⟨u, hget, hqueued⟩
  · rintro ⟨u, hu, hagent, hpending⟩
    have hid : u.id = k := Db.id_of_task hu
    exact ⟨u, Table.mem_select.2 ⟨by rw [hid]; exact hu, by simp [queuedSibling, hagent, hpending]⟩,
      hid⟩

/-- Which rows of an agent are queued does not depend on other rows. -/
theorem queuedSiblings_of_change {c : Change TaskInstance} {agentId : Uuid}
    (htasks : db'.taskInstances.rows = c.apply db.taskInstances.rows)
    (hold : ∀ r ∈ db.taskInstances.rows, c.on r = r ∨
      (queuedSibling agentId (c.on r) = false ∧ queuedSibling agentId r = false))
    (hnew : ∀ r ∈ c.new, queuedSibling agentId r = false) :
    queuedSiblings agentId db' = queuedSiblings agentId db := by
  rw [queuedSiblings, Table.select, htasks, Change.filter_apply (q := queuedSibling agentId)]
  · rfl
  · exact fun r hr => (hold r hr).imp_left fun hsame => ⟨hsame, rfl⟩
  · exact hnew

theorem queuedSibling_of_agentId {agentId : Uuid} (h : t.agentId ≠ agentId) :
    queuedSibling agentId t = false := by
  simp [queuedSibling, h]

/-- Routing a row of one agent leaves the routing of another's alone. -/
theorem routeWrite_perform (hrow : db.task w.task.id = some w.task)
    (hne : w.task.agentId ≠ t.agentId) :
    routeWrite ladder flags now t (w.perform db) = routeWrite ladder flags now t db := by
  refine routeWrite_congr (by rw [Db.evidence, w.perform_attempts, Db.evidence])
    (queuedSiblings_of_change (c := ⟨fun r => w.onTask r, []⟩)
      (by simp [Change.apply, w.perform_tasks]) (fun r hr => ?_) (by simp))
  have other : r.agentId = w.task.agentId → queuedSibling t.agentId (w.onTask r) = false ∧
      queuedSibling t.agentId r = false := by
    intro hagent
    have hr' : r.agentId ≠ t.agentId := hagent ▸ hne
    exact ⟨queuedSibling_of_agentId (by simpa using hr'), queuedSibling_of_agentId hr'⟩
  by_cases hid : r.id = w.task.id
  · have hsame : db.task r.id = some r := Table.get?_of_mem _ hr
    rw [hid, hrow] at hsame
    exact Or.inr (other (by rw [← Option.some.inj hsame]))
  · rcases Write.onTask_other hid with hsame | ⟨-, hagent, -, -⟩
    · exact Or.inl hsame
    · exact Or.inr (other hagent)

theorem performAll_takes (writes : List Write) (db : Db) :
    (classifyChange writes).Takes db (writes.foldl Write.perform db) := by
  induction writes generalizing db with
  | nil => exact ⟨by simp [classifyChange, Change.apply], by simp [classifyChange, Change.apply],
      by simp [classifyChange], by simp [classifyChange], by simp [classifyChange]⟩
  | cons w rest ih =>
      obtain ⟨hagents, htasks, hattempts, hidempotency, hdlq⟩ := ih (w.perform db)
      refine ⟨?_, ?_, ?_, ?_, ?_⟩
      · rw [List.foldl_cons, hagents]
        simp [classifyChange, Change.apply, w.perform_agents, Function.comp_def]
      · rw [List.foldl_cons, htasks]
        simp [classifyChange, Change.apply, w.perform_tasks, Function.comp_def]
      · rw [List.foldl_cons, hattempts, w.perform_attempts]
        rfl
      · rw [List.foldl_cons, hidempotency, w.perform_idempotency]
        rfl
      · rw [List.foldl_cons, hdlq, w.perform_dlq]
        simp [classifyChange]

/-- Failures of different agents can all be decided before the first is carried out. -/
theorem classify_eq_performAll (flags : Uuid → Flags) {rows : List TaskInstance}
    (hagents : (rows.map TaskInstance.agentId).Nodup)
    (hrows : ∀ t ∈ rows, db.task t.id = some t ∧ t.status = .failed ∧ t.failureClass ≠ none) :
    rows.foldlM (fun db t => (routeOne ladder (flags t.id) now t db).map Prod.snd) db =
      some ((rows.filterMap fun t => routeWrite ladder (flags t.id) now t db).foldl
        Write.perform db) := by
  induction rows generalizing db with
  | nil => rfl
  | cons t rest ih =>
      simp only [List.map_cons, List.nodup_cons] at hagents
      obtain ⟨ht, hfailed, hclass⟩ := hrows t List.mem_cons_self
      obtain ⟨w, hw⟩ := routeWrite_exists ladder (flags t.id) now db hclass
      obtain ⟨rfl, -, -⟩ := routeWrite_spec hw
      have hother : ∀ u ∈ rest, w.task.agentId ≠ u.agentId := fun u hu heq =>
        hagents.1 (heq ▸ List.mem_map_of_mem hu)
      have hkept : ∀ u ∈ rest, (w.perform db).task u.id = some u ∧ u.status = .failed ∧
          u.failureClass ≠ none := by
        intro u hu
        obtain ⟨hget, hwaiting, hclass'⟩ := hrows u (List.mem_cons_of_mem _ hu)
        have hne : u.id ≠ w.task.id := by
          intro heq
          rw [heq, ht] at hget
          exact hother u hu (by rw [Option.some.inj hget])
        refine ⟨?_, hwaiting, hclass'⟩
        rw [w.perform_task, hget, Option.map_some]
        rcases Write.onTask_other hne with hsame | ⟨-, -, hpending, -⟩
        · rw [hsame]
        · rw [hwaiting] at hpending
          cases hpending
      have hsame : rest.filterMap (fun u => routeWrite ladder (flags u.id) now u (w.perform db)) =
          rest.filterMap fun u => routeWrite ladder (flags u.id) now u db :=
        List.filterMap_congr fun u hu => routeWrite_perform ht (hother u hu)
      rw [List.foldlM_cons, routeOne_eq, hw, List.filterMap_cons, hw]
      simp only [Option.map_some, Option.bind_eq_bind, Option.bind_some, List.foldl_cons]
      rw [ih hagents.2 hkept, hsame]

end Classification

section Sweeps

variable {cfg : Config} {tick : Tick} {db db' : Db}

/-- The failures found at one time are of different agents. -/
theorem Db.AtCursor.agents_nodup (h : db.AtCursor) {rows : List TaskInstance}
    (hids : (rows.map TaskInstance.id).Nodup)
    (hrows : ∀ t ∈ rows, db.task t.id = some t ∧ t.status = .failed) :
    (rows.map TaskInstance.agentId).Nodup := by
  refine List.Nodup.map_on (fun t ht u hu hagent => ?_) hids.of_map
  obtain ⟨hget, hfailed⟩ := hrows t ht
  obtain ⟨hget', hfailed'⟩ := hrows u hu
  exact h.unique hget hget' (Or.inr hfailed) (Or.inr hfailed') hagent

theorem failedRows_agents (h : db.AtCursor) : ((failedRows db).map TaskInstance.agentId).Nodup := by
  have hids : ((failedRows db).map TaskInstance.id).Nodup :=
    ((List.perm_insertionSort _ _).map TaskInstance.id).nodup_iff.2 (Table.select_map_nodup _ _)
  exact h.agents_nodup hids fun t ht => mem_failedRows.1 ht

theorem classify_takes (h : db.AtCursor) (hfits : tick.Fits cfg db) :
    (tick.change cfg db .classify).Takes db (tick.perform cfg db .classify) := by
  have hrows : takeFailed tick.classifyLimit unlocked db = failedRows db :=
    orderedBatch_all db.taskInstances _ hfits.classify
  have hfailed : ∀ t ∈ failedRows db, db.task t.id = some t ∧ t.status = .failed ∧
      t.failureClass ≠ none := by
    intro t ht
    obtain ⟨hget, hfailed⟩ := mem_failedRows.1 ht
    exact ⟨hget, hfailed, h.classed _ t hget hfailed⟩
  have hclassify : tick.perform cfg db .classify = (tick.writes cfg db).foldl Write.perform db := by
    rw [Tick.perform, classify, hrows]
    exact congrArg (Option.getD · db)
      (classify_eq_performAll (fun _ => tick.flags) (failedRows_agents h) hfailed)
  rw [hclassify]
  exact performAll_takes _ db

theorem Tick.takes (h : db.AtCursor) (hfits : tick.Fits cfg db) (sweep : Sweep) :
    (tick.change cfg db sweep).Takes db (tick.perform cfg db sweep) := by
  cases sweep with
  | reap => exact reap_takes hfits
  | repair => exact repair_takes hfits
  | finalise => exact finalise_takes hfits
  | classify => exact classify_takes h hfits
  | reconcile => exact reconcile_takes hfits

end Sweeps

/-! ## Which rows a classification touches -/

section Support

variable {cfg : Config} {tick : Tick} {db : Db} {writes : List Write} {t : TaskInstance} {a : Agent}

theorem foldl_onTask_id (writes : List Write) (t : TaskInstance) :
    (writes.foldl Write.onTask t).id = t.id := by
  induction writes generalizing t with
  | nil => rfl
  | cons w rest ih => exact (ih _).trans Write.onTask_id

theorem foldl_onTask_position (writes : List Write) (t : TaskInstance) :
    (writes.foldl Write.onTask t).position = t.position := by
  induction writes generalizing t with
  | nil => rfl
  | cons w rest ih =>
      refine (ih _).trans ?_
      simp [TaskInstance.position]

theorem foldl_onAgent_id (writes : List Write) (a : Agent) :
    (writes.foldl Write.onAgent a).id = a.id := by
  induction writes generalizing a with
  | nil => rfl
  | cons w rest ih => exact (ih _).trans Write.onAgent_id

theorem foldl_onTask_apart (h : ∀ w ∈ writes, t.id ≠ w.task.id ∧ t.id ∉ w.siblings) :
    writes.foldl Write.onTask t = t := by
  induction writes with
  | nil => rfl
  | cons w rest ih =>
      obtain ⟨hown, hsiblings⟩ := h w List.mem_cons_self
      rw [List.foldl_cons, Write.onTask_apart hown hsiblings]
      exact ih fun w' hw' => h w' (List.mem_cons_of_mem _ hw')

theorem performAll_task (writes : List Write) (db : Db) (k : Uuid) :
    (writes.foldl Write.perform db).task k =
      (db.task k).map fun t => writes.foldl Write.onTask t := by
  induction writes generalizing db with
  | nil => exact (congrFun Option.map_id _).symm
  | cons w rest ih =>
      rw [List.foldl_cons, ih, w.perform_task, Option.map_map]
      rfl

theorem routeWrite_apart {ladder : Ladder} {flags : Flags} {now : Time} {u : TaskInstance}
    {w : Write} (ht : db.task t.id = some t) (hu : db.task u.id = some u)
    (hagent : u.agentId ≠ t.agentId) (hw : routeWrite ladder flags now u db = some w) :
    t.id ≠ w.task.id ∧ t.id ∉ w.siblings := by
  obtain ⟨rfl, hsiblings, -⟩ := routeWrite_spec hw
  constructor
  · intro heq
    rw [heq, hu] at ht
    exact hagent (by rw [Option.some.inj ht])
  · intro hmem
    obtain ⟨x, hx, hagent', -⟩ := mem_queuedSiblings.1 (hsiblings _ hmem)
    rw [ht] at hx
    cases hx
    exact hagent hagent'.symm

/-- What a batch makes of a row it takes is what that row's own write makes of it. -/
theorem classify_task (h : db.AtCursor) {ladder : Ladder} {limit : Nat} {flags : Uuid → Flags}
    {now : Time} {locked : Uuid → Bool} (ht : t ∈ takeFailed limit locked db) :
    ∃ w db', routeWrite ladder (flags t.id) now t db = some w ∧
      classify ladder limit flags now locked db = some db' ∧ db'.task t.id = some (w.onTask t) := by
  have hrows : ∀ u ∈ takeFailed limit locked db, db.task u.id = some u ∧ u.status = .failed ∧
      u.failureClass ≠ none := by
    intro u hu
    obtain ⟨hget, hfailed⟩ := mem_takeFailed hu
    exact ⟨hget, hfailed, h.classed _ u hget hfailed⟩
  have hagents := h.agents_nodup (takeFailed_nodup limit locked db) fun u hu => mem_takeFailed hu
  have htask := (hrows t ht).1
  obtain ⟨w, hw⟩ := routeWrite_exists ladder (flags t.id) now db (hrows t ht).2.2
  refine ⟨w, _, hw, classify_eq_performAll flags hagents hrows, ?_⟩
  rw [performAll_task, htask, Option.map_some]
  obtain ⟨before, behind, hsplit⟩ := List.append_of_mem ht
  rw [hsplit] at hrows hagents ⊢
  rw [List.map_append, List.map_cons, List.nodup_append, List.nodup_cons] at hagents
  have apart : ∀ rows : List TaskInstance, (∀ u ∈ rows, db.task u.id = some u) →
      (∀ u ∈ rows, u.agentId ≠ t.agentId) →
      ∀ w' ∈ rows.filterMap fun u => routeWrite ladder (flags u.id) now u db,
        t.id ≠ w'.task.id ∧ t.id ∉ w'.siblings := by
    intro rows hget hother w' hw'
    obtain ⟨u, hu, hroute⟩ := List.mem_filterMap.1 hw'
    exact routeWrite_apart htask (hget u hu) (hother u hu) hroute
  have hbefore := apart before (fun u hu => (hrows u (by simp [hu])).1) fun u hu =>
    hagents.2.2 _ (List.mem_map_of_mem hu) _ List.mem_cons_self
  have hbehind := apart behind (fun u hu => (hrows u (by simp [hu])).1) fun u hu heq =>
    hagents.2.1.1 (heq ▸ List.mem_map_of_mem hu)
  rw [List.filterMap_append, List.filterMap_cons, hw]
  dsimp only
  rw [List.foldl_append, List.foldl_cons, foldl_onTask_apart hbefore, foldl_onTask_apart]
  intro w' hw'
  rw [Write.onTask_id]
  exact hbehind w' hw'

theorem step_classify_task {s s' : Sys} {limit : Nat} {flags : Uuid → Flags} {now : Time}
    {locked : Uuid → Bool} (hcursor : s.db.AtCursor)
    (h : step cfg s (.classify limit flags now locked) = some s')
    (ht : t ∈ takeFailed limit locked s.db) :
    ∃ w, routeWrite cfg.ladder (flags t.id) now t s.db = some w ∧
      s'.db.task t.id = some (w.onTask t) := by
  obtain ⟨w, db', hw, hclassify, htask⟩ :=
    @classify_task _ _ hcursor cfg.ladder limit flags now locked ht
  refine ⟨w, hw, ?_⟩
  rw [← Option.some.inj h, Sys.setDb_db, hclassify, Option.getD_some, htask]

theorem foldl_onAgent_apart (h : ∀ w ∈ writes, w.agent? ≠ some a.id) :
    writes.foldl Write.onAgent a = a := by
  induction writes with
  | nil => rfl
  | cons w rest ih =>
      rw [List.foldl_cons, Write.onAgent_apart (h w List.mem_cons_self)]
      exact ih fun w' hw' => h w' (List.mem_cons_of_mem _ hw')

/-- A set of statuses that routing does not leave is not left by a batch either. -/
theorem foldl_onTask_status {p : TaskStatus → Prop} (hpending : p .pending) (hdead : p .dead)
    (h : p t.status) : p (writes.foldl Write.onTask t).status := by
  induction writes generalizing t with
  | nil => exact h
  | cons w rest ih =>
      refine ih ?_
      by_cases hid : t.id = w.task.id
      · rcases Write.onTask_own hid with hnow | hnow
        · exact hnow ▸ hpending
        · exact hnow ▸ hdead
      · rcases Write.onTask_other hid with hsame | ⟨-, -, -, hnow⟩
        · exact hsame.symm ▸ h
        · exact hnow ▸ hdead

theorem foldl_onTask_routed (h : ∃ w ∈ writes, t.id = w.task.id) :
    (writes.foldl Write.onTask t).status ≠ .failed := by
  induction writes generalizing t with
  | nil => simp at h
  | cons w rest ih =>
      by_cases hid : t.id = w.task.id
      · rw [List.foldl_cons]
        refine foldl_onTask_status (p := (· ≠ .failed)) (by decide) (by decide) ?_
        rcases Write.onTask_own hid with hnow | hnow <;> simp [hnow]
      · obtain ⟨w', hw', hid'⟩ := h
        rcases List.mem_cons.1 hw' with rfl | hw'
        · exact absurd hid' hid
        · exact ih ⟨w', hw', by simpa using hid'⟩

theorem mem_writes {w : Write} :
    w ∈ tick.writes cfg db ↔
      ∃ t ∈ failedRows db, routeWrite cfg.ladder tick.flags tick.now t db = some w := by
  simp [Tick.writes]

/-- A row a classification touches is 'failed', or queued behind one of its agent. -/
theorem touched_of_mem_writes {w : Write} (hw : w ∈ tick.writes cfg db) {k : Uuid}
    (hk : k = w.task.id ∨ k ∈ w.siblings) :
    ∃ u, db.task k = some u ∧ (u.status = .failed ∨ u.status = .pending) ∧
      u.agentId = w.task.agentId := by
  obtain ⟨t, ht, hwrite⟩ := mem_writes.1 hw
  obtain ⟨rfl, hsiblings, -⟩ := routeWrite_spec hwrite
  obtain ⟨hget, hfailed⟩ := mem_failedRows.1 ht
  rcases hk with rfl | hk
  · exact ⟨w.task, hget, Or.inl hfailed, rfl⟩
  · obtain ⟨u, hu, hagent, hpending⟩ := mem_queuedSiblings.1 (hsiblings k hk)
    exact ⟨u, hu, Or.inr hpending, hagent⟩

/-- The agent a classification fails has the routed row at its cursor. -/
theorem agent_of_mem_writes (hcursor : db.AtCursor) {w : Write} (hw : w ∈ tick.writes cfg db)
    {k : Uuid} (hk : w.agent? = some k) :
    w.task ∈ failedRows db ∧ w.task.agentId = k ∧
      ∃ ag, db.agent k = some ag ∧ ag.cursor = w.task.seq := by
  obtain ⟨t, ht, hwrite⟩ := mem_writes.1 hw
  obtain ⟨rfl, -, hagent⟩ := routeWrite_spec hwrite
  obtain ⟨hget, hfailed⟩ := mem_failedRows.1 ht
  obtain rfl := hagent k hk
  exact ⟨ht, rfl, hcursor.active _ _ hget (Or.inr hfailed)⟩

/-- A row that is neither 'failed' nor queued goes through a classification untouched, by its
id alone. -/
theorem onTask_of_status (ht : t ∈ db.taskInstances.rows) (hfailed : t.status ≠ .failed)
    (hpending : t.status ≠ .pending) {u : TaskInstance} (hid : u.id = t.id) :
    (tick.writes cfg db).foldl Write.onTask u = u := by
  refine foldl_onTask_apart fun w hw => ?_
  have hnot : ¬ (u.id = w.task.id ∨ u.id ∈ w.siblings) := by
    intro hk
    obtain ⟨v, hv, hstatus, -⟩ := touched_of_mem_writes hw hk
    rw [hid, show db.task t.id = some t from Table.get?_of_mem _ ht] at hv
    cases hv
    exact hstatus.elim hfailed hpending
  exact not_or.1 hnot

theorem onTask_of_fresh {t : TaskInstance} (h : db.task t.id = none) :
    (tick.writes cfg db).foldl Write.onTask t = t := by
  refine foldl_onTask_apart fun w hw => ?_
  have hnot : ¬ (t.id = w.task.id ∨ t.id ∈ w.siblings) := by
    intro hk
    obtain ⟨v, hv, -⟩ := touched_of_mem_writes hw hk
    rw [h] at hv
    cases hv
  exact not_or.1 hnot

/-- What a classification changes waited or was queued, and waits or is queued or dead. -/
theorem onTask_cases {p : TaskStatus → Prop} (hpending : p .pending) (hdead : p .dead)
    (hfailed : p .failed) (ht : t ∈ db.taskInstances.rows) :
    (tick.writes cfg db).foldl Write.onTask t = t ∨
      p t.status ∧ p ((tick.writes cfg db).foldl Write.onTask t).status := by
  by_cases hwas : t.status = .failed ∨ t.status = .pending
  · have hp : p t.status := by
      rcases hwas with hwas | hwas <;> rw [hwas] <;> assumption
    exact Or.inr ⟨hp, foldl_onTask_status hpending hdead hp⟩
  · obtain ⟨hnotFailed, hnotPending⟩ := not_or.1 hwas
    exact Or.inl (onTask_of_status ht hnotFailed hnotPending rfl)

theorem onAgent_plan (writes : List Write) (a : Agent) :
    (writes.foldl Write.onAgent a).plan = a.plan ∧
      (writes.foldl Write.onAgent a).cursor = a.cursor := by
  induction writes generalizing a with
  | nil => exact ⟨rfl, rfl⟩
  | cons w rest ih =>
      obtain ⟨hplan, hcursor⟩ := ih (w.onAgent a)
      rw [List.foldl_cons, hplan, hcursor]
      cases w with
      | retry | promote => exact ⟨rfl, rfl⟩
      | kill =>
          simp only [Write.onAgent]
          split <;> exact ⟨rfl, rfl⟩

end Support

end ReliableAgents
