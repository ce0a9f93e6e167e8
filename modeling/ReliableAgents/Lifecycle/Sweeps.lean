import ReliableAgents.Lifecycle.Projection

/-!
# Sweeps and submissions as paths

A sweep is a fold of single-row statements over the rows it locked. A row that
waits for its turn is still as it was captured, since the statements before it
wrote other rows.
-/

namespace ReliableAgents

open Relational

namespace Db

/-! ## Reaper -/

section Sweeps

variable {ladder : Ladder} {rules : Rules} {db db' : Db}

theorem task_update_other {r : TaskInstance} (hr : db.task r.id = some r)
    (f : TaskInstance → TaskInstance) (hkey : ∀ t, (f t).id = t.id)
    (huniq : ∀ t, (f t).position = t.position) {k : Uuid} (hk : k ≠ r.id) :
    (db.taskInstances.update (fun t => t.id = r.id) f hkey huniq).get? k = db.task k :=
  (Table.get?_update_one hr (decide_eq_true rfl) (fun _ ht => of_decide_eq_true ht) k).trans
    (if_neg hk)

theorem reclaim_evolves {jitter : Uuid → Time} {now : Time} {e : TaskInstance}
    (he : db.task e.id = some e) (hrunning : e.status = .running) (hrules : rules.reclaim e) :
    Evolves ladder rules db (reclaim jitter now db e) := by
  have hw := writes_row he (p := fun t => t.id = e.id) (TaskInstance.reclaimed (jitter e.id) now)
    (fun _ => rfl) (fun _ => rfl) [e.reclaimRow now] (decide_eq_true rfl)
    (fun t ht => of_decide_eq_true ht) (by simp [TaskInstance.reclaimRow])
  refine hw.evolves rfl fun v hv hrow => ?_
  exact .row (t := db.taskView e) hrow (.reclaim (jitter e.id) now hrunning hrules)

theorem foldl_reclaim_evolves {jitter : Uuid → Time} {now : Time} {rows : List TaskInstance}
    (hnodup : (rows.map TaskInstance.id).Nodup)
    (hrows : ∀ e ∈ rows, db.task e.id = some e ∧ e.status = .running ∧ rules.reclaim e) :
    Evolves ladder rules db (rows.foldl (reclaim jitter now) db) := by
  induction rows generalizing db with
  | nil => exact .refl db
  | cons e rest ih =>
      simp only [List.map_cons, List.nodup_cons] at hnodup
      obtain ⟨he, hrunning, hrules⟩ := hrows e List.mem_cons_self
      refine (reclaim_evolves he hrunning hrules).trans (ih hnodup.2 fun e' he' => ?_)
      obtain ⟨hcaptured, hstatus⟩ := hrows e' (List.mem_cons_of_mem _ he')
      have hne : e'.id ≠ e.id := fun heq => hnodup.1 (heq ▸ List.mem_map_of_mem he')
      have hkept := task_update_other he (TaskInstance.reclaimed (jitter e.id) now)
        (fun _ => rfl) (fun _ => rfl) hne
      exact ⟨hkept.trans hcaptured, hstatus⟩

theorem reap_evolves (batch : Nat) (jitter : Uuid → Time) (now : Time) (locked : Uuid → Bool)
    (hrules : ∀ t ∈ expiredLeases batch now locked db, rules.reclaim t) :
    Evolves ladder rules db (reap batch jitter now locked db) := by
  refine foldl_reclaim_evolves (expiredLeases_nodup batch now locked db) fun e he => ?_
  obtain ⟨hget, hrunning, -⟩ := mem_expiredLeases he
  exact ⟨hget, hrunning, hrules e he⟩

/-! ## Classifier -/

theorem kill_rowAt {r : TaskInstance} (hr : db.task r.id = some r) {reason : String} {now : Time}
    (a : Uuid) (i : Nat) :
    ((db.taskInstances.update (fun t => t.id = r.id) (TaskInstance.killed now)).update
        (queuedSibling r.agentId) (TaskInstance.cancelled reason now)).at? (a, i) =
      if (a, i) = r.position then some (r.killed now)
      else (db.rowAt a i).map fun t =>
        if a = r.agentId ∧ t.status = .pending then t.cancelled reason now else t := by
  rw [Table.at?_update, Table.at?_update_one hr (decide_eq_true rfl)
    (fun _ ht => of_decide_eq_true ht)]
  split
  · simp [queuedSibling]
  · change (db.rowAt a i).map _ = _
    refine Option.map_congr fun t ht => ?_
    have hagent := (task_of_rowAt ht).2.1
    simp [queuedSibling, hagent]

theorem kill_evolves {flags : Flags} {r : TaskInstance} {reason : String} {now : Time}
    (h : kill r reason now db = some db') (hr : db.task r.id = some r)
    (hfailed : r.status = .failed) (hrules : rules.route flags (db.taskView r))
    (hverdict : (db.taskView r).verdict ladder flags = .deadLetter)
    (hagent : ∃ ag, db.agent r.agentId = some ag) : Evolves ladder rules db db' := by
  obtain ⟨fc, entry, cancelReason, hfc, hdagent, hdseq, hddef, hdfc, hdtrail, rfl⟩ := kill_spec h
  obtain ⟨ag, hag⟩ := hagent
  refine { moves := ?_, agents := ?_, tasks := ?_, attempts := ?_, deadLetters := ?_ }
  · intro a v hv
    obtain ⟨hvag, hvrows, hvdead⟩ := view_eq_some.1 hv
    by_cases ha : a = r.agentId
    · subst ha
      refine ⟨v.killed r.seq (db.taskView r) entry cancelReason now,
        view_eq_some.2 ⟨?_, ?_, ?_⟩,
        .single (.kill flags entry cancelReason now (view_row_of_task hr hv) hfailed hrules
          hverdict ⟨hdagent, hdseq, hddef, hdfc ▸ hfc, hdtrail⟩)⟩
      · simp only [Db.agent]
        rw [Table.get?_update_one hvag (by simp [id_of_agent hvag]) (by simp), if_pos rfl]
        rfl
      · funext j
        simp only [Db.rowAt, kill_rowAt hr, AgentView.killed_rows, hvrows,
          TaskInstance.position, Prod.mk.injEq, true_and]
        split
        · rfl
        · simp only [Option.map_map]
          refine Option.map_congr fun t _ => ?_
          by_cases hpending : t.status = .pending
          · simp only [Function.comp, TaskView.cancelQueued, taskView, hpending, if_true]
            rfl
          · simp only [Function.comp, TaskView.cancelQueued, taskView, hpending, if_false]
            rfl
      · simp [Db.deadLetters, hvdead, hdagent]
    · refine ⟨v, ?_, .refl⟩
      refine view_eq_some.2 ⟨?_, ?_, ?_⟩
      · simp only [Db.agent]
        rw [Table.get?_update_one hag (by simp [id_of_agent hag]) (by simp), if_neg ha]
        exact hvag
      · funext j
        simp only [Db.rowAt, kill_rowAt hr, hvrows, TaskInstance.position, Prod.mk.injEq, ha,
          false_and, if_false, Option.map_id']
        rfl
      · simp [Db.deadLetters, hvdead, hdagent, Ne.symm ha]
  · intro a ag' hag'
    simp only [Db.agent, Table.get?_update, Option.map_eq_some_iff] at hag'
    obtain ⟨ag, hag, -⟩ := hag'
    exact ⟨ag, hag⟩
  · intro k t' ht'
    simp only [Db.task, Table.get?_update, Option.map_eq_some_iff] at ht'
    obtain ⟨_, ⟨t, ht, rfl⟩, rfl⟩ := ht'
    refine ⟨t, ht, ?_⟩
    split <;> split <;> rfl
  · exact fun e he => Or.inl he
  · intro e he
    rcases List.mem_append.1 he with he | he
    · exact Or.inl he
    · rw [List.mem_singleton.1 he]
      exact Or.inr ⟨ag, hdagent ▸ hag⟩

theorem routeOne_evolves {flags : Flags} {now : Time} {r : TaskInstance} {routed : Routed}
    (h : routeOne ladder flags now r db = some (routed, db')) (hr : db.task r.id = some r)
    (hfailed : r.status = .failed) (hrules : rules.route flags (db.taskView r))
    (hagent : ∃ ag, db.agent r.agentId = some ag) : Evolves ladder rules db db' := by
  have hspec := routeOne_spec h
  cases hverdict : verdict ladder flags (r.failureClass.getD .infra) r
      (budgets r.tier (db.evidence r.id)) with
  | retry =>
      rw [hverdict] at hspec
      obtain ⟨-, rfl⟩ := hspec
      have hw := writes_row hr (p := fun t => t.id = r.id)
        (TaskInstance.retried (backoffSeconds r.attempt) now) (fun _ => rfl) (fun _ => rfl) []
        (decide_eq_true rfl) (fun t ht => of_decide_eq_true ht) (by simp)
      rw [List.append_nil] at hw
      refine hw.evolves rfl fun v hv hrow => ?_
      rw [List.append_nil]
      exact .row (t := db.taskView r) hrow (.retry flags _ now hfailed hrules hverdict)
  | promote tier =>
      rw [hverdict] at hspec
      obtain ⟨-, rfl⟩ := hspec
      have hw := writes_row hr (p := fun t => t.id = r.id) (TaskInstance.promoted tier now)
        (fun _ => rfl) (fun _ => rfl) [] (decide_eq_true rfl) (fun t ht => of_decide_eq_true ht)
        (by simp)
      rw [List.append_nil] at hw
      refine hw.evolves rfl fun v hv hrow => ?_
      rw [List.append_nil]
      exact .row (t := db.taskView r) hrow (.promote flags tier now hfailed hrules hverdict)
  | deadLetter =>
      rw [hverdict] at hspec
      obtain ⟨-, reason, hkill⟩ := hspec
      exact kill_evolves hkill hr hfailed hrules hverdict hagent

theorem routeOne_attempts {flags : Flags} {now : Time} {r : TaskInstance} {routed : Routed}
    (h : routeOne ladder flags now r db = some (routed, db')) : db'.attempts = db.attempts := by
  have hspec := routeOne_spec h
  split at hspec
  · rw [hspec.2]
    rfl
  · rw [hspec.2]
    rfl
  · obtain ⟨-, reason, hkill⟩ := hspec
    obtain ⟨-, -, -, -, -, -, -, -, -, rfl⟩ := kill_spec hkill
    rfl

theorem foldlM_route_evolves {flags : Uuid → Flags} {now : Time} {rows : List TaskInstance}
    (hsound : db.Sound) (hnodup : (rows.map TaskInstance.id).Nodup)
    (hrows : ∀ e ∈ rows, db.task e.id = some e ∧ e.status = .failed ∧
      rules.route (flags e.id) (db.taskView e))
    (h : rows.foldlM (fun db task => (routeOne ladder (flags task.id) now task db).map Prod.snd)
      db = some db') :
    Evolves ladder rules db db' := by
  induction rows generalizing db with
  | nil =>
      cases h
      exact .refl _
  | cons e rest ih =>
      simp only [List.map_cons, List.nodup_cons] at hnodup
      rw [List.foldlM_cons, Option.bind_eq_bind, Option.bind_eq_some_iff] at h
      obtain ⟨mid, hmid, hrest⟩ := h
      obtain ⟨⟨routed, mid'⟩, hroute, rfl⟩ := Option.map_eq_some_iff.1 hmid
      obtain ⟨he, hfailed, hrules⟩ := hrows e List.mem_cons_self
      have hevolves := routeOne_evolves hroute he hfailed hrules (hsound.tasks _ e he)
      refine hevolves.trans (ih (hevolves.sound hsound) hnodup.2 (fun e' he' => ?_) hrest)
      obtain ⟨hcaptured, hstatus, hrules'⟩ := hrows e' (List.mem_cons_of_mem _ he')
      have hne : e'.id ≠ e.id := fun heq => hnodup.1 (heq ▸ List.mem_map_of_mem he')
      refine ⟨routeOne_kept hroute hcaptured hne hstatus, hstatus, ?_⟩
      rw [taskView_congr (routeOne_attempts hroute)]
      exact hrules'

theorem classify_evolves {limit : Nat} {flags : Uuid → Flags} {now : Time} {locked : Uuid → Bool}
    (hsound : db.Sound)
    (hrules : ∀ t ∈ takeFailed limit locked db, rules.route (flags t.id) (db.taskView t)) :
    Evolves ladder rules db ((classify ladder limit flags now locked db).getD db) := by
  cases h : classify ladder limit flags now locked db with
  | none => exact .refl db
  | some db' =>
      refine foldlM_route_evolves hsound (takeFailed_nodup limit locked db) (fun e he => ?_) h
      exact ⟨(mem_takeFailed he).1, (mem_takeFailed he).2, hrules e he⟩

/-! ## Finalisation -/

theorem finaliseAgents_evolves (batch : Nat) (now : Time) (locked : Uuid → Bool) :
    Evolves ladder rules db (finaliseAgents batch now locked db) where
  moves := by
    intro a v hv
    obtain ⟨hag, hrows, hdead⟩ := view_eq_some.1 hv
    have hagent : (finaliseAgents batch now locked db).agent a =
        some (if a ∈ (exhaustedAgents batch locked db).map Agent.id then v.agent.finalised now
          else v.agent) := by
      simp only [finaliseAgents, Db.agent, Table.get?_update]
      rw [show db.agents.get? a = some v.agent from hag, Option.map_some]
      simp [id_of_agent hag]
    by_cases hmem : a ∈ (exhaustedAgents batch locked db).map Agent.id
    · rw [if_pos hmem] at hagent
      obtain ⟨e, he, rfl⟩ := List.mem_map.1 hmem
      obtain ⟨hget, hrunning, hcursor, hdone⟩ := mem_exhaustedAgents he
      have heq : v.agent = e := Option.some.inj (hag.symm.trans hget)
      refine ⟨{ v with agent := v.agent.finalised now }, view_eq_some.2 ⟨hagent, hrows, hdead⟩,
        .single (.finalise now (heq ▸ hrunning) (heq ▸ hcursor) fun i t ht => ?_)⟩
      rw [view_rows hv, Option.map_eq_some_iff] at ht
      obtain ⟨u, hu, rfl⟩ := ht
      exact hdone i u hu
    · rw [if_neg hmem] at hagent
      exact ⟨v, view_eq_some.2 ⟨hagent, hrows, hdead⟩, .refl⟩
  agents := by
    intro a ag' hag'
    simp only [finaliseAgents, Db.agent, Table.get?_update, Option.map_eq_some_iff] at hag'
    obtain ⟨ag, hag, -⟩ := hag'
    exact ⟨ag, hag⟩
  tasks := fun _ t ht => ⟨t, ht, rfl⟩
  attempts := fun _ he => Or.inl he
  deadLetters := fun _ he => Or.inl he

end Sweeps

/-! ## Inserts -/

section Inserts

variable {ladder : Ladder} {rules : Rules} {db db' db'' : Db}

theorem Grows.refl (db : Db) : Grows ladder rules db db where
  moves := .refl db
  agents := fun _ v hv => Or.inl ⟨v, hv⟩
  kept := fun _ _ ht => ht
  tasks := fun _ _ ht => Or.inl ht
  attempts := rfl
  deadLetters := rfl

theorem Grows.trans (h : Grows ladder rules db db') (h' : Grows ladder rules db' db'') :
    Grows ladder rules db db'' where
  moves := h.moves.trans h'.moves
  agents := by
    intro a v'' hv''
    rcases h'.agents a v'' hv'' with ⟨v', hv'⟩ | hborn
    · rcases h.agents a v' hv' with hold | ⟨plan, tier, ids, now, hpath⟩
      · exact Or.inl hold
      · obtain ⟨w, hw, hlater⟩ := h'.moves a v' hv'
        rw [hv''] at hw
        cases hw
        exact Or.inr ⟨plan, tier, ids, now, hpath.trans hlater⟩
    · exact Or.inr hborn
  kept := fun k t ht => h'.kept k t (h.kept k t ht)
  tasks := by
    intro k t ht
    rcases h'.tasks k t ht with hmid | ⟨hmid, hfresh, hag⟩
    · rcases h.tasks k t hmid with hold | ⟨hold, hfresh, ag, hag⟩
      · exact Or.inl hold
      · obtain ⟨ag', hag', -⟩ := h'.moves.agent hag
        exact Or.inr ⟨hold, hfresh, ag', hag'⟩
    · cases hold : db.task k with
      | none => exact Or.inr ⟨rfl, hfresh, hag⟩
      | some t₀ =>
          rw [h.kept k t₀ hold] at hmid
          cases hmid
  attempts := h'.attempts.trans h.attempts
  deadLetters := h'.deadLetters.trans h.deadLetters

/-- An insert at the cursor of a running agent that has no row there. -/
theorem insertTask_grows {a : Agent} {id : Uuid} {taskDefId : Int} {tier : TierName} {now : Time}
    (hsound : db.Sound) (ha : db.agent a.id = some a) (hrunning : a.status = .running)
    (hplan : a.plan[a.cursor]? = some taskDefId)
    (h : insertTask ladder (.fresh id a.id a.cursor taskDefId tier now) db = some db') :
    Grows ladder rules db db' := by
  obtain ⟨htier, hid, hfree, ⟨table, rfl⟩, htask, hrow⟩ := insertTask_spec h
  simp only [TaskInstance.fresh_tier, TaskInstance.fresh_id, TaskInstance.fresh_agentId,
    TaskInstance.fresh_seq, TaskInstance.position, Prod.mk.injEq] at htier hid hfree htask hrow
  have hnone : db.evidence id = [] := hsound.evidence_of_none hid
  refine ⟨fun b v hv => ?_, fun b v hv => ?_, fun k t ht => ?_, fun k t ht => ?_, rfl, rfl⟩
  · obtain ⟨hag, hrows, hdead⟩ := view_eq_some.1 hv
    by_cases hb : b = a.id
    · subst hb
      have hagent : v.agent = a := Option.some.inj (hag.symm.trans ha)
      have hrowFree : v.rows v.agent.cursor = none := by
        rw [hrows, hagent]
        simp [hfree]
      refine ⟨v.setRow v.agent.cursor
          { row := .fresh id v.agent.id v.agent.cursor taskDefId tier now, evidence := [] },
        view_eq_some.2 ⟨hag, ?_, hdead⟩,
        .single (.insert id taskDefId tier now hrowFree (hagent ▸ hrunning) (hagent ▸ hplan) htier)⟩
      funext i
      rw [hrow]
      simp only [AgentView.setRow_rows, hagent, true_and, hrows]
      split
      · simp [taskView, ← hnone, Db.evidence]
      · rfl
    · refine ⟨v, view_eq_some.2 ⟨hag, ?_, hdead⟩, .refl⟩
      funext i
      rw [hrow, if_neg (by simp [hb]), hrows]
      rfl
  · have hag : db.agent b = some v.agent := (view_eq_some.1 hv).1
    obtain ⟨v₀, hv₀, -⟩ := view_of_agent hag
    exact Or.inl ⟨v₀, hv₀⟩
  · rw [htask, if_neg]
    · exact ht
    · rintro rfl
      rw [hid] at ht
      cases ht
  · rw [htask] at ht
    split at ht
    · rename_i hk
      cases ht
      exact Or.inr ⟨hk ▸ hid, ⟨id, a.id, a.cursor, taskDefId, tier, now, htier, rfl⟩, a, ha⟩
    · exact Or.inl ht

theorem foldlM_repair_grows {tier : TierName} {ids : Uuid → Uuid} {now : Time} {rows : List Agent}
    (hsound : db.Sound) (hrows : ∀ a ∈ rows, db.agent a.id = some a ∧ a.status = .running)
    (h : rows.foldlM (repairOne ladder tier ids now) db = some db') :
    Grows ladder rules db db' := by
  induction rows generalizing db with
  | nil =>
      cases h
      exact .refl _
  | cons a rest ih =>
      rw [List.foldlM_cons, Option.bind_eq_bind, Option.bind_eq_some_iff] at h
      obtain ⟨mid, hmid, hrest⟩ := h
      obtain ⟨ha, hrunning⟩ := hrows a List.mem_cons_self
      have hgrows : Grows ladder rules db mid ∧ mid.agents = db.agents := by
        unfold repairOne at hmid
        split at hmid
        · cases hmid
        · rename_i taskDefId hplan
          split at hmid
          · cases hmid
            exact ⟨.refl _, rfl⟩
          · obtain ⟨-, -, -, ⟨table, heq⟩, -⟩ := insertTask_spec hmid
            exact ⟨insertTask_grows hsound ha hrunning hplan hmid, by rw [heq]⟩
      refine hgrows.1.trans (ih (hgrows.1.sound hsound) (fun b hb => ?_) hrest)
      obtain ⟨hb', hstatus⟩ := hrows b (List.mem_cons_of_mem _ hb)
      exact ⟨by rw [Db.agent, hgrows.2]; exact hb', hstatus⟩

theorem repairStalled_grows {batch : Nat} {ids : Uuid → Uuid} {now : Time} {locked : Uuid → Bool}
    (hsound : db.Sound) :
    Grows ladder rules db ((repairStalled ladder batch ids now locked db).getD db) := by
  cases h : repairStalled ladder batch ids now locked db with
  | none => exact .refl db
  | some db' =>
      unfold repairStalled at h
      split at h
      · cases h
      · refine foldlM_repair_grows hsound (fun a ha => ?_) h
        obtain ⟨hget, hrunning, -⟩ := mem_stalledAgents ha
        exact ⟨hget, hrunning⟩

theorem createAgent_view_kept {plan : List Int} {tier : TierName} {ids : Uuid → Nat → Uuid}
    {now : Time} {agentId : Uuid} (h : createAgent ladder plan tier ids now db agentId = some db')
    {b : Uuid} {v : AgentView} (hv : db.view b = some v) : db'.view b = some v := by
  obtain ⟨hnone, hattempts, hdlq, hagent, -, -, hrow⟩ := createAgent_spec h
  obtain ⟨hag, hrows, hdead⟩ := view_eq_some.1 hv
  have hb : b ≠ agentId := by
    rintro rfl
    rw [hnone] at hag
    cases hag
  refine view_eq_some.2 ⟨?_, ?_, ?_⟩
  · rw [hagent, if_neg hb, hag]
  · funext i
    simp only [hrows, hrow, hb, false_and, if_false, taskView_congr hattempts]
  · rw [hdead, Db.deadLetters, Db.deadLetters, hdlq]

theorem createAgent_view {plan : List Int} {tier : TierName} {ids : Uuid → Nat → Uuid}
    {now : Time} {agentId : Uuid} (hsound : db.Sound)
    (h : createAgent ladder plan tier ids now db agentId = some db') :
    db'.view agentId = some (.fresh agentId plan tier (ids agentId) now) := by
  obtain ⟨hnone, hattempts, hdlq, hagent, hold, hnew, hrow⟩ := createAgent_spec h
  refine view_eq_some.2 ⟨by rw [hagent, if_pos rfl]; rfl, ?_, ?_⟩
  · funext i
    by_cases hi : i < plan.length
    · rw [hrow, if_pos ⟨rfl, hi⟩]
      simp only [AgentView.fresh, Option.map_map]
      refine Option.map_congr fun d hd => ?_
      have hrowNew : db'.rowAt agentId i = some (.fresh (ids agentId i) agentId i d tier now) := by
        rw [hrow, if_pos ⟨rfl, hi⟩, show plan[i]? = some d from hd]
        rfl
      have hfree : db.task (ids agentId i) = none := by
        cases hk : db.task (ids agentId i) with
        | none => rfl
        | some u =>
            have hu := hold _ u hk
            rw [show db'.task (ids agentId i) = _ from (task_of_rowAt hrowNew).1] at hu
            cases hu
            obtain ⟨ag, hag⟩ := hsound.tasks _ _ hk
            simp only [TaskInstance.fresh_agentId, hnone] at hag
            cases hag
      simp only [Function.comp, taskView, TaskInstance.fresh_id, Db.evidence, hattempts]
      exact congrArg _ (hsound.evidence_of_none hfree).symm
    · rw [hrow, if_neg (by simp [hi]), hsound.rowAt_of_none hnone]
      simp [AgentView.fresh, List.getElem?_eq_none (not_lt.1 hi)]
  · rw [Db.deadLetters, hdlq]
    exact (hsound.deadLetters_of_none hnone).symm

theorem createAgent_grows {plan : List Int} {tier : TierName} {ids : Uuid → Nat → Uuid}
    {now : Time} {agentId : Uuid} (hsound : db.Sound)
    (h : createAgent ladder plan tier ids now db agentId = some db') :
    Grows ladder rules db db' := by
  obtain ⟨-, hattempts, hdlq, hagent, hold, hnew, -⟩ := createAgent_spec h
  refine ⟨fun b v hv => ⟨v, createAgent_view_kept h hv, .refl⟩, fun b v hv => ?_, hold,
    fun k t ht => ?_, hattempts, hdlq⟩
  · by_cases hb : b = agentId
    · subst hb
      rw [createAgent_view hsound h] at hv
      cases hv
      exact Or.inr ⟨plan, tier, ids b, now, .refl⟩
    · have hag := (view_eq_some.1 hv).1
      rw [hagent, if_neg hb] at hag
      obtain ⟨v₀, hv₀, -⟩ := view_of_agent hag
      exact Or.inl ⟨v₀, hv₀⟩
  · rcases hnew k t ht with hk | ⟨i, d, htier, heq⟩
    · exact Or.inl hk
    · cases hk : db.task k with
      | some u =>
          have hu := hold k u hk
          rw [ht] at hu
          exact Or.inl hu.symm
      | none =>
          refine Or.inr ⟨rfl, ⟨_, _, _, _, tier, now, htier, heq⟩, .fresh agentId plan now, ?_⟩
          rw [hagent, heq]
          exact if_pos rfl

theorem createAgents_grows {plan : List Int} {tier : TierName} {agentIds : List Uuid}
    {ids : Uuid → Nat → Uuid} {now : Time} (hsound : db.Sound)
    (h : createAgents ladder plan tier agentIds ids now db = some db') :
    Grows ladder rules db db' := by
  unfold createAgents at h
  induction agentIds generalizing db with
  | nil =>
      cases h
      exact .refl _
  | cons a rest ih =>
      rw [List.foldlM_cons, Option.bind_eq_bind, Option.bind_eq_some_iff] at h
      obtain ⟨mid, hmid, hrest⟩ := h
      have hgrows : Grows ladder rules db mid := createAgent_grows hsound hmid
      exact hgrows.trans (ih (hgrows.sound hsound) hrest)

theorem createAgents_view_kept {plan : List Int} {tier : TierName} {agentIds : List Uuid}
    {ids : Uuid → Nat → Uuid} {now : Time}
    (h : createAgents ladder plan tier agentIds ids now db = some db') {b : Uuid} {v : AgentView}
    (hv : db.view b = some v) : db'.view b = some v := by
  unfold createAgents at h
  induction agentIds generalizing db with
  | nil =>
      cases h
      exact hv
  | cons a rest ih =>
      rw [List.foldlM_cons, Option.bind_eq_bind, Option.bind_eq_some_iff] at h
      obtain ⟨mid, hmid, hrest⟩ := h
      exact ih hrest (createAgent_view_kept hmid hv)

theorem createAgents_view {plan : List Int} {tier : TierName} {agentIds : List Uuid}
    {ids : Uuid → Nat → Uuid} {now : Time} (hsound : db.Sound)
    (h : createAgents ladder plan tier agentIds ids now db = some db') {a : Uuid}
    (ha : a ∈ agentIds) : db'.view a = some (.fresh a plan tier (ids a) now) := by
  unfold createAgents at h
  induction agentIds generalizing db with
  | nil => cases ha
  | cons b rest ih =>
      rw [List.foldlM_cons, Option.bind_eq_bind, Option.bind_eq_some_iff] at h
      obtain ⟨mid, hmid, hrest⟩ := h
      rcases List.mem_cons.1 ha with rfl | ha
      · exact createAgents_view_kept hrest (createAgent_view hsound hmid)
      · have hgrows : Grows ladder .free db mid := createAgent_grows hsound hmid
        exact ih (hgrows.sound hsound) hrest ha

end Inserts

end Db

end ReliableAgents
