import ReliableAgents.Lifecycle.CommittedPrefix

/-!
# Dead letters

An agent fails by one kill of the row at its cursor, and its dead letter tells the
whole story of that row. The trail stays complete because nothing can happen to a
dead row or to a failed agent any more.
-/

namespace ReliableAgents

def lastFailure (evidence : List Attempt) : Option Attempt :=
  (evidence.filter fun e => e.outcome = .failed).getLast?

/-- The entry records the row, and blames its last reported failure. -/
structure DlqEntry.Explains (entry : DlqEntry) (t : TaskView) : Prop where
  records : entry.Records t
  blames : ∃ e, lastFailure t.evidence = some e ∧ e.failureClass = some entry.failureClass

structure DeadLettered (v : AgentView) : Prop where
  reported : ∀ i t, v.rows i = some t → t.row.status = .failed →
    ∃ e, lastFailure t.evidence = some e ∧ e.failureClass = t.row.failureClass
  spared : v.agent.status ≠ .failed → v.deadLetters = []
  failed : v.agent.status = .failed → ∃ entry t, v.deadLetters = [entry] ∧
    v.rows v.agent.cursor = some t ∧ entry.Explains t

/-! ## Steps -/

section Steps

variable {ladder : Ladder} {rules : Rules} {v v' : AgentView}

theorem lastFailure_append (evidence : List Attempt) {e : Attempt} (h : e.outcome = .failed) :
    lastFailure (evidence ++ [e]) = some e := by
  simp [lastFailure, h]

/-- Nothing happens to an agent that is not running. -/
theorem CommittedPrefix.running_of_step (h : CommittedPrefix v) (hs : AgentStep ladder rules v v') :
    v.agent.status = .running := by
  cases hs with
  | claim _ _ _ _ _ hrunning => exact hrunning
  | row ht hrow =>
      cases hrow with
      | renew _ _ hstatus | report _ _ _ _ _ hstatus | reclaim _ _ hstatus =>
          exact (h.active ht (Or.inl hstatus)).2
      | retry _ _ _ hstatus | promote _ _ _ hstatus => exact (h.active ht (Or.inr hstatus)).2
  | commit _ _ _ _ _ _ _ ht hstatus => exact (h.active ht (Or.inl hstatus)).2
  | kill _ _ _ _ ht hstatus => exact (h.active ht (Or.inr hstatus)).2
  | finalise _ hrunning => exact hrunning
  | insert _ _ _ _ _ hrunning => exact hrunning

namespace DeadLettered

theorem fresh (agentId : Uuid) (plan : List Int) (tier : TierName) (ids : Nat → Uuid)
    (now : Time) : DeadLettered (.fresh agentId plan tier ids now) where
  reported := by
    intro i t ht hstatus
    obtain ⟨d, -, rfl⟩ := Option.map_eq_some_iff.1 ht
    cases hstatus
  spared := fun _ => rfl
  failed := fun hstatus => by cases hstatus

theorem setRow (h : DeadLettered v) (hrunning : v.agent.status = .running) {i : Nat}
    {t' : TaskView}
    (hreported : t'.row.status = .failed →
      ∃ e, lastFailure t'.evidence = some e ∧ e.failureClass = t'.row.failureClass) :
    DeadLettered (v.setRow i t') where
  reported := by
    intro j u hu hstatus
    rw [AgentView.setRow_rows] at hu
    split at hu
    · cases hu
      exact hreported hstatus
    · exact h.reported j u hu hstatus
  spared := h.spared
  failed := fun hfailed => absurd (hrunning.symm.trans hfailed) (by decide)

theorem committed (h : DeadLettered v) (hrunning : v.agent.status = .running) {i : Nat}
    {t' : TaskView} (hdone : t'.row.status = .succeeded) {fields : JsonObject}
    {cost tokens : Int} {now : Time} :
    DeadLettered (v.committed i t' fields cost tokens now) where
  reported := by
    intro j u hu hstatus
    rw [AgentView.committed_rows] at hu
    split at hu
    · cases hu
      rw [hdone] at hstatus
      cases hstatus
    · exact h.reported j u hu hstatus
  spared := fun _ => h.spared (by rw [hrunning]; decide)
  failed := by
    intro hfailed
    simp only [AgentView.committed_agent, Agent.advanced_status, hrunning] at hfailed
    split at hfailed <;> cases hfailed

theorem killed (h : DeadLettered v) (hrunning : v.agent.status = .running) {t : TaskView}
    (ht : v.rows v.agent.cursor = some t) (hstatus : t.row.status = .failed) {entry : DlqEntry}
    (hrecords : entry.Records t) {reason : String} {now : Time} :
    DeadLettered (v.killed v.agent.cursor t entry reason now) where
  reported := by
    intro j u hu hfailed
    rw [AgentView.killed_rows] at hu
    split at hu
    · cases hu
      cases hfailed
    · obtain ⟨w, hw, rfl⟩ := Option.map_eq_some_iff.1 hu
      unfold TaskView.cancelQueued at hfailed ⊢
      split at hfailed
      · cases hfailed
      · rename_i hqueued
        rw [if_neg hqueued]
        exact h.reported j w hw hfailed
  spared := fun hspared => absurd rfl hspared
  failed := by
    intro _
    refine ⟨entry, t.killed now, ?_, if_pos rfl, ?_⟩
    · rw [AgentView.killed_deadLetters, h.spared (by rw [hrunning]; decide), List.nil_append]
    · obtain ⟨e, he, hclass⟩ := h.reported _ t ht hstatus
      exact ⟨⟨hrecords.agentId, hrecords.seq, hrecords.taskDefId, hrecords.failureClass,
        hrecords.attemptTrail⟩, e, he, hclass.trans hrecords.failureClass⟩

theorem step (h : DeadLettered v) (hcommitted : CommittedPrefix v)
    (hs : AgentStep ladder rules v v') : DeadLettered v' := by
  have hrunning := hcommitted.running_of_step hs
  cases hs with
  | claim workerId ttl now _ _ _ _ _ => exact h.setRow hrunning fun hstatus => by cases hstatus
  | row ht hrow =>
      cases hrow with
      | renew ttl now hstatus =>
          exact h.setRow hrunning fun hfailed => by
            rw [TaskInstance.renewed_status, hstatus] at hfailed
            cases hfailed
      | report task failure workerId started now _ _ _ _ =>
          exact h.setRow hrunning fun _ => ⟨_, lastFailure_append _ rfl, rfl⟩
      | reclaim | retry | promote => exact h.setRow hrunning fun hstatus => by cases hstatus
  | commit task fields cost tokens workerId started now _ _ _ _ _ _ =>
      exact h.committed hrunning rfl
  | kill flags entry reason now ht hstatus _ _ hrecords =>
      obtain ⟨rfl, -⟩ := hcommitted.active ht (Or.inr hstatus)
      exact h.killed hrunning ht hstatus hrecords
  | finalise now _ _ _ =>
      exact ⟨h.reported, fun _ => h.spared (by rw [hrunning]; decide), fun hfailed => by
        cases hfailed⟩
  | insert id taskDefId tier now _ _ _ _ =>
      exact h.setRow hrunning fun hstatus => by cases hstatus

theorem path (h : DeadLettered v) (hcommitted : CommittedPrefix v)
    (hp : AgentPath ladder rules v v') : DeadLettered v' :=
  (Machine.closure_invariant (I := fun w => CommittedPrefix w ∧ DeadLettered w)
    (fun _ _ hw hs => ⟨hw.1.step hs, hw.2.step hw.1 hs⟩) ⟨hcommitted, h⟩ hp).2

end DeadLettered

end Steps

/-! ## A kill and the other agents -/

section Kills

variable {ladder : Ladder} {db db' mid : Db}

theorem kill_view_other {r : TaskInstance} {reason : String} {now : Time}
    (h : kill r reason now db = some db') (hr : db.task r.id = some r) {b : Uuid}
    (hb : b ≠ r.agentId) : db'.view b = db.view b := by
  obtain ⟨fc, entry, cancelReason, -, hentry, -, -, -, -, rfl⟩ := kill_spec h
  have hagent : ∀ a : Agent, a.id = b → ¬ a.id = r.agentId := fun a ha heq => hb (ha ▸ heq)
  unfold Db.view
  have hsame : (db.agents.update (fun a => a.id = r.agentId) (Agent.markedFailed now)).get? b =
      db.agent b := by
    rw [Relational.Table.get?_update]
    refine (Option.map_congr fun a ha => ?_).trans Option.map_id'
    simp [hagent a (Db.id_of_agent ha)]
  simp only [Db.agent, hsame]
  congr 1
  funext ag
  congr 1
  · funext i
    simp only [Db.rowAt, Db.kill_rowAt hr, TaskInstance.position, Prod.mk.injEq, hb, false_and,
      if_false, Option.map_id']
    rfl
  · simp [Db.deadLetters, hentry, Ne.symm hb]

theorem foldlM_route_kept {flags : Uuid → Flags} {now : Time} {rows : List TaskInstance}
    (hnodup : (rows.map TaskInstance.id).Nodup)
    (hrows : ∀ e ∈ rows, db.task e.id = some e ∧ e.status = .failed)
    (h : rows.foldlM (fun db task => (routeOne ladder (flags task.id) now task db).map Prod.snd)
      db = some mid)
    {t : TaskInstance} (ht : db.task t.id = some t) (hstatus : t.status = .failed)
    (hother : t.id ∉ rows.map TaskInstance.id) : mid.task t.id = some t := by
  induction rows generalizing db with
  | nil =>
      cases h
      exact ht
  | cons e rest ih =>
      simp only [List.map_cons, List.nodup_cons] at hnodup
      simp only [List.map_cons, List.mem_cons, not_or] at hother
      rw [List.foldlM_cons, Option.bind_eq_bind, Option.bind_eq_some_iff] at h
      obtain ⟨next, hnext, hrest⟩ := h
      obtain ⟨⟨routed, next'⟩, hroute, rfl⟩ := Option.map_eq_some_iff.1 hnext
      refine ih hnodup.2 (fun e' he' => ?_) hrest (routeOne_kept hroute ht hother.1 hstatus)
        hother.2
      obtain ⟨hcaptured, hstatus'⟩ := hrows e' (List.mem_cons_of_mem _ he')
      have hne : e'.id ≠ e.id := fun heq => hnodup.1 (heq ▸ List.mem_map_of_mem he')
      exact ⟨routeOne_kept hroute hcaptured hne hstatus', hstatus'⟩

/-- The kills of a `classify` transition: `task` is one of the captured rows, `mid` the
state its routing finds and `db'` the one the kill leaves. -/
def Kills (cfg : Config) (c : SysTransition) (task : TaskInstance) (mid db' : Db) : Prop :=
  ∃ limit flags now locked routed rest reason, c.action = .classify limit flags now locked ∧
    takeFailed limit locked c.before.db = routed ++ task :: rest ∧
    routed.foldlM
      (fun db task => (routeOne cfg.ladder (flags task.id) now task db).map Prod.snd)
      c.before.db = some mid ∧
    kill task reason now mid = some db'

theorem Kills.view_other {cfg : Config} {c : SysTransition} {task : TaskInstance}
    (h : Kills cfg c task mid db') {b : Uuid} (hb : b ≠ task.agentId) :
    db'.view b = mid.view b := by
  obtain ⟨limit, flags, now, locked, routed, rest, reason, -, htaken, hrouted, hkill⟩ := h
  have hnodup := takeFailed_nodup limit locked c.before.db
  rw [htaken, List.map_append, List.map_cons] at hnodup
  obtain ⟨hfront, -, hapart⟩ := List.nodup_append.1 hnodup
  have hcaptured : ∀ e ∈ routed ++ task :: rest,
      c.before.db.task e.id = some e ∧ e.status = .failed := fun e he =>
    mem_takeFailed (htaken ▸ he)
  obtain ⟨htask, hstatus⟩ := hcaptured task (by simp)
  refine kill_view_other hkill ?_ hb
  refine foldlM_route_kept hfront (fun e he => hcaptured e (by simp [he])) hrouted htask
    hstatus ?_
  exact fun hmem => hapart _ hmem _ List.mem_cons_self rfl

end Kills

/-- Dead letters of a submitted agent are complete: one when it failed and none
otherwise, about the row at the cursor, with the class of its last failure and all its
evidence; nothing of a failed agent is left open; and no kill touches another agent. -/
theorem dead_letters_complete {cfg : Config} {ts : List SysTransition} {s : Sys}
    (h : SysRun cfg ts s) {c : SysTransition} (hc : c ∈ ts) {a : Uuid} {plan : List Int}
    {forceTier : Option TierName} {ids : Nat → Uuid} {now : Time}
    (hsubmits : Submits cfg c a plan forceTier ids now) :
    (∃ ag, s.db.agent a = some ag ∧
      (ag.status = .failed ↔ ∃ entry, s.db.deadLetters a = [entry]) ∧
      (ag.status ≠ .failed → s.db.deadLetters a = []) ∧
      (∀ entry ∈ s.db.deadLetters a, entry.seq = ag.cursor ∧ ∃ t, s.db.rowAt a ag.cursor = some t ∧
        t.status = .dead ∧
        (lastFailure (s.db.evidence t.id)).map Attempt.failureClass =
          some (some entry.failureClass) ∧
        entry.attemptTrail = (s.db.evidence t.id).map Attempt.trailEntry) ∧
      (ag.status = .failed → ∀ i < plan.length, i ≠ ag.cursor → ∃ t, s.db.rowAt a i = some t ∧
        t.status = if i < ag.cursor then .succeeded else .dead)) ∧
    ∀ d ∈ ts, ∀ task mid db', Kills cfg d task mid db' →
      ∀ b, b ≠ task.agentId → db'.view b = mid.view b := by
  obtain ⟨hplan, tier, v, -, hv, hpath⟩ :=
    h.agent_history (Rules.free_holdAlong cfg ts) hc hsubmits
  have hfresh : CommittedPrefix (.fresh a plan tier ids now) := .fresh hplan
  have hcommitted : CommittedPrefix v := hfresh.path hpath
  have hdead : DeadLettered v := DeadLettered.path (.fresh a plan tier ids now) hfresh hpath
  have hvplan : v.agent.plan = plan := hpath.plan.1
  obtain ⟨hag, -, hletters⟩ := Db.view_eq_some.1 hv
  refine ⟨⟨v.agent, hag, ?_, ?_, ?_, ?_⟩, ?_⟩
  · rw [← hletters]
    constructor
    · intro hfailed
      obtain ⟨entry, -, hone, -⟩ := hdead.failed hfailed
      exact ⟨entry, hone⟩
    · rintro ⟨entry, hone⟩
      by_contra hfailed
      rw [hdead.spared hfailed] at hone
      cases hone
  · exact fun hfailed => hletters ▸ hdead.spared hfailed
  · intro entry hentry
    rw [← hletters] at hentry
    have hfailed : v.agent.status = .failed := by
      by_contra hfailed
      rw [hdead.spared hfailed] at hentry
      cases hentry
    obtain ⟨entry', t, hone, ht, hrecords, e, he, hclass⟩ := hdead.failed hfailed
    rw [hone, List.mem_singleton] at hentry
    subst hentry
    obtain ⟨t', ht', hstatus⟩ := hcommitted.failed hfailed
    rw [ht] at ht'
    cases ht'
    rw [Db.view_rows hv, Option.map_eq_some_iff] at ht
    obtain ⟨row, hrow, rfl⟩ := ht
    exact ⟨hrecords.seq.trans (Db.task_of_rowAt hrow).2.2, row, hrow, hstatus,
      (congrArg (Option.map Attempt.failureClass) he).trans (congrArg some hclass),
      hrecords.attemptTrail⟩
  · intro hfailed i hi hne
    obtain ⟨t, ht⟩ := Option.isSome_iff_exists.1 ((hcommitted.rows i).2 (hvplan ▸ hi))
    have hrow := ht
    rw [Db.view_rows hv, Option.map_eq_some_iff] at hrow
    obtain ⟨row, hrow, rfl⟩ := hrow
    refine ⟨row, hrow, ?_⟩
    split
    · rename_i hlt
      exact (hcommitted.behind i _ ht hlt).1
    · rename_i hlt
      have hstatus := (hcommitted.ahead i _ ht (by omega)).2.2.2
      rw [if_pos hfailed] at hstatus
      exact hstatus
  · intro d hd task mid db' hkills b hb
    obtain ⟨pre, post, rfl, hpre, -, -⟩ := h.exists_split hd
    exact hkills.view_other hb

/-- Task 20 turns out to be malformed, and task 1 behind it is never run. -/
def malformed : List Action :=
  submitPlan [20, 1] ::
    (handout 0 0 (.raised ⟨some .poison, some "malformed input"⟩) ++ reported 0 (seconds 1))

theorem dead_letters_complete_malformed :
    ∃ entry, (ran oneHost malformed).2.db.deadLetters firstAgent = [entry] ∧
      ∃ t, (ran oneHost malformed).2.db.rowAt firstAgent entry.seq = some t ∧ t.status = .dead ∧
        entry.attemptTrail =
          ((ran oneHost malformed).2.db.evidence t.id).map Attempt.trailEntry := by
  have hc : ∃ c ∈ (ran oneHost malformed).1,
      Submits oneHost c firstAgent [20, 1] none (rowId firstAgent) 0 :=
    exists_submits (by decide +kernel) (by decide +kernel)
  obtain ⟨c, hmem, hsubmits⟩ := hc
  obtain ⟨⟨ag, hag, hiff, -, hletters, -⟩, -⟩ :=
    dead_letters_complete (run_ran oneHost malformed) hmem hsubmits
  have hfailed : ((ran oneHost malformed).2.db.agent firstAgent).map Agent.status =
      some .failed := by
    decide +kernel
  rw [hag, Option.map_some, Option.some.injEq] at hfailed
  obtain ⟨entry, hone⟩ := hiff.1 hfailed
  obtain ⟨hseq, t, ht, hstatus, -, htrail⟩ := hletters entry (hone ▸ List.mem_singleton_self _)
  exact ⟨entry, hone, t, hseq ▸ ht, hstatus, htrail⟩

end ReliableAgents
