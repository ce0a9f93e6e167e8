import ReliableAgents.Deployment
import ReliableAgents.Lifecycle.Refinement

/-!
# The committed prefix

What is behind an agent's cursor is committed, what is ahead of it is untouched,
and the row at the cursor is where something can still happen. `ADVANCE_AGENT_SQL`,
the routing statements and `CANCEL_SIBLINGS_SQL` carry no guard on a status: they
are safe because only the row at the cursor is ever running or failed.
-/

namespace ReliableAgents

/-- The invariant that ties `agents`, `task_instances` and `attempts` together. -/
structure CommittedPrefix (v : AgentView) : Prop where
  cursor_le : v.agent.cursor ≤ v.agent.plan.length
  rows : ∀ i, (v.rows i).isSome = true ↔ i < v.agent.plan.length
  status : v.agent.status ≠ .pending
  completed : v.agent.status = .completed ↔ v.agent.cursor = v.agent.plan.length
  keys : v.agent.context.map Prod.fst = List.range v.agent.cursor
  behind : ∀ i t, v.rows i = some t → i < v.agent.cursor →
    t.row.status = .succeeded ∧ t.row.result ≠ none ∧ v.agent.context.lookup i = t.row.result
  ahead : ∀ i t, v.rows i = some t → v.agent.cursor < i →
    t.row.attempt = 0 ∧ t.row.result = none ∧ t.evidence = [] ∧
      t.row.status = if v.agent.status = .failed then .dead else .pending
  running : v.agent.status = .running → ∃ t, v.rows v.agent.cursor = some t ∧
    (t.row.status = .pending ∨ t.row.status = .running ∨ t.row.status = .failed)
  failed : v.agent.status = .failed → ∃ t, v.rows v.agent.cursor = some t ∧ t.row.status = .dead

namespace CommittedPrefix

variable {ladder : Ladder} {rules : Rules} {v v' : AgentView} {i : Nat} {t : TaskView}

theorem cursor_lt (h : CommittedPrefix v) (ht : v.rows v.agent.cursor = some t) :
    v.agent.cursor < v.agent.plan.length :=
  (h.rows _).1 (by rw [ht]; rfl)

/-- Only the row at the cursor of a running agent can be running or failed. -/
theorem active (h : CommittedPrefix v) (ht : v.rows i = some t)
    (hactive : t.row.status = .running ∨ t.row.status = .failed) :
    i = v.agent.cursor ∧ v.agent.status = .running := by
  have hi : i = v.agent.cursor := by
    rcases Nat.lt_trichotomy i v.agent.cursor with hlt | heq | hgt
    · have hdone := (h.behind i t ht hlt).1
      rw [hdone] at hactive
      simp at hactive
    · exact heq
    · have hstatus := (h.ahead i t ht hgt).2.2.2
      rw [hstatus] at hactive
      split at hactive <;> simp at hactive
  subst hi
  refine ⟨rfl, ?_⟩
  cases hstatus : v.agent.status with
  | running => rfl
  | pending => exact absurd hstatus h.status
  | completed =>
      have hlt := h.cursor_lt ht
      have heq := h.completed.1 hstatus
      omega
  | failed =>
      obtain ⟨t', ht', hdead⟩ := h.failed hstatus
      rw [ht] at ht'
      cases ht'
      rw [hdead] at hactive
      simp at hactive

theorem fresh {agentId : Uuid} {plan : List Int} {tier : TierName} {ids : Nat → Uuid} {now : Time}
    (hplan : plan ≠ []) : CommittedPrefix (.fresh agentId plan tier ids now) where
  cursor_le := Nat.zero_le _
  rows := by simp [AgentView.fresh]
  status := by simp [AgentView.fresh, Agent.fresh]
  completed := by
    have hlength := List.length_pos_of_ne_nil hplan
    simp only [AgentView.fresh, Agent.fresh]
    constructor
    · intro hstatus
      cases hstatus
    · intro hcursor
      omega
  keys := rfl
  behind := fun _ _ _ hlt => absurd hlt (Nat.not_lt_zero _)
  ahead := by
    intro i t ht _
    obtain ⟨d, -, rfl⟩ := Option.map_eq_some_iff.1 ht
    exact ⟨rfl, rfl, rfl, rfl⟩
  running := by
    intro _
    obtain ⟨d, rest, rfl⟩ := List.exists_cons_of_ne_nil hplan
    exact ⟨_, rfl, Or.inl rfl⟩
  failed := fun hstatus => by cases hstatus

theorem setRow (h : CommittedPrefix v) (hrunning : v.agent.status = .running)
    (ht : v.rows v.agent.cursor = some t) {t' : TaskView}
    (hstatus : t'.row.status = .pending ∨ t'.row.status = .running ∨ t'.row.status = .failed) :
    CommittedPrefix (v.setRow v.agent.cursor t') where
  cursor_le := h.cursor_le
  rows := by
    intro i
    rw [AgentView.setRow_rows]
    split
    · rename_i hi
      subst hi
      exact iff_of_true rfl (h.cursor_lt ht)
    · exact h.rows i
  status := h.status
  completed := h.completed
  keys := h.keys
  behind := by
    intro i u hu hlt
    simp only [AgentView.setRow_agent] at hlt
    rw [AgentView.setRow_rows, if_neg (Nat.ne_of_lt hlt)] at hu
    exact h.behind i u hu hlt
  ahead := by
    intro i u hu hlt
    simp only [AgentView.setRow_agent] at hlt
    rw [AgentView.setRow_rows, if_neg (Nat.ne_of_gt hlt)] at hu
    exact h.ahead i u hu hlt
  running := fun _ => ⟨t', if_pos rfl, hstatus⟩
  failed := fun hfailed => absurd (hrunning.symm.trans hfailed) (by decide)

theorem committed (h : CommittedPrefix v) (hrunning : v.agent.status = .running)
    (ht : v.rows v.agent.cursor = some t) {t' : TaskView} {fields : JsonObject} {cost tokens : Int}
    {now : Time} (hdone : t'.row.status = .succeeded) (hresult : t'.row.result = some fields) :
    CommittedPrefix (v.committed v.agent.cursor t' fields cost tokens now) := by
  have hlt := h.cursor_lt ht
  have hkey : v.agent.cursor ∉ v.agent.context.map Prod.fst := by
    rw [h.keys]
    exact List.not_mem_range_self
  have hctx : v.agent.context.merge v.agent.cursor fields =
      v.agent.context ++ [(v.agent.cursor, fields)] := Context.merge_of_fresh fields hkey
  have hstatus : (v.agent.advanced v.agent.cursor fields cost tokens now).status =
      if v.agent.plan.length ≤ v.agent.cursor + 1 then .completed else .running := by
    simp only [Agent.advanced_status, ge_iff_le, hrunning]
  constructor
  · exact hlt
  · intro i
    simp only [AgentView.committed_rows, AgentView.committed_agent, Agent.advanced_plan]
    split
    · rename_i hi
      subst hi
      exact iff_of_true rfl hlt
    · exact h.rows i
  · simp only [AgentView.committed_agent, hstatus]
    split <;> decide
  · simp only [AgentView.committed_agent, hstatus, Agent.advanced_cursor, Agent.advanced_plan]
    split
    · exact iff_of_true rfl (by omega)
    · exact iff_of_false (by decide) (by omega)
  · simp only [AgentView.committed_agent, Agent.advanced_context, Agent.advanced_cursor, hctx,
      List.map_append, h.keys, List.range_succ]
    rfl
  · intro i u hu hi
    simp only [AgentView.committed_agent, Agent.advanced_cursor, Agent.advanced_context, hctx,
      List.lookup_append] at hi ⊢
    rw [AgentView.committed_rows] at hu
    split at hu
    · rename_i heq
      cases hu
      subst heq
      have hnone : v.agent.context.lookup v.agent.cursor = none := by
        rw [List.lookup_eq_none_iff]
        intro entry hentry
        have hne : entry.1 ≠ v.agent.cursor :=
          fun heq => hkey (heq ▸ List.mem_map_of_mem hentry)
        simpa using Ne.symm hne
      exact ⟨hdone, by simp [hresult], by simp [hnone, hresult]⟩
    · rename_i hne
      have hold : i < v.agent.cursor := by omega
      obtain ⟨hsucceeded, hsome, hlookup⟩ := h.behind i u hu hold
      refine ⟨hsucceeded, hsome, ?_⟩
      rw [hlookup]
      cases hr : u.row.result with
      | none => exact absurd hr hsome
      | some r => rfl
  · intro i u hu hi
    simp only [AgentView.committed_agent, Agent.advanced_cursor] at hi
    rw [AgentView.committed_rows, if_neg (by omega)] at hu
    obtain ⟨hattempt, hnone, hevidence, hqueued⟩ := h.ahead i u hu (by omega)
    refine ⟨hattempt, hnone, hevidence, ?_⟩
    have hnotFailed :
        (v.agent.advanced v.agent.cursor fields cost tokens now).status ≠ .failed := by
      rw [hstatus]
      split <;> decide
    simp only [AgentView.committed_agent]
    rw [hqueued, if_neg (by rw [hrunning]; decide), if_neg hnotFailed]
  · intro hagain
    simp only [AgentView.committed_agent, hstatus] at hagain
    split at hagain
    · cases hagain
    · rename_i hmore
      have hsome := (h.rows (v.agent.cursor + 1)).2 (by omega)
      obtain ⟨u, hu⟩ := Option.isSome_iff_exists.1 hsome
      refine ⟨u, ?_, Or.inl ?_⟩
      · simp only [AgentView.committed_agent, Agent.advanced_cursor, AgentView.committed_rows]
        rw [if_neg (by omega), hu]
      · have hqueued := (h.ahead _ u hu (by omega)).2.2.2
        rw [hqueued, hrunning]
        rfl
  · intro hfailed
    simp only [AgentView.committed_agent, hstatus] at hfailed
    split at hfailed <;> cases hfailed

theorem killed (h : CommittedPrefix v) (hrunning : v.agent.status = .running)
    (ht : v.rows v.agent.cursor = some t) {entry : DlqEntry} {reason : String} {now : Time} :
    CommittedPrefix (v.killed v.agent.cursor t entry reason now) := by
  have hlt := h.cursor_lt ht
  constructor
  · exact h.cursor_le
  · intro i
    simp only [AgentView.killed_rows, AgentView.killed_agent, Agent.markedFailed_plan]
    split
    · rename_i hi
      subst hi
      exact iff_of_true rfl hlt
    · rw [Option.isSome_map]
      exact h.rows i
  · simp [AgentView.killed]
  · simp only [AgentView.killed_agent, Agent.markedFailed_status, Agent.markedFailed_cursor,
      Agent.markedFailed_plan]
    exact iff_of_false (by decide) (by omega)
  · exact h.keys
  · intro i u hu hi
    simp only [AgentView.killed_agent, Agent.markedFailed_cursor] at hi
    rw [AgentView.killed_rows, if_neg (by omega), Option.map_eq_some_iff] at hu
    obtain ⟨w, hw, rfl⟩ := hu
    obtain ⟨hsucceeded, hsome, hlookup⟩ := h.behind i w hw hi
    rw [TaskView.cancelQueued, if_neg (by rw [hsucceeded]; decide)]
    exact ⟨hsucceeded, hsome, hlookup⟩
  · intro i u hu hi
    simp only [AgentView.killed_agent, Agent.markedFailed_cursor] at hi
    rw [AgentView.killed_rows, if_neg (by omega), Option.map_eq_some_iff] at hu
    obtain ⟨w, hw, rfl⟩ := hu
    obtain ⟨hattempt, hnone, hevidence, hqueued⟩ := h.ahead i w hw hi
    have hpending : w.row.status = .pending := hqueued.trans (if_neg (by rw [hrunning]; decide))
    rw [TaskView.cancelQueued, if_pos hpending]
    exact ⟨hattempt, hnone, hevidence, rfl⟩
  · intro hagain
    cases hagain
  · intro _
    refine ⟨t.killed now, ?_, rfl⟩
    simp

theorem step (h : CommittedPrefix v) (hs : AgentStep ladder rules v v') : CommittedPrefix v' := by
  cases hs with
  | claim workerId ttl now ht hpending hrunning hcursor _ =>
      subst hcursor
      exact h.setRow hrunning ht (Or.inr (Or.inl rfl))
  | row ht hrow =>
      cases hrow with
      | renew ttl now hstatus =>
          obtain ⟨rfl, hrunning⟩ := h.active ht (Or.inl hstatus)
          exact h.setRow hrunning ht (Or.inr (Or.inl hstatus))
      | report task failure workerId started now hstatus _ _ _ =>
          obtain ⟨rfl, hrunning⟩ := h.active ht (Or.inl hstatus)
          exact h.setRow hrunning ht (Or.inr (Or.inr rfl))
      | reclaim jitter now hstatus _ =>
          obtain ⟨rfl, hrunning⟩ := h.active ht (Or.inl hstatus)
          exact h.setRow hrunning ht (Or.inl rfl)
      | retry flags backoff now hstatus _ _ =>
          obtain ⟨rfl, hrunning⟩ := h.active ht (Or.inr hstatus)
          exact h.setRow hrunning ht (Or.inl rfl)
      | promote flags tier now hstatus _ _ =>
          obtain ⟨rfl, hrunning⟩ := h.active ht (Or.inr hstatus)
          exact h.setRow hrunning ht (Or.inl rfl)
  | commit task fields cost tokens workerId started now ht hstatus _ _ hcursor _ =>
      subst hcursor
      exact h.committed (h.active ht (Or.inl hstatus)).2 ht rfl rfl
  | kill flags entry reason now ht hstatus _ _ _ =>
      obtain ⟨rfl, hrunning⟩ := h.active ht (Or.inr hstatus)
      exact h.killed hrunning ht
  | finalise now hrunning hcursor _ =>
      obtain ⟨t, ht, -⟩ := h.running hrunning
      have hlt := h.cursor_lt ht
      omega
  | insert id taskDefId tier now hfree hrunning _ _ =>
      obtain ⟨t, ht, -⟩ := h.running hrunning
      rw [hfree] at ht
      cases ht

theorem path (h : CommittedPrefix v) (hp : AgentPath ladder rules v v') : CommittedPrefix v' :=
  Machine.closure_invariant (fun _ _ hv hs => hv.step hs) h hp

end CommittedPrefix

/-! ## Terminal statuses -/

/-- Terminal statuses of the agent and its rows that `v'` has kept from `v`. -/
structure KeepsTerminal (v v' : AgentView) : Prop where
  agent : v.agent.status = .completed ∨ v.agent.status = .failed →
    v'.agent.status = v.agent.status
  rows : ∀ i t, v.rows i = some t → t.row.status = .succeeded ∨ t.row.status = .dead →
    ∃ t', v'.rows i = some t' ∧ t'.row.status = t.row.status

section Terminal

variable {ladder : Ladder} {rules : Rules}

theorem TaskStep.not_terminal {t t' : TaskView} (h : TaskStep ladder rules t t') :
    t.row.status ≠ .succeeded ∧ t.row.status ≠ .dead := by
  cases h with
  | row hrow =>
      cases hrow with
      | renew _ _ hstatus | report _ _ _ _ _ hstatus | reclaim _ _ hstatus
      | retry _ _ _ hstatus | promote _ _ _ hstatus => simp [hstatus]
  | claim _ _ _ hstatus | commit _ _ _ _ _ _ _ _ hstatus | kill _ hstatus
  | cancel _ _ hstatus => simp [hstatus]

theorem CommittedPrefix.keepsTerminal {v v' : AgentView} (h : CommittedPrefix v)
    (hs : AgentStep ladder rules v v') : KeepsTerminal v v' where
  agent := by
    intro hterminal
    have notRunning : v.agent.status ≠ .running := by
      rintro hrunning
      rw [hrunning] at hterminal
      simp at hterminal
    cases hs with
    | claim | row | insert => rfl
    | commit task fields cost tokens workerId started now ht hstatus _ _ _ _ =>
        exact absurd (h.active ht (Or.inl hstatus)).2 notRunning
    | kill flags entry reason now ht hstatus _ _ _ =>
        exact absurd (h.active ht (Or.inr hstatus)).2 notRunning
    | finalise now hrunning _ _ => exact absurd hrunning notRunning
  rows := by
    intro i t ht hterminal
    obtain ⟨t', ht', rfl | hstep⟩ := hs.task ht
    · exact ⟨_, ht', rfl⟩
    · obtain ⟨hsucceeded, hdead⟩ := hstep.not_terminal
      exact absurd hterminal (by simp [hsucceeded, hdead])

theorem CommittedPrefix.keepsTerminal_path {v v' : AgentView} (h : CommittedPrefix v)
    (hp : AgentPath ladder rules v v') : KeepsTerminal v v' := by
  induction hp with
  | refl => exact ⟨fun _ => rfl, fun i t ht _ => ⟨t, ht, rfl⟩⟩
  | tail hpast hs ih =>
      have hnext := (h.path hpast).keepsTerminal hs
      refine ⟨fun hterminal => ?_, fun i t ht hterminal => ?_⟩
      · have hsame := ih.agent hterminal
        exact (hnext.agent (hsame ▸ hterminal)).trans hsame
      · obtain ⟨t', ht', hsame⟩ := ih.rows i t ht hterminal
        obtain ⟨t'', ht'', hsame'⟩ := hnext.rows i t' ht' (hsame ▸ hterminal)
        exact ⟨t'', ht'', hsame'.trans hsame⟩

/-- The context changes only by a commit of the row at the cursor. -/
theorem AgentPath.context {v v' : AgentView} (hp : AgentPath ladder rules v v') {t : TaskView}
    (ht : v'.rows v.agent.cursor = some t) (hopen : t.row.status ≠ .succeeded) :
    v'.agent.context = v.agent.context := by
  have hpast : (v'.agent.context = v.agent.context ∧ v'.agent.cursor = v.agent.cursor) ∨
      ∃ u, v'.rows v.agent.cursor = some u ∧ u.row.status = .succeeded := by
    refine Machine.closure_invariant (I := fun w =>
      (w.agent.context = v.agent.context ∧ w.agent.cursor = v.agent.cursor) ∨
        ∃ u, w.rows v.agent.cursor = some u ∧ u.row.status = .succeeded) ?_ (Or.inl ⟨rfl, rfl⟩) hp
    rintro w w' (⟨hcontext, hcursor⟩ | ⟨u, hu, hdone⟩) hs
    · cases hs with
      | commit task fields cost tokens workerId started now hrow _ _ _ hi _ =>
          exact Or.inr ⟨_, if_pos (hcursor.symm.trans hi), rfl⟩
      | claim | row | kill | finalise | insert => exact Or.inl ⟨hcontext, hcursor⟩
    · obtain ⟨u', hu', rfl | hstep⟩ := hs.task hu
      · exact Or.inr ⟨_, hu', hdone⟩
      · exact absurd hdone hstep.not_terminal.1
  rcases hpast with ⟨hcontext, -⟩ | ⟨u, hu, hdone⟩
  · exact hcontext
  · rw [ht] at hu
    cases hu
    exact absurd hdone hopen

end Terminal

/-- Every submitted agent has its committed prefix in every state its system reaches,
and no later step takes back a terminal status. -/
theorem submitted_committedPrefix {cfg : Config} {ts : List SysTransition} {s : Sys}
    (h : SysRun cfg ts s) {c : SysTransition} (hc : c ∈ ts) {a : Uuid} {plan : List Int}
    {forceTier : Option TierName} {ids : Nat → Uuid} {now : Time}
    (hsubmits : Submits cfg c a plan forceTier ids now) :
    ∃ v, s.db.view a = some v ∧ v.agent.plan = plan ∧ CommittedPrefix v ∧
      ∀ us s', Machine.Run (step cfg) s us s' →
        ∃ v', s'.db.view a = some v' ∧ KeepsTerminal v v' := by
  obtain ⟨hplan, tier, v, -, hv, hpath⟩ :=
    h.agent_history (Rules.free_holdAlong cfg ts) hc hsubmits
  have hprefix : CommittedPrefix v := (CommittedPrefix.fresh hplan).path hpath
  refine ⟨v, hv, hpath.plan.1, hprefix, fun us s' hrun => ?_⟩
  obtain ⟨-, hmoves⟩ := run_moves hrun h.sound (Rules.free_holdAlong cfg us)
  obtain ⟨v', hv', hlater⟩ := hmoves a v hv
  exact ⟨v', hv', hprefix.keepsTerminal_path hlater⟩

theorem exists_submits {plan : List Int} {rest : List Action}
    (haccepted : (submitAgents oneHost.ladder oneHost.taskDefs oneHost.maxActiveAgents none plan
      [firstAgent] rowId 0 .empty).isOk = true)
    (hruns : (ran oneHost (submitPlan plan :: rest)).1 ≠ []) :
    ∃ c ∈ (ran oneHost (submitPlan plan :: rest)).1,
      Submits oneHost c firstAgent plan none (rowId firstAgent) 0 := by
  cases hsubmit : submitAgents oneHost.ladder oneHost.taskDefs oneHost.maxActiveAgents none plan
      [firstAgent] rowId 0 .empty with
  | error e =>
      rw [hsubmit] at haccepted
      cases haccepted
  | ok db =>
      have hstep : step oneHost .init (submitPlan plan) = some (Sys.init.setDb db) := by
        simp only [submitPlan, step, Sys.init, hsubmit]
      unfold ran Machine.performed at hruns ⊢
      simp only [Machine.exec, hstep] at hruns ⊢
      cases hrest : Machine.exec (step oneHost) (Sys.init.setDb db) rest with
      | none => simp [hrest] at hruns
      | some performed =>
          simp only [Option.getD_some]
          exact ⟨_, List.mem_cons_self, [firstAgent], rowId, rfl, List.mem_singleton_self _, rfl,
            hsubmit⟩

def opening : SysTransition := (ran oneHost escalation).1.head (by decide +kernel)

theorem opening_submits : Submits oneHost opening firstAgent [20, 1] none (rowId firstAgent) 0 :=
  ⟨[firstAgent], rowId, rfl, List.mem_singleton_self _, rfl, rfl⟩

theorem submitted_committedPrefix_escalation :
    ∃ v, (ran oneHost escalation).2.db.view firstAgent = some v ∧ v.agent.plan = [20, 1] ∧
      CommittedPrefix v ∧
        ∀ us s', Machine.Run (step oneHost) (ran oneHost escalation).2 us s' →
          ∃ v', s'.db.view firstAgent = some v' ∧ KeepsTerminal v v' :=
  submitted_committedPrefix (run_ran oneHost escalation) (List.head_mem _) opening_submits

end ReliableAgents
