import ReliableAgents.Lifecycle.CommittedPrefix
import ReliableAgents.Lifecycle.Reference

/-!
# The interpreter tracks the agent

At any point of an agent's life the reference interpreter, resumed from what is
committed and from the tier of the row at the cursor, ends where it ends from the
start. A commit and a promotion are steps of the interpreter; every other step is
invisible to it.
-/

namespace ReliableAgents

namespace AgentView

def executedRow (v : AgentView) (i : Nat) : Option (Nat × TierName) :=
  (v.rows i).bind fun t => if t.evidence = [] then none else some (i, t.row.tier)

def executed (v : AgentView) (n : Nat) : List (Nat × TierName) :=
  (List.range n).filterMap v.executedRow

def standing (v : AgentView) (n : Nat) : Standing where
  status := v.agent.status
  cursor := v.agent.cursor
  context := v.agent.context
  costUnits := v.agent.costUnits
  tokensUsed := v.agent.tokensUsed
  tiers := v.executed n
  failures := v.deadLetters.map DlqEntry.failureClass

end AgentView

/-- For the agent `a`: a task does what `behaviour` says, on the tier and the context of
its row, and its failures are routed under these flags before the runaway guard. -/
def deterministic (ladder : Ladder) (flags : Flags) (behaviour : Behaviour) (a : Uuid) : Rules :=
  { Rules.free with
    commit := fun ag t _ fields cost tokens =>
      ag.id = a → behaviour t.taskDefId t.tier ag.context = .result fields ∧
        ladder.costOf t.tier = some (cost, tokens)
    report := fun ag t _ failure =>
      ag.id = a → behaviour t.taskDefId t.tier ag.context = .failure failure.failureClass
    route := fun flags' v =>
      v.row.agentId = a → flags' = flags ∧ v.row.attempt < maxTotalAttempts }

/-- The rows as the plan lays them out: executed behind the cursor, and at the creation
tier, whose rungs are `base`, ahead of it. -/
structure LaidOut (ladder : Ladder) (base : List Tier) (v : AgentView) : Prop where
  planned : ∀ i t, v.rows i = some t →
    v.agent.plan[i]? = some t.row.taskDefId ∧ t.row.agentId = v.agent.id ∧
      t.row.tier ∈ ladder.names
  behind : ∀ i t, v.rows i = some t → i < v.agent.cursor → t.evidence ≠ []
  ahead : ∀ i t, v.rows i = some t → v.agent.cursor < i → ladder.rungs t.row.tier = base

/-- The interpreter resumed from the view ends at `ended`. -/
structure Tracks (ladder : Ladder) (flags : Flags) (behaviour : Behaviour) (base : List Tier)
    (ended : Option Standing) (v : AgentView) : Prop where
  laidOut : LaidOut ladder base v
  resumes : v.agent.status = .running → ∀ t, v.rows v.agent.cursor = some t →
    ended = resume flags behaviour base (v.agent.plan.drop v.agent.cursor)
      (ladder.rungs t.row.tier) (v.standing v.agent.cursor)
  ends : v.agent.status ≠ .running → ended = some (v.standing v.agent.plan.length)
  failed : ∀ t, v.rows v.agent.cursor = some t → t.row.status = .failed →
    t.evidence ≠ [] ∧ ∃ failureClass, t.row.failureClass = some failureClass ∧
      behaviour t.row.taskDefId t.row.tier v.agent.context = .failure failureClass

/-! ## What a view shows -/

section Executed

variable {v v' : AgentView} {n : Nat} {t : TaskView}

theorem AgentView.executedRow_of_row {i : Nat} (h : v'.rows i = v.rows i) :
    v'.executedRow i = v.executedRow i := by
  unfold AgentView.executedRow
  rw [h]

theorem AgentView.executed_congr (h : ∀ i, i < n → v'.executedRow i = v.executedRow i) :
    v'.executed n = v.executed n := by
  apply List.filterMap_congr
  intro i hi
  exact h i (List.mem_range.1 hi)

theorem AgentView.executed_succ (ht : v.rows n = some t) (hevidence : t.evidence ≠ []) :
    v.executed (n + 1) = v.executed n ++ [(n, t.row.tier)] := by
  unfold AgentView.executed
  rw [List.range_succ, List.filterMap_append]
  simp [AgentView.executedRow, ht, hevidence]

theorem AgentView.executed_of_untouched {k : Nat} (hk : k ≤ n)
    (h : ∀ i t, v.rows i = some t → k ≤ i → t.evidence = []) : v.executed n = v.executed k := by
  induction n with
  | zero => rw [Nat.le_zero.1 hk]
  | succ n ih =>
      rcases Nat.lt_or_ge n k with hlt | hge
      · rw [show k = n + 1 by omega]
      · rw [← ih hge]
        unfold AgentView.executed
        rw [List.range_succ, List.filterMap_append]
        cases ht : v.rows n with
        | none => simp [AgentView.executedRow, ht]
        | some t => simp [AgentView.executedRow, ht, h n t ht hge]

theorem AgentView.setRow_standing : (v.setRow n t).standing n = v.standing n := by
  have hexecuted : (v.setRow n t).executed n = v.executed n := by
    apply AgentView.executed_congr
    intro i hi
    apply AgentView.executedRow_of_row
    rw [AgentView.setRow_rows, if_neg (by omega)]
  unfold AgentView.standing
  rw [hexecuted]
  rfl

theorem AgentView.committed_standing {fields : JsonObject} {tier : Tier} {now : Time}
    (hkey : v.agent.cursor ∉ v.agent.context.map Prod.fst) (hevidence : t.evidence ≠ [])
    (htier : t.row.tier = tier.name) :
    (v.committed v.agent.cursor t fields tier.costUnits tier.tokens now).standing
        (v.agent.cursor + 1) =
      { (v.standing v.agent.cursor).committed fields tier with
        status :=
          if v.agent.cursor + 1 ≥ v.agent.plan.length then .completed else v.agent.status } := by
  have hexecuted : (v.committed v.agent.cursor t fields tier.costUnits tier.tokens now).executed
      (v.agent.cursor + 1) = v.executed v.agent.cursor ++ [(v.agent.cursor, tier.name)] := by
    rw [AgentView.executed_succ (if_pos rfl) hevidence, htier]
    congr 1
    apply AgentView.executed_congr
    intro i hi
    apply AgentView.executedRow_of_row
    rw [AgentView.committed_rows, if_neg (by omega)]
  unfold AgentView.standing
  rw [hexecuted, AgentView.committed_agent, Agent.advanced_context,
    Context.merge_of_fresh fields hkey]
  rfl

theorem TaskView.cancelQueued_same (reason : String) (now : Time) (t : TaskView) :
    t.row.Same (t.cancelQueued reason now).row ∧
      (t.cancelQueued reason now).row.tier = t.row.tier ∧
        (t.cancelQueued reason now).evidence = t.evidence := by
  unfold TaskView.cancelQueued
  split <;> exact ⟨⟨rfl, rfl, rfl, rfl, rfl⟩, rfl, rfl⟩

theorem AgentView.killed_other {entry : DlqEntry} {reason : String} {now : Time} {i : Nat}
    {u : TaskView} (hi : i ≠ n) (hu : (v.killed n t entry reason now).rows i = some u) :
    ∃ w, v.rows i = some w ∧ w.row.Same u.row ∧ u.row.tier = w.row.tier ∧
      u.evidence = w.evidence := by
  rw [AgentView.killed_rows, if_neg hi, Option.map_eq_some_iff] at hu
  obtain ⟨w, hw, rfl⟩ := hu
  exact ⟨w, hw, w.cancelQueued_same reason now⟩

/-- A dead letter shows as the interpreter's failure, as nothing ahead was executed. -/
theorem AgentView.killed_standing {entry : DlqEntry} {reason : String} {now : Time}
    (hlt : v.agent.cursor < v.agent.plan.length) (hevidence : t.evidence ≠ [])
    (hahead : ∀ i w, v.rows i = some w → v.agent.cursor < i → w.evidence = []) :
    (v.killed v.agent.cursor t entry reason now).standing v.agent.plan.length =
      (v.standing v.agent.cursor).failed entry.failureClass t.row.tier := by
  have hexecuted : (v.killed v.agent.cursor t entry reason now).executed v.agent.plan.length =
      v.executed v.agent.cursor ++ [(v.agent.cursor, t.row.tier)] := by
    rw [AgentView.executed_of_untouched (Nat.succ_le_of_lt hlt)]
    · rw [AgentView.executed_succ (if_pos rfl) (show (t.killed now).evidence ≠ [] from hevidence)]
      congr 1
      apply AgentView.executed_congr
      intro i hi
      unfold AgentView.executedRow
      rw [AgentView.killed_rows, if_neg (by omega)]
      cases hw : v.rows i with
      | none => rfl
      | some w =>
          obtain ⟨-, htier, hsame⟩ := w.cancelQueued_same reason now
          simp [hsame, htier]
    · intro i u hu hi
      obtain ⟨w, hw, -, -, hsame⟩ := AgentView.killed_other (by omega) hu
      rw [hsame]
      exact hahead i w hw (by omega)
  unfold AgentView.standing
  rw [hexecuted, AgentView.killed_deadLetters, List.map_append]
  rfl

end Executed

/-! ## The layout -/

namespace LaidOut

variable {ladder : Ladder} {base : List Tier} {v : AgentView} {t t' : TaskView}

theorem setRow (h : LaidOut ladder base v) (ht : v.rows v.agent.cursor = some t)
    (hsame : t.row.Same t'.row) (hladder : t'.row.tier ∈ ladder.names) :
    LaidOut ladder base (v.setRow v.agent.cursor t') where
  planned := by
    intro i u hu
    rw [AgentView.setRow_rows] at hu
    split at hu
    · rename_i hi
      cases hu
      subst hi
      obtain ⟨hplan, hagent, -⟩ := h.planned _ t ht
      rw [hsame.taskDefId, hsame.agentId]
      exact ⟨hplan, hagent, hladder⟩
    · exact h.planned i u hu
  behind := by
    intro i u hu hi
    rw [AgentView.setRow_agent] at hi
    rw [AgentView.setRow_rows, if_neg (by omega)] at hu
    exact h.behind i u hu hi
  ahead := by
    intro i u hu hi
    rw [AgentView.setRow_agent] at hi
    rw [AgentView.setRow_rows, if_neg (by omega)] at hu
    exact h.ahead i u hu hi

theorem committed (h : LaidOut ladder base v) (ht : v.rows v.agent.cursor = some t)
    (hsame : t.row.Same t'.row) (htier : t'.row.tier = t.row.tier) (hevidence : t'.evidence ≠ [])
    {fields : JsonObject} {cost tokens : Int} {now : Time} :
    LaidOut ladder base (v.committed v.agent.cursor t' fields cost tokens now) where
  planned := by
    intro i u hu
    rw [AgentView.committed_rows] at hu
    split at hu
    · rename_i hi
      cases hu
      subst hi
      rw [hsame.taskDefId, hsame.agentId, htier]
      exact h.planned _ t ht
    · exact h.planned i u hu
  behind := by
    intro i u hu hi
    rw [AgentView.committed_rows] at hu
    split at hu
    · cases hu
      exact hevidence
    · rw [AgentView.committed_agent, Agent.advanced_cursor] at hi
      exact h.behind i u hu (by omega)
  ahead := by
    intro i u hu hi
    rw [AgentView.committed_agent, Agent.advanced_cursor] at hi
    rw [AgentView.committed_rows, if_neg (by omega)] at hu
    exact h.ahead i u hu (by omega)

theorem killed (h : LaidOut ladder base v) (ht : v.rows v.agent.cursor = some t)
    {entry : DlqEntry} {reason : String} {now : Time} :
    LaidOut ladder base (v.killed v.agent.cursor t entry reason now) where
  planned := by
    intro i u hu
    by_cases hi : i = v.agent.cursor
    · rw [AgentView.killed_rows, if_pos hi] at hu
      cases hu
      exact h.planned i t (hi ▸ ht)
    · obtain ⟨w, hw, hsame, htier, -⟩ := AgentView.killed_other hi hu
      rw [hsame.taskDefId, hsame.agentId, htier]
      exact h.planned i w hw
  behind := by
    intro i u hu hi
    rw [AgentView.killed_agent, Agent.markedFailed_cursor] at hi
    obtain ⟨w, hw, -, -, hsame⟩ := AgentView.killed_other (by omega) hu
    rw [hsame]
    exact h.behind i w hw hi
  ahead := by
    intro i u hu hi
    rw [AgentView.killed_agent, Agent.markedFailed_cursor] at hi
    obtain ⟨w, hw, -, htier, -⟩ := AgentView.killed_other (by omega) hu
    rw [htier]
    exact h.ahead i w hw hi

theorem fresh {a : Uuid} {plan : List Int} {tier : TierName} {ids : Nat → Uuid} {now : Time}
    (htier : tier ∈ ladder.names) :
    LaidOut ladder (ladder.rungs tier) (.fresh a plan tier ids now) where
  planned := by
    intro i t ht
    obtain ⟨taskDefId, hd, rfl⟩ := Option.map_eq_some_iff.1 ht
    exact ⟨hd, rfl, htier⟩
  behind := fun i _ _ hi => absurd hi (Nat.not_lt_zero i)
  ahead := by
    intro i t ht _
    obtain ⟨taskDefId, -, rfl⟩ := Option.map_eq_some_iff.1 ht
    rfl

/-- The plan from the cursor on starts with the task of the row there. -/
theorem plan_drop (h : LaidOut ladder base v) (ht : v.rows v.agent.cursor = some t) :
    v.agent.plan.drop v.agent.cursor =
      t.row.taskDefId :: v.agent.plan.drop (v.agent.cursor + 1) := by
  obtain ⟨hlt, hget⟩ := List.getElem?_eq_some_iff.1 (h.planned _ t ht).1
  rw [List.drop_eq_getElem_cons hlt, hget]

end LaidOut

/-! ## The interpreter -/

namespace Tracks

variable {ladder : Ladder} {flags : Flags} {behaviour : Behaviour} {base : List Tier}
  {ended : Option Standing} {v v' : AgentView} {t t' : TaskView}

/-- Where the interpreter goes from the task at the cursor. -/
theorem ended_eq (h : Tracks ladder flags behaviour base ended v)
    (hrunning : v.agent.status = .running) (ht : v.rows v.agent.cursor = some t) :
    ended =
      match climb flags (fun tier => behaviour t.row.taskDefId tier v.agent.context)
        (ladder.rungs t.row.tier) with
      | none => none
      | some (.result fields tier) =>
          resume flags behaviour base (v.agent.plan.drop (v.agent.cursor + 1)) base
            ((v.standing v.agent.cursor).committed fields tier)
      | some (.dead failureClass tier) =>
          some ((v.standing v.agent.cursor).failed failureClass tier) := by
  rw [h.resumes hrunning t ht, h.laidOut.plan_drop ht]
  rfl

theorem setRow (h : Tracks ladder flags behaviour base ended v)
    (hrunning : v.agent.status = .running) (ht : v.rows v.agent.cursor = some t)
    (hsame : t.row.Same t'.row) (hladder : t'.row.tier ∈ ladder.names)
    (hclimb : climb flags (fun tier => behaviour t.row.taskDefId tier v.agent.context)
        (ladder.rungs t'.row.tier) =
      climb flags (fun tier => behaviour t.row.taskDefId tier v.agent.context)
        (ladder.rungs t.row.tier))
    (hfailed : t'.row.status = .failed → t'.evidence ≠ [] ∧
      ∃ failureClass, t'.row.failureClass = some failureClass ∧
        behaviour t.row.taskDefId t'.row.tier v.agent.context = .failure failureClass) :
    Tracks ladder flags behaviour base ended (v.setRow v.agent.cursor t') where
  laidOut := h.laidOut.setRow ht hsame hladder
  resumes := by
    intro _ u hu
    simp only [AgentView.setRow_agent, AgentView.setRow_rows, if_true, Option.some.injEq] at hu ⊢
    subst hu
    rw [AgentView.setRow_standing, h.ended_eq hrunning ht, ← hclimb, h.laidOut.plan_drop ht]
    rfl
  ends := fun hnot => absurd hrunning hnot
  failed := by
    intro u hu hstatus
    simp only [AgentView.setRow_agent, AgentView.setRow_rows, if_true, Option.some.injEq] at hu
    subst hu
    rw [hsame.taskDefId]
    exact hfailed hstatus

theorem setRow_keep (h : Tracks ladder flags behaviour base ended v)
    (hrunning : v.agent.status = .running) (ht : v.rows v.agent.cursor = some t)
    (hsame : t.row.Same t'.row) (htier : t'.row.tier = t.row.tier)
    (hstatus : t'.row.status ≠ .failed) :
    Tracks ladder flags behaviour base ended (v.setRow v.agent.cursor t') := by
  refine h.setRow hrunning ht hsame ?_ (by rw [htier]) fun hfailed => absurd hfailed hstatus
  rw [htier]
  exact (h.laidOut.planned _ t ht).2.2

theorem committed (h : Tracks ladder flags behaviour base ended v) (hcommitted : CommittedPrefix v)
    (hrunning : v.agent.status = .running) (ht : v.rows v.agent.cursor = some t)
    (hsame : t.row.Same t'.row) (htier : t'.row.tier = t.row.tier) (hevidence : t'.evidence ≠ [])
    {fields : JsonObject} {cost tokens : Int} {now : Time}
    (hresult : behaviour t.row.taskDefId t.row.tier v.agent.context = .result fields)
    (hcost : ladder.costOf t.row.tier = some (cost, tokens)) :
    Tracks ladder flags behaviour base ended
      (v.committed v.agent.cursor t' fields cost tokens now) := by
  have hlt := hcommitted.cursor_lt ht
  obtain ⟨tier, hfind, hclimb⟩ : ∃ tier, ladder.tier t.row.tier = some tier ∧
      climb flags (fun tier => behaviour t.row.taskDefId tier v.agent.context)
        (ladder.rungs t.row.tier) = some (.result fields tier) :=
    climb_result (h.laidOut.planned _ t ht).2.2 hresult
  have hname : tier.name = t.row.tier := by
    simpa using List.find?_some hfind
  rw [Ladder.costOf, hfind, Option.map_some, Option.some.injEq, Prod.mk.injEq] at hcost
  obtain ⟨rfl, rfl⟩ := hcost
  have hended := h.ended_eq hrunning ht
  rw [hclimb] at hended
  have hkey : v.agent.cursor ∉ v.agent.context.map Prod.fst := by
    rw [hcommitted.keys]
    exact List.not_mem_range_self
  have hstanding : (v.committed v.agent.cursor t' fields tier.costUnits tier.tokens now).standing
      (v.agent.cursor + 1) = _ :=
    AgentView.committed_standing hkey hevidence (htier.trans hname.symm)
  have hstatus :
      (v.committed v.agent.cursor t' fields tier.costUnits tier.tokens now).agent.status =
        if v.agent.cursor + 1 ≥ v.agent.plan.length then .completed else v.agent.status := rfl
  refine ⟨h.laidOut.committed ht hsame htier hevidence, ?_, ?_, ?_⟩
  · intro hagain u hu
    have hmore : ¬ v.agent.cursor + 1 ≥ v.agent.plan.length := by
      intro hlast
      rw [hstatus, if_pos hlast] at hagain
      cases hagain
    rw [AgentView.committed_agent, Agent.advanced_cursor] at hu ⊢
    rw [AgentView.committed_rows, if_neg (by omega)] at hu
    rw [hstanding, if_neg hmore, h.laidOut.ahead _ u hu (by omega), hended]
    rfl
  · intro hnot
    have hlast : v.agent.plan.length = v.agent.cursor + 1 := by
      by_contra hmore
      rw [hstatus, if_neg (by omega)] at hnot
      exact hnot hrunning
    have hdrop : v.agent.plan.drop (v.agent.cursor + 1) = [] := by
      rw [← hlast, List.drop_length]
    rw [hended, hdrop, AgentView.committed_agent, Agent.advanced_plan, hlast, hstanding,
      if_pos (by omega)]
    rfl
  · intro u hu hfailed
    rw [AgentView.committed_agent, Agent.advanced_cursor] at hu
    rw [AgentView.committed_rows, if_neg (by omega)] at hu
    obtain ⟨-, -, -, hqueued⟩ := hcommitted.ahead _ u hu (by omega)
    rw [hfailed, hrunning] at hqueued
    cases hqueued

theorem killed (h : Tracks ladder flags behaviour base ended v) (hcommitted : CommittedPrefix v)
    (hrunning : v.agent.status = .running) (ht : v.rows v.agent.cursor = some t)
    (hstatus : t.row.status = .failed) {entry : DlqEntry} (hentry : entry.Records t)
    (reason : String) (now : Time)
    (hstuck : ∀ failureClass, t.row.failureClass = some failureClass →
      failureClass ≠ .capability ∨ flags.climbs = false ∨ ladder.nextTier t.row.tier = none) :
    Tracks ladder flags behaviour base ended (v.killed v.agent.cursor t entry reason now) := by
  obtain ⟨hevidence, failureClass, hclass, hfailure⟩ := h.failed t ht hstatus
  have hentryClass : entry.failureClass = failureClass :=
    Option.some.inj (hentry.failureClass.symm.trans hclass)
  have hclimb : climb flags (fun tier => behaviour t.row.taskDefId tier v.agent.context)
      (ladder.rungs t.row.tier) = some (.dead failureClass t.row.tier) :=
    climb_dead (h.laidOut.planned _ t ht).2.2 hfailure (hstuck failureClass hclass)
  have hended := h.ended_eq hrunning ht
  rw [hclimb] at hended
  refine ⟨h.laidOut.killed ht, nofun, ?_, ?_⟩
  · intro _
    rw [hended, AgentView.killed_agent, Agent.markedFailed_plan,
      AgentView.killed_standing (hcommitted.cursor_lt ht) hevidence, hentryClass]
    exact fun i w hw hi => (hcommitted.ahead i w hw hi).2.2.1
  · intro u hu hfailed
    rw [AgentView.killed_agent, Agent.markedFailed_cursor, AgentView.killed_rows, if_pos rfl] at hu
    cases hu
    cases hfailed

/-- Every step of a deterministic agent keeps the interpreter on the way to its end. -/
theorem step (h : Tracks ladder flags behaviour base ended v) (hcommitted : CommittedPrefix v)
    (hs : AgentStep ladder (deterministic ladder flags behaviour v.agent.id) v v') :
    Tracks ladder flags behaviour base ended v' := by
  cases hs with
  | claim workerId ttl now ht _ hrunning hcursor _ =>
      subst hcursor
      exact h.setRow_keep hrunning ht ⟨rfl, rfl, rfl, rfl, rfl⟩ rfl nofun
  | row ht hrow =>
      cases hrow with
      | renew ttl now hstatus =>
          obtain ⟨rfl, hrunning⟩ := hcommitted.active ht (Or.inl hstatus)
          refine h.setRow_keep hrunning ht ⟨rfl, rfl, rfl, rfl, rfl⟩ rfl ?_
          simp [hstatus]
      | reclaim jitter now hstatus _ =>
          obtain ⟨rfl, hrunning⟩ := hcommitted.active ht (Or.inl hstatus)
          exact h.setRow_keep hrunning ht ⟨rfl, rfl, rfl, rfl, rfl⟩ rfl nofun
      | report task failure workerId started now hstatus _ _ hreport =>
          obtain ⟨rfl, hrunning⟩ := hcommitted.active ht (Or.inl hstatus)
          refine h.setRow hrunning ht ⟨rfl, rfl, rfl, rfl, rfl⟩ (h.laidOut.planned _ _ ht).2.2
            rfl ?_
          exact fun _ => ⟨by simp, _, rfl, hreport rfl⟩
      | retry flags' backoff now hstatus _ _ =>
          obtain ⟨rfl, hrunning⟩ := hcommitted.active ht (Or.inr hstatus)
          exact h.setRow_keep hrunning ht ⟨rfl, rfl, rfl, rfl, rfl⟩ rfl nofun
      | promote flags' tier now hstatus hroute hverdict =>
          obtain ⟨rfl, hrunning⟩ := hcommitted.active ht (Or.inr hstatus)
          obtain ⟨-, failureClass, hclass, hfailure⟩ := h.failed _ ht hstatus
          obtain ⟨rfl, -⟩ := hroute (h.laidOut.planned _ _ ht).2.1
          obtain ⟨hcapability, -, hnext⟩ := verdict_promote hverdict
          rw [hclass, Option.getD_some] at hcapability
          subst hcapability
          refine h.setRow hrunning ht ⟨rfl, rfl, rfl, rfl, rfl⟩ (Ladder.nextTier_mem hnext) ?_ nofun
          exact (climb_next hfailure (climbs_of_promote hverdict) hnext).symm
  | @commit i t task fields cost tokens workerId started now ht hstatus _ _ hcursor hcommit =>
      subst hcursor
      obtain ⟨hresult, hcost⟩ := hcommit rfl
      have hrunning := (hcommitted.active ht (Or.inl hstatus)).2
      refine h.committed hcommitted hrunning ht ?_ ?_ ?_ hresult hcost
      · exact ⟨rfl, rfl, rfl, rfl, rfl⟩
      · rfl
      · simp
  | kill flags' entry reason now ht hstatus hroute hverdict hentry =>
      obtain ⟨rfl, hrunning⟩ := hcommitted.active ht (Or.inr hstatus)
      obtain ⟨rfl, hattempt⟩ := hroute (h.laidOut.planned _ _ ht).2.1
      refine h.killed hcommitted hrunning ht hstatus hentry reason now fun failureClass hclass => ?_
      rw [TaskView.verdict, hclass, Option.getD_some] at hverdict
      exact stuck_of_deadLetter hverdict hattempt
  | finalise now hrunning hcursor _ =>
      obtain ⟨t, ht, -⟩ := hcommitted.running hrunning
      have hlt := hcommitted.cursor_lt ht
      omega
  | insert id taskDefId tier now hfree hrunning _ _ =>
      obtain ⟨t, ht, -⟩ := hcommitted.running hrunning
      rw [hfree] at ht
      cases ht

theorem path (h : Tracks ladder flags behaviour base ended v) (hcommitted : CommittedPrefix v)
    (hp : AgentPath ladder (deterministic ladder flags behaviour v.agent.id) v v') :
    Tracks ladder flags behaviour base ended v' := by
  induction hp with
  | refl => exact h
  | tail hpast hs ih =>
      have hid := (AgentPath.plan hpast).2
      exact ih.step (hcommitted.path hpast) (hid.symm ▸ hs)

theorem fresh {a : Uuid} {plan : List Int} {tier : TierName} {ids : Nat → Uuid} {now : Time}
    (htier : tier ∈ ladder.names) :
    Tracks ladder flags behaviour (ladder.rungs tier) (reference ladder flags behaviour tier plan)
      (.fresh a plan tier ids now) where
  laidOut := .fresh htier
  resumes := by
    intro _ t ht
    obtain ⟨taskDefId, -, rfl⟩ := Option.map_eq_some_iff.1 ht
    rfl
  ends := fun hnot => absurd rfl hnot
  failed := by
    intro t ht hfailed
    obtain ⟨taskDefId, -, rfl⟩ := Option.map_eq_some_iff.1 ht
    cases hfailed

end Tracks

end ReliableAgents
