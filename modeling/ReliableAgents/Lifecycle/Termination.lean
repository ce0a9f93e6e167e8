import ReliableAgents.Lifecycle.LeaseFields
import ReliableAgents.Lifecycle.Remaining
import ReliableAgents.Lifecycle.Waiting
import ReliableAgents.Machine.Forever

/-!
# Every agent ends

Under fair pools and sweeps an agent of a run without end completes or fails, unless the
reaper takes one of its tasks back without bound: an outcome spends a budget, but a
reclaimed lease spends none, whatever kills the worker each time.
-/

namespace ReliableAgents

open Filter Relational

/-! ## Progress of one agent -/

/-- How far a row is on its way to its next outcome. -/
def TaskStatus.stage : TaskStatus → Nat
  | .failed => 0
  | .pending => 1
  | .running => 2
  | .succeeded | .dead => 3

def AgentView.trail (v : AgentView) : Nat :=
  ∑ i ∈ Finset.range v.agent.plan.length, ((v.rows i).map fun t => t.evidence.length).getD 0

/-- What every statement on the agent's rows raises, but for a renewal. -/
def AgentView.progress (v : AgentView) : Nat :=
  4 * v.trail + ((v.rows v.agent.cursor).map fun t => t.row.status.stage).getD 0

section Progress

variable {ladder : Ladder} {rules : Rules} {v v' : AgentView} {t t' : TaskView}

theorem TaskStatus.stage_le (status : TaskStatus) : status.stage ≤ 3 := by
  cases status <;> decide

theorem AgentView.progress_of_cursor (ht : v.rows v.agent.cursor = some t) :
    v.progress = 4 * v.trail + t.row.status.stage := by
  simp [progress, ht]

theorem AgentView.progress_setRow (hcommitted : CommittedPrefix v)
    (ht : v.rows v.agent.cursor = some t) (t' : TaskView) :
    (v.setRow v.agent.cursor t').progress + 4 * t.evidence.length + t.row.status.stage =
      v.progress + 4 * t'.evidence.length + t'.row.status.stage := by
  have hrow : (v.setRow v.agent.cursor t').rows v.agent.cursor = some t' := if_pos rfl
  have htrail : (v.setRow v.agent.cursor t').trail + t.evidence.length =
      v.trail + t'.evidence.length :=
    sum_of_rows (fun t => t.evidence.length) rfl (hcommitted.cursor_lt ht) ht hrow
      fun j hj => by simp [hj]
  rw [progress_of_cursor (v := v.setRow v.agent.cursor t') hrow, progress_of_cursor ht]
  omega

/-- The row in hand is renewed, and nothing else of the agent is touched. -/
def AgentView.Renews (v v' : AgentView) : Prop :=
  ∃ t ttl now, v.rows v.agent.cursor = some t ∧ t.row.status = .running ∧
    v' = v.setRow v.agent.cursor { t with row := t.row.renewed ttl now }

theorem AgentView.Renews.progress (hcommitted : CommittedPrefix v) (h : v.Renews v') :
    v'.progress = v.progress := by
  obtain ⟨t, ttl, now, ht, -, rfl⟩ := h
  have hraised :=
    progress_setRow hcommitted ht { t with row := t.row.renewed ttl now }
  simp only [TaskInstance.renewed_status] at hraised
  omega

theorem AgentStep.progress (hcommitted : CommittedPrefix v) (hs : AgentStep ladder rules v v') :
    v.progress < v'.progress ∨ v.Renews v' := by
  have hrunning := hcommitted.running_of_step hs
  cases hs with
  | @claim i t workerId ttl now ht hpending _ hcursor _ =>
      subst hcursor
      left
      have hraised := AgentView.progress_setRow hcommitted ht (t.claimed workerId ttl now)
      simp only [TaskView.claimed_row, TaskView.claimed_evidence, TaskInstance.claimed_status,
        hpending, TaskStatus.stage] at hraised
      omega
  | @row i t t' ht hrow =>
      have hactive : t.row.status = .running ∨ t.row.status = .failed := by
        cases hrow with
        | renew _ _ hstatus | report _ _ _ _ _ hstatus | reclaim _ _ hstatus => exact Or.inl hstatus
        | retry _ _ _ hstatus | promote _ _ _ hstatus => exact Or.inr hstatus
      obtain ⟨rfl, -⟩ := hcommitted.active ht hactive
      have hraised := AgentView.progress_setRow hcommitted ht t'
      cases hrow with
      | renew ttl now hstatus => exact Or.inr ⟨t, ttl, now, ht, hstatus, rfl⟩
      | report | reclaim =>
          left
          have hstage := t.row.status.stage_le
          simp only [List.length_append, List.length_singleton] at hraised
          omega
      | retry flags backoff now hstatus | promote flags tier now hstatus =>
          left
          simp only [hstatus, TaskInstance.retried_status, TaskInstance.promoted_status,
            TaskStatus.stage] at hraised
          omega
  | @commit i t task fields cost tokens workerId started now ht hstatus _ _ hcursor _ =>
      subst hcursor
      left
      generalize ht' : t.committed task fields cost tokens workerId started now = t'
      have hlength : t'.evidence.length = t.evidence.length + 1 := by simp [← ht']
      have htrail : (v.committed v.agent.cursor t' fields cost tokens now).trail +
          t.evidence.length = v.trail + t'.evidence.length :=
        AgentView.sum_of_rows (fun t => t.evidence.length) rfl (hcommitted.cursor_lt ht) ht
          (if_pos rfl) fun j hj => by simp [hj]
      have hstage := t.row.status.stage_le
      rw [AgentView.progress_of_cursor ht, AgentView.progress]
      omega
  | @kill i t flags entry reason now ht hstatus _ _ _ =>
      obtain ⟨rfl, -⟩ := hcommitted.active ht (Or.inr hstatus)
      left
      have hrow : (v.killed v.agent.cursor t entry reason now).rows v.agent.cursor =
          some (t.killed now) := if_pos rfl
      have htrail : (v.killed v.agent.cursor t entry reason now).trail + t.evidence.length =
          v.trail + (t.killed now).evidence.length := by
        refine AgentView.sum_of_rows (fun t => t.evidence.length) rfl (hcommitted.cursor_lt ht) ht
          hrow fun j hj => ?_
        simp only [AgentView.killed_rows, hj, if_false, Option.map_map]
        refine Option.map_congr fun u _ => ?_
        simp only [Function.comp_apply, TaskView.cancelQueued]
        split <;> rfl
      have hlength : (t.killed now).evidence.length = t.evidence.length := rfl
      have hstage : (t.killed now).row.status.stage = 3 := rfl
      rw [AgentView.progress_of_cursor (v := v.killed v.agent.cursor t entry reason now) hrow,
        AgentView.progress_of_cursor ht, hstage, hstatus, TaskStatus.stage]
      omega
  | finalise now _ hover _ =>
      have hlt := hcommitted.completed.2 (le_antisymm hcommitted.cursor_le hover)
      rw [hrunning] at hlt
      cases hlt
  | insert id taskDefId tier now hnone _ hplan _ =>
      have hlt := (List.getElem?_eq_some_iff.1 hplan).1
      rw [← hcommitted.rows, hnone] at hlt
      cases hlt

/-- The agent stands where it stood, and so does its row, unless that is running. -/
structure AgentView.Stands (v v' : AgentView) : Prop where
  agent : v'.agent = v.agent
  row : ∀ t, v.rows v.agent.cursor = some t → ∃ t', v'.rows v.agent.cursor = some t' ∧
    t'.row.status = t.row.status ∧ (t.row.status = .running ∨ t' = t)

theorem AgentView.Stands.refl (v : AgentView) : v.Stands v :=
  ⟨rfl, fun t ht => ⟨t, ht, rfl, Or.inr rfl⟩⟩

theorem AgentView.Renews.stands {u : AgentView} (h : v.Stands u) (hrenews : u.Renews v') :
    v.Stands v' := by
  obtain ⟨r, ttl, now, hr, hrunning, rfl⟩ := hrenews
  refine ⟨h.agent, fun t ht => ?_⟩
  obtain ⟨w, hw, hstatus, -⟩ := h.row t ht
  rw [h.agent] at hr
  cases hw.symm.trans hr
  have hrow : (u.setRow u.agent.cursor { r with row := r.row.renewed ttl now }).rows
      v.agent.cursor = some { r with row := r.row.renewed ttl now } := by
    rw [h.agent]
    exact if_pos rfl
  exact ⟨_, hrow, hstatus, Or.inl (hstatus.symm.trans hrunning)⟩

/-- Progress never falls, and an agent whose progress stays stands. -/
theorem AgentPath.progress (hcommitted : CommittedPrefix v) (h : AgentPath ladder rules v v') :
    v.progress < v'.progress ∨ v.progress = v'.progress ∧ v.Stands v' := by
  induction h with
  | refl => exact Or.inr ⟨rfl, .refl v⟩
  | @tail u w hpath hs ih =>
      have hbefore := hcommitted.path hpath
      rcases AgentStep.progress hbefore hs with hraised | hrenews
      · rcases ih with hlt | ⟨heq, -⟩ <;> left <;> omega
      · rw [hrenews.progress hbefore]
        exact ih.imp_right fun ⟨heq, hstands⟩ => ⟨heq, hrenews.stands hstands⟩

end Progress

/-! ## Fair runs -/

/-- What pools, sweeps and workers do in a run without end. A locked row is skipped, so a
turn counts for a row when it finds the row unlocked. -/
structure Fair (cfg : Config) (x : Machine.Forever (step cfg)) : Prop where
  clock : ∀ T, ∀ᶠ n in atTop, ∀ now, (x.action n).clock = some now → T < now
  delays : ∀ᶠ n in atTop, (x.action n).Delays
  claims : ∀ tier ∈ cfg.ladder.names, ∀ k, ∃ᶠ n in atTop, ∃ p now started locked,
    x.action n = .claim p now started locked ∧ cfg.poolTier p = tier ∧ locked k = false
  reaps : ∀ k, ∃ᶠ n in atTop, ∃ batch jitter now locked,
    x.action n = .reap batch jitter now locked ∧ 1 ≤ batch ∧ locked k = false
  classifies : ∀ k, ∃ᶠ n in atTop, ∃ limit flags now locked,
    x.action n = .classify limit flags now locked ∧ 1 ≤ limit ∧ locked k = false
  /-- No worker holds on to a task for ever: a lease that is never given up is some time
  renewed for the last time. -/
  finishes : ∀ k, (∀ᶠ n in atTop, ∃ t, (x.state n).db.task k = some t ∧ t.status = .running) →
    ∀ᶠ n in atTop, (x.state (n + 1)).db.task k = (x.state n).db.task k

section Fairness

variable {cfg : Config} {x : Machine.Forever (step cfg)} {t : TaskInstance}

theorem Fair.prepend (hfair : Fair cfg x) {s₀ : Sys} {ts : List SysTransition}
    (hrun : Machine.Run (step cfg) s₀ ts (x.state 0)) : Fair cfg (x.prepend hrun) where
  clock := fun T => (Machine.eventually_add ts.length).1 (by simpa using hfair.clock T)
  delays := (Machine.eventually_add ts.length).1 (by simpa using hfair.delays)
  claims := fun tier htier k =>
    (Machine.frequently_add ts.length).1 (by simpa using hfair.claims tier htier k)
  reaps := fun k => (Machine.frequently_add ts.length).1 (by simpa using hfair.reaps k)
  classifies := fun k => (Machine.frequently_add ts.length).1 (by simpa using hfair.classifies k)
  finishes := by
    intro k hrunning
    rw [← Machine.eventually_add ts.length] at hrunning ⊢
    simp only [Machine.Forever.prepend_state_add] at hrunning
    refine (hfair.finishes k hrunning).mono fun n hn => ?_
    rwa [Nat.add_right_comm, Machine.Forever.prepend_state_add,
      Machine.Forever.prepend_state_add]

/-- A queue that no statement joins is not served for ever. -/
theorem Fair.not_frequently (hfair : Fair cfg x) (queue : TaskInstance → Bool)
    (marked : SysTransition → Bool) (T : Time)
    (hjoins : ∀ u now, T < now → u.Stamped cfg.leaseTtlSeconds now → queue u = false)
    (htakes : ∀ n, marked (x.transition n) = true →
      Takes 1 queue (x.state n).db (x.state (n + 1)).db) :
    ¬ ∃ᶠ n in atTop, marked (x.transition n) = true := by
  obtain ⟨N, hN⟩ := eventually_atTop.1 ((hfair.clock T).and hfair.delays)
  refine x.not_frequently N ((x.state N).db.taskInstances.count queue) fun len => ?_
  have hbound := taken_le (x.run_segment N len) queue marked 1 (fun c hc => ?_)
    (fun c hc now hclock u hu => ?_) fun c hc _ hmarked => ?_
  · rwa [Nat.mul_one] at hbound
  · obtain ⟨n, hn, rfl⟩ := x.mem_segment.1 hc
    exact (hN n hn.1).2
  · obtain ⟨n, hn, rfl⟩ := x.mem_segment.1 hc
    exact hjoins u now ((hN n hn.1).1 now hclock) hu
  · obtain ⟨n, -, rfl⟩ := x.mem_segment.1 hc
    exact htakes n hmarked

theorem Fair.not_pending (hfair : Fair cfg x) (hpending : t.status = .pending)
    (htier : t.tier ∈ cfg.ladder.names)
    (hstill : ∀ᶠ n in atTop, (x.state n).db.task t.id = some t ∧
      ∃ ag, (x.state n).db.agent t.agentId = some ag ∧ ag.status = .running ∧
        ag.cursor = t.seq) : False := by
  refine hfair.not_frequently (queuedAhead t) (claimPasses cfg t) t.nextRunAt
    (fun u now hdue hu => queuedAhead_of_stamped hdue hu)
    (fun n => claimPasses_takes (x.next n)) ?_
  have hafter := (Machine.eventually_add 1).2 hstill
  refine (((hfair.claims t.tier htier t.id).and_eventually
    (hfair.clock t.nextRunAt)).and_eventually (hstill.and hafter)).mono fun n hn => ?_
  obtain ⟨⟨⟨p, now, started, locked, haction, hpool, hfree⟩, hdue⟩, ⟨hbefore, ag, hag, hrunning,
    hcursor⟩, hnext, -⟩ := hn
  have hlate : t.nextRunAt ≤ now := (hdue now (by rw [haction]; rfl)).le
  have hclaimable : claimable (x.state n).db (cfg.poolTier p) now t = true := by
    simp [claimable, hag, hpending, hlate, hpool, hrunning, hcursor]
  simp [claimPasses, Machine.Forever.transition, haction, hclaimable, hfree, hbefore, hnext]

theorem Fair.not_running (hfair : Fair cfg x) (httl : 0 ≤ cfg.leaseTtlSeconds)
    (hrunning : t.status = .running) {expires : Time} (hlease : t.leaseExpires = some expires)
    (hstill : ∀ᶠ n in atTop, (x.state n).db.task t.id = some t) : False := by
  refine hfair.not_frequently (leasedAhead expires t) (reapPasses 1 t) expires
    (fun u now hdue hu => leasedAhead_of_stamped httl hdue hu)
    (fun n => reapPasses_takes hlease (x.next n)) ?_
  have hafter := (Machine.eventually_add 1).2 hstill
  refine (((hfair.reaps t.id).and_eventually (hfair.clock expires)).and_eventually
    (hstill.and hafter)).mono fun n hn => ?_
  obtain ⟨⟨⟨batch, jitter, now, locked, haction, hbatch, hfree⟩, hdue⟩, hbefore, hnext⟩ := hn
  have hexpired : expired now t = true := by
    simp [expired, hrunning, hlease, hdue now (by rw [haction]; rfl)]
  simp [reapPasses, Machine.Forever.transition, haction, hbatch, hexpired, hfree, hbefore, hnext]

theorem Fair.not_failed (hfair : Fair cfg x) {past : List SysTransition}
    (hpast : SysRun cfg past (x.state 0)) (hfailed : t.status = .failed)
    (hstill : ∀ᶠ n in atTop, (x.state n).db.task t.id = some t) : False := by
  have hcursor : ∀ n, (x.state n).db.AtCursor := fun n =>
    SysRun.atCursor (hpast.append (x.run_between (Nat.zero_le n)))
  refine hfair.not_frequently (failedAhead t) (classifyPasses 1 t) t.updatedAt
    (fun u now hdue hu => failedAhead_of_stamped hdue hu)
    (fun n => classifyPasses_takes (hcursor n) (x.next n)) ?_
  have hafter := (Machine.eventually_add 1).2 hstill
  refine ((hfair.classifies t.id).and_eventually (hstill.and hafter)).mono fun n hn => ?_
  obtain ⟨⟨limit, flags, now, locked, haction, hlimit, hfree⟩, hbefore, hnext⟩ := hn
  simp [classifyPasses, Machine.Forever.transition, haction, hlimit, hfailed, hfree, hbefore, hnext]

end Fairness

/-! ## Agents of a run without end -/

def Db.Ended (db : Db) (a : Uuid) : Prop :=
  ∃ ag, db.agent a = some ag ∧ (ag.status = .completed ∨ ag.status = .failed)

def Db.reclaimsOf (db : Db) (k : Uuid) : Nat :=
  (db.evidence k).countP fun e => e.outcome = .reclaimed

section Rows

variable {ladder : Ladder} {rules : Rules} {v v' : AgentView} {t : TaskView} {i : Nat}

theorem CommittedPrefix.evidence_le (h : CommittedPrefix v) (ht : v.rows i = some t) :
    t.evidence.length ≤ v.progress := by
  have hmem : i ∈ Finset.range v.agent.plan.length := by
    rw [Finset.mem_range, ← h.rows, ht]
    rfl
  have hle := Finset.single_le_sum
    (f := fun j => ((v.rows j).map fun t => t.evidence.length).getD 0)
    (fun _ _ => Nat.zero_le _) hmem
  simp only [ht, Option.map_some, Option.getD_some] at hle
  unfold AgentView.progress AgentView.trail
  omega

/-- Outcomes and reclaimed leases are all that an agent's rows record. -/
theorem AgentView.progress_le {bound : Nat}
    (h : ∀ i t, v.rows i = some t → t.evidence.countP (fun e => e.outcome = .reclaimed) ≤ bound) :
    v.progress ≤ 4 * (v.outcomes + v.agent.plan.length * bound) + 3 := by
  have htrail : v.trail ≤ v.outcomes + v.agent.plan.length * bound := by
    have hsum : v.agent.plan.length * bound = ∑ _i ∈ Finset.range v.agent.plan.length, bound := by
      simp
    rw [trail, outcomes, hsum, ← Finset.sum_add_distrib]
    refine Finset.sum_le_sum fun i _ => ?_
    cases ht : v.rows i with
    | none => simp
    | some t =>
        have hsplit := t.evidence.length_eq_countP_add_countP fun e => e.outcome = .reclaimed
        have houtcomes :
            t.outcomes = t.evidence.countP fun e => ¬ decide (e.outcome = .reclaimed) := by
          simp [TaskView.outcomes]
        have hreclaims := h i t ht
        simp only [Option.map_some, Option.getD_some]
        omega
  have hstage : ((v.rows v.agent.cursor).map fun t => t.row.status.stage).getD 0 ≤ 3 := by
    cases v.rows v.agent.cursor with
    | none => exact Nat.zero_le _
    | some t => exact t.row.status.stage_le
  unfold progress
  omega

/-- An agent that has ended is left alone. -/
theorem CommittedPrefix.eq_of_ended (h : CommittedPrefix v) (hp : AgentPath ladder rules v v')
    (hended : v.agent.status ≠ .running) : v' = v := by
  cases hp.cases_head with
  | inl heq => exact heq.symm
  | inr hnext =>
      obtain ⟨w, hs, -⟩ := hnext
      exact absurd (h.running_of_step hs) hended

end Rows

section Endless

variable {cfg : Config} {x : Machine.Forever (step cfg)} {past : List SysTransition} {a : Uuid}
  {v : Nat → AgentView}

/-- The life of one agent, state by state. -/
structure Follows (cfg : Config) (x : Machine.Forever (step cfg)) (a : Uuid)
    (v : Nat → AgentView) : Prop where
  view : ∀ n, (x.state n).db.view a = some (v n)
  path : ∀ m n, m ≤ n → AgentPath cfg.ladder stamped (v m) (v n)
  committed : ∀ n, CommittedPrefix (v n)
  outcomes : ∀ n, (v n).outcomes ≤ (v 0).agent.plan.length * cfg.ladder.outcomesPerTask
  onLadder : ∀ n i t, (v n).rows i = some t → t.row.tier ∈ cfg.ladder.names

theorem exists_follows (hids : Function.Injective cfg.workerId)
    (hpast : SysRun cfg past (x.state 0)) {ag : Agent} (hag : (x.state 0).db.agent a = some ag)
    (hplan : ag.plan ≠ []) : ∃ v, Follows cfg x a v := by
  have hruns : ∀ n, SysRun cfg (past ++ x.segment 0 n) (x.state n) := fun n =>
    hpast.append (x.run_between (Nat.zero_le n))
  obtain ⟨v₀, hv₀, rfl⟩ := Db.view_of_agent hag
  have hviews : ∀ n, ∃ w, (x.state n).db.view a = some w := fun n => by
    obtain ⟨w, hw, -⟩ := SysRun.remaining_run hids hpast hv₀ (x.run_between (Nat.zero_le n))
    exact ⟨w, hw⟩
  choose v hv using hviews
  have hpath : ∀ m n, m ≤ n → AgentPath cfg.ladder stamped (v m) (v n) := by
    intro m n hmn
    obtain ⟨w, hw, hpath, -⟩ := SysRun.remaining_run hids (hruns m) (hv m) (x.run_between hmn)
    rwa [Option.some.inj ((hv n).symm.trans hw)]
  have hstart : v 0 = v₀ := Option.some.inj ((hv 0).symm.trans hv₀)
  have hplans : ∀ n, (v n).agent.plan = (v 0).agent.plan := fun n =>
    (hpath 0 n (Nat.zero_le n)).plan.1
  refine ⟨v, hv, hpath, fun n => ?_, fun n => ?_, fun n i t ht => ?_⟩
  · exact (SysRun.inOrder hids (hruns n) (hv n)).1.committed (by rwa [hplans, hstart])
  · have hle := (SysRun.inOrder hids (hruns n) (hv n)).2
    rw [hplans] at hle
    omega
  · obtain ⟨base, hbase⟩ := (SysRun.inOrder hids (hruns n) (hv n)).1.budgets.rows i t ht
    exact hbase.onLadder

namespace Follows

variable (h : Follows cfg x a v)

include h

theorem agent (n : Nat) : (x.state n).db.agent a = some (v n).agent :=
  (Db.view_eq_some.1 (h.view n)).1

theorem row {n i : Nat} {t : TaskView} (ht : (v n).rows i = some t) :
    (x.state n).db.task t.row.id = some t.row ∧ t.row.agentId = a ∧ t.row.seq = i ∧
      t = (x.state n).db.taskView t.row := by
  rw [Db.view_rows (h.view n), Option.map_eq_some_iff] at ht
  obtain ⟨row, hrow, rfl⟩ := ht
  obtain ⟨htask, howner, hseq⟩ := Db.task_of_rowAt hrow
  exact ⟨htask, howner, hseq, rfl⟩

theorem progress_le {m n : Nat} (hmn : m ≤ n) : (v m).progress ≤ (v n).progress := by
  rcases AgentPath.progress (h.committed m) (h.path m n hmn) with hlt | ⟨heq, -⟩
  · exact hlt.le
  · exact heq.le

theorem reclaims_le (hended : ∀ᶠ n in atTop, (x.state n).db.Ended a) :
    ∃ bound, ∀ n t, (x.state n).db.task t.id = some t → t.agentId = a →
      (x.state n).db.reclaimsOf t.id ≤ bound := by
  obtain ⟨N, hN⟩ := eventually_atTop.1 hended
  obtain ⟨ag, hag, hstatus⟩ := hN N le_rfl
  rw [h.agent N] at hag
  cases hag
  have hstops : (v N).agent.status ≠ .running := fun heq => by
    rcases hstatus with hdone | hdone <;> cases heq.symm.trans hdone
  refine ⟨(v N).progress, fun n t ht howner => ?_⟩
  have hrow : (v n).rows t.seq = some ((x.state n).db.taskView t) :=
    Db.view_row_of_task ht (howner ▸ h.view n)
  calc (x.state n).db.reclaimsOf t.id
      ≤ ((x.state n).db.taskView t).evidence.length := List.countP_le_length
    _ ≤ (v n).progress := (h.committed n).evidence_le hrow
    _ ≤ (v N).progress := by
        rcases Nat.le_total n N with hle | hle
        · exact h.progress_le hle
        · rw [(h.committed N).eq_of_ended (h.path N n hle) hstops]

/-- An agent that stands for ever has ended. -/
theorem ended_of_stands (hfair : Fair cfg x) (httl : 0 ≤ cfg.leaseTtlSeconds)
    (hpast : SysRun cfg past (x.state 0)) {N : Nat} (hstands : ∀ n, N ≤ n → (v N).Stands (v n)) :
    (v N).agent.status = .completed ∨ (v N).agent.status = .failed := by
  cases hstatus : (v N).agent.status with
  | completed => exact Or.inl rfl
  | failed => exact Or.inr rfl
  | pending => exact absurd hstatus (h.committed N).status
  | running =>
      exfalso
      obtain ⟨t, ht, hopen⟩ := (h.committed N).running hstatus
      have hrow : ∀ n, N ≤ n → ∃ t', (v n).rows (v N).agent.cursor = some t' ∧
          t'.row.id = t.row.id ∧ t'.row.status = t.row.status ∧
            (t.row.status = .running ∨ t' = t) := by
        intro n hn
        obtain ⟨t', ht', hsame, hstill⟩ := (hstands n hn).row t ht
        obtain ⟨u, hu, hpath⟩ := AgentPath.task (h.path N n hn) ht
        cases ht'.symm.trans hu
        exact ⟨t', ht', hpath.same.id, hsame, hstill⟩
      have hstill : t.row.status ≠ .running →
          ∀ᶠ n in atTop, (x.state n).db.task t.row.id = some t.row := fun hne =>
        eventually_atTop.2 ⟨N, fun n hn => by
          obtain ⟨t', ht', -, -, hstill⟩ := hrow n hn
          obtain rfl := hstill.resolve_left hne
          exact (h.row ht').1⟩
      rcases hopen with hpending | hrunning | hfailed
      · refine hfair.not_pending hpending (h.onLadder N _ t ht) ?_
        have hne : t.row.status ≠ .running := by simp [hpending]
        refine (hstill hne).and (eventually_atTop.2 ⟨N, fun n hn => ?_⟩)
        refine ⟨(v N).agent, ?_, hstatus, (h.row ht).2.2.1.symm⟩
        rw [(h.row ht).2.1, h.agent n, (hstands n hn).agent]
      · have hleased : ∀ n, N ≤ n → ∃ r, (x.state n).db.task t.row.id = some r ∧
            r.id = t.row.id ∧ r.status = .running := fun n hn => by
          obtain ⟨t', ht', hid, hsame, -⟩ := hrow n hn
          exact ⟨t'.row, hid ▸ (h.row ht').1, hid, hsame.trans hrunning⟩
        obtain ⟨M, hM⟩ := eventually_atTop.1 (hfair.finishes t.row.id
          (eventually_atTop.2 ⟨N, fun n hn => by
            obtain ⟨r, hr, -, hrunning⟩ := hleased n hn
            exact ⟨r, hr, hrunning⟩⟩))
        obtain ⟨r, hr, hid, hrunning'⟩ := hleased (max N M) (le_max_left N M)
        -- from the last renewal on the row is the same
        have hkept : ∀ n, max N M ≤ n → (x.state n).db.task r.id = some r := by
          intro n hn
          induction n, hn using Nat.le_induction with
          | base => rwa [hid]
          | succ n hn ih => rw [hid, hM n (le_of_max_le_right hn), ← hid, ih]
        have howner := SysRun.ownerFields (hpast.append (x.run_between (Nat.zero_le (max N M))))
        obtain ⟨expires, hexpires⟩ :=
          Option.isSome_iff_exists.1 ((howner t.row.id r hr).expires (Or.inl hrunning'))
        exact hfair.not_running httl hrunning' hexpires (eventually_atTop.2 ⟨_, hkept⟩)
      · have hne : t.row.status ≠ .running := by simp [hfailed]
        exact hfair.not_failed hpast hfailed (hstill hne)

end Follows

/-- An agent of a fair run ends if and only if there is a bound on how often the leases of
its tasks are taken back. -/
theorem ends_iff (hids : Function.Injective cfg.workerId) (httl : 0 ≤ cfg.leaseTtlSeconds)
    (hpast : SysRun cfg past (x.state 0)) (hfair : Fair cfg x) {ag : Agent}
    (hag : (x.state 0).db.agent a = some ag) (hplan : ag.plan ≠ []) :
    (∀ᶠ n in atTop, (x.state n).db.Ended a) ↔
      ∃ bound, ∀ n t, (x.state n).db.task t.id = some t → t.agentId = a →
        (x.state n).db.reclaimsOf t.id ≤ bound := by
  obtain ⟨v, h⟩ := exists_follows hids hpast hag hplan
  refine ⟨h.reclaims_le, fun ⟨bound, hbound⟩ => ?_⟩
  have hlimit : ∀ n, (v n).progress ≤
      4 * ((v 0).agent.plan.length * cfg.ladder.outcomesPerTask +
        (v 0).agent.plan.length * bound) + 3 := by
    intro n
    have hrows : ∀ i t, (v n).rows i = some t →
        t.evidence.countP (fun e => e.outcome = .reclaimed) ≤ bound := by
      intro i t ht
      obtain ⟨htask, howner, -, hview⟩ := h.row ht
      rw [hview]
      exact hbound n t.row htask howner
    have hle := AgentView.progress_le hrows
    rw [(h.path 0 n (Nat.zero_le n)).plan.1] at hle
    have houtcomes := h.outcomes n
    omega
  obtain ⟨N, hN⟩ := Machine.exists_constant (fun m n hmn => h.progress_le hmn) hlimit
  have hstands : ∀ n, N ≤ n → (v N).Stands (v n) := by
    intro n hn
    rcases AgentPath.progress (h.committed N) (h.path N n hn) with hlt | ⟨-, hstands⟩
    · exact absurd (hN n hn) hlt.ne'
    · exact hstands
  have hended := h.ended_of_stands hfair httl hpast hstands
  exact eventually_atTop.2 ⟨N, fun n hn => ⟨(v n).agent, h.agent n, (hstands n hn).agent ▸ hended⟩⟩

end Endless

/-! ## A run that comes to rest -/

/-- Nothing is queued, leased or to be routed, and two workers are idle. -/
structure Sys.AtRest (s : Sys) : Prop where
  tasks : ∀ k t, s.db.task k = some t → t.status = .succeeded ∨ t.status = .dead
  workers : ∀ p < 2, (s.workers p).phase = .idle

/-- The turns of two workers and an orchestrator. -/
def turn (n : Nat) : Action :=
  match n % 4 with
  | 0 => .claim 0 n n unlocked
  | 1 => .claim 1 n n unlocked
  | 2 => .reap 100 (fun _ => 0) n unlocked
  | _ => .classify 50 (fun _ => {}) n unlocked

section Rest

variable {cfg : Config} {s : Sys}

theorem Sys.AtRest.not_claimable (h : s.AtRest) {tier : TierName} {now : Time} {k : Uuid}
    {t : TaskInstance} (ht : s.db.task k = some t) : claimable s.db tier now t = false := by
  rw [Bool.eq_false_iff]
  intro hclaimable
  obtain ⟨-, -, hpending, -⟩ := claimable_spec hclaimable
  rcases h.tasks k t ht with hstatus | hstatus <;> cases hpending.symm.trans hstatus

theorem Sys.AtRest.step_claim (h : s.AtRest) {p : Nat} (hp : p < 2) (now : Time) :
    step cfg s (.claim p now now unlocked) = some s := by
  have hnone : claimOne (cfg.poolTier p) (cfg.workerId p) cfg.leaseTtlSeconds now unlocked s.db =
      none := by
    rw [Option.eq_none_iff_forall_ne_some]
    rintro ⟨task, db⟩ hclaim
    obtain ⟨t, ht, hclaimable, -⟩ := claimOne_spec hclaim
    rw [h.not_claimable ht] at hclaimable
    cases hclaimable
  simp [step, h.workers p hp, claimTask, hnone]

theorem Sys.AtRest.step_reap (h : s.AtRest) (batch : Nat) (jitter : Uuid → Time) (now : Time)
    (locked : Uuid → Bool) : step cfg s (.reap batch jitter now locked) = some s := by
  have hnone : expiredLeases batch now locked s.db = [] := by
    refine List.eq_nil_iff_forall_not_mem.2 fun t ht => ?_
    obtain ⟨htask, hrunning, -⟩ := mem_expiredLeases ht
    rcases h.tasks _ t htask with hstatus | hstatus <;> cases hrunning.symm.trans hstatus
  simp [step, reap, hnone, Sys.setDb]

theorem Sys.AtRest.step_classify (h : s.AtRest) (limit : Nat) (flags : Uuid → Flags) (now : Time)
    (locked : Uuid → Bool) : step cfg s (.classify limit flags now locked) = some s := by
  have hnone : takeFailed limit locked s.db = [] := by
    refine List.eq_nil_iff_forall_not_mem.2 fun t ht => ?_
    obtain ⟨htask, hfailed⟩ := mem_takeFailed ht
    rcases h.tasks _ t htask with hstatus | hstatus <;> cases hfailed.symm.trans hstatus
  simp [step, classify, hnone, Sys.setDb]

theorem Sys.AtRest.step_turn (h : s.AtRest) (n : Nat) : step cfg s (turn n) = some s := by
  unfold turn
  split
  · exact h.step_claim (by decide) n
  · exact h.step_claim (by decide) n
  · exact h.step_reap _ _ _ _
  · exact h.step_classify _ _ _ _

def resting (s : Sys) (h : s.AtRest) : Machine.Forever (step oneHost) where
  state := fun _ => s
  action := turn
  next := h.step_turn

theorem turn_clock (n : Nat) : (turn n).clock = some (n : Int) := by
  unfold turn
  split <;> rfl

theorem resting_fair (h : s.AtRest) : Fair oneHost (resting s h) where
  clock := by
    intro T
    refine eventually_atTop.2 ⟨T.toNat + 1, fun n hn now hclock => ?_⟩
    have hnow : (n : Int) = now := Option.some.inj ((turn_clock n).symm.trans hclock)
    have hlate : T ≤ T.toNat := Int.self_le_toNat T
    rw [← hnow]
    exact lt_of_le_of_lt hlate (Int.ofNat_lt.2 hn)
  delays := by
    refine Eventually.of_forall fun n => ?_
    simp only [resting, turn]
    split <;> simp [Action.Delays]
  claims := by
    intro tier htier k
    have hpools : tier ∈ ["junior", "senior"] := htier
    refine frequently_atTop.2 fun N => ?_
    rcases List.mem_pair.1 hpools with rfl | rfl
    · have hturn : 4 * N % 4 = 0 := by omega
      refine ⟨4 * N, by omega, 0, (4 * N : Nat), (4 * N : Nat), unlocked, ?_, rfl, rfl⟩
      simp only [resting, turn, hturn]
    · have hturn : (4 * N + 1) % 4 = 1 := by omega
      refine ⟨4 * N + 1, by omega, 1, (4 * N + 1 : Nat), (4 * N + 1 : Nat), unlocked, ?_, rfl, rfl⟩
      simp only [resting, turn, hturn]
  reaps := by
    intro k
    refine frequently_atTop.2 fun N => ?_
    have hturn : (4 * N + 2) % 4 = 2 := by omega
    refine ⟨4 * N + 2, by omega, 100, fun _ => 0, (4 * N + 2 : Nat), unlocked, ?_, by decide, rfl⟩
    simp only [resting, turn, hturn]
  classifies := by
    intro k
    refine frequently_atTop.2 fun N => ?_
    have hturn : (4 * N + 3) % 4 = 3 := by omega
    refine ⟨4 * N + 3, by omega, 50, fun _ => {}, (4 * N + 3 : Nat), unlocked, ?_, by decide, rfl⟩
    simp only [resting, turn, hturn]
  finishes := fun _ _ => Eventually.of_forall fun _ => rfl

end Rest

def crashedThenSolved : List Action :=
  [.claim 0 0 0 unlocked, .crash 0, .reap 100 (fun _ => 0) (seconds 31) unlocked] ++
    handout 2 (seconds 40) solved ++ [.confirm 2, .checkpoint 2 (seconds 41)]

def solvedAtLast : List SysTransition × Sys :=
  Machine.performed (step oneHost) (ran oneHost [submitPlan [20]]).2 crashedThenSolved

theorem solvedAtLast_atRest : solvedAtLast.2.AtRest where
  tasks := by
    have hrows : ∀ t ∈ solvedAtLast.2.db.taskInstances.rows,
        t.status = .succeeded ∨ t.status = .dead := by decide +kernel
    exact fun k t ht => hrows t (Table.mem_of_get? ht)
  workers := by decide +kernel

def comesToRest : Machine.Forever (step oneHost) :=
  (resting solvedAtLast.2 solvedAtLast_atRest).prepend (Machine.run_performed _ _ _)

theorem ends_iff_comesToRest :
    (∀ᶠ n in atTop, (comesToRest.state n).db.Ended firstAgent) ∧
      ∃ bound, ∀ n t, (comesToRest.state n).db.task t.id = some t → t.agentId = firstAgent →
        (comesToRest.state n).db.reclaimsOf t.id ≤ bound := by
  have hstart : comesToRest.state 0 = (ran oneHost [submitPlan [20]]).2 :=
    Machine.Forever.prepend_state_zero _ _
  have hagent : ((ran oneHost [submitPlan [20]]).2.db.agent firstAgent).map Agent.plan =
      some [20] := by decide +kernel
  obtain ⟨ag, hag, hplan⟩ := Option.map_eq_some_iff.1 hagent
  have hpast := run_ran oneHost [submitPlan [20]]
  rw [← hstart] at hpast hag
  have hiff := ends_iff defaultWorkerId_injective (by decide) hpast
    ((resting_fair solvedAtLast_atRest).prepend _) hag (by simp [hplan])
  have hended : (solvedAtLast.2.db.agent firstAgent).map Agent.status = some .completed := by
    decide +kernel
  obtain ⟨done, hdone, hstatus⟩ := Option.map_eq_some_iff.1 hended
  have hends : ∀ᶠ n in atTop, (comesToRest.state n).db.Ended firstAgent := by
    refine (Machine.eventually_add solvedAtLast.1.length).1 (Eventually.of_forall fun n => ?_)
    have hstate : comesToRest.state (n + solvedAtLast.1.length) = solvedAtLast.2 :=
      Machine.Forever.prepend_state_add _ _ n
    rw [hstate]
    exact ⟨done, hdone, Or.inl hstatus⟩
  exact ⟨hends, hiff.1 hends⟩

end ReliableAgents
