import ReliableAgents.Deployment
import ReliableAgents.Lifecycle.SweepChanges
import ReliableAgents.Machine.Ranking
import ReliableAgents.Relational.Groups

/-!
# How long a row waits

A claim, a reap and a classification take their rows in the order of a time column,
and every statement stamps the rows it writes with its own clock. So a row whose time
has come is overtaken by rows that were waiting with it, and by each of them once.
-/

namespace ReliableAgents

open Relational

/-- A row as a statement at time `now` leaves it. -/
structure TaskInstance.Stamped (ttlSeconds : Int) (now : Time) (t : TaskInstance) : Prop where
  updatedAt : t.updatedAt = now
  queued : t.status = .pending → now ≤ t.nextRunAt
  leased : t.status = .running → t.leaseExpires = some (now + seconds ttlSeconds)

/-- The rows of `db'` that are not rows of `db` were written at time `now`. -/
def Stamps (ttlSeconds : Int) (now : Time) (db db' : Db) : Prop :=
  ∀ k t, db'.task k = some t → db.task k = some t ∨ t.Stamped ttlSeconds now

/-- `random() * REAPER_JITTER_SECONDS` is not negative. -/
def Action.Delays : Action → Prop
  | .reap _ jitter _ _ => ∀ k, 0 ≤ jitter k
  | _ => True

/-! ## Every statement stamps what it writes -/

section Stamps

variable {cfg : Config} {ttlSeconds : Int} {now : Time} {db db' db'' : Db} {t : TaskInstance}

theorem Stamps.refl (db : Db) : Stamps ttlSeconds now db db := fun _ _ ht => Or.inl ht

theorem Stamps.trans (h : Stamps ttlSeconds now db db') (h' : Stamps ttlSeconds now db' db'') :
    Stamps ttlSeconds now db db'' := fun k t ht => (h' k t ht).elim (h k t) Or.inr

theorem Stamps.of_map {f : TaskInstance → TaskInstance}
    (hrows : ∀ k, db'.task k = (db.task k).map f)
    (hf : ∀ t, f t = t ∨ (f t).Stamped ttlSeconds now) : Stamps ttlSeconds now db db' := by
  intro k t ht
  rw [hrows, Option.map_eq_some_iff] at ht
  obtain ⟨u, hu, rfl⟩ := ht
  rcases hf u with hsame | hstamped
  · exact Or.inl (hsame.symm ▸ hu)
  · exact Or.inr hstamped

theorem Stamps.of_update {p : TaskInstance → Bool} {f : TaskInstance → TaskInstance}
    (hrows : db'.taskInstances.rows = db.taskInstances.rows.map fun t => if p t then f t else t)
    (hid : ∀ t, (f t).id = t.id) (hf : ∀ t, p t = true → (f t).Stamped ttlSeconds now) :
    Stamps ttlSeconds now db db' := by
  refine .of_map (Db.task_of_update hrows hid) fun t => ?_
  by_cases hp : p t = true
  · exact Or.inr (by simpa [hp] using hf t hp)
  · exact Or.inl (by simp [hp])

theorem fresh_stamped {id agentId : Uuid} {seq : Nat} {taskDefId : Int} {tier : TierName} :
    (TaskInstance.fresh id agentId seq taskDefId tier now).Stamped ttlSeconds now where
  updatedAt := rfl
  queued := fun _ => le_refl now
  leased := fun h => by cases h

theorem claimOne_stamps {poolTier : TierName} {workerId : WorkerId} {locked : Uuid → Bool}
    {task : Handout} (h : claimOne poolTier workerId ttlSeconds now locked db = some (task, db')) :
    Stamps ttlSeconds now db db' := by
  obtain ⟨t, -, -, -, rfl⟩ := claimOne_spec h
  exact .of_update rfl (fun _ => rfl) fun _ _ => ⟨rfl, fun h => (by cases h), fun _ => rfl⟩

theorem renewSql_stamps (taskId : Uuid) (workerId : WorkerId) :
    Stamps ttlSeconds now db (renewSql taskId workerId ttlSeconds now db).1 := by
  refine .of_update rfl (fun _ => rfl) fun t hleased => ⟨rfl, fun h => ?_, fun _ => rfl⟩
  obtain ⟨-, -, hrunning⟩ := leasedBy_iff.1 hleased
  rw [TaskInstance.renewed_status, hrunning] at h
  cases h

theorem checkpointSuccess_stamps {task : Handout} {result : PyDict} {cost tokens : Int}
    {started : Time} {workerId : WorkerId} {ok : Bool}
    (h : checkpointSuccess task result cost tokens started workerId now db = some (db', ok)) :
    Stamps ttlSeconds now db db' := by
  rcases checkpointSuccess_spec h with ⟨-, rfl⟩ | ⟨fields, t, a, -, -, -, -, -, -, -, rfl⟩
  · exact .refl _
  · exact .of_update rfl (fun _ => rfl) fun _ _ =>
      ⟨rfl, fun h => (by cases h), fun h => (by cases h)⟩

theorem reportFailure_stamps {task : Handout} {failure : FailureReport} {started : Time}
    {workerId : WorkerId} {ok : Bool}
    (h : reportFailure task failure started workerId now db = (db', ok)) :
    Stamps ttlSeconds now db db' := by
  rcases reportFailure_spec h with ⟨-, rfl⟩ | ⟨t, -, -, -, -, rfl⟩
  · exact .refl _
  · exact .of_update rfl (fun _ => rfl) fun _ _ =>
      ⟨rfl, fun h => (by cases h), fun h => (by cases h)⟩

theorem reclaim_stamps {jitter : Uuid → Time} (hjitter : ∀ k, 0 ≤ jitter k) (e : TaskInstance) :
    Stamps ttlSeconds now db (reclaim jitter now db e) :=
  .of_update rfl (fun _ => rfl) fun _ _ =>
    ⟨rfl, fun _ => le_add_of_nonneg_right (hjitter e.id), fun h => (by cases h)⟩

theorem reap_stamps {batch : Nat} {jitter : Uuid → Time} {locked : Uuid → Bool}
    (hjitter : ∀ k, 0 ≤ jitter k) : Stamps ttlSeconds now db (reap batch jitter now locked db) := by
  unfold reap
  induction expiredLeases batch now locked db generalizing db with
  | nil => exact .refl db
  | cons e rest ih => exact (reclaim_stamps hjitter e).trans ih

theorem insertTask_stamps {ladder : Ladder} (ht : t.Stamped ttlSeconds now)
    (h : insertTask ladder t db = some db') : Stamps ttlSeconds now db db' := by
  obtain ⟨-, -, -, -, htask, -⟩ := insertTask_spec h
  intro k u hu
  rw [htask] at hu
  split at hu
  · exact Or.inr (Option.some.inj hu ▸ ht)
  · exact Or.inl hu

theorem repairStalled_stamps {ladder : Ladder} {batch : Nat} {ids : Uuid → Uuid}
    {locked : Uuid → Bool} (h : repairStalled ladder batch ids now locked db = some db') :
    Stamps ttlSeconds now db db' := by
  unfold repairStalled at h
  split at h
  · cases h
  · rename_i tier _
    refine Machine.foldlM_related (r := Stamps ttlSeconds now) Stamps.refl
      (fun _ _ _ => Stamps.trans) (fun u a v hone => ?_) h
    rcases repairOne_spec hone with rfl | ⟨taskDefId, -, hinsert⟩
    · exact .refl _
    · exact insertTask_stamps fresh_stamped hinsert

theorem createAgents_stamps {ladder : Ladder} {plan : List Int} {tier : TierName}
    {agentIds : List Uuid} {ids : Uuid → Nat → Uuid}
    (h : createAgents ladder plan tier agentIds ids now db = some db') :
    Stamps ttlSeconds now db db' := by
  refine Machine.foldlM_related (r := Stamps ttlSeconds now) Stamps.refl
    (fun _ _ _ => Stamps.trans) (fun u a v hcreate => ?_) h
  obtain ⟨-, -, -, -, -, hnew, -⟩ := createAgent_spec hcreate
  intro k t ht
  rcases hnew k t ht with hold | ⟨i, taskDefId, -, rfl⟩
  · exact Or.inl hold
  · exact Or.inr fresh_stamped

theorem Write.onTask_stamps {ladder : Ladder} {flags : Flags} {w : Write} (u : TaskInstance)
    (h : routeWrite ladder flags now t db = some w) :
    w.onTask u = u ∨ (w.onTask u).Stamped ttlSeconds now := by
  have hbackoff : ∀ attempt, now ≤ now + seconds (backoffSeconds attempt) := fun attempt => by
    have hpos : 0 ≤ seconds (backoffSeconds attempt) := by
      unfold seconds
      positivity
    exact le_add_of_nonneg_right hpos
  unfold routeWrite at h
  split at h
  · cases h
    simp only [Write.onTask]
    split
    · exact Or.inr ⟨rfl, fun _ => hbackoff t.attempt, fun h => (by cases h)⟩
    · exact Or.inl rfl
  · cases h
    simp only [Write.onTask]
    split
    · exact Or.inr ⟨rfl, fun _ => le_refl now, fun h => (by cases h)⟩
    · exact Or.inl rfl
  · obtain ⟨failureClass, -, rfl⟩ := Option.map_eq_some_iff.1 h
    simp only [Write.onTask]
    split
    · exact Or.inr ⟨rfl, fun h => (by cases h), fun h => (by cases h)⟩
    · split
      · exact Or.inr ⟨rfl, fun h => (by cases h), fun h => (by cases h)⟩
      · exact Or.inl rfl

theorem classify_stamps {ladder : Ladder} {limit : Nat} {flags : Uuid → Flags}
    {locked : Uuid → Bool} (h : classify ladder limit flags now locked db = some db') :
    Stamps ttlSeconds now db db' := by
  refine Machine.foldlM_related (r := Stamps ttlSeconds now) Stamps.refl
    (fun _ _ _ => Stamps.trans) (fun u t v hroute => ?_) h
  obtain ⟨⟨routed, v'⟩, hone, rfl⟩ := Option.map_eq_some_iff.1 hroute
  rw [routeOne_eq, Option.map_eq_some_iff] at hone
  obtain ⟨w, hw, heq⟩ := hone
  cases heq
  exact .of_map (w.perform_task u) fun r => Write.onTask_stamps r hw

end Stamps

section Step

variable {cfg : Config} {s s' : Sys} {a : Action}

theorem tasks_of_ledger {db db' : Db} (h : ∃ table, db' = { db with idempotency := table }) :
    db'.taskInstances = db.taskInstances := by
  obtain ⟨table, rfl⟩ := h
  rfl

/-- A step writes no task row, or stamps those it writes with its clock. -/
theorem step_stamps (h : step cfg s a = some s') (hdelays : a.Delays) :
    s'.db.taskInstances = s.db.taskInstances ∨
      ∃ now, a.clock = some now ∧ Stamps cfg.leaseTtlSeconds now s.db s'.db := by
  cases a with
  | claim p now started locked =>
      simp only [step] at h
      split at h
      · cases h
        unfold claimTask
        split
        · exact Or.inl rfl
        · rename_i claimed hclaim
          exact Or.inr ⟨now, rfl, claimOne_stamps hclaim⟩
      · cases h
  | load p | run p outcome | confirm p =>
      simp only [step] at h
      repeat' split at h
      all_goals cases h
      all_goals exact Or.inl rfl
  | begin p now =>
      simp only [step] at h
      split at h
      · cases h
        exact Or.inl (tasks_of_ledger (beginAction_db ..))
      · cases h
  | settle p now =>
      simp only [step] at h
      split at h
      · cases h
        exact Or.inl (tasks_of_ledger (settleAction_db ..))
      · cases h
  | checkpoint p now =>
      simp only [step] at h
      split at h
      · split at h
        · cases h
          exact Or.inl rfl
        · rename_i committed hcommit
          cases h
          exact Or.inr ⟨now, rfl, checkpointSuccess_stamps hcommit⟩
      · cases h
  | report p now =>
      simp only [step] at h
      split at h
      · cases h
        exact Or.inr ⟨now, rfl, reportFailure_stamps rfl⟩
      · cases h
  | heartbeat p now =>
      simp only [step] at h
      split at h
      · split at h
        · cases h
        · cases h
          exact Or.inr ⟨now, rfl, renewSql_stamps _ _⟩
      · cases h
  | straggle p taskId now =>
      simp only [step] at h
      split at h
      · cases h
        exact Or.inr ⟨now, rfl, renewSql_stamps _ _⟩
      · cases h
  | join p taskId =>
      rw [step_join h]
      exact Or.inl rfl
  | abandon p | crash p =>
      cases h
      exact Or.inl rfl
  | reap batch jitter now locked =>
      cases h
      exact Or.inr ⟨now, rfl, reap_stamps hdelays⟩
  | repair batch ids now locked =>
      cases h
      rw [Sys.setDb_db]
      cases hrepair : repairStalled cfg.ladder batch ids now locked s.db with
      | none => exact Or.inl rfl
      | some db => exact Or.inr ⟨now, rfl, repairStalled_stamps hrepair⟩
  | finalise batch now locked =>
      cases h
      exact Or.inl rfl
  | classify limit flags now locked =>
      cases h
      rw [Sys.setDb_db]
      cases hclassify : classify cfg.ladder limit flags now locked s.db with
      | none => exact Or.inl rfl
      | some db => exact Or.inr ⟨now, rfl, classify_stamps hclassify⟩
  | reconcile afterSeconds batch now locked =>
      cases h
      exact Or.inl rfl
  | submit forceTier plan agentIds ids now =>
      simp only [step] at h
      split at h
      · cases h
        exact Or.inl rfl
      · rename_i db hsubmit
        cases h
        obtain ⟨-, -, -, tier, -, hcreate⟩ := submitAgents_spec hsubmit
        exact Or.inr ⟨now, rfl, createAgents_stamps hcreate⟩
  | seed plan agentIds ids now =>
      cases h
      rw [Sys.setDb_db]
      cases hseed : seed cfg.ladder plan agentIds ids now s.db with
      | none => exact Or.inl rfl
      | some db => exact Or.inr ⟨now, rfl, createAgents_stamps hseed⟩
  | ledger call =>
      cases h
      exact Or.inl (tasks_of_ledger (call.perform_db cfg.sha256 s.db))

end Step

/-! ## Two agents -/

def secondAgent : Uuid := ⟨2⟩

def twoAgents : List Action := [.submit none [20] [firstAgent, secondAgent] rowId 0]

def twoClaims : List Action := [.claim 0 5 5 unlocked, .claim 2 6 6 unlocked]

def twoReports : List Action :=
  [.load 0, .load 2, .run 0 (.raised tooHard), .run 2 (.raised tooHard), .report 0 7, .report 2 8]

def tooHardReport : FailureReport := ⟨.capability, "correlating signals across sources"⟩

def secondTask : TaskInstance := .fresh (rowId secondAgent 0) secondAgent 0 20 "junior" 0

/-! ## Waiting rows are overtaken by rows that waited before them -/

section Overtaking

variable {cfg : Config} {ts : List SysTransition} {s₀ s : Sys}

/-- At least `n` rows of the queue were rewritten. -/
def Takes (n : Nat) (queue : TaskInstance → Bool) (db db' : Db) : Prop :=
  ∃ taken : List TaskInstance, n ≤ taken.length ∧ (taken.map TaskInstance.id).Nodup ∧
    ∀ r ∈ taken, db.task r.id = some r ∧ queue r = true ∧ db'.task r.id ≠ some r

/-- What is taken from a queue that the statements of a run do not join was in it at the
start. -/
theorem taken_le (hrun : Machine.Run (step cfg) s₀ ts s) (queue : TaskInstance → Bool)
    (marked : SysTransition → Bool) (n : Nat) (hdelays : ∀ c ∈ ts, c.action.Delays)
    (hjoins : ∀ c ∈ ts, ∀ now, c.action.clock = some now →
      ∀ t, t.Stamped cfg.leaseTtlSeconds now → queue t = false)
    (htaken : ∀ c ∈ ts, step cfg c.before c.action = some c.after → marked c = true →
      Takes n queue c.before.db c.after.db) :
    ts.countP marked * n ≤ s₀.db.taskInstances.count queue := by
  have hrank := hrun.countP_mul_le (fun s => s.db.taskInstances.count queue) marked n
    fun c hc hstep => ?_
  · exact le_trans (Nat.le_add_right _ _) hrank
  have hstays : ∀ r, c.after.db.task r.id = some r → queue r = true →
      c.before.db.task r.id = some r := by
    intro r hr hqueue
    rcases step_stamps hstep (hdelays c hc) with hsame | ⟨now, hclock, hstamps⟩
    · rwa [Db.task, ← hsame]
    · refine (hstamps r.id r hr).resolve_right fun hstamped => ?_
      rw [hjoins c hc now hclock r hstamped] at hqueue
      cases hqueue
  by_cases hmarked : marked c = true
  · obtain ⟨taken, hlength, hnodup, hgone⟩ := htaken c hc hstep hmarked
    have hfallen := Table.count_add_length_le hnodup hgone hstays
    rw [if_pos hmarked]
    exact le_trans (Nat.add_le_add_left hlength _) hfallen
  · rw [if_neg hmarked]
    have hkept := @Table.count_add_length_le _ _ _ _ _ _ _ _ queue [] List.nodup_nil
      (fun r hr => by cases hr) hstays
    exact hkept

/-! ### Claims -/

/-- A claim that could have taken the row `t` takes another. -/
def claimPasses (cfg : Config) (t : TaskInstance) (c : SysTransition) : Bool :=
  match c.action with
  | .claim p now _ locked =>
      claimable c.before.db (cfg.poolTier p) now t && !locked t.id &&
        c.before.db.task t.id = some t && c.after.db.task t.id = some t
  | _ => false

/-- The rows that were queued at `t`'s tier no later than `t`. -/
def queuedAhead (t u : TaskInstance) : Bool :=
  u.status = .pending && u.tier = t.tier && u.nextRunAt ≤ t.nextRunAt && u.id ≠ t.id

/-- A claim takes the oldest of what it can take. -/
theorem claimOne_oldest {poolTier : TierName} {workerId : WorkerId} {ttlSeconds : Int} {now : Time}
    {locked : Uuid → Bool} {db : Db} {t : TaskInstance} (ht : db.task t.id = some t)
    (hclaimable : claimable db poolTier now t = true) (hfree : locked t.id = false) :
    ∃ r, claimOne poolTier workerId ttlSeconds now locked db =
        some ((r.claimed workerId ttlSeconds now).handout,
          { db with
            taskInstances :=
              db.taskInstances.update (fun u => u.id = r.id)
                (TaskInstance.claimed workerId ttlSeconds now) }) ∧
      db.task r.id = some r ∧ claimable db poolTier now r = true ∧ locked r.id = false ∧
      (r = t ∨ r.nextRunAt ≤ t.nextRunAt ∧ r.id ≠ t.id) := by
  have hp : (claimable db poolTier now t && !locked t.id) = true := by simp [hclaimable, hfree]
  cases hbatch : orderedBatch TaskInstance.nextRunAt 1
      (db.taskInstances.select fun u => claimable db poolTier now u && !locked u.id) with
  | nil =>
      have hselected : t ∈ db.taskInstances.select fun u =>
          claimable db poolTier now u && !locked u.id := Table.mem_select.2 ⟨ht, hp⟩
      rw [orderedBatch_one_eq_nil.1 hbatch] at hselected
      cases hselected
  | cons r rest =>
      obtain ⟨hr, hpr⟩ := Table.mem_select.1 (mem_orderedBatch_one hbatch)
      simp only [Bool.and_eq_true, Bool.not_eq_true'] at hpr
      refine ⟨r, by simp only [claimOne, hbatch], hr, hpr.1, hpr.2, ?_⟩
      by_cases hin : t ∈ r :: rest
      · have hone := length_orderedBatch TaskInstance.nextRunAt 1
          (db.taskInstances.select fun u => claimable db poolTier now u && !locked u.id)
        rw [hbatch, List.length_cons] at hone
        have hnil : rest = [] := List.length_eq_zero_iff.1 (by omega)
        rw [hnil, List.mem_singleton] at hin
        exact Or.inl hin.symm
      · rw [← hbatch] at hin
        obtain ⟨-, hahead⟩ := Table.left_behind ht hp hin
        obtain ⟨-, -, hle, hne⟩ := hahead r (hbatch ▸ List.mem_cons_self)
        exact Or.inr ⟨hle, hne⟩

theorem queuedAhead_of_stamped {t u : TaskInstance} {now : Time} (hdue : t.nextRunAt < now)
    (hu : u.Stamped cfg.leaseTtlSeconds now) : queuedAhead t u = false := by
  by_cases hpending : u.status = .pending
  · have hqueued := hu.queued hpending
    have hnot : ¬ u.nextRunAt ≤ t.nextRunAt := not_le.2 (lt_of_lt_of_le hdue hqueued)
    simp [queuedAhead, hnot]
  · simp [queuedAhead, hpending]

theorem claimPasses_takes {t : TaskInstance} {c : SysTransition}
    (hstep : step cfg c.before c.action = some c.after) (hpasses : claimPasses cfg t c = true) :
    Takes 1 (queuedAhead t) c.before.db c.after.db := by
  unfold claimPasses at hpasses
  split at hpasses
  · rename_i p now started locked haction
    simp only [Bool.and_eq_true, Bool.not_eq_true', decide_eq_true_eq] at hpasses
    obtain ⟨⟨⟨hclaimable, hfree⟩, hbefore⟩, hafter⟩ := hpasses
    obtain ⟨r, hclaim, hr, hclaimable', -, hahead⟩ :=
      @claimOne_oldest _ (cfg.workerId p) cfg.leaseTtlSeconds _ _ _ _ hbefore hclaimable hfree
    rw [haction] at hstep
    simp only [step] at hstep
    split at hstep
    · have hafter' : c.after.db.task r.id =
          some (r.claimed (cfg.workerId p) cfg.leaseTtlSeconds now) := by
        obtain ⟨w, hw, -, -, htask⟩ := claimOne_task hclaim
        have hsame : w = r := Option.some.inj (hw.symm.trans hr)
        rw [← Option.some.inj hstep]
        simp only [claimTask, hclaim]
        exact (htask r.id).trans (hsame ▸ if_pos rfl)
      obtain ⟨-, -, hpending, -, htier, -⟩ := claimable_spec hclaimable
      obtain ⟨-, -, hpending', -, htier', -⟩ := claimable_spec hclaimable'
      have hclaimed : r.claimed (cfg.workerId p) cfg.leaseTtlSeconds now ≠ r := fun heq => by
        have hstatus := congrArg TaskInstance.status heq
        rw [hpending'] at hstatus
        cases hstatus
      rcases hahead with rfl | ⟨hle, hne⟩
      · rw [hafter'] at hafter
        exact absurd (Option.some.inj hafter) hclaimed
      · refine ⟨[r], le_refl 1, List.nodup_singleton _, fun u hu => ?_⟩
        cases List.mem_singleton.1 hu
        refine ⟨hr, by simp [queuedAhead, hpending', htier, htier', hle, hne], ?_⟩
        rw [hafter']
        exact fun heq => hclaimed (Option.some.inj heq)
    · cases hstep
  · cases hpasses

theorem claims_overtake (hrun : Machine.Run (step cfg) s₀ ts s)
    (hdelays : ∀ c ∈ ts, c.action.Delays) {t : TaskInstance}
    (hdue : ∀ c ∈ ts, ∀ now, c.action.clock = some now → t.nextRunAt < now) :
    ts.countP (claimPasses cfg t) ≤ s₀.db.taskInstances.count (queuedAhead t) := by
  have hbound := taken_le hrun (queuedAhead t) (claimPasses cfg t) 1 hdelays
    (fun c hc now hclock _ hu => queuedAhead_of_stamped (hdue c hc now hclock) hu)
    fun _ _ hstep => claimPasses_takes hstep
  rwa [Nat.mul_one] at hbound

theorem claims_overtake_twoAgents :
    (Machine.performed (step oneHost) (ran oneHost twoAgents).2 twoClaims).1.countP
        (claimPasses oneHost secondTask) = 1 ∧
      (Machine.performed (step oneHost) (ran oneHost twoAgents).2 twoClaims).1.countP
          (claimPasses oneHost secondTask) ≤
        (ran oneHost twoAgents).2.db.taskInstances.count (queuedAhead secondTask) := by
  refine ⟨by decide +kernel, claims_overtake (Machine.run_performed _ _ _) (fun c hc => ?_)
    fun c hc now hnow => ?_⟩
  · have haction := Machine.action_mem_performed hc
    simp only [twoClaims, List.mem_cons, List.not_mem_nil, or_false] at haction
    rcases haction with heq | heq <;> simp [heq, Action.Delays]
  · have haction := Machine.action_mem_performed hc
    simp only [twoClaims, List.mem_cons, List.not_mem_nil, or_false] at haction
    rcases haction with heq | heq <;> rw [heq] at hnow <;> cases hnow <;> decide

/-! ### Reaps -/

/-- A reap of `n` or more rows that could have reclaimed the row `t` leaves it. -/
def reapPasses (n : Nat) (t : TaskInstance) (c : SysTransition) : Bool :=
  match c.action with
  | .reap batch _ now locked =>
      n ≤ batch && expired now t && !locked t.id && c.before.db.task t.id = some t &&
        c.after.db.task t.id = some t
  | _ => false

/-- The other rows leased until `expires` or less. -/
def leasedAhead (expires : Time) (t u : TaskInstance) : Bool :=
  u.status = .running && u.leaseExpires.any (fun e => e ≤ expires) && u.id ≠ t.id

theorem reap_task {batch : Nat} {jitter : Uuid → Time} {now : Time} {locked : Uuid → Bool} {db : Db}
    {t : TaskInstance} (ht : t ∈ expiredLeases batch now locked db) :
    (reap batch jitter now locked db).task t.id = some (t.reclaimed (jitter t.id) now) := by
  have htakes := reclaims_takes jitter now (expiredLeases batch now locked db) db
  have hrows := htakes.tasks
  simp only [reapChange, Change.apply, List.append_nil] at hrows
  have hid : ∀ u : TaskInstance,
      (if u.id ∈ (expiredLeases batch now locked db).map TaskInstance.id then
        u.reclaimed (jitter u.id) now else u).id = u.id := by
    intro u
    split <;> rfl
  have hmem := List.mem_map_of_mem (f := TaskInstance.id) ht
  rw [reap, Db.task, Table.get?_of_rows_map hrows hid,
    show db.taskInstances.get? t.id = some t from (mem_expiredLeases ht).1, Option.map_some,
    if_pos hmem]

theorem leasedAhead_of_stamped (httl : 0 ≤ cfg.leaseTtlSeconds) {t u : TaskInstance}
    {expires now : Time} (hdue : expires < now) (hu : u.Stamped cfg.leaseTtlSeconds now) :
    leasedAhead expires t u = false := by
  by_cases hrunning : u.status = .running
  · have hleased := hu.leased hrunning
    have hnot : ¬ now + seconds cfg.leaseTtlSeconds ≤ expires := by
      have hsum : now ≤ now + seconds cfg.leaseTtlSeconds :=
        le_add_of_nonneg_right (Int.mul_nonneg httl (by decide))
      exact not_le.2 (lt_of_lt_of_le hdue hsum)
    simp [leasedAhead, hleased, hnot]
  · simp [leasedAhead, hrunning]

theorem reapPasses_takes {t : TaskInstance} {expires : Time} {n : Nat} {c : SysTransition}
    (hlease : t.leaseExpires = some expires) (hstep : step cfg c.before c.action = some c.after)
    (hpasses : reapPasses n t c = true) :
    Takes n (leasedAhead expires t) c.before.db c.after.db := by
  unfold reapPasses at hpasses
  split at hpasses
  · rename_i batch jitter now locked haction
    simp only [Bool.and_eq_true, Bool.not_eq_true', decide_eq_true_eq] at hpasses
    obtain ⟨⟨⟨⟨hbatch, hexpired⟩, hfree⟩, hbefore⟩, hafter⟩ := hpasses
    rw [haction] at hstep
    have hdb : c.after.db = reap batch jitter now locked c.before.db := by
      rw [← Option.some.inj hstep]
      rfl
    rw [hdb] at hafter ⊢
    have hchanged : ∀ r ∈ expiredLeases batch now locked c.before.db,
        (reap batch jitter now locked c.before.db).task r.id ≠ some r := by
      intro r hr heq
      rw [reap_task hr] at heq
      have hstatus := congrArg TaskInstance.status (Option.some.inj heq)
      rw [(mem_expiredLeases hr).2.1] at hstatus
      cases hstatus
    have hout : t ∉ expiredLeases batch now locked c.before.db := fun hin =>
      hchanged t hin hafter
    obtain ⟨hfull, hahead⟩ := Table.left_behind hbefore (by simp [hexpired, hfree]) hout
    refine ⟨expiredLeases batch now locked c.before.db, ?_, expiredLeases_nodup _ _ _ _,
      fun r hr => ?_⟩
    · rw [expiredLeases, hfull]
      exact hbatch
    · obtain ⟨hr', hrunning, e, he, -⟩ := mem_expiredLeases hr
      obtain ⟨-, -, hle, hne⟩ := hahead r hr
      simp only [he, hlease, Option.getD_some] at hle
      exact ⟨hr', by simp [leasedAhead, hrunning, he, hle, hne], hchanged r hr⟩
  · cases hpasses

theorem reaps_overtake (hrun : Machine.Run (step cfg) s₀ ts s)
    (hdelays : ∀ c ∈ ts, c.action.Delays) (httl : 0 ≤ cfg.leaseTtlSeconds) {t : TaskInstance}
    {expires : Time} (hlease : t.leaseExpires = some expires)
    (hdue : ∀ c ∈ ts, ∀ now, c.action.clock = some now → expires < now) (n : Nat) :
    ts.countP (reapPasses n t) * n ≤ s₀.db.taskInstances.count (leasedAhead expires t) :=
  taken_le hrun (leasedAhead expires t) (reapPasses n t) n hdelays
    (fun c hc now hclock _ hu => leasedAhead_of_stamped httl (hdue c hc now hclock) hu)
    fun _ _ hstep => reapPasses_takes hlease hstep

theorem reaps_overtake_twoAgents :
    (Machine.performed (step oneHost) (ran oneHost (twoAgents ++ twoClaims)).2
        [.reap 1 (fun _ => 0) (seconds 40) unlocked]).1.countP
        (reapPasses 1 (secondTask.claimed (oneHost.workerId 2) 30 6)) = 1 ∧
      (Machine.performed (step oneHost) (ran oneHost (twoAgents ++ twoClaims)).2
          [.reap 1 (fun _ => 0) (seconds 40) unlocked]).1.countP
          (reapPasses 1 (secondTask.claimed (oneHost.workerId 2) 30 6)) * 1 ≤
        (ran oneHost (twoAgents ++ twoClaims)).2.db.taskInstances.count
          (leasedAhead (6 + seconds 30) (secondTask.claimed (oneHost.workerId 2) 30 6)) := by
  refine ⟨by decide +kernel, reaps_overtake (Machine.run_performed _ _ _) (fun c hc => ?_)
    (by decide) rfl (fun c hc now hnow => ?_) 1⟩
  · have haction := Machine.action_mem_performed hc
    rw [List.mem_singleton.1 haction]
    exact fun _ => le_refl 0
  · have haction := Machine.action_mem_performed hc
    rw [List.mem_singleton.1 haction] at hnow
    cases hnow
    decide

/-! ### Classifications -/

/-- A classification of `n` or more rows that could have routed the row `t` leaves it. -/
def classifyPasses (n : Nat) (t : TaskInstance) (c : SysTransition) : Bool :=
  match c.action with
  | .classify limit _ _ locked =>
      n ≤ limit && t.status = .failed && !locked t.id && c.before.db.task t.id = some t &&
        c.after.db.task t.id = some t
  | _ => false

/-- The other rows that failed no later than `t`. -/
def failedAhead (t u : TaskInstance) : Bool :=
  u.status = .failed && u.updatedAt ≤ t.updatedAt && u.id ≠ t.id

theorem failedAhead_of_stamped {t u : TaskInstance} {now : Time} (hdue : t.updatedAt < now)
    (hu : u.Stamped cfg.leaseTtlSeconds now) : failedAhead t u = false := by
  have hnot : ¬ u.updatedAt ≤ t.updatedAt := by
    rw [hu.updatedAt]
    exact not_le.2 hdue
  simp [failedAhead, hnot]

theorem classifyPasses_takes {t : TaskInstance} {n : Nat} {c : SysTransition}
    (hcursor : c.before.db.AtCursor) (hstep : step cfg c.before c.action = some c.after)
    (hpasses : classifyPasses n t c = true) :
    Takes n (failedAhead t) c.before.db c.after.db := by
  unfold classifyPasses at hpasses
  split at hpasses
  · rename_i limit flags now locked haction
    simp only [Bool.and_eq_true, Bool.not_eq_true', decide_eq_true_eq] at hpasses
    obtain ⟨⟨⟨⟨hlimit, hfailed⟩, hfree⟩, hbefore⟩, hafter⟩ := hpasses
    rw [haction] at hstep
    have hchanged : ∀ r ∈ takeFailed limit locked c.before.db, c.after.db.task r.id ≠ some r := by
      intro r hr heq
      obtain ⟨w, hw, hr'⟩ := step_classify_task hcursor hstep hr
      rw [hr'] at heq
      have hstatus := (mem_takeFailed hr).2
      rw [← Option.some.inj heq] at hstatus
      have hown : r.id = w.task.id := by rw [(routeWrite_spec hw).1]
      rcases Write.onTask_own hown with hnow | hnow
      · rw [hnow] at hstatus
        cases hstatus
      · rw [hnow] at hstatus
        cases hstatus
    have hout : t ∉ takeFailed limit locked c.before.db := fun hin => hchanged t hin hafter
    obtain ⟨hfull, hahead⟩ := Table.left_behind hbefore (by simp [hfailed, hfree]) hout
    refine ⟨takeFailed limit locked c.before.db, ?_, takeFailed_nodup _ _ _, fun r hr => ?_⟩
    · rw [takeFailed, hfull]
      exact hlimit
    · obtain ⟨hr', hfailed'⟩ := mem_takeFailed hr
      obtain ⟨-, -, hle, hne⟩ := hahead r hr
      exact ⟨hr', by simp [failedAhead, hfailed', hle, hne], hchanged r hr⟩
  · cases hpasses

theorem classifications_overtake {past : List SysTransition} (hpast : SysRun cfg past s₀)
    (hrun : Machine.Run (step cfg) s₀ ts s) (hdelays : ∀ c ∈ ts, c.action.Delays)
    {t : TaskInstance} (hdue : ∀ c ∈ ts, ∀ now, c.action.clock = some now → t.updatedAt < now)
    (n : Nat) :
    ts.countP (classifyPasses n t) * n ≤ s₀.db.taskInstances.count (failedAhead t) := by
  refine taken_le hrun (failedAhead t) (classifyPasses n t) n hdelays
    (fun c hc now hclock _ hu => failedAhead_of_stamped (hdue c hc now hclock) hu)
    fun c hc hstep => classifyPasses_takes ?_ hstep
  obtain ⟨pre, post, -, hpre, -, -⟩ := hrun.exists_split hc
  exact SysRun.atCursor (hpast.append hpre)

theorem classifications_overtake_twoAgents :
    (Machine.performed (step oneHost) (ran oneHost (twoAgents ++ twoClaims ++ twoReports)).2
        [.classify 1 (fun _ => {}) (seconds 1) unlocked]).1.countP
        (classifyPasses 1
          ((secondTask.claimed (oneHost.workerId 2) 30 6).reportedFailed tooHardReport 8)) = 1 ∧
      (Machine.performed (step oneHost) (ran oneHost (twoAgents ++ twoClaims ++ twoReports)).2
          [.classify 1 (fun _ => {}) (seconds 1) unlocked]).1.countP
          (classifyPasses 1
            ((secondTask.claimed (oneHost.workerId 2) 30 6).reportedFailed tooHardReport 8)) * 1 ≤
        (ran oneHost (twoAgents ++ twoClaims ++ twoReports)).2.db.taskInstances.count
          (failedAhead
            ((secondTask.claimed (oneHost.workerId 2) 30 6).reportedFailed tooHardReport 8)) := by
  refine ⟨by decide +kernel, classifications_overtake (run_ran _ _) (Machine.run_performed _ _ _)
    (fun c hc => ?_) (fun c hc now hnow => ?_) 1⟩
  · have haction := Machine.action_mem_performed hc
    rw [List.mem_singleton.1 haction]
    exact trivial
  · have haction := Machine.action_mem_performed hc
    rw [List.mem_singleton.1 haction] at hnow
    cases hnow
    decide

end Overtaking

end ReliableAgents
