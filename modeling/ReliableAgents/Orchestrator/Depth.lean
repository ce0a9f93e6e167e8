import ReliableAgents.Deployment
import ReliableAgents.Relational.Groups
import ReliableAgents.Worker.Lease

/-!
# Queue depth

`DEPTH_SQL` and `depth` of `orchestrator/queue.py`, against the claim query: what the
depth calls claimable is what the pools of the ladder can still claim.
-/

namespace ReliableAgents

open Relational

/-- A row of the join of `DEPTH_SQL`, past its `WHERE`. -/
def queuedWith (db : Db) (t : TaskInstance) : Option (TaskInstance × Agent) :=
  match db.agent t.agentId with
  | none => none
  | some a =>
      if (t.status = .pending ∨ t.status = .running) ∧ a.status = .running then some (t, a)
      else none

def queued (db : Db) : List (TaskInstance × Agent) :=
  db.taskInstances.rows.filterMap (queuedWith db)

def claimableRow (now : Time) (r : TaskInstance × Agent) : Bool :=
  r.1.status = .pending && r.1.seq = r.2.cursor && r.1.nextRunAt ≤ now

def scheduledRow (now : Time) (r : TaskInstance × Agent) : Bool :=
  r.1.status = .pending && r.1.seq = r.2.cursor && now < r.1.nextRunAt

def waitingRow (r : TaskInstance × Agent) : Bool :=
  r.1.status = .pending && r.1.seq ≠ r.2.cursor

structure Depth where
  claimable : Nat
  scheduled : Nat
  waiting : Nat
  running : Nat
  oldestClaimable : Time
deriving DecidableEq, Repr

/-- `depth`; the age of the oldest claimable row is exact here, not rounded. -/
def depth (now : Time) (db : Db) : Depth where
  claimable := (queued db).countP (claimableRow now)
  scheduled := (queued db).countP (scheduledRow now)
  waiting := (queued db).countP waitingRow
  running := (queued db).countP fun r => r.1.status = .running
  oldestClaimable :=
    match (((queued db).filter (claimableRow now)).map fun r => r.1.nextRunAt).min? with
    | none => 0
    | some first => now - first

/-- One call of `claim_one`. -/
structure ClaimCall where
  poolTier : TierName
  workerId : WorkerId
  ttlSeconds : Int

def ClaimCall.claim (call : ClaimCall) (now : Time) (db : Db) : Option (Handout × Db) :=
  claimOne call.poolTier call.workerId call.ttlSeconds now unlocked db

/-- Calls of `claim_one` one after the other: what they handed out, and the database after. -/
def claims (now : Time) : List ClaimCall → Db → List Handout × Db
  | [], db => ([], db)
  | call :: rest, db =>
      match call.claim now db with
      | none => claims now rest db
      | some (task, db') => (task :: (claims now rest db').1, (claims now rest db').2)

def Drained (ladder : Ladder) (now : Time) (db : Db) : Prop :=
  ∀ call : ClaimCall, call.poolTier ∈ ladder.names → call.claim now db = none

/-- `task_instances_tier_fk`. -/
def Db.TiersOn (ladder : Ladder) (db : Db) : Prop :=
  ∀ t ∈ db.taskInstances.rows, t.tier ∈ ladder.names

/-! ## What is claimable -/

section Claimable

variable {db : Db} {now : Time}

/-- Counting joined rows is counting rows. -/
theorem queued_countP (db : Db) (p : TaskInstance × Agent → Bool) :
    (queued db).countP p =
      db.taskInstances.count fun t => ((queuedWith db t).map p).getD false := by
  rw [queued, List.countP_filterMap, Table.count]

/-- What `DEPTH_SQL` counts as claimable, on the row alone. -/
def runnable (db : Db) (now : Time) (t : TaskInstance) : Bool := claimable db t.tier now t

theorem claimable_iff {tier : TierName} {t : TaskInstance} :
    claimable db tier now t = true ↔ runnable db now t = true ∧ t.tier = tier := by
  unfold runnable claimable
  cases db.agent t.agentId with
  | none => simp
  | some a =>
      simp only [Bool.and_eq_true, decide_eq_true_eq]
      tauto

theorem depth_claimable_eq (now : Time) (db : Db) :
    (depth now db).claimable = db.taskInstances.count (runnable db now) := by
  rw [depth, queued_countP]
  refine List.countP_congr fun t _ => ?_
  unfold queuedWith runnable claimable
  cases db.agent t.agentId with
  | none => simp
  | some a =>
      by_cases hqueued : (t.status = .pending ∨ t.status = .running) ∧ a.status = .running
      · simp only [hqueued, and_self, if_true, Option.map_some, Option.getD_some, claimableRow,
          Bool.and_eq_true, decide_eq_true_eq]
        tauto
      · simp only [hqueued, if_false, Option.map_none, Option.getD_none, Bool.false_eq_true,
          Bool.and_eq_true, decide_eq_true_eq, false_iff]
        tauto

/-- A pending task of a running agent. -/
def pendingOfRunning (db : Db) (t : TaskInstance) : Bool :=
  t.status = .pending &&
    match db.agent t.agentId with
    | none => false
    | some a => a.status = .running

theorem pending_trichotomy (now : Time) (r : TaskInstance × Agent) :
    (if claimableRow now r then 1 else 0) + (if scheduledRow now r then 1 else 0) +
        (if waitingRow r then 1 else 0) =
      if r.1.status = .pending then 1 else 0 := by
  unfold claimableRow scheduledRow waitingRow
  by_cases hpending : r.1.status = .pending
  · by_cases hseq : r.1.seq = r.2.cursor
    · by_cases hdue : r.1.nextRunAt ≤ now
      · simp [hpending, hseq, hdue, not_lt.2 hdue]
      · simp [hpending, hseq, hdue, not_le.1 hdue]
    · simp [hpending, hseq]
  · simp [hpending]

/-- A running agent's pending row is counted under one of three headings. -/
theorem depth_pending (now : Time) (db : Db) :
    (depth now db).claimable + (depth now db).scheduled + (depth now db).waiting =
      db.taskInstances.count (pendingOfRunning db) := by
  have hsplit : ∀ rows : List (TaskInstance × Agent),
      rows.countP (claimableRow now) + rows.countP (scheduledRow now) + rows.countP waitingRow =
        rows.countP fun r => r.1.status = .pending := by
    intro rows
    induction rows with
    | nil => rfl
    | cons r rest ih =>
        have hone := pending_trichotomy now r
        simp only [List.countP_cons, decide_eq_true_eq]
        omega
  rw [depth, hsplit, queued_countP]
  refine List.countP_congr fun t _ => ?_
  unfold queuedWith pendingOfRunning
  cases db.agent t.agentId with
  | none => simp
  | some a =>
      by_cases hpending : t.status = .pending
      · by_cases hrunning : a.status = .running <;> simp [hpending, hrunning]
      · by_cases hqueued : (t.status = .pending ∨ t.status = .running) ∧ a.status = .running
        · simp only [if_pos hqueued]
          simp [hpending]
        · simp only [if_neg hqueued]
          simp [hpending]

end Claimable

/-! ## Draining the queue -/

section Draining

variable {ladder : Ladder} {db db' : Db} {now : Time}

theorem ClaimCall.claim_eq_none {call : ClaimCall} :
    call.claim now db = none ↔
      ∀ t ∈ db.taskInstances.rows, claimable db call.poolTier now t = false := by
  unfold ClaimCall.claim claimOne
  dsimp only
  split
  · rename_i hbatch
    have hempty := orderedBatch_one_eq_nil.1 hbatch
    simp only [Table.select, List.filter_eq_nil_iff] at hempty
    simp only [true_iff]
    intro t ht
    simpa [unlocked] using hempty t ht
  · rename_i t rest hbatch
    obtain ⟨hget, hp⟩ := Table.mem_select.1 (mem_orderedBatch_one hbatch)
    simp only [Bool.and_eq_true] at hp
    simp only [reduceCtorEq, false_iff, not_forall]
    exact ⟨t, Table.mem_of_get? hget, by simp [hp.1]⟩

theorem drained_iff (hfk : db.TiersOn ladder) :
    Drained ladder now db ↔ (depth now db).claimable = 0 := by
  rw [depth_claimable_eq, Table.count, List.countP_eq_zero]
  constructor
  · intro hdrained t ht hrunnable
    have hnone := hdrained ⟨t.tier, "", 0⟩ (hfk t ht)
    exact absurd (claimable_iff.2 ⟨hrunnable, rfl⟩) (by simp [ClaimCall.claim_eq_none.1 hnone t ht])
  · intro hzero call _
    refine ClaimCall.claim_eq_none.2 fun t ht => Bool.eq_false_iff.2 fun hclaimable => ?_
    exact hzero t ht (claimable_iff.1 hclaimable).1

/-- A claim takes the cursor row of a running agent, and one off what is runnable. -/
theorem ClaimCall.claim_spec {call : ClaimCall} {task : Handout}
    (h : call.claim now db = some (task, db')) :
    ∃ t, db.task task.id = some t ∧ runnable db now t = true ∧ task.agentId = t.agentId ∧
      task.seq = t.seq ∧ db'.agents = db.agents ∧
      (∀ k, db'.task k =
        if k = task.id then some (t.claimed call.workerId call.ttlSeconds now) else db.task k) ∧
      (depth now db).claimable = (depth now db').claimable + 1 := by
  obtain ⟨t, ht, hclaimable, rfl, rfl⟩ := claimOne_spec h
  obtain ⟨u, hu, -, hhandout, htask⟩ := claimOne_task h
  have hrunnable := (claimable_iff.1 hclaimable).1
  have hrow : u = t := Option.some.inj (hu.symm.trans ht)
  rw [hrow] at htask
  refine ⟨t, ht, hrunnable, rfl, rfl, rfl, htask, ?_⟩
  rw [depth_claimable_eq, depth_claimable_eq]
  have hafter : runnable db now (t.claimed call.workerId call.ttlSeconds now) = false := by
    unfold runnable claimable
    split <;> simp
  exact Table.count_update_one rfl ht (decide_eq_true rfl) (fun _ hs => of_decide_eq_true hs)
    hrunnable hafter

variable (now) in
theorem claims_remaining (calls : List ClaimCall) (db : Db) :
    (claims now calls db).1.length + (depth now (claims now calls db).2).claimable =
      (depth now db).claimable := by
  induction calls generalizing db with
  | nil => simp [claims]
  | cons call rest ih =>
      unfold claims
      cases hclaim : call.claim now db with
      | none => exact ih db
      | some r =>
          obtain ⟨task, mid⟩ := r
          obtain ⟨t, -, -, -, -, -, -, hone⟩ := ClaimCall.claim_spec hclaim
          have hrest := ih mid
          simp only [List.length_cons]
          omega

theorem Db.TiersOn.claim (hfk : db.TiersOn ladder) {call : ClaimCall} {task : Handout}
    (h : call.claim now db = some (task, db')) : db'.TiersOn ladder := by
  obtain ⟨t, ht, -, -, -, -, htask, -⟩ := ClaimCall.claim_spec h
  intro u hu
  have hget : db'.task u.id = some u := Table.get?_of_mem _ hu
  rw [htask] at hget
  split at hget
  · cases hget
    exact hfk t (Table.mem_of_get? ht)
  · exact hfk u (Table.mem_of_get? hget)

theorem Db.TiersOn.claims (hfk : db.TiersOn ladder) (calls : List ClaimCall) :
    (claims now calls db).2.TiersOn ladder := by
  induction calls generalizing db with
  | nil => exact hfk
  | cons call rest ih =>
      unfold ReliableAgents.claims
      cases hclaim : call.claim now db with
      | none => exact ih hfk
      | some r => exact ih (hfk.claim hclaim)

theorem claims_append (before after : List ClaimCall) (db : Db) :
    (claims now (before ++ after) db).2 = (claims now after (claims now before db).2).2 := by
  induction before generalizing db with
  | nil => rfl
  | cons call rest ih =>
      rw [List.cons_append, claims, claims]
      cases call.claim now db with
      | none => exact ih db
      | some r => exact ih r.2

/-- What the calls handed out: distinct rows, each at its agent's cursor, one an agent. -/
structure HandedOut (db : Db) (now : Time) (tasks : List Handout) : Prop where
  rows : ∀ task ∈ tasks, ∃ t a, db.task task.id = some t ∧ t.status = .pending ∧
    t.nextRunAt ≤ now ∧ task.agentId = t.agentId ∧ task.seq = t.seq ∧
    db.agent t.agentId = some a ∧ a.status = .running ∧ t.seq = a.cursor
  ids : (tasks.map Handout.id).Nodup

theorem HandedOut.agents {tasks : List Handout} (h : HandedOut db now tasks) :
    (tasks.map Handout.agentId).Nodup := by
  refine List.Nodup.map_on (fun x hx y hy hsame => ?_) (List.Nodup.of_map _ h.ids)
  obtain ⟨t, a, ht, -, -, hagent, -, ha, -, hcursor⟩ := h.rows x hx
  obtain ⟨u, b, hu, -, -, hagent', -, hb, -, hcursor'⟩ := h.rows y hy
  have howner : t.agentId = u.agentId := hagent ▸ hagent' ▸ hsame
  rw [← howner, ha, Option.some.injEq] at hb
  have hrow : db.rowAt t.agentId t.seq = some u := by
    rw [howner, hcursor, hb, ← hcursor']
    exact Db.rowAt_of_task hu
  have heq : u = t := Option.some.inj (hrow.symm.trans (Db.rowAt_of_task ht))
  refine List.inj_on_of_nodup_map h.ids hx hy ?_
  rw [← Db.id_of_task ht, ← Db.id_of_task hu, heq]

theorem claims_handedOut (calls : List ClaimCall) (db : Db) :
    HandedOut db now (claims now calls db).1 := by
  induction calls generalizing db with
  | nil => exact ⟨by simp [claims], List.nodup_nil⟩
  | cons call rest ih =>
      unfold claims
      cases hclaim : call.claim now db with
      | none => exact ih db
      | some r =>
          obtain ⟨task, mid⟩ := r
          obtain ⟨t, ht, hrunnable, hagent, hseq, hagents, htask, -⟩ := ClaimCall.claim_spec hclaim
          have hlookup : ∀ a, mid.agent a = db.agent a := fun a => by
            rw [Db.agent, Db.agent, hagents]
          -- the row just claimed is running, so no later call hands it out again
          have later : ∀ x ∈ (claims now rest mid).1, x.id ≠ task.id := by
            intro x hx heq
            obtain ⟨u, -, hu, hpending, -⟩ := (ih mid).rows x hx
            rw [htask, if_pos heq, Option.some.injEq] at hu
            rw [← hu] at hpending
            cases hpending
          constructor
          · intro x hx
            rcases List.mem_cons.1 hx with rfl | hrest
            · obtain ⟨a, ha, hpending, hdue, -, hrunning, hcursor⟩ := claimable_spec hrunnable
              exact ⟨t, a, ht, hpending, hdue, hagent, hseq, ha, hrunning, hcursor⟩
            · obtain ⟨u, a, hu, hpending, hdue, hagent', hseq', ha, hrunning, hcursor⟩ :=
                (ih mid).rows x hrest
              rw [htask, if_neg (later x hrest)] at hu
              rw [hlookup] at ha
              exact ⟨u, a, hu, hpending, hdue, hagent', hseq', ha, hrunning, hcursor⟩
          · refine List.nodup_cons.2 ⟨fun hmem => ?_, (ih mid).ids⟩
            obtain ⟨x, hx, heq⟩ := List.mem_map.1 hmem
            exact later x hx heq

def Covers (ladder : Ladder) (round : List ClaimCall) : Prop :=
  ∀ tier ∈ ladder.names, ∃ call ∈ round, call.poolTier = tier

/-- A round without a claim leaves nothing to claim. -/
theorem drained_of_idle_round {round : List ClaimCall} (hcovers : Covers ladder round)
    (hidle : (claims now round db).1 = []) : Drained ladder now db := by
  have hnone : ∀ call ∈ round, call.claim now db = none := by
    clear hcovers
    induction round with
    | nil => intro call hcall; cases hcall
    | cons first rest ih =>
        rw [claims] at hidle
        cases hclaim : first.claim now db with
        | some r => simp [hclaim] at hidle
        | none =>
            simp only [hclaim] at hidle
            intro call hcall
            rcases List.mem_cons.1 hcall with rfl | hrest
            · exact hclaim
            · exact ih hidle call hrest
  intro call htier
  obtain ⟨same, hmem, heq⟩ := hcovers call.poolTier htier
  refine ClaimCall.claim_eq_none.2 fun t ht => ?_
  rw [← heq]
  exact ClaimCall.claim_eq_none.1 (hnone same hmem) t ht

/-- Rounds over the ladder, each in any order, drain it. -/
theorem drained_of_rounds (rounds : List (List ClaimCall)) (hfk : db.TiersOn ladder)
    (hcovers : ∀ round ∈ rounds, Covers ladder round)
    (hlong : (depth now db).claimable ≤ rounds.length) :
    Drained ladder now (claims now rounds.flatten db).2 := by
  induction rounds generalizing db with
  | nil => exact (drained_iff hfk).2 (Nat.le_zero.1 hlong)
  | cons round rest ih =>
      rw [List.flatten_cons, claims_append]
      have hremaining := claims_remaining now round db
      refine ih (hfk.claims round) (fun r hr => hcovers r (List.mem_cons_of_mem _ hr)) ?_
      rw [List.length_cons] at hlong
      by_cases hidle : (claims now round db).1 = []
      · have hzero := (drained_iff hfk).1 (drained_of_idle_round (hcovers _ List.mem_cons_self) hidle)
        omega
      · have hpos := List.length_pos_iff.2 hidle
        omega

end Draining

/-- The depth agrees with the claim query: the pools that claim until every tier is empty
claim exactly the claimable rows, and they do get there. -/
theorem queue_depth {ladder : Ladder} {db : Db} (hfk : db.TiersOn ladder) (now : Time) :
    (∀ calls, Drained ladder now (claims now calls db).2 →
        (claims now calls db).1.length = (depth now db).claimable ∧
          HandedOut db now (claims now calls db).1 ∧
          ((claims now calls db).1.map Handout.agentId).Nodup) ∧
      (∀ rounds : List (List ClaimCall), (∀ round ∈ rounds, Covers ladder round) →
        (depth now db).claimable ≤ rounds.length →
          Drained ladder now (claims now rounds.flatten db).2) ∧
      (depth now db).claimable + (depth now db).scheduled + (depth now db).waiting =
        db.taskInstances.count (pendingOfRunning db) := by
  refine ⟨fun calls hdrained => ?_, fun rounds hcovers hlong => ?_, depth_pending now db⟩
  · have hremaining := claims_remaining now calls db
    have hzero := (drained_iff (hfk.claims calls)).1 hdrained
    exact ⟨by omega, claims_handedOut calls db, (claims_handedOut calls db).agents⟩
  · exact drained_of_rounds rounds hfk hcovers hlong

def twoSubmitted : Db :=
  (ran oneHost [.submit none [20, 1] [⟨1⟩, ⟨2⟩] rowId 0]).2.db

theorem queue_depth_submitted :
    depth 0 twoSubmitted = ⟨2, 0, 2, 0, 0⟩ ∧
      Drained seededLadder 0
        (claims 0 (List.replicate 2 [⟨"senior", "b", 30⟩, ⟨"junior", "a", 30⟩]).flatten
          twoSubmitted).2 := by
  refine ⟨by decide +kernel, (queue_depth ?_ 0).2.1 _ ?_ (by decide +kernel)⟩
  · have hrows : ∀ t ∈ twoSubmitted.taskInstances.rows, t.tier = "junior" := by decide +kernel
    intro t ht
    rw [hrows t ht]
    decide
  · intro round hround
    rw [List.eq_of_mem_replicate hround]
    unfold Covers
    decide

end ReliableAgents
