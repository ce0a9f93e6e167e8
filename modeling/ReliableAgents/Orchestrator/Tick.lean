import ReliableAgents.Orchestrator.Routing
import ReliableAgents.Relational.Changes
import ReliableAgents.Deployment

/-!
# One pass of every sweep

`tick` of `orchestrator/main.py`, with everything held fixed that a sweep reads besides
the database. Each sweep is a change of the rows: a map on those that are there, and
new ones.
-/

namespace ReliableAgents

open Relational

/-- The mutating sweeps of `tick`, in its order. -/
inductive Sweep where
  | reap
  | repair
  | finalise
  | classify
  | reconcile
deriving DecidableEq, Repr

def Sweep.all : List Sweep := [.reap, .repair, .finalise, .classify, .reconcile]

/-- What a pass holds fixed: the clock, the reaper's draws, the ids drawn for repaired rows,
the runtime flags, and the batch limits. -/
structure Tick where
  now : Time
  jitter : Uuid → Time
  ids : Uuid → Uuid
  flags : Flags
  reaperBatch : Nat
  orchestratorBatch : Nat
  classifyLimit : Nat

namespace Tick

def action (tick : Tick) : Sweep → Action
  | .reap => .reap tick.reaperBatch tick.jitter tick.now unlocked
  | .repair => .repair tick.orchestratorBatch tick.ids tick.now unlocked
  | .finalise => .finalise tick.orchestratorBatch tick.now unlocked
  | .classify => .classify tick.classifyLimit (fun _ => tick.flags) tick.now unlocked
  | .reconcile => .reconcile none tick.orchestratorBatch tick.now unlocked

/-- One sweep, in its own transaction: one that raises is skipped. -/
def perform (cfg : Config) (tick : Tick) (db : Db) : Sweep → Db
  | .reap => reap tick.reaperBatch tick.jitter tick.now unlocked db
  | .repair =>
      (repairStalled cfg.ladder tick.orchestratorBatch tick.ids tick.now unlocked db).getD db
  | .finalise => finaliseAgents tick.orchestratorBatch tick.now unlocked db
  | .classify =>
      (classify cfg.ladder tick.classifyLimit (fun _ => tick.flags) tick.now unlocked db).getD db
  | .reconcile =>
      Ledger.reconcile cfg.leaseTtlSeconds none tick.orchestratorBatch tick.now unlocked db

theorem step_action (cfg : Config) (tick : Tick) (s : Sys) (sweep : Sweep) :
    step cfg s (tick.action sweep) = some (s.setDb (tick.perform cfg s.db sweep)) := by
  cases sweep <;> rfl

end Tick

/-! ## What a sweep selects -/

section Selections

variable (db : Db)

def expiredRows (now : Time) : List TaskInstance :=
  (db.taskInstances.select (expired now)).insertionSort fun t u =>
    t.leaseExpires.getD 0 ≤ u.leaseExpires.getD 0

def stalledRows : List Agent :=
  (db.agents.select (stalled db)).insertionSort fun a b => a.createdAt ≤ b.createdAt

def exhaustedRows : List Agent :=
  (db.agents.select (exhausted db)).insertionSort fun a b => a.updatedAt ≤ b.updatedAt

def failedRows : List TaskInstance :=
  (db.taskInstances.select fun t => t.status = .failed).insertionSort fun t u =>
    t.updatedAt ≤ u.updatedAt

def orphanedRows (age : Int) (now : Time) : List Reservation :=
  (db.idempotency.select (Ledger.orphaned age now)).insertionSort fun r r' =>
    r.createdAt ≤ r'.createdAt

end Selections

/-- The age at which `reconcile` closes a reservation. -/
def Config.graceSeconds (cfg : Config) : Int := cfg.leaseTtlSeconds * Ledger.reconcileAfter

/-- No batch limit is binding: every sweep takes all it selects. -/
structure Tick.Fits (cfg : Config) (tick : Tick) (db : Db) : Prop where
  reap : (expiredRows db tick.now).length ≤ tick.reaperBatch
  repair : (stalledRows db).length ≤ tick.orchestratorBatch
  finalise : (exhaustedRows db).length ≤ tick.orchestratorBatch
  classify : (failedRows db).length ≤ tick.classifyLimit
  reconcile : (orphanedRows db cfg.graceSeconds tick.now).length ≤ tick.orchestratorBatch

theorem orderedBatch_all {ρ κ υ : Type} {key : ρ → κ} {uniq : ρ → υ} (t : Table key uniq)
    (measure : ρ → Int) {batch : Nat} {p : ρ → Bool}
    (h : ((t.select p).insertionSort fun r s => measure r ≤ measure s).length ≤ batch) :
    orderedBatch measure batch (t.select fun r => p r && !unlocked (key r)) =
      (t.select p).insertionSort fun r s => measure r ≤ measure s := by
  have hfree : (fun r => p r && !unlocked (key r)) = p := by
    funext r
    simp [unlocked]
  rw [orderedBatch, hfree]
  exact List.take_of_length_le h

section Members

variable {db : Db} {now : Time}

theorem mem_expiredRows {t : TaskInstance} :
    t ∈ expiredRows db now ↔ db.task t.id = some t ∧ expired now t = true := by
  rw [expiredRows, List.mem_insertionSort]
  exact Table.mem_select

theorem mem_failedRows {t : TaskInstance} :
    t ∈ failedRows db ↔ db.task t.id = some t ∧ t.status = .failed := by
  rw [failedRows, List.mem_insertionSort]
  exact Table.mem_select.trans (by rw [decide_eq_true_eq]; rfl)

theorem mem_stalledRows {a : Agent} :
    a ∈ stalledRows db ↔ db.agent a.id = some a ∧ stalled db a = true := by
  rw [stalledRows, List.mem_insertionSort]
  exact Table.mem_select

theorem mem_exhaustedRows {a : Agent} :
    a ∈ exhaustedRows db ↔ db.agent a.id = some a ∧ exhausted db a = true := by
  rw [exhaustedRows, List.mem_insertionSort]
  exact Table.mem_select

theorem stalled_spec {a : Agent} (h : stalled db a = true) :
    a.status = .running ∧ a.cursor < a.plan.length ∧ db.rowAt a.id a.cursor = none := by
  simp only [stalled, Bool.and_eq_true, decide_eq_true_eq, Option.isNone_iff_eq_none] at h
  exact ⟨h.1.1, h.1.2, h.2⟩

end Members

/-! ## Changes of the database -/

structure DbChange where
  agents : Change Agent
  tasks : Change TaskInstance
  attempts : List Attempt
  idempotency : Change Reservation
  dlq : List DlqEntry

namespace DbChange

structure Takes (c : DbChange) (db db' : Db) : Prop where
  agents : db'.agents.rows = c.agents.apply db.agents.rows
  tasks : db'.taskInstances.rows = c.tasks.apply db.taskInstances.rows
  attempts : db'.attempts = db.attempts ++ c.attempts
  idempotency : db'.idempotency.rows = c.idempotency.apply db.idempotency.rows
  dlq : db'.dlq = db.dlq ++ c.dlq

structure Independent (c d : DbChange) (db : Db) : Prop where
  agents : c.agents.Independent d.agents db.agents.rows
  tasks : c.tasks.Independent d.tasks db.taskInstances.rows
  attempts : c.attempts = [] ∨ d.attempts = []
  idempotency : c.idempotency.Independent d.idempotency db.idempotency.rows
  dlq : c.dlq = [] ∨ d.dlq = []

variable {c d : DbChange} {db db₁ db₂ db₁₂ db₂₁ : Db}

theorem Independent.symm (h : Independent c d db) : Independent d c db where
  agents := h.agents.symm
  tasks := h.tasks.symm
  attempts := h.attempts.symm
  idempotency := h.idempotency.symm
  dlq := h.dlq.symm

private theorem append_comm {ρ : Type} {xs ys zs : List ρ} (h : xs = [] ∨ ys = []) :
    zs ++ xs ++ ys = zs ++ ys ++ xs := by
  rcases h with rfl | rfl <;> simp

theorem Independent.comm (h : Independent c d db) (hc : c.Takes db db₁) (hd : d.Takes db₁ db₁₂)
    (hd' : d.Takes db db₂) (hc' : c.Takes db₂ db₂₁) : db₁₂ = db₂₁ := by
  refine Db.ext_rows ?_ ?_ ?_ ?_ ?_
  · rw [hd.agents, hc.agents, hc'.agents, hd'.agents, h.agents.apply_comm]
  · rw [hd.tasks, hc.tasks, hc'.tasks, hd'.tasks, h.tasks.apply_comm]
  · rw [hd.attempts, hc.attempts, hc'.attempts, hd'.attempts, append_comm h.attempts]
  · rw [hd.idempotency, hc.idempotency, hc'.idempotency, hd'.idempotency,
      h.idempotency.apply_comm]
  · rw [hd.dlq, hc.dlq, hc'.dlq, hd'.dlq, append_comm h.dlq]

end DbChange

/-! ## What each sweep changes -/

def reapChange (jitter : Uuid → Time) (now : Time) (rows : List TaskInstance) : DbChange where
  agents := .none
  tasks :=
    { on := fun t =>
        if t.id ∈ rows.map TaskInstance.id then t.reclaimed (jitter t.id) now else t
      new := [] }
  attempts := rows.map (TaskInstance.reclaimRow now)
  idempotency := .none
  dlq := []

def repairChange (rows : List TaskInstance) : DbChange where
  agents := .none
  tasks :=
    { on := id
      new := rows }
  attempts := []
  idempotency := .none
  dlq := []

def finaliseChange (now : Time) (rows : List Agent) : DbChange where
  agents :=
    { on := fun a => if a.id ∈ rows.map Agent.id then a.finalised now else a
      new := [] }
  tasks := .none
  attempts := []
  idempotency := .none
  dlq := []

def classifyChange (writes : List Write) : DbChange where
  agents :=
    { on := fun a => writes.foldl Write.onAgent a
      new := [] }
  tasks :=
    { on := fun t => writes.foldl Write.onTask t
      new := [] }
  attempts := []
  idempotency := .none
  dlq := writes.flatMap Write.entries

def reconcileChange (now : Time) (rows : List Reservation) : DbChange where
  agents := .none
  tasks := .none
  attempts := []
  idempotency :=
    { on := fun r =>
        if r.key ∈ rows.map Reservation.key then Ledger.settled Ledger.unresolved now r else r
      new := [] }
  dlq := []

/-- The rows the repair sweep has to insert. -/
def repairRows (tier : TierName) (ids : Uuid → Uuid) (now : Time) (agents : List Agent) :
    List TaskInstance :=
  agents.filterMap fun a => (a.plan[a.cursor]?).map fun taskDefId =>
    .fresh (ids a.id) a.id a.cursor taskDefId tier now

def Insertable (ladder : Ladder) (db : Db) (rows : List TaskInstance) : Prop :=
  (∀ t ∈ rows, t.tier ∈ ladder.names) ∧
    ((db.taskInstances.rows ++ rows).map TaskInstance.id).Nodup ∧
    ((db.taskInstances.rows ++ rows).map TaskInstance.position).Nodup

instance (ladder : Ladder) (db : Db) (rows : List TaskInstance) :
    Decidable (Insertable ladder db rows) := by
  unfold Insertable
  infer_instance

/-- The rows it does insert: all of them, or none when it raises. -/
def Tick.inserted (cfg : Config) (tick : Tick) (db : Db) : List TaskInstance :=
  match cfg.ladder.baseTier with
  | none => []
  | some tier =>
      let rows := repairRows tier tick.ids tick.now (stalledRows db)
      if Insertable cfg.ladder db rows then rows else []

/-- The writes of one classification, each as `route_one` decides it now. -/
def Tick.writes (cfg : Config) (tick : Tick) (db : Db) : List Write :=
  (failedRows db).filterMap fun t => routeWrite cfg.ladder tick.flags tick.now t db

def Tick.change (cfg : Config) (tick : Tick) (db : Db) : Sweep → DbChange
  | .reap => reapChange tick.jitter tick.now (expiredRows db tick.now)
  | .repair => repairChange (tick.inserted cfg db)
  | .finalise => finaliseChange tick.now (exhaustedRows db)
  | .classify => classifyChange (tick.writes cfg db)
  | .reconcile => reconcileChange tick.now (orphanedRows db cfg.graceSeconds tick.now)

section Takes

variable {cfg : Config} {tick : Tick} {db db' : Db}

theorem reclaims_takes (jitter : Uuid → Time) (now : Time) (rows : List TaskInstance) (db : Db) :
    (reapChange jitter now rows).Takes db (rows.foldl (reclaim jitter now) db) := by
  induction rows generalizing db with
  | nil => exact ⟨by simp [reapChange], by simp [reapChange, Change.apply], by simp [reapChange],
      by simp [reapChange], by simp [reapChange]⟩
  | cons e rest ih =>
      obtain ⟨hagents, htasks, hattempts, hidempotency, hdlq⟩ := ih (reclaim jitter now db e)
      refine ⟨hagents, ?_, ?_, hidempotency, hdlq⟩
      · rw [List.foldl_cons, htasks]
        simp only [reapChange, Change.apply, reclaim, Table.update, List.map_map, List.append_nil]
        refine List.map_congr_left fun t _ => ?_
        by_cases hid : t.id = e.id
        · by_cases hrest : e.id ∈ rest.map TaskInstance.id <;>
            simp [hid, hrest, TaskInstance.reclaimed]
        · simp [hid]
      · rw [List.foldl_cons, hattempts]
        simp [reapChange, reclaim]

theorem reap_takes (hfits : tick.Fits cfg db) :
    (tick.change cfg db .reap).Takes db (tick.perform cfg db .reap) := by
  have hrows : expiredLeases tick.reaperBatch tick.now unlocked db = expiredRows db tick.now :=
    orderedBatch_all db.taskInstances _ hfits.reap
  rw [Tick.perform, reap, hrows]
  exact reclaims_takes ..

theorem finalise_takes (hfits : tick.Fits cfg db) :
    (tick.change cfg db .finalise).Takes db (tick.perform cfg db .finalise) := by
  have hrows : exhaustedAgents tick.orchestratorBatch unlocked db = exhaustedRows db :=
    orderedBatch_all db.agents _ hfits.finalise
  rw [Tick.perform, finaliseAgents, hrows]
  exact ⟨by simp [Tick.change, finaliseChange, Change.apply, Table.update],
    by simp [Tick.change, finaliseChange], by simp [Tick.change, finaliseChange],
    by simp [Tick.change, finaliseChange], by simp [Tick.change, finaliseChange]⟩

theorem reconcile_takes (hfits : tick.Fits cfg db) :
    (tick.change cfg db .reconcile).Takes db (tick.perform cfg db .reconcile) := by
  have hrows : Ledger.reconcileRows cfg.graceSeconds tick.orchestratorBatch tick.now unlocked db =
      orphanedRows db cfg.graceSeconds tick.now :=
    orderedBatch_all db.idempotency _ hfits.reconcile
  have hreconcile : tick.perform cfg db .reconcile = { db with
      idempotency := db.idempotency.update
        (fun r => r.key ∈ (orphanedRows db cfg.graceSeconds tick.now).map Reservation.key)
        (Ledger.settled Ledger.unresolved tick.now) } := by
    rw [← hrows]
    rfl
  rw [hreconcile]
  exact ⟨by simp [Tick.change, reconcileChange], by simp [Tick.change, reconcileChange],
    by simp [Tick.change, reconcileChange],
    by simp [Tick.change, reconcileChange, Change.apply, Table.update],
    by simp [Tick.change, reconcileChange]⟩

/-! ### Repair -/

theorem insertable_cons {ladder : Ladder} {db mid : Db} {t : TaskInstance}
    {rest : List TaskInstance} (hmid : mid.taskInstances.rows = db.taskInstances.rows ++ [t]) :
    Insertable ladder db (t :: rest) ↔ Insertable ladder db [t] ∧ Insertable ladder mid rest := by
  have hrows : db.taskInstances.rows ++ t :: rest = mid.taskInstances.rows ++ rest := by
    simp [hmid]
  have hone : (db.taskInstances.rows ++ [t]).Sublist (db.taskInstances.rows ++ t :: rest) :=
    (List.Sublist.refl _).append (by simp)
  unfold Insertable
  rw [hrows] at hone ⊢
  constructor
  · rintro ⟨htiers, hids, hplaces⟩
    exact ⟨⟨fun u hu => htiers u (by simp_all), hids.sublist (hone.map _),
      hplaces.sublist (hone.map _)⟩, fun u hu => htiers u (List.mem_cons_of_mem _ hu), hids,
      hplaces⟩
  · rintro ⟨⟨htier, -, -⟩, htiers, hids, hplaces⟩
    refine ⟨fun u hu => ?_, hids, hplaces⟩
    rcases List.mem_cons.1 hu with rfl | hu
    · exact htier u List.mem_cons_self
    · exact htiers u hu

theorem insertTask_of_insertable {ladder : Ladder} {t : TaskInstance}
    (h : Insertable ladder db [t]) : ∃ mid, insertTask ladder t db = some mid ∧
      (repairChange [t]).Takes db mid := by
  obtain ⟨table, hinsert, hrows⟩ := Table.insert?_of_nodup h.2.1 h.2.2
  refine ⟨{ db with taskInstances := table }, ?_, ?_⟩
  · rw [insertTask, if_pos (h.1 t List.mem_cons_self), hinsert]
    rfl
  · exact ⟨by simp [repairChange], by simp [repairChange, Change.apply, hrows],
      by simp [repairChange], by simp [repairChange], by simp [repairChange]⟩

theorem insertable_of_insertTask {ladder : Ladder} {t : TaskInstance}
    (h : insertTask ladder t db = some db') : Insertable ladder db [t] := by
  unfold insertTask at h
  split at h
  · rename_i htier
    obtain ⟨table, hinsert, -⟩ := Option.map_eq_some_iff.1 h
    obtain ⟨-, -, hrows⟩ := Table.insert?_eq_some hinsert
    exact ⟨by simpa using htier, hrows ▸ table.keyNodup, hrows ▸ table.uniqNodup⟩
  · cases h

theorem inserts_takes {ladder : Ladder} {rows : List TaskInstance}
    (h : Insertable ladder db rows) :
    ∃ db', rows.foldlM (fun db t => insertTask ladder t db) db = some db' ∧
      (repairChange rows).Takes db db' := by
  induction rows generalizing db with
  | nil =>
      exact ⟨db, rfl, by simp [repairChange], by simp [repairChange, Change.apply],
        by simp [repairChange], by simp [repairChange], by simp [repairChange]⟩
  | cons t rest ih =>
      have hone : Insertable ladder db [t] :=
        ⟨fun u hu => h.1 u (by simp_all),
          h.2.1.sublist (((List.Sublist.refl _).append (by simp)).map _),
          h.2.2.sublist (((List.Sublist.refl _).append (by simp)).map _)⟩
      obtain ⟨mid, hmid, hfirst⟩ := insertTask_of_insertable hone
      have hrows : mid.taskInstances.rows = db.taskInstances.rows ++ [t] := by
        simpa [repairChange, Change.apply] using hfirst.tasks
      obtain ⟨db', hrest, hlast⟩ := ih ((insertable_cons hrows).1 h).2
      refine ⟨db', ?_, ?_, ?_, ?_, ?_, ?_⟩
      · rw [List.foldlM_cons, hmid]
        exact hrest
      · rw [hlast.agents]
        simpa [repairChange] using hfirst.agents
      · rw [hlast.tasks]
        simp [repairChange, Change.apply, hrows]
      · rw [hlast.attempts, hfirst.attempts]
        simp [repairChange]
      · rw [hlast.idempotency]
        simpa [repairChange] using hfirst.idempotency
      · rw [hlast.dlq, hfirst.dlq]
        simp [repairChange]

theorem inserts_eq_none {ladder : Ladder} {rows : List TaskInstance}
    (h : ¬ Insertable ladder db rows) :
    rows.foldlM (fun db t => insertTask ladder t db) db = none := by
  induction rows generalizing db with
  | nil =>
      refine absurd ⟨by simp, ?_, ?_⟩ h
      · simpa using db.taskInstances.keyNodup
      · simpa using db.taskInstances.uniqNodup
  | cons t rest ih =>
      rw [List.foldlM_cons]
      cases hinsert : insertTask ladder t db with
      | none => rfl
      | some mid =>
          have hone := insertable_of_insertTask hinsert
          obtain ⟨mid', hmid, hfirst⟩ := insertTask_of_insertable hone
          rw [hinsert, Option.some.injEq] at hmid
          subst hmid
          have hrows : mid.taskInstances.rows = db.taskInstances.rows ++ [t] := by
            simpa [repairChange, Change.apply] using hfirst.tasks
          exact ih fun hrest => h ((insertable_cons hrows).2 ⟨hone, hrest⟩)

/-- The stalled agents have nothing at the cursor, so each of them gets its insert. -/
theorem repairs_eq_inserts {ladder : Ladder} {tier : TierName} {ids : Uuid → Uuid} {now : Time}
    {agents : List Agent} (hnodup : (agents.map Agent.id).Nodup)
    (hstalled : ∀ a ∈ agents, a.cursor < a.plan.length ∧ db.rowAt a.id a.cursor = none) :
    agents.foldlM (repairOne ladder tier ids now) db =
      (repairRows tier ids now agents).foldlM (fun db t => insertTask ladder t db) db := by
  induction agents generalizing db with
  | nil => rfl
  | cons a rest ih =>
      simp only [List.map_cons, List.nodup_cons] at hnodup
      obtain ⟨hplan, hnone⟩ := hstalled a List.mem_cons_self
      have htask : a.plan[a.cursor]? = some a.plan[a.cursor] := List.getElem?_eq_getElem hplan
      have hrows : repairRows tier ids now (a :: rest) =
          .fresh (ids a.id) a.id a.cursor a.plan[a.cursor] tier now ::
            repairRows tier ids now rest := by
        simp [repairRows, htask]
      rw [hrows, List.foldlM_cons, List.foldlM_cons, repairOne, htask]
      simp only [hnone, Option.isSome_none, Bool.false_eq_true, if_false]
      cases hinsert : insertTask ladder
          (.fresh (ids a.id) a.id a.cursor a.plan[a.cursor] tier now) db with
      | none => rfl
      | some mid =>
          refine ih hnodup.2 fun b hb => ?_
          obtain ⟨hplan', hnone'⟩ := hstalled b (List.mem_cons_of_mem _ hb)
          obtain ⟨-, -, -, -, -, hrow⟩ := insertTask_spec hinsert
          have hne : b.id ≠ a.id := fun heq => hnodup.1 (heq ▸ List.mem_map_of_mem hb)
          refine ⟨hplan', ?_⟩
          rw [hrow, if_neg]
          · exact hnone'
          · simp [TaskInstance.position, hne]

theorem repair_takes (hfits : tick.Fits cfg db) :
    (tick.change cfg db .repair).Takes db (tick.perform cfg db .repair) := by
  have hnothing : (repairChange []).Takes db db :=
    ⟨by simp [repairChange], by simp [repairChange, Change.apply], by simp [repairChange],
      by simp [repairChange], by simp [repairChange]⟩
  have hstalled : stalledAgents tick.orchestratorBatch unlocked db = stalledRows db :=
    orderedBatch_all db.agents _ hfits.repair
  rw [Tick.perform, Tick.change, Tick.inserted, repairStalled]
  cases htier : cfg.ladder.baseTier with
  | none => exact hnothing
  | some tier =>
      dsimp only
      rw [hstalled, repairs_eq_inserts]
      · split
        · rename_i hinsertable
          obtain ⟨db', hinserts, htakes⟩ := inserts_takes hinsertable
          rw [hinserts]
          exact htakes
        · rename_i hrefused
          rw [inserts_eq_none hrefused]
          exact hnothing
      · exact ((List.perm_insertionSort _ _).map Agent.id).nodup_iff.2
          (Table.select_map_nodup _ _)
      · intro a ha
        obtain ⟨-, hplan, hnone⟩ := stalled_spec (mem_stalledRows.1 ha).2
        exact ⟨hplan, hnone⟩

end Takes

end ReliableAgents
