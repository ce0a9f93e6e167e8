import ReliableAgents.Machine.Run
import ReliableAgents.Orchestrator.Repair

/-!
# Concurrent stall repairs

`repair_stalled` statement by statement, at READ COMMITTED, any number of runs at a time.
A run finds its stalled agents on the snapshot it started with, without the rows that other
runs have yet to commit. It steps past a locked agent, and its insert meets the rows of
every run: it does nothing on a committed one, and waits for an uncommitted one.
-/

namespace ReliableAgents

open Relational

/-- An open `repair_stalled`: the found agents it has yet to visit, the rows of those it has
locked, and what it has inserted. -/
structure RepairTxn where
  limit : Nat
  now : Time
  found : List Agent
  taken : Nat := 0
  locked : List StalledRow := []
  inserted : List TaskInstance := []

structure Repairing where
  /-- With the uncommitted rows. -/
  db : Db
  txns : Nat → Option RepairTxn
  agentLock : Uuid → Option Nat
  /-- The run that has inserted a row and not committed it. -/
  writer : Uuid → Option Nat

inductive RepairAction where
  | start (q : Nat) (limit : Nat) (now : Time)
  /-- The next found agent; `contended` when some other statement has it locked. -/
  | lock (q : Nat) (contended : Bool)
  /-- The insert of the next locked row, under a drawn id. -/
  | insert (q : Nat) (id : Uuid)
  | commit (q : Nat)
  /-- An exception, or the connection is gone. -/
  | abort (q : Nat)

namespace Repairing

def init (db : Db) : Repairing where
  db := db
  txns := fun _ => none
  agentLock := fun _ => none
  writer := fun _ => none

def setTxn (s : Repairing) (q : Nat) (txn : RepairTxn) : Repairing :=
  { s with txns := Function.update s.txns q (some txn) }

/-- What a statement that starts now sees of the committed rows. -/
def snapshot (s : Repairing) : Db :=
  { s.db with taskInstances := s.db.taskInstances.delete fun t => (s.writer t.id).isSome }

/-- The end of a run: its rows are committed and its locks released. -/
def release (s : Repairing) (q : Nat) : Repairing :=
  { s with
    txns := Function.update s.txns q none
    agentLock := fun a => if s.agentLock a = some q then none else s.agentLock a
    writer := fun k => if s.writer k = some q then none else s.writer k }

def rollback (s : Repairing) (q : Nat) : Repairing :=
  { s with
    db :=
      { s.db with
        taskInstances := s.db.taskInstances.delete fun t => s.writer t.id = some q } }

def visit (s : Repairing) (q : Nat) (contended : Bool) (txn : RepairTxn) (a : Agent)
    (rest : List Agent) : Repairing :=
  if contended ∨ (s.agentLock a.id).isSome then s.setTxn q { txn with found := rest }
  else
    { s.setTxn q
        { txn with
          found := rest
          taken := txn.taken + 1
          locked := txn.locked ++ [a.stalledRow] } with
      agentLock := Function.update s.agentLock a.id (some q) }

/-- `none` while it waits, or when a constraint refuses the row. -/
def insert (ladder : Ladder) (tier : TierName) (s : Repairing) (q : Nat) (id : Uuid)
    (txn : RepairTxn) (r : StalledRow) (rest : List StalledRow) : Option Repairing :=
  match r.taskDefId, s.db.rowAt r.agentId r.seq with
  | none, _ => none
  | some _, some u =>
      if s.writer u.id = none ∨ s.writer u.id = some q then
        some (s.setTxn q { txn with locked := rest })
      else none
  | some taskDefId, none =>
      let row := .fresh id r.agentId r.seq taskDefId tier txn.now
      (insertTask ladder row s.db).map fun db =>
        { s.setTxn q { txn with locked := rest, inserted := txn.inserted ++ [row] } with
          db := db
          writer := Function.update s.writer id (some q) }

def step (ladder : Ladder) (tier : TierName) (s : Repairing) : RepairAction → Option Repairing
  | .start q limit now =>
      match s.txns q with
      | some _ => none
      | none =>
          some
            (s.setTxn q
              { limit := limit
                now := now
                found :=
                  (s.db.agents.select (stalledWhere s.snapshot)).insertionSort
                    fun a b => a.createdAt ≤ b.createdAt })
  | .lock q contended =>
      match s.txns q with
      | none => none
      | some txn =>
          match txn.found with
          | [] => none
          | a :: rest => if txn.limit ≤ txn.taken then none else some (s.visit q contended txn a rest)
  | .insert q id =>
      match s.txns q with
      | none => none
      | some txn =>
          match txn.locked with
          | [] => none
          | r :: rest => s.insert ladder tier q id txn r rest
  | .commit q =>
      match s.txns q with
      | none => none
      | some txn =>
          if (txn.found = [] ∨ txn.limit ≤ txn.taken) ∧ txn.locked = [] then some (s.release q)
          else none
  | .abort q =>
      match s.txns q with
      | none => none
      | some _ => some ((s.rollback q).release q)

end Repairing

abbrev RepairTransition := Machine.Transition Repairing RepairAction

/-- The runs of `repair_stalled` that started on `db`, in any interleaving. -/
abbrev RepairRun (ladder : Ladder) (tier : TierName) (db : Db) (ts : List RepairTransition)
    (s : Repairing) : Prop :=
  Machine.Run (Repairing.step ladder tier) (.init db) ts s

/-- The rows that a transition returns to the caller of `repair_stalled`. -/
def RepairTransition.returned (c : RepairTransition) : List TaskInstance :=
  match c.action with
  | .commit q => ((c.before.txns q).map RepairTxn.inserted).getD []
  | _ => []

/-- `t` is the repair of an agent that was stalled in `db`. -/
def Repairs (tier : TierName) (db : Db) (t : TaskInstance) : Prop :=
  ∃ a ∈ db.agents.rows, stalledWhere db a = true ∧ ∃ now, RepairOf tier now a t

/-! ## What holds while they run -/

/-- What an open run holds: agents that were stalled, and rows that are its own. -/
structure RepairTxn.Sound (db : Db) (s : Repairing) (q : Nat) (txn : RepairTxn) : Prop where
  found : ∀ a ∈ txn.found, a ∈ db.agents.rows ∧ stalledWhere db a = true
  locked : ∀ r ∈ txn.locked, ∃ a ∈ db.agents.rows, stalledWhere db a = true ∧ r = a.stalledRow
  inserted : ∀ t ∈ txn.inserted, s.db.task t.id = some t ∧ s.writer t.id = some q
  distinct : (txn.inserted.map TaskInstance.id).Nodup

structure RepairsAccount (tier : TierName) (db : Db) (ts : List RepairTransition)
    (s : Repairing) : Prop where
  kept : s.db = { db with taskInstances := s.db.taskInstances }
  old : ∀ k t, db.task k = some t → s.db.task k = some t ∧ s.writer k = none
  rows : ∀ k t, s.db.task k = some t → db.task k = some t ∨ Repairs tier db t
  txns : ∀ q txn, s.txns q = some txn → txn.Sound db s q
  returned : ∀ t ∈ ts.flatMap RepairTransition.returned,
    s.db.task t.id = some t ∧ s.writer t.id = none ∧ Repairs tier db t
  distinct : ((ts.flatMap RepairTransition.returned).map TaskInstance.id).Nodup

section Account

variable {ladder : Ladder} {tier : TierName} {db : Db} {ts : List RepairTransition}
  {s : Repairing} {q : Nat}

/-- What a run holds stays its own while its rows do. -/
theorem RepairTxn.Sound.kept {txn : RepairTxn} (h : txn.Sound db s q) {s' : Repairing}
    (hkeeps : ∀ t, s.db.task t.id = some t → s.writer t.id = some q →
      s'.db.task t.id = some t ∧ s'.writer t.id = some q) : txn.Sound db s' q where
  found := h.found
  locked := h.locked
  inserted := fun t ht => hkeeps t (h.inserted t ht).1 (h.inserted t ht).2
  distinct := h.distinct

theorem RepairsAccount.agents (h : RepairsAccount tier db ts s) : s.db.agents = db.agents := by
  rw [h.kept]

/-- An agent that is stalled in a snapshot was so from the start: no old row is ever lost. -/
theorem RepairsAccount.stalled_of_snapshot (h : RepairsAccount tier db ts s) {a : Agent}
    (ha : stalledWhere s.snapshot a = true) : stalledWhere db a = true := by
  rw [stalledWhere_eq] at ha ⊢
  obtain ⟨hrunning, hplan, hnone⟩ := stalled_spec ha
  have hrow : db.rowAt a.id a.cursor = none := by
    by_contra hsome
    obtain ⟨t, ht⟩ := Option.ne_none_iff_exists'.1 hsome
    obtain ⟨htask, hagent, hseq⟩ := Db.task_of_rowAt ht
    obtain ⟨hkept, hwriter⟩ := h.old _ _ htask
    have hseen : s.snapshot.task t.id = some t := by
      rw [Db.task, Repairing.snapshot, Table.get?_delete,
        show s.db.taskInstances.get? t.id = some t from hkept]
      simp [hwriter]
    have hat := Db.rowAt_of_task hseen
    rw [hagent, hseq, hnone] at hat
    cases hat
  simp [stalled, hrunning, hplan, hrow]

theorem RepairsAccount.setTxn (h : RepairsAccount tier db ts s) {txn : RepairTxn}
    (hsound : txn.Sound db s q) (agentLock : Uuid → Option Nat) :
    RepairsAccount tier db ts { s.setTxn q txn with agentLock := agentLock } where
  kept := h.kept
  old := h.old
  rows := h.rows
  txns := by
    intro r txn' htxn
    simp only [Repairing.setTxn, Function.update_apply] at htxn
    split at htxn
    · rename_i heq
      cases htxn
      subst heq
      exact hsound.kept fun t ht hw => ⟨ht, hw⟩
    · exact (h.txns r txn' htxn).kept fun t ht hw => ⟨ht, hw⟩
  returned := h.returned
  distinct := h.distinct

theorem RepairsAccount.insert (h : RepairsAccount tier db ts s) {txn : RepairTxn}
    (hsound : txn.Sound db s q) {rest : List StalledRow}
    (hrest : ∀ r ∈ rest, ∃ a ∈ db.agents.rows, stalledWhere db a = true ∧ r = a.stalledRow)
    {t : TaskInstance} (hrepairs : Repairs tier db t) {db' : Db}
    (hinsert : insertTask ladder t s.db = some db') :
    RepairsAccount tier db ts
      { s.setTxn q { txn with locked := rest, inserted := txn.inserted ++ [t] } with
        db := db'
        writer := Function.update s.writer t.id (some q) } := by
  obtain ⟨-, hnew, -, ⟨table, rfl⟩, htask, -⟩ := insertTask_spec hinsert
  have others : ∀ k u, s.db.task k = some u → k ≠ t.id := by
    rintro k u hu rfl
    rw [hnew] at hu
    cases hu
  have stays : ∀ k u, s.db.task k = some u →
      ({ s.db with taskInstances := table } : Db).task k = some u ∧
        Function.update s.writer t.id (some q) k = s.writer k := by
    intro k u hu
    rw [htask, if_neg (others k u hu), Function.update_of_ne (others k u hu)]
    exact ⟨hu, rfl⟩
  constructor
  · simp only [h.agents]
    rw [h.kept]
  · intro k u hu
    obtain ⟨hold, hwriter⟩ := h.old k u hu
    exact ⟨(stays k u hold).1, (stays k u hold).2.trans hwriter⟩
  · intro k u hu
    rw [htask] at hu
    split at hu
    · cases hu
      exact Or.inr hrepairs
    · exact h.rows k u hu
  · intro r txn' htxn
    simp only [Repairing.setTxn, Function.update_apply] at htxn
    split at htxn
    · rename_i heq
      cases htxn
      subst heq
      refine ⟨hsound.found, hrest, fun u hu => ?_, ?_⟩
      · rcases List.mem_append.1 hu with hold | hlast
        · obtain ⟨hin, hwriter⟩ := hsound.inserted u hold
          exact ⟨(stays _ u hin).1, (stays _ u hin).2.trans hwriter⟩
        · rw [List.mem_singleton.1 hlast]
          exact ⟨by rw [htask, if_pos rfl], Function.update_self ..⟩
      · rw [List.map_append, List.nodup_append]
        refine ⟨hsound.distinct, by simp, ?_⟩
        rintro k hk l hl rfl
        obtain ⟨u, hu, rfl⟩ := List.mem_map.1 hk
        exact others _ u (hsound.inserted u hu).1 (by simpa using hl)
    · refine (h.txns r txn' htxn).kept fun u hu hw => ?_
      exact ⟨(stays _ u hu).1, (stays _ u hu).2.trans hw⟩
  · intro u hu
    obtain ⟨hin, hwriter, hrep⟩ := h.returned u hu
    exact ⟨(stays _ u hin).1, (stays _ u hin).2.trans hwriter, hrep⟩
  · exact h.distinct

theorem RepairsAccount.commit (h : RepairsAccount tier db ts s) {txn : RepairTxn}
    (htxn : s.txns q = some txn) {s' : Repairing} (hs' : s' = s.release q) :
    RepairsAccount tier db (ts ++ [⟨s, .commit q, s'⟩]) s' := by
  have hsound := h.txns q txn htxn
  have hreturned : (ts ++ [(⟨s, .commit q, s'⟩ : RepairTransition)]).flatMap RepairTransition.returned =
      ts.flatMap RepairTransition.returned ++ txn.inserted := by
    simp [RepairTransition.returned, htxn]
  subst hs'
  have frees : ∀ k, s.writer k = none ∨ s.writer k = some q →
      (s.release q).writer k = none := by
    rintro k (hnone | hown)
    · simp [Repairing.release, hnone]
    · simp [Repairing.release, hown]
  constructor
  · exact h.kept
  · intro k t ht
    exact ⟨(h.old k t ht).1, frees k (Or.inl (h.old k t ht).2)⟩
  · exact h.rows
  · intro r txn' htxn'
    simp only [Repairing.release, Function.update_apply] at htxn'
    split at htxn'
    · cases htxn'
    · rename_i hne
      refine (h.txns r txn' htxn').kept fun t ht hw => ⟨ht, ?_⟩
      simp [Repairing.release, hw, hne]
  · intro t ht
    rw [hreturned] at ht
    rcases List.mem_append.1 ht with hold | hnew
    · obtain ⟨hin, hwriter, hrep⟩ := h.returned t hold
      exact ⟨hin, frees _ (Or.inl hwriter), hrep⟩
    · obtain ⟨hin, hwriter⟩ := hsound.inserted t hnew
      refine ⟨hin, frees _ (Or.inr hwriter), ?_⟩
      rcases h.rows _ t hin with hold | hrep
      · rw [(h.old _ t hold).2] at hwriter
        cases hwriter
      · exact hrep
  · rw [hreturned, List.map_append, List.nodup_append]
    refine ⟨h.distinct, hsound.distinct, ?_⟩
    rintro k hk l hl rfl
    obtain ⟨t, ht, rfl⟩ := List.mem_map.1 hk
    obtain ⟨u, hu, hid⟩ := List.mem_map.1 hl
    have hwriter := (hsound.inserted u hu).2
    rw [hid, (h.returned t ht).2.1] at hwriter
    cases hwriter

theorem RepairsAccount.abort (h : RepairsAccount tier db ts s) :
    RepairsAccount tier db ts ((s.rollback q).release q) := by
  have htask : ∀ k, ((s.rollback q).release q).db.task k =
      (s.db.task k).filter fun t => !decide (s.writer t.id = some q) := fun k =>
    Table.get?_delete _ _ k
  have stays : ∀ k t, s.db.task k = some t → s.writer k ≠ some q →
      ((s.rollback q).release q).db.task k = some t := by
    intro k t ht hw
    have hid : t.id = k := Db.id_of_task ht
    rw [htask, ht]
    simp [hid, hw]
  have frees : ∀ k, s.writer k ≠ some q → ((s.rollback q).release q).writer k = s.writer k := by
    intro k hw
    simp [Repairing.release, Repairing.rollback, hw]
  constructor
  · simp only [Repairing.release, Repairing.rollback]
    rw [h.kept]
  · intro k t ht
    obtain ⟨hold, hwriter⟩ := h.old k t ht
    have hw : s.writer k ≠ some q := by simp [hwriter]
    exact ⟨stays k t hold hw, (frees k hw).trans hwriter⟩
  · intro k t ht
    rw [htask] at ht
    exact h.rows k t (Option.filter_eq_some_iff.1 ht).1
  · intro r txn htxn
    simp only [Repairing.release, Repairing.rollback, Function.update_apply] at htxn
    split at htxn
    · cases htxn
    · rename_i hne
      refine (h.txns r txn htxn).kept fun t ht hw => ?_
      have hown : s.writer t.id ≠ some q := by simp [hw, hne]
      exact ⟨stays _ t ht hown, (frees _ hown).trans hw⟩
  · intro t ht
    obtain ⟨hin, hwriter, hrep⟩ := h.returned t ht
    have hw : s.writer t.id ≠ some q := by simp [hwriter]
    exact ⟨stays _ t hin hw, (frees _ hw).trans hwriter, hrep⟩
  · exact h.distinct

theorem RepairsAccount.snoc (h : RepairsAccount tier db ts s) {c : RepairTransition}
    (hnone : RepairTransition.returned c = []) : RepairsAccount tier db (ts ++ [c]) s where
  kept := h.kept
  old := h.old
  rows := h.rows
  txns := h.txns
  returned := by simpa [hnone] using h.returned
  distinct := by simpa [hnone] using h.distinct

theorem Repairs.of_stalledRow {a : Agent} (ha : a ∈ db.agents.rows)
    (hstalled : stalledWhere db a = true) {taskDefId : Int}
    (htask : a.stalledRow.taskDefId = some taskDefId) (id : Uuid) (now : Time) :
    Repairs tier db (.fresh id a.stalledRow.agentId a.stalledRow.seq taskDefId tier now) := by
  rw [Agent.stalledRow, pgElement_cursor] at htask
  exact ⟨a, ha, hstalled, now, rfl, rfl, htask, rfl, rfl, rfl⟩

theorem RepairsAccount.visit (h : RepairsAccount tier db ts s) {txn : RepairTxn}
    (hsound : txn.Sound db s q) {a : Agent} {rest : List Agent} (hfound : txn.found = a :: rest)
    (contended : Bool) : RepairsAccount tier db ts (s.visit q contended txn a rest) := by
  have hrest : ∀ b ∈ rest, b ∈ db.agents.rows ∧ stalledWhere db b = true := fun b hb =>
    hsound.found b (hfound ▸ List.mem_cons_of_mem a hb)
  obtain ⟨ha, hstalled⟩ := hsound.found a (hfound ▸ List.mem_cons_self)
  have hlocked : ∀ r ∈ txn.locked ++ [a.stalledRow],
      ∃ a ∈ db.agents.rows, stalledWhere db a = true ∧ r = a.stalledRow := by
    intro r hr
    rcases List.mem_append.1 hr with hold | hlast
    · exact hsound.locked r hold
    · exact ⟨a, ha, hstalled, List.mem_singleton.1 hlast⟩
  have hskipped : ({ txn with found := rest } : RepairTxn).Sound db s q :=
    ⟨hrest, hsound.locked, hsound.inserted, hsound.distinct⟩
  have htaken : ({ txn with
      found := rest
      taken := txn.taken + 1
      locked := txn.locked ++ [a.stalledRow] } : RepairTxn).Sound db s q :=
    ⟨hrest, hlocked, hsound.inserted, hsound.distinct⟩
  unfold Repairing.visit
  split
  · exact h.setTxn hskipped s.agentLock
  · exact h.setTxn htaken _

theorem RepairsAccount.insertStep (h : RepairsAccount tier db ts s) {txn : RepairTxn}
    (hsound : txn.Sound db s q) {id : Uuid} {r : StalledRow} {rest : List StalledRow}
    (hlocked : txn.locked = r :: rest) {s' : Repairing}
    (hstep : s.insert ladder tier q id txn r rest = some s') : RepairsAccount tier db ts s' := by
  have hrest : ∀ r ∈ rest, ∃ a ∈ db.agents.rows, stalledWhere db a = true ∧ r = a.stalledRow :=
    fun u hu => hsound.locked u (hlocked ▸ List.mem_cons_of_mem r hu)
  obtain ⟨a, ha, hstalled, rfl⟩ := hsound.locked r (hlocked ▸ List.mem_cons_self)
  unfold Repairing.insert at hstep
  split at hstep
  · cases hstep
  · split at hstep
    · cases hstep
      have hskipped : ({ txn with locked := rest } : RepairTxn).Sound db s q :=
        ⟨hsound.found, hrest, hsound.inserted, hsound.distinct⟩
      exact h.setTxn hskipped s.agentLock
    · cases hstep
  · rename_i taskDefId htask hnone
    obtain ⟨db', hinsert, rfl⟩ := Option.map_eq_some_iff.1 hstep
    exact h.insert hsound hrest (Repairs.of_stalledRow ha hstalled htask id txn.now) hinsert

theorem RepairsAccount.step (h : RepairsAccount tier db ts s) {a : RepairAction} {s' : Repairing}
    (hstep : Repairing.step ladder tier s a = some s') :
    RepairsAccount tier db (ts ++ [⟨s, a, s'⟩]) s' := by
  cases a with
  | start q limit now =>
      refine RepairsAccount.snoc ?_ rfl
      simp only [Repairing.step] at hstep
      split at hstep
      · cases hstep
      · cases hstep
        refine h.setTxn ⟨fun a ha => ?_, by simp, by simp, by simp⟩ s.agentLock
        obtain ⟨hget, hstalled⟩ := Table.mem_select.1 ((List.mem_insertionSort _).1 ha)
        rw [h.agents] at hget
        exact ⟨Table.mem_of_get? hget, h.stalled_of_snapshot hstalled⟩
  | lock q contended =>
      refine RepairsAccount.snoc ?_ rfl
      simp only [Repairing.step] at hstep
      split at hstep
      · cases hstep
      rename_i txn htxn
      split at hstep
      · cases hstep
      rename_i a rest hfound
      split at hstep
      · cases hstep
      · cases hstep
        exact h.visit (h.txns q txn htxn) hfound contended
  | insert q id =>
      refine RepairsAccount.snoc ?_ rfl
      simp only [Repairing.step] at hstep
      split at hstep
      · cases hstep
      rename_i txn htxn
      split at hstep
      · cases hstep
      · rename_i r rest hlocked
        exact h.insertStep (h.txns q txn htxn) hlocked hstep
  | commit q =>
      simp only [Repairing.step] at hstep
      split at hstep
      · cases hstep
      rename_i txn htxn
      split at hstep
      · cases hstep
        exact h.commit htxn rfl
      · cases hstep
  | abort q =>
      refine RepairsAccount.snoc ?_ rfl
      simp only [Repairing.step] at hstep
      split at hstep
      · cases hstep
      · cases hstep
        exact h.abort

theorem RepairRun.account (h : RepairRun ladder tier db ts s) : RepairsAccount tier db ts s := by
  induction h with
  | nil =>
      refine ⟨rfl, fun k t ht => ⟨ht, rfl⟩, fun k t ht => Or.inl ht, fun q txn htxn => ?_,
        by simp, by simp⟩
      cases htxn
  | snoc _ hstep ih => exact ih.step hstep

/-- No position is repaired twice, whoever repairs it. -/
theorem RepairsAccount.positions (h : RepairsAccount tier db ts s) :
    ((ts.flatMap RepairTransition.returned).map TaskInstance.position).Nodup := by
  refine List.Nodup.map_on (fun t ht u hu heq => ?_) (List.Nodup.of_map _ h.distinct)
  have hrow := Db.rowAt_of_task (h.returned t ht).1
  have hrow' := Db.rowAt_of_task (h.returned u hu).1
  have hagent : t.agentId = u.agentId := congrArg Prod.fst heq
  have hseq : t.seq = u.seq := congrArg Prod.snd heq
  rw [hagent, hseq, hrow'] at hrow
  exact (Option.some.inj hrow).symm

end Account

/-- Stall repair is exact: one run repairs the oldest stalled agents of its batch and nothing
else, enough runs leave no agent stalled, and no interleaving of runs repairs a position
twice or loses or changes a row. -/
theorem stall_repair {ladder : Ladder} {tier : TierName} (htier : ladder.baseTier = some tier)
    (db : Db) {batch : Nat} (hbatch : 1 ≤ batch) :
    (∀ ids now, Drawn ids db → ∃ db' rows,
        repairSql ladder batch ids now unlocked db = some (db', rows) ∧
          RepairsOldest tier now batch db db' rows) ∧
      (∀ runs db', repairRuns ladder batch runs db = some db' →
        (stalledCount db + batch - 1) / batch ≤ runs.length → stalledCount db' = 0) ∧
      ∀ ts s, RepairRun ladder tier db ts s →
        s.db = { db with taskInstances := s.db.taskInstances } ∧
          (∀ k t, db.task k = some t → s.db.task k = some t) ∧
          (∀ k t, s.db.task k = some t → db.task k = some t ∨ Repairs tier db t) ∧
          (∀ t ∈ ts.flatMap RepairTransition.returned,
            s.db.task t.id = some t ∧ Repairs tier db t) ∧
          ((ts.flatMap RepairTransition.returned).map TaskInstance.position).Nodup ∧
          (s.db.taskInstances.rows.map TaskInstance.position).Nodup := by
  refine ⟨fun ids now hdrawn => ?_, fun runs db' hruns hlong => ?_, fun ts s hrun => ?_⟩
  · obtain ⟨db', hrepair⟩ := @repairSql_succeeds ladder batch ids now unlocked db tier htier hdrawn
    exact ⟨db', _, hrepair, repairSql_oldest htier hrepair⟩
  · rw [stalledCount_repairRuns htier hruns]
    have hceil : stalledCount db ≤ (stalledCount db + batch - 1) / batch * batch := by
      have hdiv := Nat.div_add_mod (stalledCount db + batch - 1) batch
      have hmod := Nat.mod_lt (stalledCount db + batch - 1) (by omega : 0 < batch)
      rw [Nat.mul_comm] at hdiv
      omega
    have hmore := Nat.mul_le_mul_right batch hlong
    omega
  · have h := RepairRun.account hrun
    exact ⟨h.kept, fun k t ht => (h.old k t ht).1, h.rows,
      fun t ht => ⟨(h.returned t ht).1, (h.returned t ht).2.2⟩, h.positions,
      s.db.taskInstances.uniqNodup⟩

def deletedRows : Db :=
  { (ran oneHost [.submit none [20, 1] [⟨1⟩, ⟨2⟩] rowId 0]).2.db with taskInstances := .empty }

def twoRepairs : List Draws :=
  [{ ids := fun a => rowId a 0, now := 5 }, { ids := fun a => rowId a 1, now := 6 }]

theorem stall_repair_deletedRows :
    stalledCount deletedRows = 2 ∧
      ∃ db', repairRuns seededLadder 1 twoRepairs deletedRows = some db' ∧ stalledCount db' = 0 := by
  have hbase : seededLadder.baseTier = some "junior" := by decide
  have hcount : stalledCount deletedRows = 2 := by decide +kernel
  obtain ⟨db', hruns⟩ := Option.isSome_iff_exists.1
    (show (repairRuns seededLadder 1 twoRepairs deletedRows).isSome by decide +kernel)
  refine ⟨hcount, db', hruns, ?_⟩
  refine (stall_repair hbase deletedRows (le_refl 1)).2.1 twoRepairs db' hruns ?_
  rw [hcount]
  decide

end ReliableAgents
