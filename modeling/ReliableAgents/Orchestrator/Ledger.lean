import ReliableAgents.Db.Schema
import Mathlib.Tactic.Simps.Basic

/-!
# The idempotency ledger

`orchestrator/ledger.py`: an action id is reserved before the action runs and
settled after it succeeded, and `reconcile` closes the reservations that
outlived their owner's lease. `hashlib.sha256(...).hexdigest()` is a parameter.
-/

namespace ReliableAgents

open Relational

namespace Ledger

inductive Status where
  | proceed
  | done
  | inFlight
deriving DecidableEq, Repr

/-- How many lease periods an unsettled reservation must survive. -/
def reconcileAfter : Int := 2

/-- The marker stored when an action's effect could not be determined. -/
def unresolved : JsonObject :=
  .cons "status" (.str "unresolved")
    (.cons "reason" (.str "worker died between the action and its acknowledgement")
      (.cons "effect" (.str "unknown -- may or may not have been applied") .nil))

/-- The text `f"{agent_id}:{seq}:{action_type}"`. -/
def actionText (agentId : String) (seq : Int) (actionType : String) : String :=
  agentId ++ ":" ++ toString seq ++ ":" ++ actionType

def actionId (sha256 : String → ActionId) (agentId : String) (seq : Int) (actionType : String) :
    ActionId :=
  sha256 (actionText agentId seq actionType)

/-- The row `BEGIN_SQL` inserts. -/
@[simps] def reserved (key : ActionId) (agentId : Uuid) (seq : Nat) (actionType : String)
    (now : Time) : Reservation where
  key := key
  agentId := agentId
  seq := seq
  actionType := actionType
  createdAt := now

/-- `BEGIN_SQL`: the row with `reserved_now`. On conflict the row is locked and
rewritten to itself, so the table does not change. -/
def beginSql (row : Reservation) (db : Db) : Option (Reservation × Bool) × Db :=
  match db.idempotency.insert? row with
  | some table => (some (row, true), { db with idempotency := table })
  | none => ((db.reservation row.key).map fun existing => (existing, false), db)

/-- `begin`: `none` when the id could neither be reserved nor read. -/
def begin (sha256 : String → ActionId) (agentId : Uuid) (seq : Nat) (actionType : String)
    (now : Time) (db : Db) : Option (Status × Option JsonObject × ActionId × Db) :=
  let key := actionId sha256 agentId.str seq actionType
  match beginSql (reserved key agentId seq actionType now) db with
  | (none, _) => none
  | (some (row, reservedNow), db') =>
      if reservedNow then some (.proceed, none, key, db')
      else if row.state = .done then some (.done, row.result, key, db')
      else some (.inFlight, none, key, db')

def inFlightKey (key : ActionId) (r : Reservation) : Bool := r.key = key && r.state = .inFlight

@[simps] def settled (result : JsonObject) (now : Time) (r : Reservation) : Reservation :=
  { r with
    state := .done
    result := some result
    settledAt := some now }

/-- `settle`: `none` when the result cannot be stored; otherwise whether it was
recorded. -/
def settle (key : ActionId) (result : PyDict) (now : Time) (db : Db) : Option (Db × Bool) :=
  match result with
  | .unstorable => none
  | .json fields =>
      some
        ({ db with idempotency := db.idempotency.update (inFlightKey key) (settled fields now) },
          db.idempotency.count (inFlightKey key) = 1)

def release (key : ActionId) (db : Db) : Db × Bool :=
  ({ db with idempotency := db.idempotency.delete (inFlightKey key) },
    db.idempotency.count (inFlightKey key) = 1)

/-- The `WHERE` of `RECONCILE_SQL`'s `orphaned`. -/
def orphaned (age : Int) (now : Time) (r : Reservation) : Bool :=
  r.state = .inFlight && r.createdAt < now - seconds age

/-- The rows one sweep of `reconcile` locks. -/
def reconcileRows (age : Int) (batch : Nat) (now : Time) (locked : ActionId → Bool) (db : Db) :
    List Reservation :=
  orderedBatch Reservation.createdAt batch
    (db.idempotency.select fun r => orphaned age now r && !locked r.key)

/-- `reconcile`: `after_seconds` defaults to `LEASE_TTL_SECONDS * RECONCILE_AFTER`. -/
def reconcile (leaseTtlSeconds : Int) (afterSeconds : Option Int) (batch : Nat) (now : Time)
    (locked : ActionId → Bool) (db : Db) : Db :=
  let age := afterSeconds.getD (leaseTtlSeconds * reconcileAfter)
  let rows := reconcileRows age batch now locked db
  { db with
    idempotency :=
      db.idempotency.update (fun r => r.key ∈ rows.map Reservation.key) (settled unresolved now) }

/-! ## What each call does -/

/-- `begin` clears its caller exactly when it inserted the reservation. -/
theorem begin_spec {sha256 : String → ActionId} {agentId : Uuid} {seq : Nat} {actionType : String}
    {now : Time} {db db' : Db} {status : Status} {stored : Option JsonObject} {key : ActionId}
    (h : begin sha256 agentId seq actionType now db = some (status, stored, key, db')) :
    key = actionId sha256 agentId.str seq actionType ∧
      ((status = .proceed ∧ stored = none ∧ db.reservation key = none ∧
          ∃ table, db' = { db with idempotency := table } ∧
            ∀ k, db'.reservation k =
              if k = key then some (reserved key agentId seq actionType now)
              else db.reservation k) ∨
        (db' = db ∧ ∃ row, db.reservation key = some row ∧
          ((status = .done ∧ row.state = .done ∧ stored = row.result) ∨
            (status = .inFlight ∧ row.state = .inFlight ∧ stored = none)))) := by
  unfold begin beginSql at h
  dsimp only at h
  cases hins : db.idempotency.insert?
      (reserved (actionId sha256 agentId.str seq actionType) agentId seq actionType now) with
  | some table =>
      simp only [hins, if_true, Option.some.injEq, Prod.mk.injEq] at h
      obtain ⟨rfl, rfl, rfl, rfl⟩ := h
      refine ⟨rfl, Or.inl ⟨rfl, rfl, (Table.insert?_eq_some hins).1, table, rfl, ?_⟩⟩
      exact fun k => Table.get?_insert? hins k
  | none =>
      cases hrow : db.reservation (actionId sha256 agentId.str seq actionType) with
      | none => simp [hins, reserved_key, hrow] at h
      | some row =>
          simp only [hins, reserved_key, hrow, Option.map_some, Bool.false_eq_true, if_false] at h
          by_cases hdone : row.state = .done
          · simp only [hdone, if_true, Option.some.injEq, Prod.mk.injEq] at h
            obtain ⟨rfl, rfl, rfl, rfl⟩ := h
            exact ⟨rfl, Or.inr ⟨rfl, row, hrow, Or.inl ⟨rfl, hdone, rfl⟩⟩⟩
          · simp only [hdone, if_false, Option.some.injEq, Prod.mk.injEq] at h
            obtain ⟨rfl, rfl, rfl, rfl⟩ := h
            refine ⟨rfl, Or.inr ⟨rfl, row, hrow, Or.inr ⟨rfl, ?_, rfl⟩⟩⟩
            cases hstate : row.state with
            | inFlight => rfl
            | done => exact absurd hstate hdone

theorem begin_ne_none {sha256 : String → ActionId} {agentId : Uuid} {seq : Nat}
    {actionType : String} {now : Time} {db : Db} :
    begin sha256 agentId seq actionType now db ≠ none := by
  intro hnone
  unfold begin beginSql at hnone
  dsimp only at hnone
  cases hinsert : db.idempotency.insert?
      (reserved (actionId sha256 agentId.str seq actionType) agentId seq actionType
        now) with
  | some table => simp [hinsert] at hnone
  | none =>
      have hkey : actionId sha256 agentId.str seq actionType ∈
          db.idempotency.rows.map Reservation.key := by
        by_contra hfresh
        simp [Table.insert?, hfresh] at hinsert
      obtain ⟨row, hrow, hkeyrow⟩ := List.mem_map.1 hkey
      have hreservation : db.reservation (actionId sha256 agentId.str seq actionType) =
          some row := hkeyrow ▸ db.idempotency.get?_of_mem hrow
      simp only [hinsert, reserved_key, hreservation, Option.map_some,
        Bool.false_eq_true, if_false] at hnone
      split at hnone <;> cases hnone

theorem begin_of_reservation {sha256 : String → ActionId} {agentId : Uuid} {seq : Nat}
    {actionType : String} (now : Time) {db : Db} {r : Reservation}
    (h : db.reservation (actionId sha256 agentId.str seq actionType) = some r) :
    ∃ answer, begin sha256 agentId seq actionType now db = some answer := by
  unfold begin beginSql
  dsimp only
  cases hins : db.idempotency.insert?
      (reserved (actionId sha256 agentId.str seq actionType) agentId seq actionType now) with
  | some table => exact ⟨_, rfl⟩
  | none =>
      simp only [reserved_key, h, Option.map_some, Bool.false_eq_true, if_false]
      split <;> exact ⟨_, rfl⟩

theorem inFlightKey_iff {key : ActionId} {r : Reservation} :
    inFlightKey key r = true ↔ r.key = key ∧ r.state = .inFlight := by
  simp [inFlightKey]

theorem count_inFlightKey (db : Db) (key : ActionId) :
    db.idempotency.count (inFlightKey key) =
      if ∃ r, db.reservation key = some r ∧ r.state = .inFlight then 1 else 0 := by
  have hcount : db.idempotency.count (inFlightKey key) =
      (db.idempotency.rows.filter (inFlightKey key)).length := List.countP_eq_length_filter
  have hkeys : ((db.idempotency.rows.filter (inFlightKey key)).map Reservation.key).Nodup :=
    Table.select_map_nodup _ _
  have hsame : ∀ r ∈ db.idempotency.rows.filter (inFlightKey key), r.key = key :=
    fun r hr => (inFlightKey_iff.1 (List.mem_filter.1 hr).2).1
  split
  · rename_i hex
    obtain ⟨r, hr, hstate⟩ := hex
    have hmem : r ∈ db.idempotency.rows.filter (inFlightKey key) :=
      List.mem_filter.2 ⟨Table.mem_of_get? hr, inFlightKey_iff.2 ⟨Table.key_of_get? hr, hstate⟩⟩
    rw [hcount]
    match hl : db.idempotency.rows.filter (inFlightKey key) with
    | [] => simp [hl] at hmem
    | [_] => rfl
    | a :: b :: rest =>
        rw [hl] at hkeys hsame
        have hab : a.key = b.key := (hsame a (by simp)).trans (hsame b (by simp)).symm
        simp [hab] at hkeys
  · rename_i hex
    rw [hcount, List.length_eq_zero_iff, List.filter_eq_nil_iff]
    intro r hr hp
    obtain ⟨hk, hstate⟩ := inFlightKey_iff.1 hp
    exact hex ⟨r, hk ▸ Table.get?_of_mem _ hr, hstate⟩

/-- `settle` returns `True` exactly when it closes an open reservation, and touches
no other id and no closed one. -/
theorem settle_spec {key : ActionId} {result : PyDict} {now : Time} {db db' : Db} {ok : Bool}
    (h : settle key result now db = some (db', ok)) :
    ∃ fields, result = .json fields ∧
      (ok = true ↔ ∃ r, db.reservation key = some r ∧ r.state = .inFlight) ∧
      (∃ table, db' = { db with idempotency := table }) ∧
      ∀ k, db'.reservation k =
        (db.reservation k).map fun r =>
          if r.key = key ∧ r.state = .inFlight then settled fields now r else r := by
  cases result with
  | unstorable => cases h
  | json fields =>
      simp only [settle, Option.some.injEq, Prod.mk.injEq] at h
      obtain ⟨rfl, hok⟩ := h
      refine ⟨fields, rfl, ?_, ⟨_, rfl⟩, fun k => ?_⟩
      · rw [← hok, count_inFlightKey]
        split <;> simp_all
      · simp only [Db.reservation, Table.get?_update, inFlightKey_iff]

/-- `release` returns `True` exactly when it drops an open reservation. -/
theorem release_spec {key : ActionId} {db db' : Db} {ok : Bool} (h : release key db = (db', ok)) :
    (ok = true ↔ ∃ r, db.reservation key = some r ∧ r.state = .inFlight) ∧
      (∃ table, db' = { db with idempotency := table }) ∧
      ∀ k, db'.reservation k = (db.reservation k).filter fun r => !inFlightKey key r := by
  simp only [release, Prod.mk.injEq] at h
  obtain ⟨rfl, hok⟩ := h
  refine ⟨?_, ⟨_, rfl⟩, fun k => ?_⟩
  · rw [← hok, count_inFlightKey]
    split <;> simp_all
  · simp only [Db.reservation, Table.get?_delete]

theorem mem_reconcileRows {age : Int} {batch : Nat} {now : Time} {locked : ActionId → Bool}
    {db : Db} {r : Reservation} (h : r ∈ reconcileRows age batch now locked db) :
    db.reservation r.key = some r ∧ r.state = .inFlight ∧ r.createdAt < now - seconds age ∧
      locked r.key = false := by
  obtain ⟨hget, hp⟩ := Table.mem_select.1 (mem_of_mem_orderedBatch h)
  simp only [orphaned, Bool.and_eq_true, decide_eq_true_eq, Bool.not_eq_true'] at hp
  exact ⟨hget, hp.1.1, hp.1.2, hp.2⟩

/-- `reconcile` leaves a reservation alone unless it is open, older than the grace and
not locked; then it may close it with the marker. -/
theorem reconcile_spec (leaseTtlSeconds : Int) (afterSeconds : Option Int) (batch : Nat)
    (now : Time) (locked : ActionId → Bool) (db : Db) :
    let db' := reconcile leaseTtlSeconds afterSeconds batch now locked db
    let age := afterSeconds.getD (leaseTtlSeconds * reconcileAfter)
    (∃ table, db' = { db with idempotency := table }) ∧
      ∀ k, db'.reservation k = db.reservation k ∨
        ∃ r, db.reservation k = some r ∧ r.state = .inFlight ∧
          r.createdAt < now - seconds age ∧ locked k = false ∧
            db'.reservation k = some (settled unresolved now r) := by
  refine ⟨⟨_, rfl⟩, fun k => ?_⟩
  simp only [reconcile, Db.reservation, Table.get?_update]
  cases hr : db.idempotency.get? k with
  | none => exact Or.inl rfl
  | some r =>
      simp only [Option.map_some, decide_eq_true_eq]
      split
      · rename_i hmem
        obtain ⟨r', hr', hkey⟩ := List.mem_map.1 hmem
        obtain ⟨hget, hstate, hage, hunlocked⟩ := mem_reconcileRows hr'
        have hk : r'.key = k := hkey.trans (Table.key_of_get? hr)
        have heq : r' = r := by
          rw [hk] at hget
          exact Option.some.inj (hget.symm.trans hr)
        subst heq
        exact Or.inr ⟨r', rfl, hstate, hage, hk ▸ hunlocked, rfl⟩
      · exact Or.inl rfl

end Ledger

end ReliableAgents
