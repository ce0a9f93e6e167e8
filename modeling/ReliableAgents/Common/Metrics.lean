import ReliableAgents.Common.Tiers
import ReliableAgents.Orchestrator.Sweeps
import ReliableAgents.Relational.Groups
import Mathlib

/-!
# The metrics snapshot

`common/metrics.py`. Rates are the exact quotients that the code rounds, and the
latencies are microseconds.
-/

namespace ReliableAgents

open Relational

/-- `obj ->> key`, compared with a text: only a JSON string can be equal to it. -/
def JsonObject.hasText (key text : String) : JsonObject → Bool
  | .nil => false
  | .cons k value rest => if k = key then value = .str text else rest.hasText key text

namespace Metrics

/-! ## Queries -/

/-- A row of `by_tier`. -/
structure TierRow where
  tier : TierName
  outcome : Outcome
  n : Nat
  cost : Int
deriving DecidableEq, Repr

def tierRow (k : TierName × Outcome) (group : List Attempt) : TierRow where
  tier := k.1
  outcome := k.2
  n := group.length
  cost := (group.map Attempt.costUnits).sum

def byTier (db : Db) : List TierRow := groupBy (fun e => (e.tier, e.outcome)) tierRow db.attempts

def promotions (base : TierName) (db : Db) : Nat := db.taskInstances.count fun t => t.tier ≠ base

/-- `coalesce(sum(cost_units), 0)` over `agents`. -/
def spent (db : Db) : Int := (db.agents.rows.map Agent.costUnits).sum

/-- `result ->> 'status' = 'unresolved'`. -/
def unresolvedResult (r : Reservation) : Bool :=
  match r.result with
  | none => false
  | some result => result.hasText "status" "unresolved"

/-- The two counts of `dupes`. -/
def settled (db : Db) : Nat :=
  db.idempotency.count fun r => r.state = .done && !unresolvedResult r

def prevented (ttlSeconds : Int) (now : Time) (db : Db) : Nat :=
  db.idempotency.count fun r =>
    (r.state = .done && unresolvedResult r) ||
      (r.state = .inFlight && r.createdAt < now - seconds ttlSeconds)

/-- `percentile_disc(p / 100)`: the first value at or past that share of the rows. -/
def percentileDisc (p : Nat) (values : List Int) : Int :=
  let sorted := values.insertionSort (· ≤ ·)
  (sorted[(p * sorted.length + 99) / 100 - 1]?).getD 0

def latencies (db : Db) : List Int :=
  db.attempts.filterMap fun e => e.endedAt.map fun ended => ended - e.startedAt

/-! ## The snapshot -/

structure AgentTotals where
  running : Nat
  completed : Nat
  failed : Nat
deriving DecidableEq, Repr

structure TaskTotals where
  pending : Nat
  running : Nat
  succeeded : Nat
  failed : Nat
  dead : Nat
  total : Nat
deriving DecidableEq, Repr

structure Recovery where
  leasesReclaimed : Nat
  tasksReexecuted : Nat
  stalledAgents : Nat
  orphanedLeases : Nat
deriving DecidableEq, Repr

structure Escalation where
  promoted : Nat
  promotionRate : ℚ
  seniorAttempts : Nat
  seniorSuccessRate : ℚ
deriving DecidableEq, Repr

structure Cost where
  unitsSpent : Int
  allJuniorBaseline : Int
  allJuniorWouldNeverFinish : Nat
  allSeniorBaseline : Int
  vsAllSenior : ℚ
deriving DecidableEq, Repr

structure Idempotency where
  actionsGuarded : Nat
  duplicatesPrevented : Nat
deriving DecidableEq, Repr

structure Latency where
  p50 : Int
  p99 : Int
deriving DecidableEq, Repr

structure Snapshot where
  agents : AgentTotals
  tasks : TaskTotals
  recovery : Recovery
  escalation : Escalation
  cost : Cost
  idempotency : Idempotency
  dlqSize : Nat
  latency : Latency
deriving DecidableEq, Repr

/-- A rate, `0` when there is nothing to divide by. -/
def rate (part whole : Int) : ℚ := if whole = 0 then 0 else (part : ℚ) / (whole : ℚ)

/-- `snapshot`, with every query on one state: the code runs them one after another at READ
COMMITTED, and may count in between what other transactions commit. The end points of the
ladder are read by index, which raises when the ladder is empty. -/
def snapshot (ladder : Ladder) (leaseTtlSeconds : Int) (now : Time) (db : Db) : Option Snapshot :=
  match ladder.tiers.head?, ladder.tiers.getLast? with
  | some cheap, some dear =>
      let agentCount := fun status => db.agents.count fun a => a.status = status
      let taskCount := fun status => db.taskInstances.count fun t => t.status = status
      let total := db.taskInstances.rows.length
      let reclaimed := db.attempts.countP fun e => e.outcome = .reclaimed
      let promoted := promotions cheap.name db
      let tierRows := byTier db
      let succeeded :=
        ((tierRows.filter fun r => r.outcome = .succeeded).map TierRow.n).sum
      let seniorAttempts := ((tierRows.filter fun r => r.tier ≠ cheap.name).map TierRow.n).sum
      let seniorOk :=
        ((tierRows.filter fun r => r.tier ≠ cheap.name && r.outcome = .succeeded).map
          TierRow.n).sum
      let allDear := succeeded * dear.costUnits
      some
        { agents :=
            { running := agentCount .running
              completed := agentCount .completed
              failed := agentCount .failed }
          tasks :=
            { pending := taskCount .pending
              running := taskCount .running
              succeeded := taskCount .succeeded
              failed := taskCount .failed
              dead := taskCount .dead
              total := total }
          recovery :=
            { leasesReclaimed := reclaimed
              tasksReexecuted := reclaimed
              stalledAgents := db.agents.count (stalled db)
              orphanedLeases := db.taskInstances.count (expired now) }
          escalation :=
            { promoted := promoted
              promotionRate := rate promoted total
              seniorAttempts := seniorAttempts
              seniorSuccessRate := rate seniorOk seniorAttempts }
          cost :=
            { unitsSpent := spent db
              allJuniorBaseline := succeeded * cheap.costUnits
              allJuniorWouldNeverFinish := promoted
              allSeniorBaseline := allDear
              vsAllSenior := rate (spent db) allDear }
          idempotency :=
            { actionsGuarded := settled db
              duplicatesPrevented := prevented leaseTtlSeconds now db }
          dlqSize := db.dlq.length
          latency :=
            { p50 := percentileDisc 50 (latencies db)
              p99 := percentileDisc 99 (latencies db) } }
  | _, _ => none

/-! ## What the sums over `by_tier` count -/

theorem sum_byTier (db : Db) {q : TierRow → Bool} {p : TierName × Outcome → Bool}
    (hq : ∀ r : TierRow, q r = p (r.tier, r.outcome)) :
    (((byTier db).filter q).map TierRow.n).sum =
      db.attempts.countP fun e => p (e.tier, e.outcome) := by
  have hcount : ∀ k group, (tierRow k group).n = (group.map fun _ : Attempt => 1).sum := by
    intro k group
    simp [tierRow]
  rw [byTier, sum_groupBy tierRow (fun k group => hq (tierRow k group)) hcount]
  simp [List.countP_eq_length_filter]

def successes (db : Db) : Nat := db.attempts.countP fun e => e.outcome = .succeeded

theorem snapshot_cost {ladder : Ladder} {leaseTtlSeconds : Int} {now : Time} {db : Db}
    {m : Snapshot} (h : snapshot ladder leaseTtlSeconds now db = some m) :
    ∃ cheap dear, ladder.tiers.head? = some cheap ∧ ladder.tiers.getLast? = some dear ∧
      m.cost.unitsSpent = spent db ∧
      m.cost.allJuniorBaseline = successes db * cheap.costUnits ∧
      m.cost.allSeniorBaseline = successes db * dear.costUnits := by
  unfold snapshot at h
  split at h
  · rename_i cheap dear hcheap hdear
    cases h
    have hsucceeded : (((byTier db).filter fun r => r.outcome = .succeeded).map TierRow.n).sum =
        successes db :=
      sum_byTier db (p := fun k => k.2 = .succeeded) fun _ => rfl
    exact ⟨cheap, dear, hcheap, hdear, rfl, by rw [hsucceeded], by rw [hsucceeded]⟩
  · cases h

end Metrics

end ReliableAgents
