import ReliableAgents.Common.Tiers
import ReliableAgents.Machine.Cache
import Mathlib.Algebra.Order.Group.Int
import Mathlib.Data.List.AList

/-!
# The runtime flags

`common/runtime.py` and `POST /chaos/config`. The flags are rows of `runtime_config` that
clients change while every process runs; a process reads the whole table, merges it over the
defaults and serves the result for `CACHE_SECONDS` by its monotonic clock.
-/

namespace ReliableAgents

open Machine

/-- `runtime_config`: `key` is the primary key. -/
abbrev RuntimeConfig := AList fun _ : String => Json

/-- `bool(value)` of a loaded value. -/
def Json.truthy : Json → Bool
  | .null => false
  | .bool b => b
  | .num mantissa _ => mantissa ≠ 0
  | .str s => s ≠ ""
  | .arr .nil => false
  | .arr _ => true
  | .obj .nil => false
  | .obj _ => true

def cacheSeconds : Time := seconds 2

def flagDefaults : RuntimeConfig :=
  ((((((∅ : RuntimeConfig).insert "tool_overrides" (.obj .nil)).insert "lease_ttl_seconds"
    (.num 30 0)).insert "force_tier" .null).insert "escalation_enabled" (.bool true)).insert
      "retries_enabled" (.bool true))

/-- `{**DEFAULTS, **rows}`. -/
def mergedFlags (rows : RuntimeConfig) : RuntimeConfig := rows ∪ flagDefaults

/-- `_cache` and `_cached_at`; `{}` is `none`, since what is cached is never empty. -/
abbrev FlagCache := Option (Copy Time RuntimeConfig)

/-- `flags()`: `table` is what `runtime_config` holds at each time. -/
def readFlags (table : Time → RuntimeConfig) (fresh : Bool) (r : TimedRead Time)
    (cache : FlagCache) : RuntimeConfig × FlagCache :=
  readThrough cacheSeconds (fun t => mergedFlags (table t)) r (if fresh then none else cache)

def retriesEnabled (flags : RuntimeConfig) : Bool :=
  ((flags.lookup "retries_enabled").getD (.bool true)).truthy

def escalationEnabled (flags : RuntimeConfig) : Bool :=
  ((flags.lookup "escalation_enabled").getD (.bool true)).truthy

/-- `str(value)` of a loaded value. -/
def Json.pyStr (str : Json → String) : Json → String
  | .str s => s
  | value => str value

/-- `force_tier()`; `str` is Python's text of a value that is not a string. -/
def forceTier (str : Json → String) (flags : RuntimeConfig) : Option TierName :=
  match flags.lookup "force_tier" with
  | none => none
  | some value => if value.truthy then some (value.pyStr str) else none

/-- The three flags that the routing reads, were they read at once. -/
def routingFlags (str : Json → String) (flags : RuntimeConfig) : Flags where
  retriesEnabled := retriesEnabled flags
  escalationEnabled := escalationEnabled flags
  forceTier := forceTier str flags

/-! ## Writing the flags -/

/-- The body of `POST /chaos/config`: a field is unset, sent as null, or sent with a value. -/
structure ConfigChaos where
  retriesEnabled : Option (Option Bool) := none
  escalationEnabled : Option (Option Bool) := none
  forceTier : Option (Option TierName) := none
deriving DecidableEq, Repr

/-- `model_dump(exclude_unset=True)`. -/
def ConfigChaos.sent (body : ConfigChaos) : List (String × Json) :=
  (body.retriesEnabled.map fun v => ("retries_enabled", v.elim .null .bool)).toList ++
    ((body.escalationEnabled.map fun v => ("escalation_enabled", v.elim .null .bool)).toList ++
      (body.forceTier.map fun v => ("force_tier", v.elim .null .str)).toList)

inductive ConfigError where
  | noFields
  | unknownTier (name : TierName) (known : List TierName)
deriving DecidableEq, Repr

/-- `ON CONFLICT (key) DO UPDATE`. -/
def upsert (rows : RuntimeConfig) (entry : String × Json) : RuntimeConfig :=
  rows.insert entry.1 entry.2

/-- `chaos_config`: the rows it leaves. -/
def chaosConfig (ladder : Ladder) (body : ConfigChaos) (rows : RuntimeConfig) :
    Except ConfigError RuntimeConfig :=
  if body.sent = [] then .error .noFields
  else
    match body.forceTier with
    | some (some name) =>
        if name ∈ ladder.names then .ok (body.sent.foldl upsert rows)
        else .error (.unknownTier name ladder.names)
    | _ => .ok (body.sent.foldl upsert rows)

/-- A request of `POST /chaos/config`, at the time its transaction commits. -/
structure ConfigRequest where
  committedAt : Time
  body : ConfigChaos
deriving DecidableEq, Repr

def ConfigRequest.perform (ladder : Ladder) (rows : RuntimeConfig) (q : ConfigRequest) :
    RuntimeConfig :=
  match chaosConfig ladder q.body rows with
  | .error _ => rows
  | .ok rows' => rows'

/-- The table at each time, when only these requests write it, in this order. -/
def configHistory (ladder : Ladder) (start : RuntimeConfig) (requests : List ConfigRequest)
    (t : Time) : RuntimeConfig :=
  (requests.takeWhile fun q => q.committedAt ≤ t).foldl (ConfigRequest.perform ladder) start

/-- The rows of `db/schema.sql`. -/
def schemaConfig : RuntimeConfig :=
  [("retries_enabled", .bool true), ("escalation_enabled", .bool true), ("force_tier", .null),
    ("lease_ttl_seconds", .num 30 0), ("tool_overrides", .obj .nil)].foldl upsert ∅

section History

variable {ladder : Ladder} {start rows : RuntimeConfig} {requests : List ConfigRequest}

theorem configHistory_eq_of_none {a t : Time} (hat : a ≤ t)
    (hnone : ∀ q ∈ requests, q.committedAt ≤ a ∨ t < q.committedAt) :
    configHistory ladder start requests t = configHistory ladder start requests a := by
  have hsame : ∀ q ∈ requests, decide (q.committedAt ≤ t) = decide (q.committedAt ≤ a) := by
    intro q hq
    rcases hnone q hq with hle | hlt
    · simp [hle, hle.trans hat]
    · rw [decide_eq_false hlt.not_ge, decide_eq_false (hat.trans_lt hlt).not_ge]
  unfold configHistory
  congr 1
  clear hnone
  induction requests with
  | nil => rfl
  | cons q rest ih =>
      rw [List.takeWhile_cons, List.takeWhile_cons, hsame q List.mem_cons_self,
        ih fun p hp => hsame p (List.mem_cons_of_mem _ hp)]

theorem lookup_upsert (rows : RuntimeConfig) (entry : String × Json) (key : String) :
    (upsert rows entry).lookup key = if key = entry.1 then some entry.2 else rows.lookup key := by
  unfold upsert
  by_cases h : key = entry.1
  · rw [h, if_pos rfl, AList.lookup_insert]
  · rw [if_neg h, AList.lookup_insert_ne h]

/-- "Only the fields actually sent are written." -/
theorem chaosConfig_lookup {body : ConfigChaos} {rows' : RuntimeConfig}
    (h : chaosConfig ladder body rows = .ok rows') (key : String) :
    rows'.lookup key = (body.sent.lookup key).or (rows.lookup key) := by
  have hfold : rows' = body.sent.foldl upsert rows := by
    unfold chaosConfig at h
    split at h
    · cases h
    split at h
    · split at h
      · cases h
        rfl
      · cases h
    · cases h
      rfl
  obtain ⟨retries, escalation, tier⟩ := body
  rw [hfold]
  cases retries <;> cases escalation <;> cases tier <;>
    simp only [ConfigChaos.sent, Option.map_some, Option.map_none, Option.toList_some,
      Option.toList_none, List.nil_append, List.cons_append, List.foldl_cons, List.foldl_nil,
      lookup_upsert, List.lookup_cons, List.lookup_nil, Option.none_or] <;>
    grind

end History

end ReliableAgents
