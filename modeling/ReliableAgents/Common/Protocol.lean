import Mathlib.Data.List.Basic
import Mathlib.Data.String.Basic

/-!
# Contracts shared by every process

Identifiers, JSON values, the failure taxonomy (`common/failures.py`), the task
definition protocol (`common/protocol.py`) and the runtime flags
(`common/runtime.py`). Times are microseconds.
-/

namespace ReliableAgents

structure Uuid where
  bits : BitVec 128
deriving DecidableEq, Repr

abbrev Time := Int
abbrev TierName := String
abbrev WorkerId := String

/-- `make_interval(secs => n)`. -/
def seconds (n : Int) : Time := n * 1000000

/-- `str(uuid)`: 32 hexadecimal digits in groups of 8, 4, 4, 4 and 12. -/
def Uuid.str (u : Uuid) : String :=
  let digits := (List.range 32).map fun i => Nat.digitChar (u.bits.toNat / 16 ^ (31 - i) % 16)
  String.ofList
    (digits.take 8 ++ '-' :: (digits.drop 8).take 4 ++ '-' :: (digits.drop 12).take 4 ++
      '-' :: (digits.drop 16).take 4 ++ '-' :: digits.drop 20)

/-- `s[:n]` on a Python string. -/
def sliceTo (n : Nat) (s : String) : String := String.ofList (s.toList.take n)

/-! ## JSON -/

mutual

inductive Json where
  | null
  | bool (b : Bool)
  | num (mantissa exponent : Int)
  | str (s : String)
  | arr (elems : JsonArray)
  | obj (fields : JsonObject)
deriving DecidableEq, Repr

inductive JsonArray where
  | nil
  | cons (head : Json) (tail : JsonArray)
deriving DecidableEq, Repr

inductive JsonObject where
  | nil
  | cons (key : String) (value : Json) (rest : JsonObject)
deriving DecidableEq, Repr

end

/-- `agents.context`: the committed results by plan position. The column's keys
are `str(seq)`, which the executor reads back with `int`. -/
abbrev Context := List (Nat × JsonObject)

/-- JSONB `context || {seq: result}`: an existing key is overwritten in place. -/
def Context.merge (context : Context) (seq : Nat) (result : JsonObject) : Context :=
  if seq ∈ context.map Prod.fst then
    context.map fun entry => if entry.1 = seq then (seq, result) else entry
  else context ++ [(seq, result)]

theorem Context.merge_of_fresh {context : Context} {seq : Nat} (result : JsonObject)
    (h : seq ∉ context.map Prod.fst) :
    context.merge seq result = context ++ [(seq, result)] :=
  if_neg h

/-! ## Failures -/

inductive FailureClass where
  | infra
  | capability
  | poison
deriving DecidableEq, Repr

/-- A `TaskFailure` as it was raised. -/
structure TaskFailure where
  /-- A `str`, so never NULL; `none` for a class of a task's own, which the CHECK of the column
  refuses. -/
  failureClass : Option FailureClass
  /-- `none` for a `detail` that is missing, or no text that has a UTF-8 encoding. -/
  detail : Option String
deriving DecidableEq, Repr

/-- The two values `report_failure` binds. -/
structure FailureReport where
  failureClass : FailureClass
  detail : String
deriving DecidableEq, Repr

/-- psycopg binds no text with a NUL in it. -/
def bindable (s : String) : Bool := Char.ofNat 0 ∉ s.toList

/-- `none` when reading the failure, binding it or writing it raises. -/
def TaskFailure.report? (failure : TaskFailure) : Option FailureReport :=
  match failure.failureClass, failure.detail with
  | some failureClass, some detail =>
      if bindable (sliceTo 2000 detail) then some ⟨failureClass, detail⟩ else none
  | _, _ => none

theorem TaskFailure.report?_class {failure : TaskFailure} {report : FailureReport}
    (h : failure.report? = some report) : failure.failureClass = some report.failureClass := by
  unfold report? at h
  split at h
  · split at h
    · cases h
      assumption
    · cases h
  · cases h

/-- `backoff_seconds` at its default base 2 and cap 30. -/
def backoffSeconds (attempt : Nat) : Nat := min 30 (2 ^ attempt)

/-! ## Task definitions -/

/-- What an agent's task may see. -/
structure TaskContext where
  agentId : Uuid
  seq : Nat
  tier : TierName
  prior : Context
deriving DecidableEq, Repr

/-- A Python dict a task returned: one that JSON and JSONB can hold, or one that
`json.dumps` or the cast to JSONB refuses. -/
inductive PyDict where
  | json (fields : JsonObject)
  | unstorable
deriving DecidableEq, Repr

inductive PyValue where
  | dict (d : PyDict)
  | other (typeName : String)
deriving DecidableEq, Repr

/-- How one invocation of `task_def.run` ends. -/
inductive RunOutcome where
  | returned (value : PyValue)
  | raised (failure : TaskFailure)
  /-- Another exception, with its text unless `str` of it raises. -/
  | crashed (typeName : String) (message : Option String)
deriving DecidableEq, Repr

/-- A registry entry, with the two fields the runtime reads. -/
structure TaskDef where
  id : Int
  sideEffecting : Bool
deriving DecidableEq, Repr

/-! ## Runtime flags -/

structure Flags where
  retriesEnabled : Bool := true
  escalationEnabled : Bool := true
  forceTier : Option TierName := none
deriving DecidableEq, Repr

end ReliableAgents
