import ReliableAgents.Tasks.Tools
import ReliableAgents.Common.Protocol

/-!
# A tool call

`call` of `tasks/tools.py`, for a tool that is registered: mock mode sleeps, then the
injected refusal is drawn, and only then the implementation of the mode is invoked.
Tasks 40 to 43 are one such call each.
-/

namespace ReliableAgents

/-- `d[key] = value`: a key that is there keeps its place. -/
def JsonObject.set (key : String) (value : Json) : JsonObject → JsonObject
  | .nil => .cons key value .nil
  | .cons k v rest => if k = key then .cons k value rest else .cons k v (rest.set key value)

/-- `{**d, **out}`. -/
def JsonObject.update (d : JsonObject) : JsonObject → JsonObject
  | .nil => d
  | .cons key value rest => (d.set key value).update rest

/-- The JSON value; a JSON number is a decimal fraction. -/
def Setting.json : Setting → Json
  | .null => .null
  | .bool b => .bool b
  | .text s => .str s
  | .num x =>
      let places := ((List.range (x.den + 1)).find? fun k => 10 ^ k % x.den = 0).getD 0
      .num (x.num * (10 ^ places / x.den : Nat)) (-places)
  | .arr elems => .arr elems
  | .obj fields => .obj fields

/-- The value as a number, or the name of a type that is none. -/
def Setting.number : Setting → Except String ℚ
  | .num x => .ok x
  | .bool b => .ok (if b then 1 else 0)
  | .null => .error "NoneType"
  | .text _ => .error "str"
  | .arr _ => .error "list"
  | .obj _ => .error "dict"

/-- How a tool call, or an implementation of the tool, ends. -/
inductive CallOutcome where
  | returned (out : JsonObject)
  /-- An `InfraFailure` or a `PoisonFailure`. -/
  | failed (failure : TaskFailure)
  | raised (typeName message : String)
deriving DecidableEq, Repr

/-- What a call meets: the configuration, `float` of a text (0 for a NaN, which no draw is
below either) or the message of its `ValueError`, the draw of `random.random()`, and what the
two implementations would do. -/
structure ToolCall where
  config : ToolConfig
  float : String → Except String ℚ
  random : ℚ
  mock : CallOutcome
  live : CallOutcome
  ms : Int

abbrev PyError := String × String

/-- `time.sleep(d["latency_ms"] / 1000.0)`, which only mock mode does. -/
def ToolCall.sleep (c : ToolCall) (t : Tool) : Except PyError Unit :=
  if (describe c.config t).mode = .text "mock" then
    match (describe c.config t).latencyMs.number with
    | .error typeName =>
        .error ("TypeError", "unsupported operand type(s) for /: '" ++ typeName ++ "' and 'float'")
    | .ok latency =>
        if latency < 0 then .error ("ValueError", "sleep length must be non-negative")
        else if 2 ^ 63 ≤ latency * 10 ^ 6 then
          .error ("OverflowError", "timestamp too large to convert to C _PyTime_t")
        else .ok ()
  else .ok ()

/-- `float(d["failure_rate"])`. -/
def ToolCall.failureRate (c : ToolCall) (t : Tool) : Except PyError ℚ :=
  match (describe c.config t).failureRate with
  | .text s =>
      match c.float s with
      | .error message => .error ("ValueError", message)
      | .ok rate => .ok rate
  | value =>
      match value.number with
      | .error typeName =>
          .error
            ("TypeError",
              "float() argument must be a string or a real number, not '" ++ typeName ++ "'")
      | .ok rate => .ok rate

/-- What comes before the draw: the rate to draw against, unless an exception comes first. -/
def ToolCall.drawn (c : ToolCall) (t : Tool) : Except PyError ℚ :=
  match c.sleep t with
  | .error e => .error e
  | .ok () => c.failureRate t

/-- `impl(payload)`. -/
def ToolCall.impl (c : ToolCall) (t : Tool) : CallOutcome :=
  if (describe c.config t).mode = .text "live" ∧ t.hasLive then c.live else c.mock

def call (t : Tool) (c : ToolCall) : CallOutcome :=
  match c.drawn t with
  | .error e => .raised e.1 e.2
  | .ok failureRate =>
      if c.random < failureRate then
        .failed ⟨some .infra, some (t.name ++ " unavailable (injected)")⟩
      else
        match c.impl t with
        | .failed failure => .failed failure
        | .raised typeName message =>
            .failed ⟨some .infra, some (t.name ++ ": " ++ typeName ++ ": " ++ message)⟩
        | .returned out =>
            let head : JsonObject :=
              .cons "tool" (.str t.name)
                (.cons "mode" (describe c.config t).mode.json (.cons "ms" (.num c.ms 0) .nil))
            .returned (head.update out)

/-- The draw is a refusal. -/
def ToolCall.refused (c : ToolCall) (t : Tool) : Bool :=
  match c.drawn t with
  | .error _ => false
  | .ok failureRate => c.random < failureRate

/-- The draw is not a refusal, so the implementation is invoked. -/
def ToolCall.admitted (c : ToolCall) (t : Tool) : Bool :=
  match c.drawn t with
  | .error _ => false
  | .ok failureRate => !(c.random < failureRate)

/-- `run` of a task whose body is `return {field: tools.call(name, payload)}`. -/
def singleCall (field : String) (t : Tool) (c : ToolCall) : RunOutcome :=
  match call t c with
  | .returned out => .returned (.dict (.json (.cons field (.obj out) .nil)))
  | .failed failure => .raised failure
  | .raised typeName message => .crashed typeName (some message)

theorem ToolCall.not_refused_of_admitted {t : Tool} {c : ToolCall} (h : c.admitted t = true) :
    c.refused t = false := by
  cases hrate : c.drawn t with
  | error e => simp [ToolCall.admitted, hrate] at h
  | ok failureRate => simp_all [ToolCall.admitted, ToolCall.refused]

/-- An admitted call ends the way the implementation does, and no other call returns. -/
theorem call_returned {t : Tool} {c : ToolCall} :
    (∃ out, call t c = .returned out) ↔ c.admitted t = true ∧ ∃ out, c.impl t = .returned out := by
  cases hrate : c.drawn t with
  | error e => simp [ToolCall.admitted, call, hrate]
  | ok failureRate =>
      by_cases hrefused : c.random < failureRate
      · simp [ToolCall.admitted, call, hrate, hrefused]
      · cases himpl : c.impl t <;> simp [ToolCall.admitted, call, hrate, hrefused, himpl]

theorem singleCall_returned (field : String) {t : Tool} {c : ToolCall}
    (hadmitted : c.admitted t = true) (himpl : ∃ out, c.impl t = .returned out) :
    ∃ fields, singleCall field t c = .returned (.dict (.json fields)) := by
  obtain ⟨out, hout⟩ := call_returned.2 ⟨hadmitted, himpl⟩
  exact ⟨.cons field (.obj out) .nil, by rw [singleCall, hout]⟩

end ReliableAgents
