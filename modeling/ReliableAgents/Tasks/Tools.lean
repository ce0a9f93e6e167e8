import Mathlib.Algebra.Order.Ring.Rat
import Mathlib.Data.List.AList
import ReliableAgents.Common.Protocol

/-!
# The tool layer

`tasks/tools.py`: the registered tools, the two configuration rows that every call reads,
and what `describe` makes of them. An override document is a JSON object of JSON objects.
-/

namespace ReliableAgents

/-- A JSON value of an override. -/
inductive Setting where
  | null
  | bool (b : Bool)
  | num (x : ℚ)
  | text (s : String)
  | arr (elems : JsonArray)
  | obj (fields : JsonObject)
deriving DecidableEq, Repr

structure Tool where
  name : String
  hasLive : Bool := false
  latencyMs : ℚ := 200
  failureRate : ℚ := 0
  sideEffecting : Bool := false
deriving DecidableEq, Repr

/-- `TOOLS`, in the order of registration. -/
def registeredTools : List Tool :=
  [{ name := "logs", latencyMs := 800, failureRate := 5 / 100 },
    { name := "github", latencyMs := 300, failureRate := 2 / 100, hasLive := true },
    { name := "jira", latencyMs := 500, failureRate := 10 / 100, sideEffecting := true },
    { name := "http", latencyMs := 250, failureRate := 3 / 100, hasLive := true },
    { name := "files", latencyMs := 120, failureRate := 1 / 100, hasLive := true },
    { name := "shell", latencyMs := 150, failureRate := 2 / 100, hasLive := true },
    { name := "metrics_db", latencyMs := 400, failureRate := 4 / 100, hasLive := true },
    { name := "slack", latencyMs := 250, failureRate := 5 / 100, sideEffecting := true },
    { name := "pagerduty", latencyMs := 350, failureRate := 6 / 100, sideEffecting := true }]

/-- The fields that an override can set, under their JSON keys. -/
inductive ToolField where
  | failureRate
  | latencyMs
  | mode
deriving DecidableEq, Repr

def ToolField.key : ToolField → String
  | .failureRate => "failure_rate"
  | .latencyMs => "latency_ms"
  | .mode => "mode"

theorem ToolField.key_injective : Function.Injective ToolField.key := by
  intro f g h
  cases f <;> cases g <;> simp_all [ToolField.key]

abbrev ToolEntry := AList fun _ : String => Setting
abbrev ToolOverrides := AList fun _ : String => ToolEntry

/-- What `_config` reads: `tool_overrides`, and `tool_mode` with its default. -/
structure ToolConfig where
  overrides : ToolOverrides
  mode : Setting := .text "mock"

/-- `cfg["overrides"].get(name, {})`. -/
def ToolConfig.entry (cfg : ToolConfig) (name : String) : ToolEntry :=
  (cfg.overrides.lookup name).getD ∅

/-- What a field falls back to without an override. -/
def Tool.default (t : Tool) (cfg : ToolConfig) : ToolField → Setting
  | .failureRate => .num t.failureRate
  | .latencyMs => .num t.latencyMs
  | .mode => cfg.mode

/-- `ov.get(field, default)`. -/
def effective (cfg : ToolConfig) (t : Tool) (field : ToolField) : Setting :=
  ((cfg.entry t.name).lookup field.key).getD (t.default cfg field)

structure ToolDescription where
  name : String
  mode : Setting
  hasLive : Bool
  latencyMs : Setting
  failureRate : Setting
  sideEffecting : Bool
deriving DecidableEq, Repr

def describe (cfg : ToolConfig) (t : Tool) : ToolDescription where
  name := t.name
  mode :=
    let mode := effective cfg t .mode
    if mode = .text "mock" ∨ t.hasLive then mode else .text "mock"
  hasLive := t.hasLive
  latencyMs := effective cfg t .latencyMs
  failureRate := effective cfg t .failureRate
  sideEffecting := t.sideEffecting

end ReliableAgents
