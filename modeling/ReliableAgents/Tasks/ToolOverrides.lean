import Mathlib.Data.List.Induction
import ReliableAgents.Tasks.Tools

/-!
# The writers of the tool overrides

`POST /chaos/tool` of `api/main.py`, `set_mode` of `tasks/tools.py` and the `tool` command of
`chaos/harness.py` update one JSON document. The first merges into a tool's entry, the other
two put a new entry in its place.
-/

namespace ReliableAgents

/-- The body of `POST /chaos/tool`. -/
structure ToolChaos where
  name : String
  failureRate : Option ℚ := none
  latencyMs : Option Int := none
  mode : Option String := none
deriving DecidableEq, Repr

def ToolChaos.sent (body : ToolChaos) : ToolField → Option Setting
  | .failureRate => body.failureRate.map .num
  | .latencyMs => body.latencyMs.map fun n => .num n
  | .mode => body.mode.map .text

/-- `model_dump(exclude_unset=True, exclude_none=True)`, without the name. -/
def ToolChaos.patch (body : ToolChaos) : ToolEntry :=
  [ToolField.failureRate, .latencyMs, .mode].foldr
    (fun field patch =>
      match body.sent field with
      | none => patch
      | some value => patch.insert field.key value) ∅

/-- What pydantic and the handler check. -/
def ToolChaos.accepted (tools : List Tool) (body : ToolChaos) : Bool :=
  tools.any (fun t => t.name = body.name) &&
    body.failureRate.all (fun rate => 0 ≤ rate && rate ≤ 1) &&
    body.latencyMs.all (fun latency => 0 ≤ latency) &&
    body.mode.all (fun mode => mode = "mock" || mode = "live") &&
    (body.failureRate.isSome || body.latencyMs.isSome || body.mode.isSome)

/-- `SET_TOOL_OVERRIDE_SQL`: `coalesce(value #> [name], '{}') || patch` becomes the entry. -/
def setToolOverrideSql (name : String) (patch : ToolEntry) (overrides : ToolOverrides) :
    ToolOverrides :=
  overrides.insert name (patch ∪ (overrides.lookup name).getD ∅)

/-- `jsonb_set(value, [name], entry, true)`. -/
def replaceEntrySql (name : String) (entry : ToolEntry) (overrides : ToolOverrides) :
    ToolOverrides :=
  overrides.insert name entry

inductive OverrideWrite where
  | chaosTool (body : ToolChaos)
  /-- `set_mode(name, mode)`. -/
  | setMode (name mode : String)
  /-- `chaos.harness tool name failure_rate`. -/
  | toolRate (name : String) (failureRate : ℚ)
deriving DecidableEq, Repr

namespace OverrideWrite

/-- A rejected request writes nothing. -/
def perform (tools : List Tool) (cfg : ToolConfig) : OverrideWrite → ToolConfig
  | .chaosTool body =>
      if body.accepted tools then
        { cfg with overrides := setToolOverrideSql body.name body.patch cfg.overrides }
      else cfg
  | .setMode name mode =>
      { cfg with
        overrides :=
          replaceEntrySql name ((∅ : ToolEntry).insert "mode" (.text mode)) cfg.overrides }
  | .toolRate name failureRate =>
      { cfg with
        overrides :=
          replaceEntrySql name ((∅ : ToolEntry).insert "failure_rate" (.num failureRate))
            cfg.overrides }

def performAll (tools : List Tool) (cfg : ToolConfig) (writes : List OverrideWrite) :
    ToolConfig :=
  writes.foldl (perform tools) cfg

/-- The value a write sets a field of a tool to. -/
def sets (tools : List Tool) (w : OverrideWrite) (name : String) (field : ToolField) :
    Option Setting :=
  match w with
  | .chaosTool body => if body.accepted tools ∧ body.name = name then body.sent field else none
  | .setMode n mode => if n = name ∧ field = .mode then some (.text mode) else none
  | .toolRate n rate => if n = name ∧ field = .failureRate then some (.num rate) else none

/-- The value of the last write that set the field of the tool. -/
def lastSet (tools : List Tool) (writes : List OverrideWrite) (name : String)
    (field : ToolField) : Option Setting :=
  writes.foldl (fun last w => (w.sets tools name field).or last) none

/-- The tool whose whole entry a write replaces. -/
def replaces? : OverrideWrite → Option String
  | .chaosTool _ => none
  | .setMode name _ => some name
  | .toolRate name _ => some name

end OverrideWrite

/-- Last writer wins, field by field, and a write changes nothing that it does not set. -/
structure LastWriterWins (tools : List Tool) (start : ToolConfig) (writes : List OverrideWrite) :
    Prop where
  final : ∀ t ∈ tools, ∀ field,
    effective (OverrideWrite.performAll tools start writes) t field =
      (OverrideWrite.lastSet tools writes t.name field).getD (effective start t field)
  frame : ∀ pre w post, writes = pre ++ w :: post → ∀ t ∈ tools, ∀ field,
    OverrideWrite.sets tools w t.name field = none →
      effective (w.perform tools (OverrideWrite.performAll tools start pre)) t field =
        effective (OverrideWrite.performAll tools start pre) t field

/-! ## What one write does -/

/-- The stored override of a field. -/
def ToolConfig.override (cfg : ToolConfig) (name : String) (field : ToolField) : Option Setting :=
  (cfg.entry name).lookup field.key

theorem effective_eq (cfg : ToolConfig) (t : Tool) (field : ToolField) :
    effective cfg t field = (cfg.override t.name field).getD (t.default cfg field) :=
  rfl

theorem ToolEntry.lookup_insert_key (entry : ToolEntry) (f g : ToolField) (value : Setting) :
    (entry.insert f.key value).lookup g.key = if g = f then some value else entry.lookup g.key := by
  by_cases h : g = f
  · rw [h, if_pos rfl, AList.lookup_insert]
  · rw [if_neg h, AList.lookup_insert_ne fun hkey => h (ToolField.key_injective hkey)]

theorem ToolChaos.lookup_patch (body : ToolChaos) (field : ToolField) :
    body.patch.lookup field.key = body.sent field := by
  have hstep : ∀ (f : ToolField) (entry : ToolEntry),
      (match body.sent f with
        | none => entry
        | some value => entry.insert f.key value).lookup field.key =
          if field = f then (body.sent f).or (entry.lookup field.key)
          else entry.lookup field.key := by
    intro f entry
    cases hsent : body.sent f with
    | none => simp
    | some value => simp [ToolEntry.lookup_insert_key]
  simp only [ToolChaos.patch, List.foldr_cons, List.foldr_nil, hstep]
  cases field <;> simp

theorem lookup_union_or (patch entry : ToolEntry) (key : String) :
    (patch ∪ entry).lookup key = (patch.lookup key).or (entry.lookup key) := by
  by_cases hmem : key ∈ patch
  · rw [AList.lookup_union_left hmem]
    obtain ⟨value, hvalue⟩ := Option.isSome_iff_exists.1 (AList.lookup_isSome.2 hmem)
    rw [hvalue, Option.some_or]
  · rw [AList.lookup_union_right hmem, AList.lookup_eq_none.2 hmem, Option.none_or]

theorem ToolConfig.entry_insert (cfg : ToolConfig) (name other : String) (entry : ToolEntry) :
    ({ cfg with overrides := cfg.overrides.insert name entry } : ToolConfig).entry other =
      if name = other then entry else cfg.entry other := by
  unfold ToolConfig.entry
  by_cases h : name = other
  · rw [if_pos h, ← h, AList.lookup_insert]
    rfl
  · rw [if_neg h, AList.lookup_insert_ne (Ne.symm h)]

section Write

variable {tools : List Tool} {cfg : ToolConfig} {w : OverrideWrite} {t : Tool}
  {field : ToolField}

/-- The override after a write: what it sets, nothing in an entry it replaced, and
otherwise what was there. -/
theorem override_perform (tools : List Tool) (cfg : ToolConfig) (w : OverrideWrite)
    (name : String) (field : ToolField) :
    (w.perform tools cfg).override name field =
      (w.sets tools name field).or
        (if w.replaces? = some name then none else cfg.override name field) := by
  unfold ToolConfig.override
  cases w with
  | chaosTool body =>
      simp only [OverrideWrite.perform, OverrideWrite.sets, OverrideWrite.replaces?, reduceCtorEq,
        if_false]
      by_cases haccepted : body.accepted tools = true
      · rw [if_pos haccepted, setToolOverrideSql, ToolConfig.entry_insert]
        by_cases hname : body.name = name
        · rw [if_pos hname, if_pos ⟨haccepted, hname⟩, lookup_union_or, ToolChaos.lookup_patch,
            ← hname]
          rfl
        · rw [if_neg hname, if_neg fun h => hname h.2, Option.none_or]
      · rw [if_neg haccepted, if_neg fun h => haccepted h.1, Option.none_or]
  | setMode n mode =>
      simp only [OverrideWrite.perform, OverrideWrite.sets, OverrideWrite.replaces?,
        Option.some.injEq, replaceEntrySql, ToolConfig.entry_insert]
      have hkey := ToolEntry.lookup_insert_key ∅ .mode field (.text mode)
      by_cases hname : n = name
      · rw [if_pos hname, if_pos hname, Option.or_none]
        exact hkey.trans (by simp [hname])
      · simp [hname]
  | toolRate n rate =>
      simp only [OverrideWrite.perform, OverrideWrite.sets, OverrideWrite.replaces?,
        Option.some.injEq, replaceEntrySql, ToolConfig.entry_insert]
      have hkey := ToolEntry.lookup_insert_key ∅ .failureRate field (.num rate)
      by_cases hname : n = name
      · rw [if_pos hname, if_pos hname, Option.or_none]
        exact hkey.trans (by simp [hname])
      · simp [hname]

theorem perform_mode (tools : List Tool) (cfg : ToolConfig) (w : OverrideWrite) :
    (w.perform tools cfg).mode = cfg.mode := by
  cases w with
  | chaosTool body =>
      simp only [OverrideWrite.perform]
      split <;> rfl
  | setMode | toolRate => rfl

theorem performAll_mode (tools : List Tool) (cfg : ToolConfig) (writes : List OverrideWrite) :
    (OverrideWrite.performAll tools cfg writes).mode = cfg.mode := by
  induction writes generalizing cfg with
  | nil => rfl
  | cons w rest ih => exact (ih (w.perform tools cfg)).trans (perform_mode tools cfg w)

theorem default_of_mode {cfg cfg' : ToolConfig} (h : cfg'.mode = cfg.mode) (t : Tool)
    (field : ToolField) : t.default cfg' field = t.default cfg field := by
  cases field with
  | mode => exact h
  | failureRate | latencyMs => rfl

/-- A field that a write does not set stays, unless its entry was replaced. -/
theorem effective_perform (hsets : w.sets tools t.name field = none) :
    effective (w.perform tools cfg) t field =
      if w.replaces? = some t.name then t.default cfg field else effective cfg t field := by
  rw [effective_eq, effective_eq, override_perform, hsets, Option.none_or,
    default_of_mode (perform_mode tools cfg w)]
  split <;> rfl

theorem effective_perform_set {value : Setting} (hsets : w.sets tools t.name field = some value) :
    effective (w.perform tools cfg) t field = value := by
  rw [effective_eq, override_perform, hsets]
  rfl

end Write

/-! ## Sequences of writes -/

section Sequence

variable {tools : List Tool} {start : ToolConfig} {writes : List OverrideWrite}

/-- No write puts a new entry in the place of one with an override of another field that
differs from what the field falls back to. -/
def ReplacesNothing (tools : List Tool) (start : ToolConfig) (writes : List OverrideWrite) : Prop :=
  ∀ pre w post, writes = pre ++ w :: post → ∀ t ∈ tools, w.replaces? = some t.name →
    ∀ field, w.sets tools t.name field = none → ∀ value,
      (OverrideWrite.performAll tools start pre).override t.name field = some value →
        value = t.default start field

theorem performAll_concat (w : OverrideWrite) :
    OverrideWrite.performAll tools start (writes ++ [w]) =
      w.perform tools (OverrideWrite.performAll tools start writes) := by
  simp [OverrideWrite.performAll]

theorem lastSet_concat (w : OverrideWrite) (name : String) (field : ToolField) :
    OverrideWrite.lastSet tools (writes ++ [w]) name field =
      (w.sets tools name field).or (OverrideWrite.lastSet tools writes name field) := by
  simp [OverrideWrite.lastSet]

/-- If each write leaves the other fields alone, the last one to set a field decides it. -/
theorem final_of_frame {t : Tool} {field : ToolField}
    (hframe : ∀ pre w post, writes = pre ++ w :: post → w.sets tools t.name field = none →
      effective (w.perform tools (OverrideWrite.performAll tools start pre)) t field =
        effective (OverrideWrite.performAll tools start pre) t field) :
    effective (OverrideWrite.performAll tools start writes) t field =
      (OverrideWrite.lastSet tools writes t.name field).getD (effective start t field) := by
  induction writes using List.reverseRecOn with
  | nil => rfl
  | append_singleton rest w ih =>
      rw [performAll_concat, lastSet_concat]
      cases hsets : w.sets tools t.name field with
      | some value => exact effective_perform_set hsets
      | none =>
          rw [hframe rest w [] rfl hsets, Option.none_or]
          exact ih fun pre v post hcut => hframe pre v (post ++ [w]) (by simp [hcut])

end Sequence

/-- The overrides are last-writer-wins per field exactly while no `set_mode` and no
`tool` command replaces an entry that holds another field's override. -/
theorem last_writer_wins (tools : List Tool) (start : ToolConfig) (writes : List OverrideWrite) :
    LastWriterWins tools start writes ↔ ReplacesNothing tools start writes := by
  have hdefault : ∀ (pre : List OverrideWrite) (t : Tool) (field : ToolField),
      t.default (OverrideWrite.performAll tools start pre) field = t.default start field :=
    fun pre t field => default_of_mode (performAll_mode tools start pre) t field
  constructor
  · intro hwins pre w post hcut t ht hreplaces field hsets value hvalue
    have hsame := hwins.frame pre w post hcut t ht field hsets
    rw [effective_perform hsets, if_pos hreplaces, hdefault, effective_eq, hvalue] at hsame
    exact hsame.symm
  · intro hreplaces
    have hframe : ∀ pre w post, writes = pre ++ w :: post → ∀ t ∈ tools, ∀ field,
        OverrideWrite.sets tools w t.name field = none →
          effective (w.perform tools (OverrideWrite.performAll tools start pre)) t field =
            effective (OverrideWrite.performAll tools start pre) t field := by
      intro pre w post hcut t ht field hsets
      rw [effective_perform hsets]
      by_cases hname : w.replaces? = some t.name
      · rw [if_pos hname, effective_eq]
        cases hvalue : (OverrideWrite.performAll tools start pre).override t.name field with
        | none => rfl
        | some value =>
            rw [hdefault]
            exact (hreplaces pre w post hcut t ht hname field hsets value hvalue).symm
      · rw [if_neg hname]
    refine ⟨fun t ht field => final_of_frame ?_, hframe⟩
    intro pre w post hcut
    exact hframe pre w post hcut t ht field

/-- A fault is injected into github, and then the demo switches it to live. -/
def faultThenLive : List OverrideWrite :=
  [.chaosTool { name := "github", failureRate := some 1 }, .setMode "github" "live"]

theorem last_writer_wins_faultThenLive :
    ¬ LastWriterWins registeredTools ⟨∅, .text "mock"⟩ faultThenLive := by
  intro hwins
  have hfinal := hwins.final
    { name := "github", latencyMs := 300, failureRate := 2 / 100, hasLive := true }
    (by simp [registeredTools]) .failureRate
  exact absurd hfinal (by decide +kernel)

end ReliableAgents
