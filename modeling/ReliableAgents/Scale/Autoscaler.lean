import ReliableAgents.Machine.Run
import Mathlib.Algebra.Order.Ring.Rat
import Mathlib.Data.List.Basic
import Mathlib.Tactic.Linarith

/-!
# The autoscaler

`scale/autoscaler.py`: one decision a tick, on what it observes and the time of its last
scale-in. Seconds are rationals; the interval and the service name play no part in a decision.
-/

namespace ReliableAgents

namespace Autoscaler

/-- `cfg`, with the values of `DEFAULTS`. -/
structure Options where
  perAgent : Int := 10
  minReplicas : Int := 1
  maxReplicas : Int := 10
  cooldownDown : ℚ := 30
deriving DecidableEq, Repr

/-- What one tick reads: the clock, the two queries and the running containers. -/
structure Observed where
  now : ℚ
  agents : Nat
  backlog : Nat
  replicas : Nat
deriving DecidableEq, Repr

/-- The fields of an `Autoscaler`. -/
structure Scaler where
  lastScaleDown : ℚ := 0
  current : Option Nat := none
deriving DecidableEq, Repr

/-- `desired_replicas`: `none` when the ratio divides by zero. -/
def desiredReplicas (cfg : Options) (agents backlog : Nat) : Option Int :=
  let ratio :=
    if agents = 0 then some 0
    else if cfg.perAgent = 0 then none
    else some ((agents : ℚ) / cfg.perAgent).ceil
  ratio.map fun wanted =>
    let wanted := max cfg.minReplicas wanted
    let wanted := if 0 < backlog then max wanted (((backlog : ℚ) / 50).ceil + 1) else wanted
    min wanted cfg.maxReplicas

/-- `apply`, with the count it scales to: `none` when it returns `False`. -/
def apply (cfg : Options) (replicas : Int) (current : Nat) (now : ℚ) (s : Scaler) :
    Scaler × Option Int :=
  if replicas = current then ({ s with current := some current }, none)
  else if replicas < current then
    if now - s.lastScaleDown < cfg.cooldownDown then ({ s with current := some current }, none)
    else ({ lastScaleDown := now, current := some current }, some replicas)
  else ({ s with current := some current }, some replicas)

structure Report where
  agents : Nat
  backlog : Nat
  replicas : Option Nat
  desired : Int
  changed : Bool
  capped : Bool
deriving DecidableEq, Repr

def tick (cfg : Options) (o : Observed) (s : Scaler) : Option (Scaler × Report) :=
  (desiredReplicas cfg o.agents o.backlog).map fun want =>
    let applied := apply cfg want o.replicas o.now s
    (applied.1,
      { agents := o.agents
        backlog := o.backlog
        replicas := applied.1.current
        desired := want
        changed := applied.2.isSome
        capped := want = cfg.maxReplicas })

/-- One turn of `run`: a tick that raises is logged and leaves the scaler as it was. -/
def step (cfg : Options) (s : Scaler) (o : Observed) : Option Scaler :=
  match tick cfg o s with
  | none => some s
  | some ticked => some ticked.1

end Autoscaler

open Autoscaler

abbrev ScalerTransition := Machine.Transition Scaler Observed

abbrev ScalerRun (cfg : Options) (ts : List ScalerTransition) (s : Scaler) : Prop :=
  Machine.Run (Autoscaler.step cfg) {} ts s

def Scaler.applies (cfg : Options) (s : Scaler) (o : Observed) : Option Int :=
  (desiredReplicas cfg o.agents o.backlog).bind fun want => (apply cfg want o.replicas o.now s).2

/-- The desired count is below the current one. -/
def Lull (cfg : Options) (o : Observed) : Prop :=
  ∃ want, desiredReplicas cfg o.agents o.backlog = some want ∧ want < o.replicas

def ScalesIn (cfg : Options) (c : ScalerTransition) : Prop :=
  ∃ count, Scaler.applies cfg c.before c.action = some count ∧ count < c.action.replicas

/-- At every tick of the preceding `cooldown_down` seconds, and for at least that long, the
desired count has been below the current one. -/
structure LullPersisted (cfg : Options) (past : List Observed) (o : Observed) : Prop where
  window : ∀ u ∈ past, o.now - cfg.cooldownDown ≤ u.now → Lull cfg u
  span : ∃ pre first rest, past ++ [o] = pre ++ first :: rest ∧
    first.now ≤ o.now - cfg.cooldownDown ∧ ∀ u ∈ first :: rest, Lull cfg u

/-- Scale-in waits out the lull, and scale-out is never delayed. -/
structure WaitsOutLulls (cfg : Options) (ts : List ScalerTransition) : Prop where
  scaleIn : ∀ pre c post, ts = pre ++ c :: post → ScalesIn cfg c →
    LullPersisted cfg (pre.map Machine.Transition.action) c.action
  scaleOut : ∀ c ∈ ts, ∀ want, desiredReplicas cfg c.action.agents c.action.backlog = some want →
    c.action.replicas < want → Scaler.applies cfg c.before c.action = some want

section Decision

variable {cfg : Options} {s s' : Scaler} {o : Observed} {ts : List ScalerTransition}

/-- A tick scales in when there is a lull and the last scale-in is a cooldown ago. -/
theorem scalesIn_iff {c : ScalerTransition} :
    ScalesIn cfg c ↔
      Lull cfg c.action ∧ ¬ c.action.now - c.before.lastScaleDown < cfg.cooldownDown := by
  unfold ScalesIn Lull Scaler.applies
  cases hwant : desiredReplicas cfg c.action.agents c.action.backlog with
  | none => simp
  | some want =>
      simp only [Option.bind_some, Option.some.injEq, exists_eq_left']
      unfold apply
      by_cases heq : want = c.action.replicas
      · simp [heq]
      · by_cases hlt : want < c.action.replicas
        · by_cases hcool : c.action.now - c.before.lastScaleDown < cfg.cooldownDown
          · simp [heq, hlt, hcool]
          · simp [heq, hlt, hcool]
        · simp [heq, hlt]

theorem scaleOut_applies {want : Int}
    (hwant : desiredReplicas cfg o.agents o.backlog = some want) (hmore : o.replicas < want) :
    Scaler.applies cfg s o = some want := by
  have hne : want ≠ o.replicas := by omega
  have hnot : ¬ want < o.replicas := by omega
  simp [Scaler.applies, hwant, apply, hne, hnot]

theorem step_lastScaleDown (h : Autoscaler.step cfg s o = some s') :
    s'.lastScaleDown = s.lastScaleDown ∨
      ScalesIn cfg ⟨s, o, s'⟩ ∧ s'.lastScaleDown = o.now := by
  unfold Autoscaler.step tick at h
  cases hwant : desiredReplicas cfg o.agents o.backlog with
  | none =>
      simp only [hwant, Option.map_none, Option.some.injEq] at h
      exact Or.inl (by rw [h])
  | some want =>
      simp only [hwant, Option.map_some, Option.some.injEq] at h
      rw [scalesIn_iff, ← h, apply]
      split
      · exact Or.inl rfl
      · split
        · rename_i hless
          split
          · exact Or.inl rfl
          · rename_i hcool
            exact Or.inr ⟨⟨⟨want, hwant, hless⟩, hcool⟩, rfl⟩
        · exact Or.inl rfl

theorem ScalerRun.lastScaleDown (h : ScalerRun cfg ts s) (hlulls : ∀ c ∈ ts, ¬ Lull cfg c.action) :
    s.lastScaleDown = 0 := by
  refine h.invariant_of (I := fun u => u.lastScaleDown = 0) (fun c => ¬ Lull cfg c.action) rfl
    (fun u o u' hu hstep hlull => ?_) hlulls
  rcases step_lastScaleDown hstep with hsame | ⟨hscales, -⟩
  · exact hsame.trans hu
  · exact absurd (scalesIn_iff.1 hscales).1 hlull

/-- The first lull of a run ends in a scale-in at its first tick. -/
theorem first_lull_scalesIn {pre post : List ScalerTransition} {c : ScalerTransition}
    (h : ScalerRun cfg ts s) (hcut : ts = pre ++ c :: post)
    (hpre : ∀ d ∈ pre, ¬ Lull cfg d.action) (hlull : Lull cfg c.action)
    (hclock : cfg.cooldownDown ≤ c.action.now) : ScalesIn cfg c := by
  subst hcut
  obtain ⟨hrun, -, -⟩ := h.split
  have hlast := ScalerRun.lastScaleDown hrun hpre
  refine scalesIn_iff.2 ⟨hlull, ?_⟩
  rw [hlast]
  linarith

theorem not_persisted_of_first {past : List Observed} (hpast : ∀ u ∈ past, ¬ Lull cfg u)
    (hcooldown : 0 < cfg.cooldownDown) : ¬ LullPersisted cfg past o := by
  rintro ⟨-, pre, first, rest, hcut, hold, hall⟩
  have hlull := hall first List.mem_cons_self
  have hmem : first ∈ past ++ [o] := hcut ▸ by simp
  rcases List.mem_append.1 hmem with hin | hlast
  · exact hpast first hin hlull
  · rw [List.mem_singleton.1 hlast] at hold
    linarith

end Decision

/-- From a clock of one cooldown on, a tick finds only lulls that have persisted. -/
def OldLulls (cfg : Options) (ts : List ScalerTransition) : Prop :=
  ∀ pre c post, ts = pre ++ c :: post → Lull cfg c.action → cfg.cooldownDown ≤ c.action.now →
    LullPersisted cfg (pre.map Machine.Transition.action) c.action

section Runs

variable {cfg : Options} {ts : List ScalerTransition} {s : Scaler}

/-- Without a cooldown every lull has persisted. -/
theorem persisted_of_negative {past : List Observed} {o : Observed} (hcooldown : cfg.cooldownDown < 0)
    (hclock : ∀ u ∈ past, u.now ≤ o.now) (hlull : Lull cfg o) : LullPersisted cfg past o := by
  refine ⟨fun u hu hwindow => ?_, past, o, [], rfl, by linarith, by simpa using hlull⟩
  have hle := hclock u hu
  linarith

theorem ScalerRun.lastScaleDown_nonneg (h : ScalerRun cfg ts s) (hcooldown : 0 ≤ cfg.cooldownDown) :
    0 ≤ s.lastScaleDown := by
  refine h.invariant (I := fun u => 0 ≤ u.lastScaleDown) le_rfl fun u o u' hu hstep => ?_
  rcases step_lastScaleDown hstep with hsame | ⟨hscales, hnow⟩
  · exact hsame ▸ hu
  · obtain ⟨-, hcool⟩ := scalesIn_iff.1 hscales
    dsimp only at hcool
    linarith

/-- The cooldown runs from the start of the clock or from a scale-in. -/
theorem ScalerRun.lastScaleDown_eq (h : ScalerRun cfg ts s) :
    s.lastScaleDown = 0 ∨ ∃ pre c post, ts = pre ++ c :: post ∧ ScalesIn cfg c ∧
      s.lastScaleDown = c.action.now := by
  refine h.invariant_along (I := fun us u => u.lastScaleDown = 0 ∨ ∃ pre c post,
    us = pre ++ c :: post ∧ ScalesIn cfg c ∧ u.lastScaleDown = c.action.now) (fun _ => True)
    (Or.inl rfl) (fun us u o u' _ _ hI hstep _ => ?_) fun _ _ => trivial
  rcases step_lastScaleDown hstep with hsame | ⟨hscales, hnow⟩
  · rw [hsame]
    refine hI.imp_right ?_
    rintro ⟨pre, c, post, rfl, hscales, hlast⟩
    exact ⟨pre, c, post ++ [⟨u, o, u'⟩], by simp, hscales, hlast⟩
  · exact Or.inr ⟨us, ⟨u, o, u'⟩, [], rfl, hscales, hnow⟩

/-- It is enough that no young lull is found one cooldown after the clock starts. -/
theorem waits_of_oldLulls (h : ScalerRun cfg ts s)
    (hclock : ts.Pairwise fun c d => c.action.now ≤ d.action.now) (hold : OldLulls cfg ts) :
    WaitsOutLulls cfg ts := by
  refine ⟨fun pre c post hcut hscales => ?_, fun c _ want hwant => scaleOut_applies hwant⟩
  obtain ⟨hlull, hcool⟩ := scalesIn_iff.1 hscales
  rcases lt_or_ge cfg.cooldownDown 0 with hnegative | hcooldown
  · refine persisted_of_negative hnegative (fun u hu => ?_) hlull
    obtain ⟨d, hd, rfl⟩ := List.mem_map.1 hu
    subst hcut
    exact (List.pairwise_append.1 hclock).2.2 d hd c List.mem_cons_self
  · refine hold pre c post hcut hlull ?_
    subst hcut
    have hlast := ScalerRun.lastScaleDown_nonneg h.split.1 hcooldown
    linarith

/-- A young lull that is let pass falls in the cooldown after an older one. -/
theorem WaitsOutLulls.young (h : ScalerRun cfg ts s) (hwaits : WaitsOutLulls cfg ts)
    {pre post : List ScalerTransition} {c : ScalerTransition} (hcut : ts = pre ++ c :: post)
    (hlull : Lull cfg c.action) (hclock : cfg.cooldownDown ≤ c.action.now)
    (hyoung : ¬ LullPersisted cfg (pre.map Machine.Transition.action) c.action) :
    ∃ pre' d post', pre = pre' ++ d :: post' ∧ Lull cfg d.action ∧
      LullPersisted cfg (pre'.map Machine.Transition.action) d.action ∧
      c.action.now - d.action.now < cfg.cooldownDown := by
  have hcool : c.action.now - c.before.lastScaleDown < cfg.cooldownDown := by
    by_contra hcool
    exact hyoung (hwaits.scaleIn pre c post hcut (scalesIn_iff.2 ⟨hlull, hcool⟩))
  subst hcut
  rcases ScalerRun.lastScaleDown_eq h.split.1 with hzero | ⟨pre', d, post', rfl, hscales, hlast⟩
  · rw [hzero] at hcool
    linarith
  · refine ⟨pre', d, post', rfl, (scalesIn_iff.1 hscales).1, ?_, hlast ▸ hcool⟩
    exact hwaits.scaleIn pre' d (post' ++ c :: post) (by simp) hscales

/-- Once every tick is a cooldown after the start of the clock, the first lull is cut. -/
theorem waits_iff_no_lull (h : ScalerRun cfg ts s) (hcooldown : 0 < cfg.cooldownDown)
    (hclock : ∀ c ∈ ts, cfg.cooldownDown ≤ c.action.now) :
    WaitsOutLulls cfg ts ↔ ∀ c ∈ ts, ¬ Lull cfg c.action := by
  constructor
  · intro hwaits
    by_contra hlulls
    push Not at hlulls
    obtain ⟨c, hc, hlull⟩ := hlulls
    obtain ⟨pre, d, post, hcut, hd, hpre⟩ :=
      Machine.exists_first (p := fun c : ScalerTransition => Lull cfg c.action) hc hlull
    have hscales := first_lull_scalesIn h hcut hpre hd (hclock d (by simp [hcut]))
    refine not_persisted_of_first (fun u hu => ?_) hcooldown
      (hwaits.scaleIn pre d post hcut hscales)
    obtain ⟨e, he, rfl⟩ := List.mem_map.1 hu
    exact hpre e he
  · intro hnone
    refine ⟨fun pre c post hcut hscales => ?_, fun c _ want hwant => scaleOut_applies hwant⟩
    exact absurd (scalesIn_iff.1 hscales).1 (hnone c (by simp [hcut]))

/-- The autoscaler keeps to its rule if, from one cooldown after the start of the clock on, it
finds no young lull; it lets one pass only in the cooldown after an older one. Where every
tick is that late, it keeps to the rule exactly if it finds no lull. -/
theorem autoscaler_lulls (h : ScalerRun cfg ts s)
    (hclock : ts.Pairwise fun c d => c.action.now ≤ d.action.now) :
    (OldLulls cfg ts → WaitsOutLulls cfg ts) ∧
      (WaitsOutLulls cfg ts → ∀ pre c post, ts = pre ++ c :: post → Lull cfg c.action →
        cfg.cooldownDown ≤ c.action.now →
        ¬ LullPersisted cfg (pre.map Machine.Transition.action) c.action →
          ∃ pre' d post', pre = pre' ++ d :: post' ∧ Lull cfg d.action ∧
            LullPersisted cfg (pre'.map Machine.Transition.action) d.action ∧
            c.action.now - d.action.now < cfg.cooldownDown) ∧
      (0 < cfg.cooldownDown → (∀ c ∈ ts, cfg.cooldownDown ≤ c.action.now) →
        (WaitsOutLulls cfg ts ↔ ∀ c ∈ ts, ¬ Lull cfg c.action)) :=
  ⟨waits_of_oldLulls h hclock, fun hwaits _ _ _ hcut => hwaits.young h hcut,
    waits_iff_no_lull h⟩

end Runs

/-- Six agents on ten replicas from the start of the clock, then a burst of a hundred. -/
def longLull : List Observed :=
  [⟨0, 6, 0, 10⟩, ⟨10, 6, 0, 10⟩, ⟨20, 6, 0, 10⟩, ⟨30, 6, 0, 10⟩, ⟨35, 100, 0, 1⟩]

theorem autoscaler_lulls_longLull :
    ((Machine.performed (Autoscaler.step {}) {} longLull).1.map fun c =>
        Scaler.applies {} c.before c.action) = [none, none, none, some 1, some 10] ∧
      WaitsOutLulls {} (Machine.performed (Autoscaler.step {}) {} longLull).1 := by
  have hinputs : (Machine.performed (Autoscaler.step {}) {} longLull).1.map
      Machine.Transition.action = longLull := by
    decide +kernel
  have hfew : desiredReplicas {} 6 0 = some 1 := by decide +kernel
  have hlull : ∀ n : ℚ, Lull {} ⟨n, 6, 0, 10⟩ := fun n => ⟨1, hfew, by simp⟩
  have hburst : desiredReplicas {} 100 0 = some 10 := by decide +kernel
  refine ⟨by decide +kernel,
    (autoscaler_lulls (Machine.run_performed _ _ _) (by decide +kernel)).1 ?_⟩
  intro pre c post hcut ⟨want, hwant, hless⟩ hlate
  rw [hcut, List.map_append, List.map_cons] at hinputs
  -- only the tick at 30 seconds finds a lull that late
  have hc : c.action = ⟨30, 6, 0, 10⟩ := by
    have hmem : c.action ∈ longLull := hinputs ▸ by simp
    simp only [longLull, List.mem_cons, List.not_mem_nil, or_false] at hmem
    rcases hmem with h | h | h | h | h
    · rw [h] at hlate
      exact absurd hlate (by decide +kernel)
    · rw [h] at hlate
      exact absurd hlate (by decide +kernel)
    · rw [h] at hlate
      exact absurd hlate (by decide +kernel)
    · exact h
    · rw [h, hburst, Option.some.injEq] at hwant
      rw [h, ← hwant] at hless
      exact absurd hless (by decide)
  rw [hc] at hinputs ⊢
  have hsplit : longLull.take 3 ++ ⟨30, 6, 0, 10⟩ :: longLull.drop 4 =
      pre.map Machine.Transition.action ++ ⟨30, 6, 0, 10⟩ ::
        post.map Machine.Transition.action := hinputs.symm
  obtain ⟨hpre, -, -⟩ := (List.append_cons_inj_of_notMem (by decide +kernel)
    (by decide +kernel)).1 hsplit
  rw [← hpre]
  refine ⟨fun u hu _ => ?_, [], ⟨0, 6, 0, 10⟩, (longLull.take 4).drop 1, rfl, by decide +kernel, ?_⟩
  · simp only [longLull, List.take_succ_cons, List.take_zero, List.mem_cons, List.not_mem_nil,
      or_false] at hu
    rcases hu with rfl | rfl | rfl <;> exact hlull _
  · simp [longLull, hlull]

/-- A burst of a hundred agents, and the first tick that sees fewer. -/
def burstThenLull : List Observed := [⟨100, 100, 0, 10⟩, ⟨105, 10, 0, 10⟩]

theorem autoscaler_lulls_burst :
    ∃ ts s, ScalerRun {} ts s ∧ (ts.map fun c => Scaler.applies {} c.before c.action) =
        [none, some 1] ∧ ¬ WaitsOutLulls {} ts := by
  refine ⟨_, _, Machine.run_performed (Autoscaler.step {}) {} burstThenLull, by decide +kernel,
    fun hwaits => ?_⟩
  have hscales := hwaits.scaleIn [_] _ [] rfl ⟨1, by decide +kernel, by decide⟩
  obtain ⟨want, hwant, hless⟩ := hscales.window ⟨100, 100, 0, 10⟩ (by simp) (by decide +kernel)
  have hten : desiredReplicas {} 100 0 = some 10 := by decide +kernel
  rw [hten, Option.some.injEq] at hwant
  rw [← hwant] at hless
  exact absurd hless (by decide)

end ReliableAgents
