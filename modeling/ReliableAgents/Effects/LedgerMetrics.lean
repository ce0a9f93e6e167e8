import ReliableAgents.Common.Metrics
import ReliableAgents.Deployment
import ReliableAgents.Effects.AtMostOnce

/-!
# The ledger's metrics

The snapshot tells a settled id from a reconciled one by a marker in the stored result. The
result of a settled id is the task's own, so the two can look the same.
-/

namespace ReliableAgents

open Relational

/-! ## What happened to an id -/

def ClosesId (c : SysTransition) (key : ActionId) : Prop :=
  (∃ r, c.before.db.reservation key = some r ∧ r.state = .inFlight) ∧
    ∃ r, c.after.db.reservation key = some r ∧ r.state = .done

def SettlesId (c : SysTransition) (key : ActionId) (fields : JsonObject) : Prop :=
  ClosesId c key ∧ ∃ now, Settles c.before c.action key fields now

def ReconcilesId (c : SysTransition) (key : ActionId) : Prop :=
  ClosesId c key ∧
    ∃ afterSeconds batch now locked, c.action = .reconcile afterSeconds batch now locked

def SettledIn (ts : List SysTransition) (key : ActionId) : Prop :=
  ∃ c ∈ ts, ∃ fields, SettlesId c key fields

def ReconciledIn (ts : List SysTransition) (key : ActionId) : Prop :=
  ∃ c ∈ ts, ReconcilesId c key

def Overdue (leaseTtlSeconds : Int) (now : Time) (db : Db) (key : ActionId) : Prop :=
  ∃ r, db.reservation key = some r ∧ r.state = .inFlight ∧
    r.createdAt < now - seconds leaseTtlSeconds

/-! ## What the snapshot counts -/

namespace Metrics

def countsGuarded (r : Reservation) : Bool := r.state = .done && !unresolvedResult r

def countsPrevented (ttlSeconds : Int) (now : Time) (r : Reservation) : Bool :=
  (r.state = .done && unresolvedResult r) ||
    (r.state = .inFlight && r.createdAt < now - seconds ttlSeconds)

theorem snapshot_idempotency {ladder : Ladder} {leaseTtlSeconds : Int} {now : Time} {db : Db}
    {m : Snapshot} (h : snapshot ladder leaseTtlSeconds now db = some m) :
    m.idempotency.actionsGuarded =
        Set.ncard {k | ∃ r, db.reservation k = some r ∧ countsGuarded r = true} ∧
      m.idempotency.duplicatesPrevented =
        Set.ncard {k | ∃ r, db.reservation k = some r ∧
          countsPrevented leaseTtlSeconds now r = true} := by
  unfold snapshot at h
  split at h
  · cases h
    exact ⟨Table.count_eq_ncard _ _, Table.count_eq_ncard _ _⟩
  · cases h

end Metrics

/-- The two numbers say what happened: no id is counted twice, and none that was settled
is counted as a prevented duplicate. -/
structure HonestMetrics (ts : List SysTransition) (leaseTtlSeconds : Int) (now : Time) (db : Db)
    (counted : Metrics.Idempotency) : Prop where
  guarded : counted.actionsGuarded = Set.ncard {k | SettledIn ts k}
  prevented : counted.duplicatesPrevented =
    Set.ncard {k | ReconciledIn ts k} + Set.ncard {k | Overdue leaseTtlSeconds now db k}
  once : ∀ k r, db.reservation k = some r → Metrics.countsGuarded r = true →
    Metrics.countsPrevented leaseTtlSeconds now r = false
  settled : ∀ k r, SettledIn ts k → db.reservation k = some r →
    Metrics.countsPrevented leaseTtlSeconds now r = false

/-! ## The ledger and its history -/

section History

variable {cfg : Config} {ts : List SysTransition} {s : Sys} {key : ActionId}

theorem Settles.unique {a : Action} {fields fields' : JsonObject} {now now' : Time}
    (h : Settles s a key fields now) (h' : Settles s a key fields' now') : fields' = fields := by
  rcases h with ⟨p, task, started, rfl, hphase⟩ | rfl
  · rcases h' with ⟨q, task', started', haction, hphase'⟩ | haction
    · cases haction
      rw [hphase] at hphase'
      cases hphase'
      rfl
    · cases haction
  · rcases h' with ⟨q, task', started', haction, hphase'⟩ | haction
    · cases haction
    · cases haction
      rfl

theorem Settles.not_reconcile {a : Action} {fields : JsonObject} {now : Time}
    (h : Settles s a key fields now) {afterSeconds : Option Int} {batch : Nat} {later : Time}
    {locked : ActionId → Bool} : a ≠ .reconcile afterSeconds batch later locked := by
  rintro rfl
  rcases h with ⟨p, task, started, haction, -⟩ | haction <;> cases haction

theorem ClosesId.result {c : SysTransition} (h : ClosesId c key)
    (hstep : step cfg c.before c.action = some c.after) :
    (∃ fields r, SettlesId c key fields ∧ c.after.db.reservation key = some r ∧
        r.state = .done ∧ r.result = some fields) ∨
      (ReconcilesId c key ∧ ∃ r, c.after.db.reservation key = some r ∧ r.state = .done ∧
        r.result = some Ledger.unresolved) := by
  obtain ⟨r, hr, hopen⟩ := h.1
  obtain ⟨r', hr', hdone⟩ := h.2
  have hres := step_reservation hstep key
  rw [hr, hr'] at hres
  generalize hr₂ : some r' = after at hres
  cases hres with
  | keep =>
      cases hr₂
      rw [hopen] at hdone
      cases hdone
  | settle hsettles _ =>
      cases hr₂
      exact Or.inl ⟨_, _, ⟨h, _, hsettles⟩, hr', rfl, rfl⟩
  | release _ _ => cases hr₂
  | reconcile haction _ _ _ =>
      cases hr₂
      exact Or.inr ⟨⟨h, _, _, _, _, haction⟩, _, hr', rfl, rfl⟩

/-- A closed reservation was closed once, and has kept the result it was closed with. -/
structure ClosedOnce (ts : List SysTransition) (db : Db) (key : ActionId) : Prop where
  settled : ∀ c ∈ ts, ∀ fields, SettlesId c key fields →
    ∃ r, db.reservation key = some r ∧ r.state = .done ∧ r.result = some fields
  reconciled : ReconciledIn ts key →
    ∃ r, db.reservation key = some r ∧ r.state = .done ∧ r.result = some Ledger.unresolved
  closed : ∀ r, db.reservation key = some r → r.state = .done →
    SettledIn ts key ∨ ReconciledIn ts key
  exclusive : ¬ (SettledIn ts key ∧ ReconciledIn ts key)

theorem ClosedOnce.step {c : SysTransition} (h : ClosedOnce ts c.before.db key)
    (hstep : step cfg c.before c.action = some c.after) :
    ClosedOnce (ts ++ [c]) c.after.db key := by
  -- an id that was closed before this transition is not closed by it
  have fresh : ∀ {r}, c.before.db.reservation key = some r → r.state = .done →
      ¬ ClosesId c key := by
    rintro r hr hdone ⟨⟨r', hr', hopen⟩, -⟩
    rw [hr, Option.some.injEq] at hr'
    rw [← hr', hdone] at hopen
    cases hopen
  have stays : ∀ {r}, c.before.db.reservation key = some r → r.state = .done →
      c.after.db.reservation key = some r := by
    intro r hr hdone
    have hres := step_reservation hstep key
    rw [hr] at hres
    exact hres.closed hdone
  constructor
  · intro d hd fields hsettles
    rcases List.mem_append.1 hd with hold | hnew
    · obtain ⟨r, hr, hdone, hresult⟩ := h.settled d hold fields hsettles
      exact ⟨r, stays hr hdone, hdone, hresult⟩
    · rw [List.mem_singleton.1 hnew] at hsettles
      obtain ⟨hcloses, now, hcall⟩ := hsettles
      rcases hcloses.result hstep with ⟨fields', r, ⟨-, now', hcall'⟩, hr, hdone, hresult⟩ | hrec
      · exact ⟨r, hr, hdone, hcall.unique hcall' ▸ hresult⟩
      · obtain ⟨⟨-, _, _, _, _, haction⟩, -⟩ := hrec
        exact absurd haction hcall.not_reconcile
  · rintro ⟨d, hd, hreconciles⟩
    rcases List.mem_append.1 hd with hold | hnew
    · obtain ⟨r, hr, hdone, hresult⟩ := h.reconciled ⟨d, hold, hreconciles⟩
      exact ⟨r, stays hr hdone, hdone, hresult⟩
    · rw [List.mem_singleton.1 hnew] at hreconciles
      obtain ⟨hcloses, _, _, _, _, haction⟩ := hreconciles
      rcases hcloses.result hstep with ⟨_, _, ⟨-, now, hcall⟩, -⟩ | ⟨-, hafter⟩
      · exact absurd haction hcall.not_reconcile
      · exact hafter
  · intro r hr hdone
    have later : SettledIn ts key ∨ ReconciledIn ts key →
        SettledIn (ts ++ [c]) key ∨ ReconciledIn (ts ++ [c]) key := by
      rintro (⟨d, hd, hsettles⟩ | ⟨d, hd, hreconciles⟩)
      · exact Or.inl ⟨d, List.mem_append_left _ hd, hsettles⟩
      · exact Or.inr ⟨d, List.mem_append_left _ hd, hreconciles⟩
    have hres := step_reservation hstep key
    cases hbefore : c.before.db.reservation key with
    | none =>
        rw [hbefore, hr] at hres
        generalize hafter : some r = after at hres
        cases hres with
        | keep => cases hafter
        | reserve _ _ _ =>
            cases hafter
            cases hdone
    | some r₀ =>
        cases hstate : r₀.state with
        | done => exact later (h.closed r₀ hbefore hstate)
        | inFlight =>
            have hcloses : ClosesId c key := ⟨⟨r₀, hbefore, hstate⟩, r, hr, hdone⟩
            rcases hcloses.result hstep with ⟨fields, _, hsettles, -⟩ | ⟨hreconciles, -⟩
            · exact Or.inl ⟨c, by simp, fields, hsettles⟩
            · exact Or.inr ⟨c, by simp, hreconciles⟩
  · rintro ⟨⟨d, hd, fields, hsettles⟩, e, he, hreconciles⟩
    rcases List.mem_append.1 hd with hold | hnew
    · rcases List.mem_append.1 he with hold' | hnew'
      · exact h.exclusive ⟨⟨d, hold, fields, hsettles⟩, e, hold', hreconciles⟩
      · obtain ⟨r, hr, hdone, -⟩ := h.settled d hold fields hsettles
        exact fresh hr hdone (List.mem_singleton.1 hnew' ▸ hreconciles.1)
    · rcases List.mem_append.1 he with hold' | hnew'
      · obtain ⟨r, hr, hdone, -⟩ := h.reconciled ⟨e, hold', hreconciles⟩
        exact fresh hr hdone (List.mem_singleton.1 hnew ▸ hsettles.1)
      · obtain ⟨-, now, hcall⟩ := hsettles
        obtain ⟨-, _, _, _, _, haction⟩ := hreconciles
        rw [List.mem_singleton.1 hnew] at hcall
        rw [List.mem_singleton.1 hnew'] at haction
        exact absurd haction hcall.not_reconcile

theorem SysRun.closedOnce (h : SysRun cfg ts s) : ClosedOnce ts s.db key := by
  induction h with
  | nil =>
      refine ⟨by simp, fun ⟨c, hc, _⟩ => ?_, fun r hr => ?_, fun ⟨⟨c, hc, _⟩, _⟩ => ?_⟩
      · cases hc
      · cases hr
      · cases hc
  | snoc _ hstep ih => exact ClosedOnce.step ih hstep

end History

/-! ## The two counts -/

section Counts

variable {cfg : Config} {ts : List SysTransition} {s : Sys} {leaseTtlSeconds : Int} {now : Time}

/-- No settled id was stored with the marker. -/
def NoMarkerSettled (ts : List SysTransition) : Prop :=
  ∀ c ∈ ts, ∀ key fields, SettlesId c key fields → fields.hasText "status" "unresolved" = false

theorem Metrics.unresolvedResult_of {r : Reservation} {fields : JsonObject}
    (h : r.result = some fields) :
    Metrics.unresolvedResult r = fields.hasText "status" "unresolved" := by
  rw [Metrics.unresolvedResult, h]

theorem guarded_settled (h : SysRun cfg ts s) {key : ActionId} {r : Reservation}
    (hr : s.db.reservation key = some r) (hguarded : Metrics.countsGuarded r = true) :
    SettledIn ts key := by
  simp only [Metrics.countsGuarded, Bool.and_eq_true, decide_eq_true_eq, Bool.not_eq_true']
    at hguarded
  rcases (SysRun.closedOnce h).closed r hr hguarded.1 with hsettled | hreconciled
  · exact hsettled
  · obtain ⟨r', hr', -, hresult⟩ := (SysRun.closedOnce h).reconciled hreconciled
    rw [hr, Option.some.injEq] at hr'
    rw [← hr'] at hresult
    rw [Metrics.unresolvedResult_of hresult] at hguarded
    exact absurd hguarded.2 (by decide)

theorem settled_guarded (h : SysRun cfg ts s) (hmarker : NoMarkerSettled ts) {key : ActionId}
    (hsettled : SettledIn ts key) :
    ∃ r, s.db.reservation key = some r ∧ r.state = .done ∧
      Metrics.unresolvedResult r = false := by
  obtain ⟨c, hc, fields, hsettles⟩ := hsettled
  obtain ⟨r, hr, hdone, hresult⟩ := (SysRun.closedOnce h).settled c hc fields hsettles
  exact ⟨r, hr, hdone, (Metrics.unresolvedResult_of hresult).trans
    (hmarker c hc key fields hsettles)⟩

theorem countsPrevented_iff {r : Reservation} :
    Metrics.countsPrevented leaseTtlSeconds now r = true ↔
      (r.state = .done ∧ Metrics.unresolvedResult r = true) ∨
        (r.state = .inFlight ∧ r.createdAt < now - seconds leaseTtlSeconds) := by
  simp [Metrics.countsPrevented]

theorem reservations_finite (db : Db) (p : ActionId → Prop)
    (h : ∀ key, p key → ∃ r, db.reservation key = some r) : {key | p key}.Finite := by
  refine (db.idempotency.rows.map Reservation.key).toFinset.finite_toSet.subset ?_
  intro key hkey
  obtain ⟨r, hr⟩ := h key hkey
  simpa using ⟨r, Table.mem_of_get? hr, Table.key_of_get? hr⟩

theorem settledIn_finite (h : SysRun cfg ts s) : {key | SettledIn ts key}.Finite :=
  reservations_finite s.db _ fun _ ⟨c, hc, fields, hsettles⟩ =>
    let ⟨r, hr, _⟩ := (SysRun.closedOnce h).settled c hc fields hsettles
    ⟨r, hr⟩

/-- Without a settled marker, the rows counted as prevented are the reconciled ids and the
overdue ones, apart. -/
theorem prevented_count (h : SysRun cfg ts s) (hmarker : NoMarkerSettled ts) :
    Set.ncard {k | ∃ r, s.db.reservation k = some r ∧
        Metrics.countsPrevented leaseTtlSeconds now r = true} =
      Set.ncard {k | ReconciledIn ts k} +
        Set.ncard {k | Overdue leaseTtlSeconds now s.db k} := by
  have hdisjoint : Disjoint {k | ReconciledIn ts k} {k | Overdue leaseTtlSeconds now s.db k} := by
    rw [Set.disjoint_left]
    rintro k hreconciled ⟨r, hr, hopen, -⟩
    obtain ⟨r', hr', hdone, -⟩ := (SysRun.closedOnce h).reconciled hreconciled
    rw [hr, Option.some.injEq] at hr'
    rw [hr', hdone] at hopen
    cases hopen
  have hfinite : {k | ReconciledIn ts k}.Finite :=
    reservations_finite s.db _ fun k hk =>
      let ⟨r, hr, _⟩ := (SysRun.closedOnce h).reconciled hk
      ⟨r, hr⟩
  have hfinite' : {k | Overdue leaseTtlSeconds now s.db k}.Finite :=
    reservations_finite s.db _ fun k ⟨r, hr, _⟩ => ⟨r, hr⟩
  rw [← Set.ncard_union_eq hdisjoint hfinite hfinite']
  congr 1
  ext k
  constructor
  · rintro ⟨r, hr, hprevented⟩
    rcases countsPrevented_iff.1 hprevented with ⟨hdone, hmarked⟩ | hoverdue
    · rcases (SysRun.closedOnce h).closed r hr hdone with hsettled | hreconciled
      · obtain ⟨r', hr', -, hclean⟩ := settled_guarded h hmarker hsettled
        rw [hr, Option.some.injEq] at hr'
        rw [hr', hclean] at hmarked
        cases hmarked
      · exact Or.inl hreconciled
    · exact Or.inr ⟨r, hr, hoverdue⟩
  · rintro (hreconciled | ⟨r, hr, hoverdue⟩)
    · obtain ⟨r, hr, hdone, hresult⟩ := (SysRun.closedOnce h).reconciled hreconciled
      refine ⟨r, hr, countsPrevented_iff.2 (Or.inl ⟨hdone, ?_⟩)⟩
      rw [Metrics.unresolvedResult_of hresult]
      decide
    · exact ⟨r, hr, countsPrevented_iff.2 (Or.inr hoverdue)⟩

end Counts

/-- The result that an action settles an id with. -/
def settling? (s : Sys) : Action → Option JsonObject
  | .settle p _ =>
      match (s.workers p).phase with
      | .settling _ _ _ (.json fields) => some fields
      | _ => none
  | .ledger (.settle _ (.json fields) _) => some fields
  | _ => none

theorem Settles.settling? {s : Sys} {a : Action} {key : ActionId} {fields : JsonObject}
    {now : Time} (h : Settles s a key fields now) : settling? s a = some fields := by
  rcases h with ⟨p, task, started, rfl, hphase⟩ | rfl
  · simp only [ReliableAgents.settling?, hphase]
  · rfl

/-- The ledger's metrics are honest exactly while no task settles its id with a result that
carries the marker. -/
theorem ledger_metrics {cfg : Config} {ts : List SysTransition} {s : Sys} (h : SysRun cfg ts s)
    {now : Time} {m : Metrics.Snapshot}
    (hm : Metrics.snapshot cfg.ladder cfg.leaseTtlSeconds now s.db = some m) :
    HonestMetrics ts cfg.leaseTtlSeconds now s.db m.idempotency ↔ NoMarkerSettled ts := by
  obtain ⟨hguarded, hprevented⟩ := Metrics.snapshot_idempotency hm
  have hsubset : {k | ∃ r, s.db.reservation k = some r ∧ Metrics.countsGuarded r = true} ⊆
      {k | SettledIn ts k} := fun k ⟨r, hr, hr'⟩ => guarded_settled h hr hr'
  constructor
  · intro honest c hc key fields hsettles
    have hcount := honest.guarded
    rw [hguarded] at hcount
    have hsame := Set.eq_of_subset_of_ncard_le hsubset hcount.ge (settledIn_finite h)
    obtain ⟨r, hr, hclean⟩ : key ∈ {k | ∃ r, s.db.reservation k = some r ∧
        Metrics.countsGuarded r = true} := by
      rw [hsame]
      exact ⟨c, hc, fields, hsettles⟩
    obtain ⟨r', hr', -, hresult⟩ := (SysRun.closedOnce h).settled c hc fields hsettles
    rw [hr, Option.some.injEq] at hr'
    rw [← hr'] at hresult
    simp only [Metrics.countsGuarded, Bool.and_eq_true, Bool.not_eq_true',
      Metrics.unresolvedResult_of hresult] at hclean
    exact hclean.2
  · intro hmarker
    refine ⟨?_, hprevented.trans (prevented_count h hmarker), fun k r _ hclean => ?_,
      fun k r hsettled hr => ?_⟩
    · rw [hguarded]
      refine congrArg Set.ncard (Set.Subset.antisymm hsubset fun k hk => ?_)
      obtain ⟨r, hr, hdone, hclean⟩ := settled_guarded h hmarker hk
      exact ⟨r, hr, by simp [Metrics.countsGuarded, hdone, hclean]⟩
    · simp only [Metrics.countsGuarded, Bool.and_eq_true, decide_eq_true_eq,
        Bool.not_eq_true'] at hclean
      simp [Metrics.countsPrevented, hclean]
    · obtain ⟨r', hr', hdone, hclean⟩ := settled_guarded h hmarker hsettled
      rw [hr, Option.some.injEq] at hr'
      simp [Metrics.countsPrevented, hr', hdone, hclean]

theorem ledger_metrics_crashAfterSuccess :
    ∃ m, Metrics.snapshot seededLadder 30 (seconds 41) (ran oneHost crashAfterSuccess).2.db =
        some m ∧ m.idempotency = ⟨1, 0⟩ ∧
      HonestMetrics (ran oneHost crashAfterSuccess).1 30 (seconds 41)
        (ran oneHost crashAfterSuccess).2.db m.idempotency := by
  have hclean : ∀ c ∈ (ran oneHost crashAfterSuccess).1, ∀ fields ∈ settling? c.before c.action,
      fields.hasText "status" "unresolved" = false := by
    decide +kernel
  refine ⟨_, rfl, by decide +kernel, ?_⟩
  refine (@ledger_metrics oneHost _ _ (run_ran oneHost crashAfterSuccess) (seconds 41) _ rfl).2 ?_
  rintro c hc key fields ⟨-, now, hsettles⟩
  exact hclean c hc fields hsettles.settling?

def openTicket : JsonObject :=
  .cons "ticket" (.str "PAY-1") (.cons "status" (.str "unresolved") .nil)

def reportsStatus : List Action :=
  [submitPlan [40], .claim 0 0 0 unlocked, .load 0, .begin 0 0,
    .run 0 (.returned (.dict (.json openTicket))), .settle 0 (seconds 1)]

def storing : SysTransition := (ran oneHost reportsStatus).1.getLast (by decide +kernel)

theorem storing_settles : SettlesId storing (taskKey oneHost firstAgent 0 40) openTicket := by
  have hbefore : (storing.before.db.reservation (taskKey oneHost firstAgent 0 40)).map
      Reservation.state = some .inFlight := by decide +kernel
  have hafter : (storing.after.db.reservation (taskKey oneHost firstAgent 0 40)).map
      Reservation.state = some .done := by decide +kernel
  exact ⟨⟨Option.map_eq_some_iff.1 hbefore, Option.map_eq_some_iff.1 hafter⟩, seconds 1,
    Or.inl ⟨0, _, _, rfl, rfl⟩⟩

theorem ledger_metrics_reportsStatus :
    ∃ ts s m, SysRun oneHost ts s ∧ Metrics.snapshot seededLadder 30 (seconds 2) s.db = some m ∧
      m.idempotency = ⟨0, 1⟩ ∧ ¬ HonestMetrics ts 30 (seconds 2) s.db m.idempotency := by
  refine ⟨_, _, _, run_ran oneHost reportsStatus, rfl, by decide +kernel, fun honest => ?_⟩
  have hrow : ((ran oneHost reportsStatus).2.db.reservation
      (taskKey oneHost firstAgent 0 40)).map (Metrics.countsPrevented 30 (seconds 2)) =
        some true := by decide +kernel
  obtain ⟨r, hr, hprevented⟩ := Option.map_eq_some_iff.1 hrow
  have hclean := honest.settled _ r ⟨storing, List.getLast_mem _, _, storing_settles⟩ hr
  rw [hprevented] at hclean
  cases hclean

end ReliableAgents
