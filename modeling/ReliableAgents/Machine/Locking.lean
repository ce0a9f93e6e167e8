import ReliableAgents.Machine.Run
import Mathlib.Logic.Function.Basic

/-!
# Transactions over a machine

A transaction reads the state statement by statement and locks the rows it is going to
write, which it does at its end and not before. Nobody else writes a locked row. If what a
transaction has found out survives whatever leaves its rows alone, and its end is worth
some actions of the machine, then every run is a run of the machine.
-/

namespace Machine

variable {σ α ι κ ρ τ β γ : Type}

/-- What becomes of a transaction at one of its statements. -/
inductive StatementResult (σ α τ : Type) where
  | goesOn (txn : τ)
  /-- It ends, in the state `s`, and is worth these actions. -/
  | ends (s : σ) (worth : List α)

structure Locking (σ α ι κ ρ τ β γ : Type) where
  step : σ → α → Option σ
  row : σ → κ → ρ
  /-- Actions that happen as transactions only. -/
  layered : α → Bool
  /-- Whose action it is: any other transaction of theirs is over with it. -/
  actor : α → Option ι
  start : ι → γ → σ → Option τ
  locks : τ → List κ
  /-- `none` while it waits; it is told which rows others have locked. -/
  statement : ι → β → (κ → Bool) → σ → τ → Option (StatementResult σ α τ)

structure Locked (σ ι κ τ : Type) where
  base : σ
  txns : ι → Option τ
  /-- The rows that are locked, and by whom. -/
  table : List (κ × ι)

inductive LockAction (α ι β γ : Type) where
  | act (a : α)
  | start (i : ι) (c : γ)
  | statement (i : ι) (b : β)

def Locked.init (s₀ : σ) : Locked σ ι κ τ where
  base := s₀
  txns := fun _ => none
  table := []

namespace Locking

variable (L : Locking σ α ι κ ρ τ β γ)

section Steps

variable [DecidableEq ι] [DecidableEq κ] [DecidableEq ρ]

def held (s : Locked σ ι κ τ) (i : ι) (k : κ) : Bool := s.table.any fun l => l.1 = k && l.2 ≠ i

def setTxn (s : Locked σ ι κ τ) (i : ι) (txn : Option τ) : Locked σ ι κ τ where
  base := s.base
  txns := Function.update s.txns i txn
  table := s.table.filter (fun l => l.2 ≠ i) ++
    ((txn.map L.locks).getD []).map fun k => (k, i)

def next (s : Locked σ ι κ τ) : LockAction α ι β γ → Option (Locked σ ι κ τ)
  | .act a =>
      if L.layered a then none
      else
        match L.step s.base a with
        | none => none
        | some base =>
            -- an action that would write a locked row waits
            if s.table.all fun l => L.row base l.1 = L.row s.base l.1 then
              match L.actor a with
              | none => some { s with base := base }
              | some i => some { L.setTxn s i none with base := base }
            else none
  | .start i c =>
      match s.txns i, L.start i c s.base with
      | none, some txn => some (L.setTxn s i (some txn))
      | _, _ => none
  | .statement i b =>
      match s.txns i with
      | none => none
      | some txn =>
          match L.statement i b (held s i) s.base txn with
          | none => none
          | some (.goesOn txn') => some (L.setTxn s i (some txn'))
          | some (.ends base _) => some { L.setTxn s i none with base := base }

/-- The actions a transition is worth. -/
def worth (c : Transition (Locked σ ι κ τ) (LockAction α ι β γ)) : List α :=
  match c.action with
  | .act a => [a]
  | .start _ _ => []
  | .statement i b =>
      match (c.before.txns i).bind (L.statement i b (held c.before i) c.before.base) with
      | some (.ends _ worth) => worth
      | _ => []

end Steps

def Reachable (s₀ s : σ) : Prop := ∃ us, Run L.step s₀ us s

/-- A transition of others: it leaves a transaction of `i` and the rows it has locked alone. -/
structure Spares (i : ι) (txn : τ) (c : Transition σ α) : Prop where
  actor : L.actor c.action ≠ some i
  rows : ∀ k ∈ L.locks txn, L.row c.after k = L.row c.before k

/-- What `valid` says of a transaction holds until it ends, and makes its end worth what it is
said to be. -/
structure Sound (s₀ : σ) (valid : ι → σ → τ → Prop) : Prop where
  started : ∀ i c s txn, L.Reachable s₀ s → L.start i c s = some txn →
    L.locks txn = [] ∧ valid i s txn
  spared : ∀ i s a s' txn, L.Reachable s₀ s → valid i s txn → L.step s a = some s' →
    L.Spares i txn ⟨s, a, s'⟩ → valid i s' txn
  goesOn : ∀ i b held s txn txn', L.Reachable s₀ s → valid i s txn →
    L.statement i b held s txn = some (.goesOn txn') →
      valid i s txn' ∧ ∀ k ∈ L.locks txn', k ∈ L.locks txn ∨ held k = false
  ends : ∀ i b held s txn s' worth, L.Reachable s₀ s → valid i s txn →
    L.statement i b held s txn = some (.ends s' worth) →
      ∃ us, Run L.step s us s' ∧ us.map Transition.action = worth ∧
        ∀ c ∈ us, (∀ j, L.actor c.action = some j → j = i) ∧
          ∀ k, k ∉ L.locks txn → L.row c.after k = L.row c.before k

section Simulation

variable {L} {s₀ : σ} {valid : ι → σ → τ → Prop} {s s' : Locked σ ι κ τ} {i : ι}

/-- The open transactions are valid, and the lock table is theirs. -/
structure Consistent (L : Locking σ α ι κ ρ τ β γ) (valid : ι → σ → τ → Prop)
    (s : Locked σ ι κ τ) : Prop where
  valid : ∀ i txn, s.txns i = some txn → valid i s.base txn
  entered : ∀ i txn, s.txns i = some txn → ∀ k ∈ L.locks txn, (k, i) ∈ s.table
  exclusive : ∀ k i j, (k, i) ∈ s.table → (k, j) ∈ s.table → i = j

theorem Reachable.run {us : List (Transition σ α)} {u v : σ} (h : L.Reachable s₀ u)
    (hrun : Run L.step u us v) : L.Reachable s₀ v := by
  obtain ⟨past, hpast⟩ := h
  exact ⟨_, hpast.append hrun⟩

theorem Sound.spared_run (hL : L.Sound s₀ valid) {us : List (Transition σ α)} {u v : σ}
    (hu : L.Reachable s₀ u) (hrun : Run L.step u us v) {txn : τ} (hvalid : valid i u txn)
    (hspares : ∀ c ∈ us, L.Spares i txn c) : valid i v txn := by
  refine hrun.invariant_along (I := fun _ w => valid i w txn) (L.Spares i txn) hvalid ?_ hspares
  intro ws w a w' hprefixed _ hw hstep hspare
  exact hL.spared i w a w' txn (hu.run hprefixed) hw hstep hspare

variable [DecidableEq ι]

theorem mem_setTxn_table {txn : Option τ} {k : κ} {j : ι} :
    (k, j) ∈ (L.setTxn s i txn).table ↔
      (k, j) ∈ s.table ∧ j ≠ i ∨ j = i ∧ ∃ t, txn = some t ∧ k ∈ L.locks t := by
  simp only [setTxn, List.mem_append, List.mem_filter, decide_eq_true_eq, List.mem_map,
    Prod.mk.injEq]
  constructor
  · rintro (hold | ⟨k', hk', rfl, rfl⟩)
    · exact Or.inl hold
    · cases txn with
      | none => cases hk'
      | some t => exact Or.inr ⟨rfl, t, rfl, hk'⟩
  · rintro (hold | ⟨rfl, t, rfl, hk⟩)
    · exact Or.inl hold
    · exact Or.inr ⟨k, hk, rfl, rfl⟩

theorem setTxn_txns {txn : Option τ} {j : ι} :
    (L.setTxn s i txn).txns j = if j = i then txn else s.txns j := by
  simp [setTxn, Function.update_apply]

theorem Consistent.setTxn (h : L.Consistent valid s) {txn : τ} (hvalid : valid i s.base txn)
    (hfree : ∀ k ∈ L.locks txn, ∀ j, (k, j) ∈ s.table → j = i) :
    L.Consistent valid (L.setTxn s i (some txn)) := by
  constructor
  · intro j t ht
    rw [setTxn_txns] at ht
    split at ht
    · rename_i hj
      cases ht
      exact hj ▸ hvalid
    · exact h.valid j t ht
  · intro j t ht k hk
    rw [setTxn_txns] at ht
    rw [mem_setTxn_table]
    split at ht
    · rename_i hj
      exact Or.inr ⟨hj, t, ht, hk⟩
    · rename_i hj
      exact Or.inl ⟨h.entered j t ht k hk, hj⟩
  · intro k j j' hj hj'
    rw [mem_setTxn_table] at hj hj'
    rcases hj with ⟨hold, hne⟩ | ⟨rfl, t, ht, hk⟩
    · rcases hj' with ⟨hold', -⟩ | ⟨-, t, ht, hk⟩
      · exact h.exclusive k j j' hold hold'
      · cases ht
        exact absurd (hfree k hk j hold) hne
    · rcases hj' with ⟨hold', hne⟩ | ⟨rfl, -⟩
      · cases ht
        exact absurd (hfree k hk j' hold') hne
      · rfl

/-- A transaction is over, and the machine has moved on without the rows of the others. -/
theorem Consistent.close (h : L.Consistent valid s) {base : σ}
    (hothers : ∀ j txn, j ≠ i → s.txns j = some txn → valid j base txn) :
    L.Consistent valid { L.setTxn s i none with base := base } := by
  constructor
  · intro j t ht
    rw [setTxn_txns] at ht
    split at ht
    · cases ht
    · rename_i hj
      exact hothers j t hj ht
  · intro j t ht k hk
    rw [setTxn_txns] at ht
    split at ht
    · cases ht
    · rename_i hj
      exact mem_setTxn_table.2 (Or.inl ⟨h.entered j t ht k hk, hj⟩)
  · intro k j j' hj hj'
    rcases mem_setTxn_table.1 hj with ⟨hold, -⟩ | ⟨-, t, ht, -⟩
    · rcases mem_setTxn_table.1 hj' with ⟨hold', -⟩ | ⟨-, t, ht, -⟩
      · exact h.exclusive k j j' hold hold'
      · cases ht
    · cases ht

variable [DecidableEq κ]

theorem held_eq_false {k : κ} (h : held s i k = false) {j : ι} (hj : (k, j) ∈ s.table) : j = i := by
  by_contra hne
  have hheld : held s i k = true := List.any_eq_true.2 ⟨(k, j), hj, by simp [hne]⟩
  rw [h] at hheld
  cases hheld

theorem Consistent.ends (hL : L.Sound s₀ valid) (h : L.Consistent valid s)
    (hreach : L.Reachable s₀ s.base) {b : β} {txn : τ} {base : σ} {worth : List α}
    (htxn : s.txns i = some txn)
    (hends : L.statement i b (held s i) s.base txn = some (.ends base worth)) :
    (∃ us, Run L.step s.base us base ∧ us.map Transition.action = worth) ∧
      L.Consistent valid { L.setTxn s i none with base := base } := by
  obtain ⟨us, hrun, hworth, hown⟩ := hL.ends i b _ s.base txn base worth hreach
    (h.valid i txn htxn) hends
  refine ⟨⟨us, hrun, hworth⟩, h.close fun j u hne hj => ?_⟩
  refine hL.spared_run hreach hrun (h.valid j u hj) fun c hc => ?_
  obtain ⟨hactor, hrows⟩ := hown c hc
  refine ⟨fun heq => hne (hactor j heq), fun k hk => hrows k fun hmine => ?_⟩
  exact hne (h.exclusive k j i (h.entered j u hj k hk) (h.entered i txn htxn k hmine))

variable [DecidableEq ρ]

theorem Consistent.act (hL : L.Sound s₀ valid) (h : L.Consistent valid s)
    (hreach : L.Reachable s₀ s.base) {a : α} (hstep : L.next s (.act a) = some s') :
    L.step s.base a = some s'.base ∧ L.Consistent valid s' := by
  simp only [next] at hstep
  split at hstep
  · cases hstep
  split at hstep
  · cases hstep
  rename_i base hbase
  split at hstep
  · rename_i hrows
    have hkept : ∀ j txn, L.actor a ≠ some j → s.txns j = some txn → valid j base txn := by
      intro j txn hactor hj
      refine hL.spared j s.base a base txn hreach (h.valid j txn hj) hbase ⟨hactor, fun k hk => ?_⟩
      simpa using List.all_eq_true.1 hrows _ (h.entered j txn hj k hk)
    split at hstep
    · rename_i hactor
      cases hstep
      exact ⟨hbase, fun j txn hj => hkept j txn (by rw [hactor]; simp) hj, h.entered, h.exclusive⟩
    · rename_i i hactor
      cases hstep
      refine ⟨hbase, h.close fun j txn hne hj => hkept j txn ?_ hj⟩
      rw [hactor]
      exact fun heq => hne (Option.some.inj heq).symm
  · cases hstep

/-- A step of a transaction is worth nothing before its end, and then the actions it says. -/
theorem Consistent.next (hL : L.Sound s₀ valid) (h : L.Consistent valid s)
    (hreach : L.Reachable s₀ s.base) {a : LockAction α ι β γ} (hstep : L.next s a = some s') :
    (∃ us, Run L.step s.base us s'.base ∧ us.map Transition.action = L.worth ⟨s, a, s'⟩) ∧
      L.Consistent valid s' := by
  cases a with
  | act a =>
      obtain ⟨hbase, hnext⟩ := h.act hL hreach hstep
      exact ⟨⟨[⟨s.base, a, s'.base⟩], .snoc .nil hbase, rfl⟩, hnext⟩
  | start i c =>
      simp only [Locking.next] at hstep
      split at hstep
      · rename_i txn hnone hstart
        cases hstep
        obtain ⟨hlocks, hvalid⟩ := hL.started i c s.base txn hreach hstart
        exact ⟨⟨[], .nil, rfl⟩, h.setTxn hvalid (by simp [hlocks])⟩
      · cases hstep
  | statement i b =>
      cases htxn : s.txns i with
      | none => simp [Locking.next, htxn] at hstep
      | some txn =>
          simp only [worth, htxn, Option.bind_some]
          simp only [Locking.next, htxn] at hstep
          cases houtcome : L.statement i b (held s i) s.base txn with
          | none => simp [houtcome] at hstep
          | some outcome =>
              cases outcome with
              | goesOn txn' =>
                  simp only [houtcome, Option.some.injEq] at hstep
                  subst hstep
                  obtain ⟨hvalid, hlocks⟩ := hL.goesOn i b _ s.base txn txn' hreach
                    (h.valid i txn htxn) houtcome
                  refine ⟨⟨[], .nil, rfl⟩, h.setTxn hvalid fun k hk j hj => ?_⟩
                  rcases hlocks k hk with hold | hfree
                  · exact h.exclusive k j i hj (h.entered i txn htxn k hold)
                  · exact held_eq_false hfree hj
              | ends base worth =>
                  simp only [houtcome, Option.some.injEq] at hstep
                  subst hstep
                  exact h.ends hL hreach htxn houtcome

/-- A run of transactions is a run of the machine, one end after another. -/
theorem Sound.simulates (hL : L.Sound s₀ valid)
    {ts : List (Transition (Locked σ ι κ τ) (LockAction α ι β γ))}
    (h : Run L.next (.init s₀) ts s) :
    ∃ us, Run L.step s₀ us s.base ∧ us.map Transition.action = ts.flatMap L.worth := by
  have hboth : (∃ us, Run L.step s₀ us s.base ∧
      us.map Transition.action = ts.flatMap L.worth) ∧ L.Consistent valid s := by
    refine h.invariant_along (I := fun past u => (∃ us, Run L.step s₀ us u.base ∧
        us.map Transition.action = past.flatMap L.worth) ∧ L.Consistent valid u) (fun _ => True)
      ⟨⟨[], .nil, rfl⟩, fun i txn hi => (by cases hi), fun i txn hi => (by cases hi),
        fun k i j hi => (by cases hi)⟩ ?_ (fun _ _ => trivial)
    rintro past u a u' - - ⟨⟨us, hrun, hworth⟩, hconsistent⟩ hstep -
    obtain ⟨⟨more, hmore, hmoreWorth⟩, hnext⟩ := hconsistent.next hL ⟨us, hrun⟩ hstep
    refine ⟨⟨us ++ more, hrun.append hmore, ?_⟩, hnext⟩
    rw [List.map_append, hworth, hmoreWorth, List.flatMap_append, List.flatMap_singleton]
  exact hboth.1

end Simulation

end Locking

end Machine
