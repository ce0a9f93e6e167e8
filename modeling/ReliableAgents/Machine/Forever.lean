import ReliableAgents.Machine.Run
import Mathlib.Order.Filter.AtTopBot.Basic

/-!
# Runs without end

What a run does from some point on, and what it does again and again. A step that
comes again and again comes more often than any number, so a bound on how often it
comes in each segment rules it out.
-/

namespace Machine

open Filter

theorem exists_constant {f : Nat → Nat} (hgrows : ∀ m n, m ≤ n → f m ≤ f n) {bound : Nat}
    (h : ∀ n, f n ≤ bound) : ∃ N, ∀ n, N ≤ n → f n = f N := by
  -- the state nearest to the bound is as far as the value goes
  have hnearest : ∃ N, ∀ n, bound - f N ≤ bound - f n :=
    ⟨Function.argmin fun n => bound - f n, fun n => Function.argmin_le (fun n => bound - f n) n⟩
  obtain ⟨N, hN⟩ := hnearest
  refine ⟨N, fun n hn => ?_⟩
  have hgrown := hgrows N n hn
  have hleft := hN n
  have hn := h n
  omega

theorem eventually_add {P : Nat → Prop} (k : Nat) :
    (∀ᶠ n in atTop, P (n + k)) ↔ ∀ᶠ n in atTop, P n := by
  conv_rhs => rw [← map_add_atTop_eq_nat k, eventually_map]

theorem frequently_add {P : Nat → Prop} (k : Nat) :
    (∃ᶠ n in atTop, P (n + k)) ↔ ∃ᶠ n in atTop, P n := by
  conv_rhs => rw [← map_add_atTop_eq_nat k, frequently_map]

structure Forever {σ α : Type} (step : σ → α → Option σ) where
  state : Nat → σ
  action : Nat → α
  next : ∀ n, step (state n) (action n) = some (state (n + 1))

namespace Forever

variable {σ α : Type} {step : σ → α → Option σ} (x : Forever step)

def transition (n : Nat) : Transition σ α := ⟨x.state n, x.action n, x.state (n + 1)⟩

def segment (n len : Nat) : List (Transition σ α) := (List.range' n len).map x.transition

theorem segment_succ (n len : Nat) :
    x.segment n (len + 1) = x.segment n len ++ [x.transition (n + len)] := by
  simp [segment, List.range'_concat]

theorem run_segment (n len : Nat) : Run step (x.state n) (x.segment n len) (x.state (n + len)) := by
  induction len with
  | zero => exact .nil
  | succ len ih =>
      rw [segment_succ]
      exact ih.snoc (x.next (n + len))

theorem run_between {m n : Nat} (h : m ≤ n) :
    Run step (x.state m) (x.segment m (n - m)) (x.state n) := by
  have hrun := x.run_segment m (n - m)
  rwa [Nat.add_sub_cancel' h] at hrun

theorem mem_segment {n len : Nat} {t : Transition σ α} :
    t ∈ x.segment n len ↔ ∃ m, (n ≤ m ∧ m < n + len) ∧ x.transition m = t := by
  simp [segment, List.mem_range'_1]

theorem exists_le_countP {marked : Transition σ α → Bool}
    (h : ∃ᶠ m in atTop, marked (x.transition m) = true) (n k : Nat) :
    ∃ len, k ≤ (x.segment n len).countP marked := by
  induction k with
  | zero => exact ⟨0, Nat.zero_le _⟩
  | succ k ih =>
      obtain ⟨len, hlen⟩ := ih
      obtain ⟨m, hm, hmarked⟩ := frequently_atTop.1 h (n + len)
      obtain ⟨more, rfl⟩ := Nat.exists_eq_add_of_le hm
      refine ⟨len + more + 1, ?_⟩
      have hpast : (x.segment n len).countP marked ≤ (x.segment n (len + more)).countP marked := by
        refine List.Sublist.countP_le ?_
        rw [segment, segment, ← List.range'_append_1, List.map_append]
        exact List.sublist_append_left _ _
      rw [segment_succ, List.countP_append, List.countP_singleton, ← Nat.add_assoc, if_pos hmarked]
      omega

theorem not_frequently {marked : Transition σ α → Bool} (n bound : Nat)
    (h : ∀ len, (x.segment n len).countP marked ≤ bound) :
    ¬ ∃ᶠ m in atTop, marked (x.transition m) = true := by
  intro hagain
  obtain ⟨len, hlen⟩ := x.exists_le_countP hagain n (bound + 1)
  have hle := h len
  omega

/-! ## A finite run before it -/

/-- The steps of a finite run, and then those of `x`. -/
def prepend {s₀ : σ} {ts : List (Transition σ α)} (hrun : Run step s₀ ts (x.state 0)) :
    Forever step where
  state := fun n => (ts[n]?).elim (x.state (n - ts.length)) Transition.before
  action := fun n => (ts[n]?).elim (x.action (n - ts.length)) Transition.action
  next := by
    intro n
    by_cases hn : n < ts.length
    · have hcut : ts = ts.take n ++ ts[n] :: ts.drop (n + 1) := by simp
      rw [hcut] at hrun
      obtain ⟨-, hstep, hrest⟩ := hrun.split
      have hafter : (ts[n + 1]?).elim (x.state (n + 1 - ts.length)) Transition.before =
          ts[n].after := by
        cases hdrop : ts.drop (n + 1) with
        | nil =>
            rw [hdrop] at hrest
            have hlast := List.drop_eq_nil_iff.1 hdrop
            rw [List.getElem?_eq_none hlast, Nat.sub_eq_zero_of_le hn]
            exact hrest.eq_of_nil
        | cons t rest =>
            rw [hdrop] at hrest
            have hnext : ts[n + 1]? = some t := by
              rw [← Nat.add_zero (n + 1), ← List.getElem?_drop, hdrop, List.getElem?_cons_zero]
            rw [hnext]
            exact hrest.uncons.1
      rw [hafter, List.getElem?_eq_getElem hn]
      exact hstep
    · have hpast := Nat.not_lt.1 hn
      rw [List.getElem?_eq_none hpast, List.getElem?_eq_none (Nat.le_succ_of_le hpast),
        Nat.succ_sub hpast]
      exact x.next _

variable {s₀ : σ} {ts : List (Transition σ α)} (hrun : Run step s₀ ts (x.state 0))

@[simp] theorem prepend_state_add (n : Nat) :
    (x.prepend hrun).state (n + ts.length) = x.state n := by
  simp [prepend]

@[simp] theorem prepend_action_add (n : Nat) :
    (x.prepend hrun).action (n + ts.length) = x.action n := by
  simp [prepend]

theorem prepend_state_zero : (x.prepend hrun).state 0 = s₀ := by
  cases ts with
  | nil => exact hrun.eq_of_nil
  | cons t rest => exact hrun.uncons.1

end Forever

end Machine
