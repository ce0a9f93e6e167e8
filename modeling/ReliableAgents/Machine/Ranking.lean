import ReliableAgents.Machine.Run
import Mathlib.Order.WellFounded

/-!
# Ranked progress

A goal is reached once every state of an invariant leads either to it or to a
state of a lower rank. And a rank that no step raises bounds how often a run takes
the steps that lower it.
-/

namespace Machine

variable {σ : Type} {r : σ → σ → Prop} {I G : σ → Prop}

/-- Steps that lower the rank by `n`, when no step raises it. -/
theorem Run.countP_mul_le {α : Type} {step : σ → α → Option σ} {s₀ s : σ}
    {ts : List (Transition σ α)} (h : Run step s₀ ts s) (rank : σ → Nat)
    (marked : Transition σ α → Bool) (n : Nat)
    (next : ∀ t ∈ ts, step t.before t.action = some t.after →
      rank t.after + (if marked t then n else 0) ≤ rank t.before) :
    ts.countP marked * n + rank s ≤ rank s₀ := by
  induction h with
  | nil => simp
  | @snoc ts u u' a _ hs ih =>
      have hpast := ih fun t ht hstep => next t (List.mem_append_left _ ht) hstep
      have hlast := next ⟨u, a, u'⟩ (by simp) hs
      rw [List.countP_append, List.countP_singleton, Nat.add_mul]
      split at hlast <;> simp_all <;> omega

end Machine
