import Mathlib.Logic.Relation

/-!
# Runs of a labelled machine

A machine is a step function from a state and an action to the next state, or
to nothing when the action is not enabled. A run keeps its complete transition
list, so a property of a run can name the steps that came before.
-/

namespace Machine

variable {σ α : Type}

structure Transition (σ α : Type) where
  before : σ
  action : α
  after : σ

/-- `Run step s₀ ts s`: the transitions `ts` lead from `s₀` to `s`. -/
inductive Run (step : σ → α → Option σ) (s₀ : σ) : List (Transition σ α) → σ → Prop where
  | nil : Run step s₀ [] s₀
  | snoc {ts : List (Transition σ α)} {s s' : σ} {a : α} :
      Run step s₀ ts s → step s a = some s' → Run step s₀ (ts ++ [⟨s, a, s'⟩]) s'

variable {step : σ → α → Option σ} {s₀ s : σ} {ts : List (Transition σ α)}

theorem Run.step_of_mem (h : Run step s₀ ts s) {t : Transition σ α} (ht : t ∈ ts) :
    step t.before t.action = some t.after := by
  induction h with
  | nil => cases ht
  | snoc _ hs ih =>
      rcases List.mem_append.1 ht with ht | ht
      · exact ih ht
      · rw [List.mem_singleton.1 ht]
        exact hs

/-- A predicate on the transitions read so far and the state they lead to, kept
by every step that is allowed, holds at the end of every run of allowed steps. -/
theorem Run.invariant_along {I : List (Transition σ α) → σ → Prop} (h : Run step s₀ ts s)
    (allowed : Transition σ α → Prop) (init : I [] s₀)
    (next : ∀ us u a u', Run step s₀ us u → (∀ t ∈ us, allowed t) → I us u →
      step u a = some u' → allowed ⟨u, a, u'⟩ → I (us ++ [⟨u, a, u'⟩]) u')
    (hallowed : ∀ t ∈ ts, allowed t) : I ts s := by
  induction h with
  | nil => exact init
  | snoc hrun hs ih =>
      have hpast : ∀ t ∈ _, allowed t := fun t ht => hallowed t (List.mem_append_left _ ht)
      exact next _ _ _ _ hrun hpast (ih hpast) hs (hallowed _ (by simp))

theorem Run.invariant_of {I : σ → Prop} (h : Run step s₀ ts s)
    (allowed : Transition σ α → Prop) (init : I s₀)
    (next : ∀ u a u', I u → step u a = some u' → allowed ⟨u, a, u'⟩ → I u')
    (hallowed : ∀ t ∈ ts, allowed t) : I s :=
  h.invariant_along (I := fun _ u => I u) allowed init
    (fun _ _ _ _ _ _ hI hs ha => next _ _ _ hI hs ha) hallowed

theorem Run.invariant {I : σ → Prop} (h : Run step s₀ ts s) (init : I s₀)
    (next : ∀ u a u', I u → step u a = some u' → I u') : I s :=
  h.invariant_of (fun _ => True) init (fun _ _ _ hI hs _ => next _ _ _ hI hs)
    (fun _ _ => trivial)

theorem Run.append {s' : σ} {us : List (Transition σ α)} (h : Run step s₀ ts s)
    (h' : Run step s us s') : Run step s₀ (ts ++ us) s' := by
  induction h' with
  | nil => simpa using h
  | snoc _ hs ih =>
      rw [← List.append_assoc]
      exact .snoc ih hs

/-- A run read at one of its transitions: what led there, the step, what followed. -/
theorem Run.split {pre post : List (Transition σ α)} {t : Transition σ α}
    (h : Run step s₀ (pre ++ t :: post) s) :
    Run step s₀ pre t.before ∧ step t.before t.action = some t.after ∧
      Run step t.after post s := by
  generalize hts : pre ++ t :: post = ts at h
  induction h generalizing post with
  | nil => simp at hts
  | @snoc us u u' a hrun hs ih =>
      rcases List.eq_nil_or_concat post with rfl | ⟨post', t', rfl⟩
      · obtain ⟨rfl, ht⟩ := List.append_inj' hts rfl
        simp only [List.cons.injEq, and_true] at ht
        subst ht
        exact ⟨hrun, hs, .nil⟩
      · have hcut : pre ++ t :: post' ++ [t'] = us ++ [⟨u, a, u'⟩] := by simpa using hts
        obtain ⟨hpre, ht'⟩ := List.append_inj' hcut rfl
        simp only [List.cons.injEq, and_true] at ht'
        obtain ⟨h1, h2, h3⟩ := ih hpre
        refine ⟨h1, h2, ?_⟩
        rw [List.concat_eq_append, ht']
        exact h3.snoc hs

theorem Run.eq_of_nil (h : Run step s₀ [] s) : s = s₀ := by
  generalize hts : ([] : List (Transition σ α)) = ts at h
  cases h with
  | nil => rfl
  | snoc => simp at hts

/-- A run read from its first transition on. -/
theorem Run.uncons {t : Transition σ α} (h : Run step s₀ (t :: ts) s) :
    t.before = s₀ ∧ step t.before t.action = some t.after ∧ Run step t.after ts s := by
  have hcut : Run step s₀ ([] ++ t :: ts) s := h
  obtain ⟨hbefore, hstep, hrest⟩ := hcut.split
  exact ⟨hbefore.eq_of_nil, hstep, hrest⟩

theorem Run.exists_split (h : Run step s₀ ts s) {t : Transition σ α} (ht : t ∈ ts) :
    ∃ pre post, ts = pre ++ t :: post ∧ Run step s₀ pre t.before ∧
      step t.before t.action = some t.after ∧ Run step t.after post s := by
  obtain ⟨pre, post, rfl⟩ := List.append_of_mem ht
  exact ⟨pre, post, rfl, h.split⟩

/-- Two transitions of a run are one, or one of them comes first. -/
theorem eq_or_split {c d : Transition σ α} (hc : c ∈ ts) (hd : d ∈ ts) :
    c = d ∨ (∃ pre mid post, ts = pre ++ c :: (mid ++ d :: post)) ∨
      ∃ pre mid post, ts = pre ++ d :: (mid ++ c :: post) := by
  obtain ⟨pre, post, rfl⟩ := List.append_of_mem hc
  rcases List.mem_append.1 hd with hd | hd
  · obtain ⟨pre', mid, rfl⟩ := List.append_of_mem hd
    exact Or.inr (Or.inr ⟨pre', mid, post, by simp⟩)
  · rcases List.mem_cons.1 hd with rfl | hd
    · exact Or.inl rfl
    · obtain ⟨mid, post', rfl⟩ := List.append_of_mem hd
      exact Or.inr (Or.inl ⟨pre, mid, post', rfl⟩)

theorem exists_first {p : Transition σ α → Prop} {c : Transition σ α} (hc : c ∈ ts) (hp : p c) :
    ∃ pre d post, ts = pre ++ d :: post ∧ p d ∧ ∀ e ∈ pre, ¬ p e := by
  induction ts with
  | nil => cases hc
  | cons t rest ih =>
      by_cases ht : p t
      · exact ⟨[], t, rest, rfl, ht, by simp⟩
      · rcases List.mem_cons.1 hc with rfl | hrest
        · exact absurd hp ht
        · obtain ⟨pre, d, post, rfl, hd, hpre⟩ := ih hrest
          refine ⟨t :: pre, d, post, rfl, hd, fun e he => ?_⟩
          rcases List.mem_cons.1 he with rfl | he
          · exact ht
          · exact hpre e he

theorem cut_at (ts : List (Transition σ α)) {i j : Nat} (hj : j < ts.length) (hij : i < j) :
    ts = ts.take i ++ ts[i] ::
      ((ts.drop (i + 1)).take (j - (i + 1)) ++ ts[j] :: ts.drop (j + 1)) := by
  have hmid : i + 1 + (j - (i + 1)) = j := by omega
  calc ts = ts.take i ++ ts.drop i := (List.take_append_drop i ts).symm
    _ = ts.take i ++ ts[i] :: ts.drop (i + 1) := by
        rw [List.drop_eq_getElem_cons (Nat.lt_trans hij hj)]
    _ = ts.take i ++ ts[i] ::
          ((ts.drop (i + 1)).take (j - (i + 1)) ++ (ts.drop (i + 1)).drop (j - (i + 1))) := by
        rw [List.take_append_drop]
    _ = _ := by rw [List.drop_drop, hmid, List.drop_eq_getElem_cons hj]

/-- Perform a list of actions, keeping the transitions. -/
def exec (step : σ → α → Option σ) : σ → List α → Option (List (Transition σ α) × σ)
  | s, [] => some ([], s)
  | s, a :: rest =>
      match step s a with
      | none => none
      | some s' =>
          match exec step s' rest with
          | none => none
          | some (ts, s'') => some (⟨s, a, s'⟩ :: ts, s'')

theorem run_of_exec {as : List α} (h : exec step s₀ as = some (ts, s)) : Run step s₀ ts s := by
  induction as generalizing s₀ ts with
  | nil =>
      cases h
      exact .nil
  | cons a rest ih =>
      simp only [exec] at h
      cases hs : step s₀ a with
      | none => simp [hs] at h
      | some s' =>
          simp only [hs] at h
          cases hr : exec step s' rest with
          | none => simp [hr] at h
          | some pair =>
              obtain ⟨ts', s''⟩ := pair
              simp only [hr, Option.some.injEq, Prod.mk.injEq] at h
              obtain ⟨rfl, rfl⟩ := h
              exact (Run.snoc .nil hs).append (ih hr)

/-- The run of a list of actions; the empty one when some action is not enabled. -/
def performed (step : σ → α → Option σ) (s : σ) (as : List α) : List (Transition σ α) × σ :=
  (exec step s as).getD ([], s)

theorem run_performed (step : σ → α → Option σ) (s : σ) (as : List α) :
    Run step s (performed step s as).1 (performed step s as).2 := by
  unfold performed
  cases h : exec step s as with
  | none => exact .nil
  | some traced => exact run_of_exec h

theorem actions_of_exec {as : List α} (h : exec step s₀ as = some (ts, s)) :
    ts.map Transition.action = as := by
  induction as generalizing s₀ ts with
  | nil =>
      cases h
      rfl
  | cons a rest ih =>
      simp only [exec] at h
      cases hs : step s₀ a with
      | none => simp [hs] at h
      | some s' =>
          simp only [hs] at h
          cases hr : exec step s' rest with
          | none => simp [hr] at h
          | some pair =>
              obtain ⟨ts', s''⟩ := pair
              simp only [hr, Option.some.injEq, Prod.mk.injEq] at h
              obtain ⟨rfl, rfl⟩ := h
              rw [List.map_cons, ih hr]

theorem action_mem_performed {as : List α} {t : Transition σ α}
    (h : t ∈ (performed step s₀ as).1) : t.action ∈ as := by
  unfold performed at h
  cases hexec : exec step s₀ as with
  | none => simp [hexec] at h
  | some traced =>
      rw [hexec, Option.getD_some] at h
      rw [← actions_of_exec hexec]
      exact List.mem_map_of_mem h

/-! ## Machines related step by step -/

/-- A predicate kept by a relation is kept along its reflexive transitive closure. -/
theorem closure_invariant {r : σ → σ → Prop} {I : σ → Prop}
    (next : ∀ u v, I u → r u v → I v) {u v : σ} (hu : I u)
    (h : Relation.ReflTransGen r u v) : I v := by
  induction h with
  | refl => exact hu
  | tail _ hr ih => exact next _ _ ih hr

/-- A fold that may fail relates its ends by what relates the ends of each of its steps. -/
theorem foldlM_related {β : Type} {r : σ → σ → Prop} (refl : ∀ u, r u u)
    (trans : ∀ u v w, r u v → r v w → r u w) {f : σ → β → Option σ}
    (next : ∀ u b v, f u b = some v → r u v) {bs : List β} {u v : σ}
    (h : bs.foldlM f u = some v) : r u v := by
  induction bs generalizing u with
  | nil =>
      cases h
      exact refl _
  | cons b rest ih =>
      rw [List.foldlM_cons, Option.bind_eq_bind, Option.bind_eq_some_iff] at h
      obtain ⟨mid, hmid, hrest⟩ := h
      exact trans _ _ _ (next _ _ _ hmid) (ih hrest)

end Machine
