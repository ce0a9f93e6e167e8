import Mathlib.Data.List.Induction
import Mathlib.Data.Option.Basic
import Mathlib.Logic.Function.Basic

/-!
# Sequential workflows

Any number of plans, each carried out one position after another until it ends. What
may happen to a plan is decided by its record alone, and from the record every event
that did happen to it can be read back.
-/

namespace Workflow

inductive Ending where
  | completed
  | failed
deriving DecidableEq, Repr

/-- The record of one plan. -/
structure Life (δ ρ : Type) where
  plan : List δ
  results : List ρ := []
  ending : Option Ending := none
deriving DecidableEq, Repr

inductive Event (ι δ ρ : Type) where
  | started (i : ι) (plan : List δ)
  | advanced (i : ι) (seq : Nat) (result : ρ)
  | ended (i : ι) (ending : Ending)
deriving DecidableEq, Repr

variable {ι δ ρ : Type}

def Event.about : Event ι δ ρ → ι
  | .started i _ => i
  | .advanced i _ _ => i
  | .ended i _ => i

namespace Life

/-- The next position of a plan that has not ended gets its result. -/
def advance (seq : Nat) (result : ρ) (l : Life δ ρ) : Option (Life δ ρ) :=
  if l.ending = none ∧ seq = l.results.length ∧ seq < l.plan.length then
    some { l with results := l.results ++ [result] }
  else none

/-- A plan ends once, and is complete only with all its results. -/
def finish (ending : Ending) (l : Life δ ρ) : Option (Life δ ρ) :=
  if l.ending = none ∧ (ending = .completed → l.results.length = l.plan.length) then
    some { l with ending := some ending }
  else none

/-- The events that make a record. -/
def history (i : ι) (l : Life δ ρ) : List (Event ι δ ρ) :=
  .started i l.plan :: l.results.mapIdx (fun seq result => .advanced i seq result) ++
    (l.ending.map (Event.ended i)).toList

variable {l l' : Life δ ρ}

theorem advance_eq {seq : Nat} (hopen : l.ending = none) (hseq : seq = l.results.length)
    (hlt : seq < l.plan.length) (result : ρ) :
    l.advance seq result = some { l with results := l.results ++ [result] } :=
  if_pos ⟨hopen, hseq, hlt⟩

theorem finish_eq (hopen : l.ending = none) {ending : Ending}
    (hfull : ending = .completed → l.results.length = l.plan.length) :
    l.finish ending = some { l with ending := some ending } :=
  if_pos ⟨hopen, hfull⟩

theorem history_advance {seq : Nat} {result : ρ} (i : ι) (h : l.advance seq result = some l') :
    l'.history i = l.history i ++ [.advanced i seq result] := by
  unfold advance at h
  split at h
  · rename_i hlegal
    obtain ⟨hopen, hseq, -⟩ := hlegal
    cases h
    simp [history, hopen, hseq, List.mapIdx_append]
  · cases h

theorem history_finish {ending : Ending} (i : ι) (h : l.finish ending = some l') :
    l'.history i = l.history i ++ [.ended i ending] := by
  unfold finish at h
  split at h
  · rename_i hlegal
    cases h
    simp [history, hlegal.1]
  · cases h

end Life

section Replay

variable [DecidableEq ι]

/-- A legal event makes its entry. -/
def apply (w : ι → Option (Life δ ρ)) : Event ι δ ρ → Option (ι → Option (Life δ ρ))
  | .started i plan =>
      match w i with
      | none => some (Function.update w i (some { plan := plan }))
      | some _ => none
  | .advanced i seq result =>
      ((w i).bind (Life.advance seq result)).map fun l => Function.update w i (some l)
  | .ended i ending => ((w i).bind (Life.finish ending)).map fun l => Function.update w i (some l)

def replay (w : ι → Option (Life δ ρ)) (es : List (Event ι δ ρ)) :
    Option (ι → Option (Life δ ρ)) :=
  es.foldlM apply w

variable {w w' : ι → Option (Life δ ρ)} {e : Event ι δ ρ}

theorem apply_started {i : ι} (h : w i = none) (plan : List δ) :
    apply w (.started i plan) = some (Function.update w i (some { plan := plan })) := by
  simp only [apply, h]

theorem apply_advanced {i : ι} {seq : Nat} {result : ρ} {l l' : Life δ ρ} (h : w i = some l)
    (hlegal : l.advance seq result = some l') :
    apply w (.advanced i seq result) = some (Function.update w i (some l')) := by
  simp only [apply, h, Option.bind_some, hlegal, Option.map_some]

theorem apply_ended {i : ι} {ending : Ending} {l l' : Life δ ρ} (h : w i = some l)
    (hlegal : l.finish ending = some l') :
    apply w (.ended i ending) = some (Function.update w i (some l')) := by
  simp only [apply, h, Option.bind_some, hlegal, Option.map_some]

theorem replay_append (es fs : List (Event ι δ ρ)) :
    replay w (es ++ fs) = (replay w es).bind fun w => replay w fs :=
  List.foldlM_append

theorem replay_cons {fs : List (Event ι δ ρ)} (h : apply w e = some w') :
    replay w (e :: fs) = replay w' fs := by
  rw [replay, List.foldlM_cons, h]
  rfl

/-- Different plans may end in any order. -/
theorem replay_ended {ids : List ι} (ending : Ending) (hnodup : ids.Nodup)
    (hlegal : ∀ i ∈ ids, ∃ l l', w i = some l ∧ l.finish ending = some l') :
    replay w (ids.map fun i => .ended i ending) =
      some fun i => if i ∈ ids then (w i).bind (Life.finish ending) else w i := by
  induction ids generalizing w with
  | nil => rfl
  | cons i rest ih =>
      obtain ⟨hi, hrest⟩ := List.nodup_cons.1 hnodup
      obtain ⟨l, l', hl, hfinish⟩ := hlegal i List.mem_cons_self
      have hother : ∀ j ∈ rest, Function.update w i (some l') j = w j := by
        intro j hj
        have hne : j ≠ i := fun heq => hi (heq ▸ hj)
        exact Function.update_of_ne hne _ _
      rw [List.map_cons, replay_cons (apply_ended hl hfinish), ih hrest fun j hj => ?_]
      · congr 1
        funext j
        by_cases hj : j = i
        · subst hj
          simp [hi, hl, hfinish]
        · by_cases hmem : j ∈ rest <;> simp [hj, hmem]
      · rw [hother j hj]
        exact hlegal j (List.mem_cons_of_mem _ hj)

/-- The events of one plan, read back from its record. -/
def historyOf (w : ι → Option (Life δ ρ)) (i : ι) : List (Event ι δ ρ) :=
  (w i).elim [] (Life.history i)

theorem apply_historyOf (h : apply w e = some w') (i : ι) :
    historyOf w' i = historyOf w i ++ if e.about = i then [e] else [] := by
  -- an event is entered under what it is about
  have hentry : ∃ l, w' = Function.update w e.about (some l) ∧
      l.history e.about = historyOf w e.about ++ [e] := by
    cases e with
    | started j plan =>
        cases hj : w j with
        | none =>
            simp only [apply, hj] at h
            exact ⟨_, (Option.some.inj h).symm, by simp [historyOf, Event.about, hj, Life.history]⟩
        | some l =>
            simp only [apply, hj] at h
            cases h
    | advanced j seq result =>
        obtain ⟨l', hl', rfl⟩ := Option.map_eq_some_iff.1 h
        obtain ⟨l, hl, hadvance⟩ := Option.bind_eq_some_iff.1 hl'
        exact ⟨l', rfl, by simp [historyOf, Event.about, hl, Life.history_advance j hadvance]⟩
    | ended j ending =>
        obtain ⟨l', hl', rfl⟩ := Option.map_eq_some_iff.1 h
        obtain ⟨l, hl, hfinish⟩ := Option.bind_eq_some_iff.1 hl'
        exact ⟨l', rfl, by simp [historyOf, Event.about, hl, Life.history_finish j hfinish]⟩
  obtain ⟨l, rfl, hhistory⟩ := hentry
  by_cases hi : e.about = i
  · subst hi
    rw [historyOf, Function.update_self, if_pos rfl, Option.elim_some, hhistory]
  · rw [historyOf, Function.update_of_ne (Ne.symm hi), if_neg hi, List.append_nil, historyOf]

/-- No event is lost, none is made up, and each plan's stay in order. -/
theorem replay_historyOf {es : List (Event ι δ ρ)} (h : replay (fun _ => none) es = some w)
    (i : ι) : es.filter (fun e => e.about = i) = historyOf w i := by
  induction es using List.reverseRecOn generalizing w with
  | nil =>
      cases h
      rfl
  | append_singleton es e ih =>
      rw [replay_append, Option.bind_eq_some_iff] at h
      obtain ⟨u, hu, hlast⟩ := h
      have happly : apply u e = some w := by simpa [replay] using hlast
      rw [List.filter_append, ih hu, apply_historyOf happly]
      by_cases hi : e.about = i <;> simp [hi]

end Replay

end Workflow
