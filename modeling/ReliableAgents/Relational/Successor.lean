import Mathlib.Data.List.Nodup

/-!
# The element after another

A copy of a list that has grown since is a sublist of it. The copy gives an element the
successor it has in the list exactly if it holds both.
-/

namespace Relational

variable {β : Type} [DecidableEq β] {k y : β} {copy l : List β}

def successor (k : β) : List β → Option β
  | [] => none
  | x :: rest => if x = k then rest.head? else successor k rest

theorem mem_of_successor (h : successor k l = some y) : k ∈ l ∧ y ∈ l := by
  induction l with
  | nil => cases h
  | cons x rest ih =>
      rw [successor] at h
      split at h
      · rename_i heq
        exact ⟨heq ▸ List.mem_cons_self, List.mem_cons_of_mem _ (List.mem_of_mem_head? h)⟩
      · obtain ⟨hk, hy⟩ := ih h
        exact ⟨List.mem_cons_of_mem _ hk, List.mem_cons_of_mem _ hy⟩

theorem successor_of_not_mem (h : k ∉ l) : successor k l = none := by
  cases hnext : successor k l with
  | none => rfl
  | some y => exact absurd (mem_of_successor hnext).1 h

omit [DecidableEq β] in
theorem head?_of_sublist (h : copy.Sublist l) (hnodup : l.Nodup) (hhead : l.head? = some y) :
    copy.head? = some y ↔ y ∈ copy := by
  cases h with
  | slnil => cases hhead
  | cons z hsub =>
      cases hhead
      have hgone : y ∉ copy := fun hy => (List.nodup_cons.1 hnodup).1 (hsub.subset hy)
      exact ⟨fun hy => List.mem_of_mem_head? hy, fun hy => absurd hy hgone⟩
  | cons_cons z hsub =>
      cases hhead
      simp

/-- A copy has the successor of an element right exactly if it holds both. -/
theorem successor_of_sublist (h : copy.Sublist l) (hnodup : l.Nodup) :
    successor k copy = successor k l ↔ ∀ y, successor k l = some y → k ∈ copy ∧ y ∈ copy := by
  induction h with
  | slnil => simp [successor]
  | @cons copy l x hsub ih =>
      obtain ⟨hx, hrest⟩ := List.nodup_cons.1 hnodup
      have hgone : x ∉ copy := fun hmem => hx (hsub.subset hmem)
      rw [successor]
      by_cases hk : x = k
      · subst hk
        rw [if_pos rfl, successor_of_not_mem hgone]
        constructor
        · intro hnone y hy
          rw [hy] at hnone
          cases hnone
        · intro hboth
          cases hhead : l.head? with
          | none => rfl
          | some y => exact absurd (hboth y hhead).1 hgone
      · rw [if_neg hk]
        exact ih hrest
  | @cons_cons copy l x hsub ih =>
      obtain ⟨hx, hrest⟩ := List.nodup_cons.1 hnodup
      rw [successor, successor]
      by_cases hk : x = k
      · subst hk
        rw [if_pos rfl, if_pos rfl]
        cases hhead : l.head? with
        | none =>
            have hnil : l = [] := List.head?_eq_none_iff.1 hhead
            subst hnil
            simp [List.sublist_nil.1 hsub]
        | some y =>
            have hne : y ≠ x := by
              rintro rfl
              exact hx (List.mem_of_mem_head? hhead)
            rw [head?_of_sublist hsub hrest hhead]
            simp [hne]
      · rw [if_neg hk, if_neg hk, ih hrest]
        refine forall₂_congr fun y hy => ?_
        have hne : y ≠ x := by
          rintro rfl
          exact hx (mem_of_successor hy).2
        simp [hne, Ne.symm hk]

end Relational
