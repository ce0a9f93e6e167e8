import ReliableAgents.Relational.Table

/-!
# Rows picked one at a time

What a query finds when one row is left to it, and an update as the updates of its rows.
-/

namespace Relational

namespace Table

variable {ρ κ υ : Type} {key : ρ → κ} {uniq : ρ → υ} {t : Table key uniq}

theorem nodup_sorted (t : Table key uniq) (sel : ρ → Bool) (measure : ρ → Int) :
    (((t.select sel).insertionSort fun r r' => measure r ≤ measure r').map key).Nodup :=
  ((List.perm_insertionSort _ _).map key).nodup_iff.2 (t.select_map_nodup sel)

variable [DecidableEq κ]

theorem select_only {p : ρ → Bool} {r : ρ} (hr : t.get? (key r) = some r) (hp : p r = true)
    (measure : ρ → Int) :
    orderedBatch measure 1 (t.select fun x => p x && !decide (key x ≠ key r)) = [r] := by
  have hall : ∀ x ∈ t.select fun x => p x && !decide (key x ≠ key r), x = r := by
    intro x hx
    obtain ⟨hget, hsel⟩ := mem_select.1 hx
    simp only [Bool.and_eq_true, Bool.not_eq_true', decide_eq_false_iff_not, not_not] at hsel
    rw [hsel.2, hr] at hget
    exact (Option.some.inj hget).symm
  have hmem : r ∈ t.select fun x => p x && !decide (key x ≠ key r) :=
    mem_select.2 ⟨hr, by simp [hp]⟩
  have hnodup := (t.select_map_nodup fun x => p x && !decide (key x ≠ key r)).of_map
  have hone : (t.select fun x => p x && !decide (key x ≠ key r)) = [r] := by
    cases hrows : t.select fun x => p x && !decide (key x ≠ key r) with
    | nil =>
        rw [hrows] at hmem
        cases hmem
    | cons x rest =>
        rw [hrows] at hall hnodup
        have hx := hall x List.mem_cons_self
        cases rest with
        | nil => rw [hx]
        | cons y rest =>
            have hy := hall y (by simp)
            simp [hx, hy] at hnodup
  rw [hone]
  rfl

theorem get?_update_of_ne {p : ρ → Bool} {f : ρ → ρ} (hkey : ∀ r, key (f r) = key r)
    (huniq : ∀ r, uniq (f r) = uniq r) {k : κ} (hp : ∀ r, p r = true → key r ≠ k) :
    (t.update p f hkey huniq).get? k = t.get? k := by
  rw [get?_update]
  cases hr : t.get? k with
  | none => rfl
  | some r =>
      have hnot : ¬ p r = true := fun h => hp r h (key_of_get? hr)
      simp [hnot]

theorem get?_update_key {f : ρ → ρ} (hkey : ∀ r, key (f r) = key r)
    (huniq : ∀ r, uniq (f r) = uniq r) {k k₀ : κ} (hne : k ≠ k₀) :
    (t.update (fun r => key r = k₀) f hkey huniq).get? k = t.get? k :=
  get?_update_of_ne hkey huniq fun _ hr heq => hne (heq.symm.trans (of_decide_eq_true hr))

theorem update_one {p : ρ → Bool} {f : ρ → ρ} (hkey : ∀ r, key (f r) = key r)
    (huniq : ∀ r, uniq (f r) = uniq r) {r : ρ} (hr : t.get? (key r) = some r) (hp : p r = true)
    (hone : ∀ x, p x = true → key x = key r) :
    t.update p f hkey huniq = t.update (fun x => key x = key r) f hkey huniq := by
  refine ext_rows (List.map_congr_left fun x hx => ?_)
  by_cases hsel : key x = key r
  · have hget := get?_of_mem t hx
    rw [hsel, hr] at hget
    cases hget
    simp [hp]
  · have hnot : ¬ p x = true := fun h => hsel (hone x h)
    simp [hsel, hnot]

theorem update_taken {f : ρ → ρ} (hkey : ∀ r, key (f r) = key r) (huniq : ∀ r, uniq (f r) = uniq r)
    {taken : List ρ} (hnodup : (taken.map key).Nodup) :
    t.update (fun r => key r ∈ taken.map key) f hkey huniq =
      taken.foldl (fun u r => u.update (fun x => key x = key r) f hkey huniq) t := by
  induction taken generalizing t with
  | nil => exact update_eq_self fun r _ => by simp
  | cons r rest ih =>
      obtain ⟨hr, hrest⟩ := List.nodup_cons.1 hnodup
      rw [List.foldl_cons, ← ih hrest]
      refine ext_rows ?_
      simp only [update, List.map_map]
      refine List.map_congr_left fun x _ => ?_
      by_cases hx : key x = key r
      · have hnot : ∀ y ∈ rest, ¬ key y = key r := fun y hy heq =>
          hr (heq ▸ List.mem_map_of_mem hy)
        simpa [hx, hkey] using fun y hy heq => absurd heq (hnot y hy)
      · simp [hx]

end Table

end Relational
