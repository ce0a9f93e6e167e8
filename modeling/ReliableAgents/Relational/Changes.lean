import Mathlib.Data.List.Basic
import Mathlib.Data.List.Perm.Basic

/-!
# Changes of a list of rows

A change maps the rows that are there and appends new ones. Two changes whose maps
touch different rows, and of which only one appends, may be made in either order.
-/

namespace Relational

/-- Steps that keep an invariant and commute under it may be taken in any order. -/
theorem foldl_perm {σ ι : Type} {f : σ → ι → σ} {I : σ → Prop} (keeps : ∀ s i, I s → I (f s i))
    (comm : ∀ s i j, I s → f (f s i) j = f (f s j) i) {l l' : List ι} (h : l.Perm l') {s : σ}
    (hs : I s) : l.foldl f s = l'.foldl f s := by
  induction h generalizing s with
  | nil => rfl
  | cons i _ ih => exact ih (keeps s i hs)
  | swap i j rest => rw [List.foldl_cons, List.foldl_cons, List.foldl_cons, List.foldl_cons,
      comm s j i hs]
  | trans _ _ ih ih' => exact (ih hs).trans (ih' hs)

theorem foldl_keeps {σ ι : Type} {f : σ → ι → σ} {I : σ → Prop} (keeps : ∀ s i, I s → I (f s i))
    (l : List ι) {s : σ} (hs : I s) : I (l.foldl f s) := by
  induction l generalizing s with
  | nil => exact hs
  | cons i rest ih => exact ih (keeps s i hs)

/-- A step that was already taken changes nothing, however long ago that was. -/
theorem foldl_absorbs {σ ι : Type} [DecidableEq ι] {f : σ → ι → σ} {I : σ → Prop}
    (keeps : ∀ s i, I s → I (f s i)) (comm : ∀ s i j, I s → f (f s i) j = f (f s j) i)
    (idem : ∀ s i, I s → f (f s i) i = f s i) {l : List ι} {i : ι} (hi : i ∈ l) {s : σ}
    (hs : I s) : f (l.foldl f s) i = l.foldl f s := by
  have hlast : l.Perm (l.erase i ++ [i]) :=
    (List.perm_cons_erase hi).trans (List.perm_append_singleton i _).symm
  rw [foldl_perm keeps comm hlast hs, List.foldl_append, List.foldl_cons, List.foldl_nil]
  exact idem _ i (foldl_keeps keeps _ hs)

structure Change (ρ : Type) where
  on : ρ → ρ
  new : List ρ

namespace Change

variable {ρ κ : Type}

def none : Change ρ where
  on := id
  new := []

def apply (c : Change ρ) (rows : List ρ) : List ρ := rows.map c.on ++ c.new

structure Independent (c d : Change ρ) (rows : List ρ) : Prop where
  swap : ∀ r ∈ rows, c.on (d.on r) = d.on (c.on r)
  left : ∀ r ∈ d.new, c.on r = r
  right : ∀ r ∈ c.new, d.on r = r
  one : c.new = [] ∨ d.new = []

variable {c d : Change ρ} {rows : List ρ}

@[simp] theorem none_apply : none.apply rows = rows := by simp [apply, none]

theorem Independent.symm (h : Independent c d rows) : Independent d c rows where
  swap := fun r hr => (h.swap r hr).symm
  left := h.right
  right := h.left
  one := h.one.symm

theorem independent_none : Independent c none rows where
  swap := fun _ _ => rfl
  left := fun _ hr => (List.not_mem_nil hr).elim
  right := fun _ _ => rfl
  one := Or.inr rfl

/-- Maps that keep the key, and rows apart that they touch. -/
theorem swap_of_disjoint {key : ρ → κ} {f g : ρ → ρ} {p q : κ → Prop}
    (hf : ∀ r, key (f r) = key r) (hg : ∀ r, key (g r) = key r)
    (hfp : ∀ r, ¬ p (key r) → f r = r) (hgq : ∀ r, ¬ q (key r) → g r = r)
    (hapart : ∀ r ∈ rows, ¬ (p (key r) ∧ q (key r))) :
    ∀ r ∈ rows, f (g r) = g (f r) := by
  intro r hr
  by_cases hp : p (key r)
  · have hq : ¬ q (key r) := fun hq => hapart r hr ⟨hp, hq⟩
    rw [hgq r hq, hgq (f r) (by rw [hf]; exact hq)]
  · rw [hfp r hp, hfp (g r) (by rw [hg]; exact hp)]

theorem Independent.apply_comm (h : Independent c d rows) : c.apply (d.apply rows) = d.apply (c.apply rows) := by
  have hleft : d.new.map c.on = d.new :=
    (List.map_congr_left h.left).trans (List.map_id _)
  have hright : c.new.map d.on = c.new :=
    (List.map_congr_left h.right).trans (List.map_id _)
  have hswap : (rows.map d.on).map c.on = (rows.map c.on).map d.on := by
    rw [List.map_map, List.map_map]
    exact List.map_congr_left h.swap
  have hone : d.new ++ c.new = c.new ++ d.new := by
    rcases h.one with hnil | hnil <;> simp [hnil]
  calc c.apply (d.apply rows) = (rows.map d.on).map c.on ++ d.new ++ c.new := by
        rw [apply, apply, List.map_append, hleft]
    _ = (rows.map c.on).map d.on ++ c.new ++ d.new := by
        rw [hswap, List.append_assoc, hone, ← List.append_assoc]
    _ = d.apply (c.apply rows) := by rw [apply, apply, List.map_append, hright]

theorem filter_apply {p q : ρ → Bool}
    (hold : ∀ r ∈ rows, (c.on r = r ∧ p r = q r) ∨ (p (c.on r) = false ∧ q r = false))
    (hnew : ∀ r ∈ c.new, p r = false) : (c.apply rows).filter p = rows.filter q := by
  have hnone : c.new.filter p = [] := List.filter_eq_nil_iff.2 fun r hr => by simp [hnew r hr]
  rw [apply, List.filter_append, hnone, List.append_nil]
  induction rows with
  | nil => rfl
  | cons r rest ih =>
      have hrest := ih fun u hu => hold u (List.mem_cons_of_mem _ hu)
      rw [List.map_cons, List.filter_cons, List.filter_cons, hrest]
      rcases hold r List.mem_cons_self with ⟨hsame, hpq⟩ | ⟨hp, hq⟩
      · rw [hsame, hpq]
      · simp [hp, hq]

theorem filter_apply_eq_nil {p : ρ → Bool} (hold : ∀ r ∈ rows, p (c.on r) = false)
    (hnew : ∀ r ∈ c.new, p r = false) : (c.apply rows).filter p = [] := by
  refine List.filter_eq_nil_iff.2 fun r hr => ?_
  rcases List.mem_append.1 hr with hr | hr
  · obtain ⟨u, hu, rfl⟩ := List.mem_map.1 hr
    simp [hold u hu]
  · simp [hnew r hr]

end Change

end Relational
