import Mathlib.Algebra.Order.Group.Defs

/-!
# Caches with a time to live

A process keeps a copy of what it last read from a source that others change, and
reads the source again when the copy's stamp is too old. Whatever a read answers, the
source held it recently: so a change of the source is seen everywhere after one
lifetime, and until then a reader lags behind but never invents a value.
-/

namespace Machine

variable {T V W : Type} [AddCommGroup T] [LinearOrder T]

/-- A value and the clock it was stamped with. -/
structure Copy (T V : Type) where
  value : V
  stamp : T
deriving DecidableEq, Repr

/-- One read: the clock it starts at, when its query runs if it makes one, and the
stamp it then leaves. -/
structure TimedRead (T : Type) where
  now : T
  queried : T
  stamped : T
deriving DecidableEq, Repr

/-- Answer from a copy younger than `ttl`, or query the source and keep the answer. -/
def readThrough (ttl : T) (source : T → V) (r : TimedRead T) :
    Option (Copy T V) → V × Option (Copy T V)
  | some c =>
      if r.now - c.stamp < ttl then (c.value, some c)
      else (source r.queried, some ⟨source r.queried, r.stamped⟩)
  | none => (source r.queried, some ⟨source r.queried, r.stamped⟩)

/-- The copy is what the source held at some time until `last`, and its stamp is at most
`slack` later than that. -/
def HeldAt (source : T → V) (slack last : T) (cache : Option (Copy T V)) : Prop :=
  ∀ c, cache = some c → ∃ q, source q = c.value ∧ c.stamp - slack ≤ q ∧ q ≤ last

/-- The times of one read lie in order, after everything read before. -/
structure TimedRead.InOrder (r : TimedRead T) (slack last : T) : Prop where
  start : last ≤ r.now
  query : r.now ≤ r.queried
  stamp : r.stamped - slack ≤ r.queried

section Reads

variable {ttl slack last : T} {source : T → V} {cache : Option (Copy T V)} {r : TimedRead T}

theorem heldAt_none : HeldAt source slack last none := fun _ h => by cases h

theorem HeldAt.mono {last' : T} (h : HeldAt source slack last cache) (hle : last ≤ last') :
    HeldAt source slack last' cache := fun c hc =>
  let ⟨q, hq, hstamp, hlast⟩ := h c hc
  ⟨q, hq, hstamp, hlast.trans hle⟩

theorem heldAt_stamped (hr : r.InOrder slack last) :
    HeldAt source slack r.queried (some ⟨source r.queried, r.stamped⟩) := by
  rintro _ ⟨⟩
  exact ⟨r.queried, rfl, hr.stamp, le_rfl⟩

theorem HeldAt.readThrough (h : HeldAt source slack last cache) (hr : r.InOrder slack last) :
    HeldAt source slack r.queried (readThrough ttl source r cache).2 := by
  cases cache with
  | none => exact heldAt_stamped hr
  | some c =>
      simp only [Machine.readThrough]
      split
      · exact h.mono (hr.start.trans hr.query)
      · exact heldAt_stamped hr

variable [IsOrderedAddMonoid T]

/-- Whatever a read answers, the source held it less than a lifetime ago. -/
theorem HeldAt.recent (h : HeldAt source slack last cache) (hr : r.InOrder slack last)
    (httl : 0 < ttl) (hslack : 0 ≤ slack) :
    ∃ q, source q = (Machine.readThrough ttl source r cache).1 ∧ r.now - ttl - slack < q ∧
      q ≤ r.queried := by
  have hfresh : r.now - ttl - slack < r.queried :=
    calc r.now - ttl - slack ≤ r.now - ttl := sub_le_self _ hslack
      _ < r.now := sub_lt_self _ httl
      _ ≤ r.queried := hr.query
  cases cache with
  | none => exact ⟨r.queried, rfl, hfresh, le_rfl⟩
  | some c =>
      simp only [Machine.readThrough]
      split
      · rename_i hyoung
        obtain ⟨q, hq, hstamp, hlast⟩ := h c rfl
        refine ⟨q, hq, ?_, hlast.trans (hr.start.trans hr.query)⟩
        exact (sub_lt_sub_right (sub_lt_comm.1 hyoung) slack).trans_le hstamp
      · exact ⟨r.queried, rfl, hfresh, le_rfl⟩

/-- What the source has not changed for a lifetime is what a read answers. -/
theorem HeldAt.settled (h : HeldAt source slack last cache) (hr : r.InOrder slack last)
    (httl : 0 < ttl) (hslack : 0 ≤ slack) {g : V → W} {w : W} {a b : T}
    (hconst : ∀ q, a ≤ q → q ≤ b → g (source q) = w) (ha : a + ttl + slack ≤ r.now)
    (hb : r.queried ≤ b) : g (Machine.readThrough ttl source r cache).1 = w := by
  obtain ⟨q, hq, hlate, hearly⟩ := h.recent hr httl hslack
  rw [← hq]
  refine hconst q (le_trans ?_ hlate.le) (hearly.trans hb)
  rw [le_sub_iff_add_le, le_sub_iff_add_le, add_right_comm]
  exact ha

end Reads

end Machine
