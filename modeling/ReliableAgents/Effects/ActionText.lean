import ReliableAgents.Orchestrator.Ledger
import Mathlib

/-!
# The text of an action id

`f"{agent_id}:{seq}:{action_type}"` can be read back: a UUID is written in 36
characters, and the digits of an integer never contain the colon that follows them.
-/

namespace ReliableAgents

/-! ## Hexadecimal digits -/

theorem eq_of_digits_eq {base n m : Nat} (k : Nat)
    (h : ∀ i < k, n / base ^ i % base = m / base ^ i % base) : n % base ^ k = m % base ^ k := by
  induction k with
  | zero => simp [Nat.mod_one]
  | succ k ih =>
      have hlow := ih fun i hi => h i (by omega)
      have hdigit := h k (by omega)
      rw [Nat.mod_pow_succ, Nat.mod_pow_succ, hlow, hdigit]

theorem digitChar_inj : ∀ d < 16, ∀ e < 16, Nat.digitChar d = Nat.digitChar e → d = e := by
  decide

def Uuid.hexDigits (u : Uuid) : List Char :=
  (List.range 32).map fun i => Nat.digitChar (u.bits.toNat / 16 ^ (31 - i) % 16)

theorem Uuid.hexDigits_length (u : Uuid) : u.hexDigits.length = 32 := by
  simp [hexDigits]

theorem Uuid.hexDigits_injective {u w : Uuid} (h : u.hexDigits = w.hexDigits) : u = w := by
  have hdigits : ∀ i < 32, u.bits.toNat / 16 ^ i % 16 = w.bits.toNat / 16 ^ i % 16 := by
    intro i hi
    have hat : u.hexDigits[31 - i]? = w.hexDigits[31 - i]? := by rw [h]
    have hlt : 31 - i < 32 := by omega
    have hback : 31 - (31 - i) = i := by omega
    simp only [hexDigits, List.getElem?_map, List.getElem?_range hlt, Option.map_some,
      Option.some.injEq, hback] at hat
    exact digitChar_inj _ (Nat.mod_lt _ (by decide)) _ (Nat.mod_lt _ (by decide)) hat
  have hmod := eq_of_digits_eq 32 hdigits
  rw [Nat.mod_eq_of_lt (show u.bits.toNat < 16 ^ 32 from u.bits.isLt),
    Nat.mod_eq_of_lt (show w.bits.toNat < 16 ^ 32 from w.bits.isLt)] at hmod
  cases u
  cases w
  congr 1
  exact BitVec.eq_of_toNat_eq hmod

/-! ## The written UUID -/

theorem Uuid.str_toList (u : Uuid) :
    u.str.toList =
      u.hexDigits.take 8 ++ '-' :: (u.hexDigits.drop 8).take 4 ++
        '-' :: (u.hexDigits.drop 12).take 4 ++ '-' :: (u.hexDigits.drop 16).take 4 ++
          '-' :: u.hexDigits.drop 20 := by
  simp [str, hexDigits, String.toList_ofList]

theorem Uuid.str_length (u : Uuid) : u.str.toList.length = 36 := by
  simp [str_toList, hexDigits_length]

theorem Uuid.str_injective {u w : Uuid} (h : u.str = w.str) : u = w := by
  apply hexDigits_injective
  have hu := u.hexDigits_length
  have hw := w.hexDigits_length
  have hlist := congrArg String.toList h
  rw [str_toList, str_toList] at hlist
  obtain ⟨hrest, h20⟩ := List.append_inj hlist (by simp [hu, hw])
  obtain ⟨hrest, h16⟩ := List.append_inj hrest (by simp [hu, hw])
  obtain ⟨hrest, h12⟩ := List.append_inj hrest (by simp [hu, hw])
  obtain ⟨h0, h8⟩ := List.append_inj hrest (by simp [hu, hw])
  simp only [List.cons.injEq, true_and] at h20 h16 h12 h8
  have split : ∀ d : List Char, d = d.take 8 ++ ((d.drop 8).take 4 ++ ((d.drop 12).take 4 ++
      ((d.drop 16).take 4 ++ d.drop 20))) := by
    intro d
    have step : ∀ i j, d.drop i = (d.drop i).take j ++ d.drop (i + j) := by
      intro i j
      rw [← List.drop_drop, List.take_append_drop]
    rw [← step 16 4, ← step 12 4, ← step 8 4, List.take_append_drop]
  rw [split u.hexDigits, split w.hexDigits, h0, h8, h12, h16, h20]

/-! ## The three parts -/

namespace Ledger

theorem notMem_repr {c : Char} (hdigit : c.isDigit = false) (n : Nat) : c ∉ n.repr.toList := by
  intro hmem
  rw [Nat.toList_repr] at hmem
  rw [Nat.isDigit_of_mem_toDigits (by decide) (by decide) hmem] at hdigit
  cases hdigit

theorem notMem_toString {c : Char} (hdigit : c.isDigit = false) (hsign : c ≠ '-') (i : Int) :
    c ∉ (toString i).toList := by
  cases i with
  | ofNat n => exact notMem_repr hdigit n
  | negSucc n =>
      rw [show toString (Int.negSucc n) = "-" ++ (n + 1).repr from rfl, String.toList_append]
      intro hmem
      rcases List.mem_append.1 hmem with hdash | hdigits
      · exact hsign (List.mem_singleton.1 hdash)
      · exact notMem_repr hdigit (n + 1) hdigits

theorem eq_of_first_colon {x y z w : List Char} (hx : ':' ∉ x) (hy : ':' ∉ y)
    (h : x ++ ':' :: z = y ++ ':' :: w) : x = y ∧ z = w := by
  induction x generalizing y with
  | nil =>
      cases y with
      | nil => exact ⟨rfl, (List.cons.inj h).2⟩
      | cons c rest =>
          obtain ⟨hc, -⟩ := List.cons.inj h
          exact absurd (hc ▸ List.mem_cons_self) hy
  | cons c rest ih =>
      cases y with
      | nil =>
          obtain ⟨hc, -⟩ := List.cons.inj h
          exact absurd (hc ▸ List.mem_cons_self) hx
      | cons d rest' =>
          obtain ⟨hc, htail⟩ := List.cons.inj h
          obtain ⟨hrest, hzw⟩ := ih (fun hmem => hx (List.mem_cons_of_mem _ hmem))
            (fun hmem => hy (List.mem_cons_of_mem _ hmem)) htail
          exact ⟨by rw [hc, hrest], hzw⟩

/-- Two action texts are equal only when all their parts are. -/
theorem actionText_inj {u w : Uuid} {i j : Int} {x y : String}
    (h : actionText u.str i x = actionText w.str j y) : u = w ∧ i = j ∧ x = y := by
  have hlist : u.str.toList ++ (':' :: ((toString i).toList ++ ':' :: x.toList)) =
      w.str.toList ++ (':' :: ((toString j).toList ++ ':' :: y.toList)) := by
    simpa [actionText, String.toList_append, List.append_assoc] using congrArg String.toList h
  obtain ⟨huuid, hrest⟩ := List.append_inj hlist (by rw [Uuid.str_length, Uuid.str_length])
  have hcut := List.cons.inj hrest
  have hcolon : ∀ n : Int, ':' ∉ (toString n).toList :=
    notMem_toString (by decide) (by decide)
  obtain ⟨hseq, htype⟩ := eq_of_first_colon (hcolon i) (hcolon j)
    hcut.2
  refine ⟨Uuid.str_injective (String.toList_inj.1 huuid), ?_, String.toList_inj.1 htype⟩
  exact Int.repr_injective (String.toList_inj.1 hseq)

end Ledger

end ReliableAgents
