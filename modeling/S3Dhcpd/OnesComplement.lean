import Mathlib.Data.Nat.ModEq
import Mathlib.Algebra.BigOperators.Group.List.Basic

/-! Sums with an end-around carry, and the checksums that complete them. Words are numbers up to `M`,
and `M` stands for zero as well. -/
namespace OnesComplement
variable (M : ℕ)

/-- The sum of two words; a carry is added at the low end. -/
def add (a b : ℕ) : ℕ := if a+b > M then a+b-M else a+b

/-- The words added to a start, one after the other. -/
def sum (a : ℕ) (l : List ℕ) : ℕ := l.foldl (add M) a

/-- The word that completes the sum of the others. -/
def checksum (a : ℕ) (l : List ℕ) : ℕ := M-sum M a l

section Sums
variable {M : ℕ} {a b : ℕ} {l l' : List ℕ}

theorem add_le (ha : a ≤ M) (hb : b ≤ M) : add M a b ≤ M := by
  rw [add]
  split_ifs <;> omega

theorem add_modEq (a b : ℕ) : add M a b ≡ a+b [MOD M] := by
  rw [add]
  split_ifs with h
  · have hcarry : a+b = a+b-M+M := (Nat.sub_add_cancel h.le).symm
    conv_rhs => rw [hcarry]
    exact (Nat.add_modEq_right).symm
  · exact Nat.ModEq.refl _

theorem add_eq_zero : add M a b = 0 ↔ a = 0 ∧ b = 0 := by
  rw [add]
  split_ifs <;> omega

@[simp] theorem sum_nil : sum M a [] = a := rfl

@[simp] theorem sum_cons : sum M a (b :: l) = sum M (add M a b) l := rfl

theorem sum_append : sum M a (l ++ l') = sum M (sum M a l) l' := List.foldl_append

theorem sum_le (ha : a ≤ M) (hl : ∀ x ∈ l, x ≤ M) : sum M a l ≤ M := by
  induction l generalizing a with
  | nil => exact ha
  | cons b l ih =>
    obtain ⟨hb, hl⟩ := List.forall_mem_cons.mp hl
    exact ih (add_le ha hb) hl

theorem sum_modEq (a : ℕ) (l : List ℕ) : sum M a l ≡ a+l.sum [MOD M] := by
  induction l generalizing a with
  | nil => exact Nat.ModEq.refl _
  | cons b l ih =>
    calc
      sum M a (b :: l) ≡ add M a b+l.sum [MOD M] := ih (add M a b)
      _ ≡ a+b+l.sum [MOD M] := (add_modEq a b).add_right _
      _ = a+(b :: l).sum := by rw [List.sum_cons, Nat.add_assoc]

theorem sum_eq_zero : sum M a l = 0 ↔ a = 0 ∧ ∀ x ∈ l, x = 0 := by
  induction l generalizing a with
  | nil => simp
  | cons b l ih => rw [sum_cons, ih, add_eq_zero, List.forall_mem_cons, and_assoc]

/-- A word is determined by its residue, and by whether it is zero. -/
theorem eq_of_modEq (ha : a ≤ M) (hb : b ≤ M) (h : a ≡ b [MOD M]) (hzero : a = 0 ↔ b = 0) :
    a = b := by
  have hmod : a%M = b%M := h
  rcases Nat.lt_or_eq_of_le ha with ha | rfl
  · rcases Nat.lt_or_eq_of_le hb with hb | rfl
    · rwa [Nat.mod_eq_of_lt ha, Nat.mod_eq_of_lt hb] at hmod
    · rw [Nat.mod_eq_of_lt ha, Nat.mod_self] at hmod
      rw [hmod, hzero.mp hmod]
  · rcases Nat.lt_or_eq_of_le hb with hb | rfl
    · rw [Nat.mod_self, Nat.mod_eq_of_lt hb] at hmod
      rw [← hmod, hzero.mpr hmod.symm]
    · rfl

theorem sum_perm (ha : a ≤ M) (hl : ∀ x ∈ l, x ≤ M) (h : l.Perm l') : sum M a l = sum M a l' := by
  have hl' : ∀ x ∈ l', x ≤ M := fun x hx => hl x (h.mem_iff.mpr hx)
  refine eq_of_modEq (sum_le ha hl) (sum_le ha hl') ?_ ?_
  · calc
      sum M a l ≡ a+l.sum [MOD M] := sum_modEq a l
      _ = a+l'.sum := by rw [h.sum_eq]
      _ ≡ sum M a l' [MOD M] := (sum_modEq a l').symm
  · simp only [sum_eq_zero, h.mem_iff]

/-- The sum with the checksum in any place is all ones. -/
theorem sum_verify (hM : 0 < M) (ha : a ≤ M) (hl : ∀ x ∈ l ++ 0 :: l', x ≤ M) :
    sum M a (l ++ checksum M a (l ++ 0 :: l') :: l') = M := by
  have hle := sum_le ha hl
  have hc : checksum M a (l ++ 0 :: l')+sum M a (l ++ 0 :: l') = M := Nat.sub_add_cancel hle
  have hwords : ∀ x ∈ l ++ checksum M a (l ++ 0 :: l') :: l', x ≤ M := by
    simp only [List.forall_mem_append, List.forall_mem_cons] at hl ⊢
    exact ⟨hl.1, Nat.sub_le _ _, hl.2.2⟩
  refine eq_of_modEq (sum_le ha hwords) (Nat.le_refl M) ?_ ?_
  · -- the sum of all words is that of the others and what it lacks
    have hsplit : a+(l ++ checksum M a (l ++ 0 :: l') :: l').sum =
        checksum M a (l ++ 0 :: l')+(a+(l ++ 0 :: l').sum) := by
      simp only [List.sum_append, List.sum_cons]
      omega
    calc
      sum M a (l ++ checksum M a (l ++ 0 :: l') :: l') ≡
          a+(l ++ checksum M a (l ++ 0 :: l') :: l').sum [MOD M] := sum_modEq a _
      _ = checksum M a (l ++ 0 :: l')+(a+(l ++ 0 :: l').sum) := hsplit
      _ ≡ checksum M a (l ++ 0 :: l')+sum M a (l ++ 0 :: l') [MOD M] :=
        (sum_modEq a (l ++ 0 :: l')).symm.add_left _
      _ = M := hc
  · -- if every word is zero, the checksum is not
    refine ⟨fun hzero => ?_, fun hzero => absurd hzero hM.ne'⟩
    obtain ⟨rfl, hall⟩ := sum_eq_zero.mp hzero
    simp only [List.forall_mem_append, List.forall_mem_cons] at hall
    have hrest : sum M 0 (l ++ 0 :: l') = 0 := by
      rw [sum_eq_zero, List.forall_mem_append, List.forall_mem_cons]
      exact ⟨rfl, hall.1, rfl, hall.2.2⟩
    rw [hall.2.1, hrest] at hc
    exact hc.symm

end Sums

end OnesComplement
