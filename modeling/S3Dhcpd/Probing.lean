import Mathlib.Data.Nat.Find
import Mathlib.Data.Nat.ModEq
import Mathlib.Data.Nat.GCD.Basic
import Mathlib.Logic.Function.Basic

/-! Open addressing with a stride: the slots that a key probes, and where its probes land. -/
namespace Probing

def probe (size start stride i : ℕ) : ℕ := (start+i*stride)%size

/-- After how many probes a key is back at its first slot. -/
def period (size stride : ℕ) : ℕ := size/size.gcd stride

section Cycle
variable {size start stride : ℕ}

theorem probe_lt (hsize : 0 < size) (i : ℕ) : probe size start stride i < size :=
  Nat.mod_lt _ hsize

theorem probe_zero (hstart : start < size) : probe size start stride 0 = start := by
  rw [probe, zero_mul, add_zero, Nat.mod_eq_of_lt hstart]

theorem period_pos (hsize : 0 < size) : 0 < period size stride :=
  Nat.div_gcd_pos_of_pos_left stride hsize

theorem period_le : period size stride ≤ size := Nat.div_le_self _ _

theorem size_dvd_mul (hsize : 0 < size) {i : ℕ} :
    size ∣ i*stride ↔ period size stride ∣ i := by
  have hg : 0 < size.gcd stride := Nat.gcd_pos_of_pos_left stride hsize
  have hcop : (size/size.gcd stride).Coprime (stride/size.gcd stride) :=
    Nat.coprime_div_gcd_div_gcd hg
  have hs : size.gcd stride*period size stride = size :=
    Nat.mul_div_cancel' (Nat.gcd_dvd_left size stride)
  have hi : size.gcd stride*(i*(stride/size.gcd stride)) = i*stride := by
    rw [Nat.mul_left_comm, Nat.mul_div_cancel' (Nat.gcd_dvd_right size stride)]
  calc size ∣ i*stride
      ↔ size.gcd stride*period size stride ∣ size.gcd stride*(i*(stride/size.gcd stride)) := by
        rw [hs, hi]
    _ ↔ period size stride ∣ i*(stride/size.gcd stride) := Nat.mul_dvd_mul_iff_left hg
    _ ↔ period size stride ∣ i := hcop.dvd_mul_right

/-- The probes come back after one period, and not before. -/
theorem probe_eq_start (hstart : start < size) {i : ℕ} :
    probe size start stride i = start ↔ period size stride ∣ i := by
  have hsize : 0 < size := Nat.zero_lt_of_lt hstart
  rw [← size_dvd_mul hsize, ← Nat.modEq_zero_iff_dvd]
  constructor
  · intro h
    have hmod : start+i*stride ≡ start+0 [MOD size] := by
      rw [Nat.ModEq, add_zero, Nat.mod_eq_of_lt hstart]
      exact h
    exact Nat.ModEq.add_left_cancel' start hmod
  · intro h
    have hmod : start+i*stride ≡ start+0 [MOD size] := h.add_left start
    rw [Nat.ModEq, add_zero, Nat.mod_eq_of_lt hstart] at hmod
    exact hmod

theorem probe_add_period (hsize : 0 < size) (i : ℕ) :
    probe size start stride (i+period size stride) = probe size start stride i := by
  have h : size ∣ period size stride*stride := (size_dvd_mul hsize).mpr dvd_rfl
  rw [probe, probe, add_mul, ← add_assoc]
  obtain ⟨c, hc⟩ := h
  rw [hc, Nat.add_mul_mod_self_left]

theorem probe_mod_period (hsize : 0 < size) (i : ℕ) :
    probe size start stride (i%period size stride) = probe size start stride i := by
  conv_rhs => rw [← Nat.mod_add_div i (period size stride)]
  induction i/period size stride with
  | zero => rw [mul_zero, add_zero]
  | succ n ih => rw [mul_add, mul_one, ← add_assoc, probe_add_period hsize, ih]

/-- The probes of one period are different. -/
theorem probe_inj (hsize : 0 < size) {i i' : ℕ} (hi : i < period size stride)
    (hi' : i' < period size stride) (h : probe size start stride i = probe size start stride i') :
    i = i' := by
  have hle {i i' : ℕ} (hi' : i' < period size stride) (hle : i ≤ i')
      (h : probe size start stride i = probe size start stride i') : i = i' := by
    have hmod : i*stride ≡ i'*stride [MOD size] := Nat.ModEq.add_left_cancel' start h
    have hdvd : size ∣ (i'-i)*stride := by
      rw [Nat.sub_mul]
      exact (Nat.modEq_iff_dvd' (Nat.mul_le_mul_right stride hle)).mp hmod
    have hzero := Nat.eq_zero_of_dvd_of_lt ((size_dvd_mul hsize).mp hdvd) (by omega)
    omega
  rcases le_total i i' with h' | h'
  · exact hle hi' h' h
  · exact (hle hi h' h.symm).symm

end Cycle

section Landing
variable {κ ν : Type*}

/-- The slot holds another key. -/
def Taken (slots : ℕ → Option (κ × ν)) (k : κ) (j : ℕ) : Prop := ∃ x, slots j = some x ∧ x.1 ≠ k

/-- The probes `p` of a key land at the first slot that no other key has taken. -/
structure LandsAt (p : ℕ → ℕ) (slots : ℕ → Option (κ × ν)) (k : κ) (i : ℕ) : Prop where
  here : ¬Taken slots k (p i)
  before : ∀ i' < i, Taken slots k (p i')

variable {p : ℕ → ℕ} {slots : ℕ → Option (κ × ν)} {k : κ} {i : ℕ}

theorem not_taken_of_none {j : ℕ} (h : slots j = none) : ¬Taken slots k j := by
  rintro ⟨x, hx, _⟩
  rw [h] at hx
  cases hx

theorem not_taken_of_key {j : ℕ} {x : κ × ν} (h : slots j = some x) (hk : x.1 = k) :
    ¬Taken slots k j := by
  rintro ⟨y, hy, hne⟩
  obtain rfl := Option.some.inj (h.symm.trans hy)
  exact hne hk

theorem Taken.slot_ne {j j' : ℕ} (h : Taken slots k j) (h' : ¬Taken slots k j') : j ≠ j' := by
  rintro rfl
  exact h' h

/-- What an update leaves taken for `k`: the slots it does not touch, and its own if it holds
another key. -/
theorem taken_update [DecidableEq κ] {j j' : ℕ} {new : Option (κ × ν)} :
    Taken (Function.update slots j' new) k j ↔
      if j = j' then ∃ x, new = some x ∧ x.1 ≠ k else Taken slots k j := by
  rw [Taken, Function.update_apply]
  split_ifs with h
  · rfl
  · rfl

theorem LandsAt.unique {i' : ℕ} (h : LandsAt p slots k i) (h' : LandsAt p slots k i') : i = i' := by
  rcases Nat.lt_trichotomy i i' with hlt | heq | hlt
  · exact absurd (h'.before i hlt) h.here
  · exact heq
  · exact absurd (h.before i' hlt) h'.here

end Landing

end Probing
