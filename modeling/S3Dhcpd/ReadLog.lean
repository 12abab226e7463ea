import Mathlib.Data.Vector.Basic
import S3Dhcpd.ByteMemory

/-! Computations over a memory that keep a log of the places they read. -/
namespace ReadLog
open ByteMemory
variable {β α γ : Type}

/-- What a computation returns, and the places that it reads: it depends on nothing else. -/
structure Reader (β α : Type) where
  value : (ℕ → β) → α
  reads : (ℕ → β) → List ℕ
  stable : ∀ m m', (∀ i ∈ reads m, m' i = m i) → value m' = value m ∧ reads m' = reads m

namespace Reader

def ret (a : α) : Reader β α := ⟨fun _ => a, fun _ => [], fun _ _ _ => ⟨rfl, rfl⟩⟩

/-- Read first what `r` reads, then what follows from its value. -/
def andThen (r : Reader β α) (f : α → Reader β γ) : Reader β γ where
  value m := (f (r.value m)).value m
  reads m := r.reads m ++ (f (r.value m)).reads m
  stable := by
    intro m m' h
    obtain ⟨hvalue, hreads⟩ := r.stable m m' fun i hi => h i (List.mem_append_left _ hi)
    obtain ⟨hvalue', hreads'⟩ := (f (r.value m)).stable m m'
      fun i hi => h i (List.mem_append_right _ hi)
    rw [hvalue, hvalue', hreads, hreads']
    exact ⟨rfl, rfl⟩

instance : Monad (Reader β) where
  pure := ret
  bind := andThen

def fetch (i : ℕ) : Reader β β where
  value m := m i
  reads _ := [i]
  stable := fun _ _ h => ⟨h i (List.mem_singleton_self i), rfl⟩

/-- The `n` items from an offset on. -/
def fetchMany (offset n : ℕ) : Reader β (List.Vector β n) where
  value m := ⟨read m offset n, length_read m offset n⟩
  reads _ := (List.range n).map (offset+·)
  stable := by
    intro m m' h
    refine ⟨Subtype.ext (List.map_congr_left fun i hi => ?_), rfl⟩
    exact h _ (List.mem_map_of_mem hi)

/-- Nothing is read at `n` or behind. -/
def Within (n : ℕ) (r : Reader β α) (m : ℕ → β) : Prop := ∀ i ∈ r.reads m, i < n

section Laws
variable {m m' : ℕ → β} {n offset k : ℕ}

@[simp] theorem value_pure (a : α) : (pure a : Reader β α).value m = a := rfl

@[simp] theorem value_bind (r : Reader β α) (f : α → Reader β γ) :
    (r >>= f).value m = (f (r.value m)).value m := rfl

@[simp] theorem value_fetch (i : ℕ) : (fetch i : Reader β β).value m = m i := rfl

@[simp] theorem value_fetchMany : ((fetchMany offset k).value m).1 = read m offset k := rfl

@[simp] theorem within_pure (a : α) : Within n (pure a : Reader β α) m :=
  fun _ hi => absurd hi List.not_mem_nil

@[simp] theorem within_bind (r : Reader β α) (f : α → Reader β γ) :
    Within n (r >>= f) m ↔ Within n r m ∧ Within n (f (r.value m)) m := by
  have hreads : (r >>= f).reads m = r.reads m ++ (f (r.value m)).reads m := rfl
  rw [Within, hreads, List.forall_mem_append]
  rfl

@[simp] theorem within_fetch (i : ℕ) : Within n (fetch i : Reader β β) m ↔ i < n :=
  List.forall_mem_singleton

@[simp] theorem within_fetchMany : Within n (fetchMany offset k : Reader β _) m ↔
    k = 0 ∨ offset+k ≤ n := by
  simp only [Within, fetchMany, List.forall_mem_map, List.mem_range]
  constructor
  · intro h
    by_contra hout
    have hlast := h (k-1) (by omega)
    omega
  · rintro hin i hi
    omega

/-- Memories that agree below `n` give the same result to what reads nothing else. -/
theorem Within.congr {r : Reader β α} (h : Within n r m) (hagree : ∀ i < n, m' i = m i) :
    r.value m' = r.value m :=
  (r.stable m m' fun i hi => hagree i (h i hi)).1

end Laws

end Reader

end ReadLog
