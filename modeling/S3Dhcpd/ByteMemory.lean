import Mathlib.Data.List.Basic

/-! Memory as a function of the address, and the lists that stand in it. -/
namespace ByteMemory
variable {β : Type*}

/-- Memory after a copy of `l` to an offset. -/
def write (m : ℕ → β) (offset : ℕ) (l : List β) : ℕ → β :=
  fun i => if offset ≤ i then (l[i-offset]?).getD (m i) else m i

/-- The `n` items from an offset on. -/
def read (m : ℕ → β) (offset n : ℕ) : List β := (List.range n).map fun i => m (offset+i)

/-- The list stands in memory from an offset on. -/
def Holds (m : ℕ → β) : ℕ → List β → Prop
  | _, [] => True
  | offset, b :: l => m offset = b ∧ Holds m (offset+1) l

/-- Memory after copies of several lists, each to its offset. -/
def writeAll (m : ℕ → β) (fields : List (ℕ × List β)) : ℕ → β :=
  fields.foldl (fun m field => write m field.1 field.2) m

/-- The fields follow each other without gaps, from an offset on. -/
def Contiguous : ℕ → List (ℕ × List β) → Prop
  | _, [] => True
  | offset, field :: fields => field.1 = offset ∧ Contiguous (offset+field.2.length) fields

variable {m m' : ℕ → β} {offset : ℕ} {l l' : List β}

@[simp] theorem holds_nil : Holds m offset [] := trivial

@[simp] theorem holds_cons {b : β} : Holds m offset (b :: l) ↔ m offset = b ∧ Holds m (offset+1) l :=
  Iff.rfl

@[simp] theorem length_read (m : ℕ → β) (offset n : ℕ) : (read m offset n).length = n := by
  simp [read]

theorem read_succ (m : ℕ → β) (offset n : ℕ) :
    read m offset (n+1) = m offset :: read m (offset+1) n := by
  simp only [read, List.range_succ_eq_map, List.map_cons, List.map_map, Nat.add_zero]
  congr 1
  apply List.map_congr_left
  intro i _
  exact congrArg m (by simp only [Nat.succ_eq_add_one]; omega)

theorem holds_append :
    Holds m offset (l ++ l') ↔ Holds m offset l ∧ Holds m (offset+l.length) l' := by
  induction l generalizing offset with
  | nil => simp
  | cons b l ih =>
    rw [List.cons_append, holds_cons, ih, holds_cons, and_assoc, List.length_cons,
      Nat.add_assoc offset, Nat.add_comm 1]

theorem holds_iff_read : Holds m offset l ↔ read m offset l.length = l := by
  induction l generalizing offset with
  | nil => simp [read]
  | cons b l ih => rw [holds_cons, ih, List.length_cons, read_succ, List.cons.injEq]

instance [DecidableEq β] : Decidable (Holds m offset l) :=
  decidable_of_iff (read m offset l.length = l) holds_iff_read.symm

theorem Holds.read (h : Holds m offset l) : read m offset l.length = l := holds_iff_read.mp h

theorem Holds.congr (h : Holds m offset l)
    (hm : ∀ i, offset ≤ i → i < offset+l.length → m' i = m i) : Holds m' offset l := by
  induction l generalizing offset with
  | nil => trivial
  | cons b l ih =>
    rw [List.length_cons] at hm
    refine ⟨(hm offset (Nat.le_refl _) (by omega)).trans h.1, ih h.2 ?_⟩
    exact fun i hlo hhi => hm i (by omega) (by omega)

theorem write_before {i : ℕ} (hi : i < offset) : write m offset l i = m i :=
  if_neg (Nat.not_le.mpr hi)

theorem write_behind {i : ℕ} (hi : offset+l.length ≤ i) : write m offset l i = m i := by
  rw [write, if_pos (by omega), List.getElem?_eq_none (by omega), Option.getD_none]

theorem Holds.agree {i : ℕ} (h : Holds m offset l) (h' : Holds m' offset l) (hlo : offset ≤ i)
    (hhi : i < offset+l.length) : m i = m' i := by
  induction l generalizing offset with
  | nil => exact absurd hhi (Nat.not_lt.mpr hlo)
  | cons b l ih =>
    rw [List.length_cons] at hhi
    rcases Nat.eq_or_lt_of_le hlo with rfl | hlt
    · rw [h.1, h'.1]
    · exact ih h.2 h'.2 hlt (by omega)

theorem holds_write : Holds (write m offset l) offset l := by
  rw [holds_iff_read, read]
  apply List.ext_getElem
  · simp
  · intro i _ hi
    simp [write, hi]

theorem write_head {b : β} : write m offset (b :: l) offset = b :=
  (holds_cons.mp holds_write).1

/-- A copy right behind a list extends it. -/
theorem Holds.write (h : Holds m 0 l) (hoffset : l.length = offset) :
    Holds (write m offset l') 0 (l ++ l') := by
  rw [holds_append, Nat.zero_add, hoffset]
  refine ⟨h.congr fun i _ hi => write_before ?_, holds_write⟩
  rwa [Nat.zero_add, hoffset] at hi

theorem Holds.writeAll {fields : List (ℕ × List β)} (h : Holds m 0 l)
    (hfields : Contiguous l.length fields) :
    Holds (writeAll m fields) 0 (l ++ fields.flatMap Prod.snd) := by
  induction fields generalizing m l with
  | nil => simpa [ByteMemory.writeAll] using h
  | cons field fields ih =>
    obtain ⟨hoffset, hrest⟩ := hfields
    rw [← List.length_append] at hrest
    rw [List.flatMap_cons, ← List.append_assoc]
    exact ih (h.write hoffset.symm) hrest

end ByteMemory
