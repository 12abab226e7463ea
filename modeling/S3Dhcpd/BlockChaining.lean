import Mathlib.Data.List.Basic

/-! Machines that take their input in blocks of one size: what they have chained, what is left over
for the next block, and input that arrives in two pieces. -/
namespace BlockChaining
variable {σ β : Type*}

section Definitions
variable (B : ℕ) (process : σ → List β → σ)

/-- The state after so many blocks from the front of a list. -/
def chainBlocks : ℕ → σ → List β → σ
  | 0, s, _ => s
  | n+1, s, l => chainBlocks n (process s (l.take B)) (l.drop B)

/-- The state after the complete blocks of a list. -/
def chain (s : σ) (l : List β) : σ := chainBlocks B process (l.length/B) s l

/-- The items behind the last complete block. -/
def rest (l : List β) : List β := l.drop (l.length/B*B)

end Definitions

section Laws
variable {B : ℕ} {process : σ → List β → σ} {s : σ} {l l' : List β}

theorem chain_short (h : l.length < B) : chain B process s l = s := by
  rw [chain, Nat.div_eq_of_lt h]
  rfl

theorem rest_short (h : l.length < B) : rest B l = l := by
  rw [rest, Nat.div_eq_of_lt h, Nat.zero_mul, List.drop_zero]

theorem blocks_block (hB : 0 < B) (h : B ≤ l.length) : l.length/B = (l.drop B).length/B+1 := by
  rw [List.length_drop, Nat.div_eq_sub_div hB h]

theorem chain_block (hB : 0 < B) (h : B ≤ l.length) :
    chain B process s l = chain B process (process s (l.take B)) (l.drop B) := by
  rw [chain, blocks_block hB h]
  rfl

theorem rest_block (hB : 0 < B) (h : B ≤ l.length) : rest B l = rest B (l.drop B) := by
  rw [rest, blocks_block hB h, rest, List.drop_drop, Nat.succ_mul, Nat.add_comm B]

theorem length_rest : (rest B l).length = l.length%B := by
  rw [rest, List.length_drop, Nat.mod_eq_sub_div_mul]

theorem rest_lt (hB : 0 < B) : (rest B l).length < B := by
  rw [length_rest]
  exact Nat.mod_lt _ hB

theorem rest_whole (h : B ∣ l.length) : rest B l = [] := by
  apply List.eq_nil_of_length_eq_zero
  rw [length_rest, Nat.mod_eq_zero_of_dvd h]

/-- The blocks of a longer list are those of its front and then those that begin in what the front
leaves over. -/
theorem chain_rest_append (hB : 0 < B) (s : σ) (l l' : List β) :
    chain B process s (l ++ l') = chain B process (chain B process s l) (rest B l ++ l') ∧
      rest B (l ++ l') = rest B (rest B l ++ l') := by
  -- on the length of the front, a block at a time
  induction hn : l.length using Nat.strongRecOn generalizing s l with
  | ind n ih =>
    by_cases hshort : l.length < B
    · rw [chain_short hshort, rest_short hshort]
      exact ⟨rfl, rfl⟩
    · have hblock : B ≤ l.length := Nat.le_of_not_lt hshort
      have hlong : B ≤ (l ++ l').length := by
        rw [List.length_append]
        omega
      have htake : (l ++ l').take B = l.take B := List.take_append_of_le_length hblock
      have hdrop : (l ++ l').drop B = l.drop B ++ l' := List.drop_append_of_le_length hblock
      obtain ⟨hchain, hrest⟩ := ih (l.drop B).length (by rw [List.length_drop]; omega)
        (process s (l.take B)) (l.drop B) rfl
      rw [chain_block hB hlong, rest_block hB hlong, chain_block hB hblock, rest_block hB hblock,
        htake, hdrop]
      exact ⟨hchain, hrest⟩

theorem chain_append (hB : 0 < B) (s : σ) (l l' : List β) :
    chain B process s (l ++ l') = chain B process (chain B process s l) (rest B l ++ l') :=
  (chain_rest_append hB s l l').1

theorem rest_append (hB : 0 < B) (l l' : List β) : rest B (l ++ l') = rest B (rest B l ++ l') :=
  (@chain_rest_append _ _ B (fun _ l => l) hB [] l l').2

end Laws

end BlockChaining
