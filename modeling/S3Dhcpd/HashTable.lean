import S3Dhcpd.Probing
import S3Dhcpd.Tools

/-! `dsHashTable`: open addressing with two hash functions, in a table that grows when a key finds
no slot. -/
namespace S3Dhcpd
open Probing

/-- The characters of a key, up to its terminating zero. -/
abbrev CString := {chars : List Byte // 0 ∉ chars}

def HASH_INCREMENT : ℕ := 1024
def HASH_MAXSIZE : ℕ := 32576

def CString.Ascii (key : CString) : Prop := ∀ c ∈ key.1, c.toNat < 128

instance (key : CString) : Decidable key.Ascii := inferInstanceAs (Decidable (∀ _ ∈ _, _))

/-- The loop of `HFuncAddition`: characters are signed, and the sum wraps. -/
def charSum (key : CString) : U32 :=
  key.1.foldl (fun hashvalue c => c.signExtend 32+hashvalue) 0

/-- The loop of `HFuncHorner`. -/
def charPolynomial (key : CString) : U32 :=
  key.1.foldl (fun hashvalue c => c.signExtend 32+131*hashvalue) 0

/-- The remainder has the sign of the sum. -/
def HFuncAddition (HSize : ℕ) (key : CString) : ℤ := (charSum key).toInt.tmod HSize

def HFuncHorner (HSize : ℕ) (key : CString) : ℤ :=
  let hashvalue := (charPolynomial key).toInt.tmod HSize
  if hashvalue > 0 then hashvalue else 0-hashvalue

/-- `dsHashTableException`, and what the code does not define: a read or a write outside the table,
and a sum that overflows. -/
inductive HashTableException where
  | maximalSize
  | tableFull
  | outside (index : ℤ)
  | overflow
deriving DecidableEq, Repr

/-- The slots from `HSize` on are never read. -/
structure HashTable (ν : Type*) where
  HSize : ℕ
  positive : 0 < HSize
  table : ℕ → Option (CString × ν)

namespace HashTable
variable {ν : Type*}

def ofSize (numEntries : ℤ) : HashTable ν where
  HSize := if numEntries > 20 then numEntries.toNat else 20
  positive := by split_ifs <;> omega
  table := fun _ => none

/-- What `_hi_seek` finds: a free slot, the key, neither (`HIndex` is -1 then), or nothing that is
defined. -/
inductive Landing (ν : Type*) where
  | vacant (HIndex : ℕ)
  | found (HIndex : ℕ) (item : CString × ν)
  | full
  | outside (hashV : ℤ)
  | overflow
  | unfinished

/-- The loop of `_hi_seek`; `hmul` counts its turns. -/
def hiSeekLoop (t : HashTable ν) (key : CString) (start_pos : ℤ) : ℕ → ℕ → ℤ → Landing ν
  | 0, _, _ => .unfinished
  | fuel+1, hmul, hashV =>
    if hashV < 0 ∨ t.HSize ≤ hashV then .outside hashV
    else match t.table hashV.toNat with
      | none => .vacant hashV.toNat
      | some item =>
        if item.1 = key then .found hashV.toNat item
        -- the sum is computed in `int`, before the remainder is taken
        else if start_pos+hmul*HFuncHorner t.HSize key ≥ 2^31 then .overflow
        else
          let hashV := (start_pos+hmul*HFuncHorner t.HSize key).tmod t.HSize
          if start_pos = hashV then .full else hiSeekLoop t key start_pos fuel (hmul+1) hashV

def hiSeek (t : HashTable ν) (key : CString) : Landing ν :=
  let hashV := HFuncAddition t.HSize key
  t.hiSeekLoop key hashV t.HSize 1 hashV

def seek (t : HashTable ν) (key : CString) : Except HashTableException (Option ν) :=
  match t.hiSeek key with
  | .found _ item => .ok (some item.2)
  | .vacant _ | .full | .unfinished => .ok none
  | .outside index => .error (.outside index)
  | .overflow => .error .overflow

def set (t : HashTable ν) (HIndex : ℕ) (item : Option (CString × ν)) : HashTable ν :=
  { t with table := Function.update t.table HIndex item }

@[simp] theorem set_table (t : HashTable ν) (j : ℕ) (item : Option (CString × ν)) :
    (t.set j item).table = Function.update t.table j item := rfl

/-- The entries in the order of their slots. -/
def items (t : HashTable ν) : List (CString × ν) := (List.range t.HSize).filterMap t.table

/-- The copy loop of `GrowUp`: a key without a slot is written to the slot -1. -/
def copyItems : HashTable ν → List (CString × ν) → Except HashTableException (HashTable ν)
  | t, [] => .ok t
  | t, item :: rest =>
    match t.hiSeek item.1 with
    | .vacant HIndex => copyItems (t.set HIndex (some item)) rest
    | .found _ _ => copyItems t rest
    | .full | .unfinished => .error (.outside (-1))
    | .outside index => .error (.outside index)
    | .overflow => .error .overflow

/-- The empty table that `GrowUp` allocates. -/
def grown (t : HashTable ν) : HashTable ν where
  HSize := if t.HSize+HASH_INCREMENT < HASH_MAXSIZE then t.HSize+HASH_INCREMENT else HASH_MAXSIZE
  positive := by
    rw [HASH_INCREMENT, HASH_MAXSIZE]
    split_ifs <;> omega
  table := fun _ => none

def growUp (t : HashTable ν) : Except HashTableException (HashTable ν) :=
  if t.HSize ≥ HASH_MAXSIZE then .error .maximalSize else copyItems t.grown t.items

/-- The end of `insert`: the slot is written when it is free or to be replaced. -/
def write (t : HashTable ν) (a : CString × ν) (replace : Bool) :
    Landing ν → Except HashTableException (HashTable ν × Option (CString × ν))
  | .vacant HIndex => .ok (t.set HIndex (some a), none)
  | .found HIndex tmp => .ok (if replace then t.set HIndex (some a) else t, some tmp)
  | .full | .unfinished => .error .tableFull
  | .outside index => .error (.outside index)
  | .overflow => .error .overflow

def insert (t : HashTable ν) (a : CString × ν) (replace : Bool) :
    Except HashTableException (HashTable ν × Option (CString × ν)) :=
  match t.hiSeek a.1 with
  | .full => do
    let t' ← t.growUp
    t'.write a replace (t'.hiSeek a.1)
  | landing => t.write a replace landing

def remove (t : HashTable ν) (key : CString) :
    Except HashTableException (HashTable ν × Option (CString × ν)) :=
  match t.hiSeek key with
  | .found HIndex tmp => .ok (t.set HIndex none, some tmp)
  | .vacant _ | .full | .unfinished => .ok (t, none)
  | .outside index => .error (.outside index)
  | .overflow => .error .overflow

/-- A call of a program that keeps no track of what the calls return. -/
inductive Op (ν : Type*) where
  | insert (a : CString × ν) (replace : Bool)
  | remove (key : CString)

def Op.key : Op ν → CString
  | .insert a _ => a.1
  | .remove key => key

def perform (t : HashTable ν) : Op ν → Except HashTableException (HashTable ν)
  | .insert a replace => Prod.fst <$> t.insert a replace
  | .remove key => Prod.fst <$> t.remove key

def performAll (t : HashTable ν) (ops : List (Op ν)) : Except HashTableException (HashTable ν) :=
  ops.foldlM perform t

/-- Where the probes of a key start, when that is a slot, and the stride they take. -/
def start (t : HashTable ν) (key : CString) : ℕ := (HFuncAddition t.HSize key).toNat

def stride (t : HashTable ν) (key : CString) : ℕ := (HFuncHorner t.HSize key).toNat

def probe (t : HashTable ν) (key : CString) (i : ℕ) : ℕ :=
  Probing.probe t.HSize (t.start key) (t.stride key) i

def period (t : HashTable ν) (key : CString) : ℕ := Probing.period t.HSize (t.stride key)

/-- The characters of the key do not sum up to a negative remainder. -/
def StartsInside (t : HashTable ν) (key : CString) : Prop :=
  0 ≤ (charSum key).toInt ∨ (t.HSize : ℤ) ∣ (charSum key).toInt

/-- The probes of the key end at slot `j`, and their sums stay in the range of `int`. -/
def Finds (t : HashTable ν) (key : CString) (j : ℕ) : Prop :=
  t.StartsInside key ∧ ∃ i, LandsAt (t.probe key) t.table key i ∧
    t.start key+i*t.stride key < 2^31 ∧ t.probe key i = j

/-- What `_hi_seek` reports of the slot where it stops. -/
def landing (t : HashTable ν) (j : ℕ) : Landing ν :=
  match t.table j with
  | none => .vacant j
  | some item => .found j item

/-- The outcomes of `_hi_seek`. -/
inductive Seeks (t : HashTable ν) (key : CString) : Landing ν → Prop where
  | lands {j : ℕ} (finds : t.Finds key j) : Seeks t key (t.landing j)
  | full (inside : t.StartsInside key) (blocked : ∀ i, Taken t.table key (t.probe key i))
      (bounded : t.start key+t.period key*t.stride key < 2^31) : Seeks t key .full
  | outside (negative : ¬t.StartsInside key) : Seeks t key (.outside (HFuncAddition t.HSize key))
  | overflow (inside : t.StartsInside key) {i : ℕ} (within : i ≤ t.period key)
      (before : ∀ i' < i, Taken t.table key (t.probe key i'))
      (large : 2^31 ≤ t.start key+i*t.stride key) : Seeks t key .overflow

section Hashes
variable {t : HashTable ν} {key : CString}

theorem startsInside_iff : t.StartsInside key ↔ 0 ≤ HFuncAddition t.HSize key := by
  have hpos : (0 : ℤ) < t.HSize := Int.natCast_pos.mpr t.positive
  rw [StartsInside, HFuncAddition]
  constructor
  · rintro (h | h)
    · exact Int.tmod_nonneg _ h
    · rw [Int.tmod_eq_zero_of_dvd h]
  · intro h
    by_contra hneg
    rw [not_or, not_le] at hneg
    have hle : 0 ≤ (-(charSum key).toInt).tmod t.HSize :=
      Int.tmod_nonneg _ (neg_nonneg.mpr hneg.1.le)
    rw [Int.neg_tmod] at hle
    exact hneg.2 (Int.dvd_of_tmod_eq_zero (by omega))

theorem HFuncAddition_lt : HFuncAddition t.HSize key < t.HSize :=
  Int.tmod_lt_of_pos _ (Int.natCast_pos.mpr t.positive)

theorem start_eq (h : t.StartsInside key) : (t.start key : ℤ) = HFuncAddition t.HSize key :=
  Int.toNat_of_nonneg (startsInside_iff.mp h)

theorem start_lt : t.start key < t.HSize := by
  have h := @HFuncAddition_lt _ t key
  have hpos := t.positive
  rw [start]
  omega

theorem stride_eq : (t.stride key : ℤ) = HFuncHorner t.HSize key := by
  apply Int.toNat_of_nonneg
  rw [HFuncHorner]
  split_ifs with h
  · exact h.le
  · omega

theorem stride_lt : t.stride key < t.HSize := by
  have hpos : (0 : ℤ) < t.HSize := Int.natCast_pos.mpr t.positive
  have hlt := Int.tmod_lt_of_pos (charPolynomial key).toInt hpos
  have hgt : -(t.HSize : ℤ) < (charPolynomial key).toInt.tmod t.HSize := by
    exact Int.lt_tmod_of_pos _ hpos
  have h := @stride_eq _ t key
  rw [HFuncHorner] at h
  split_ifs at h <;> omega

theorem probe_lt (i : ℕ) : t.probe key i < t.HSize := Probing.probe_lt t.positive i

theorem period_pos : 0 < t.period key := Probing.period_pos t.positive

/-- The index that a turn of the loop computes. -/
theorem probe_index (h : t.StartsInside key) (i : ℕ) :
    (HFuncAddition t.HSize key+i*HFuncHorner t.HSize key).tmod t.HSize = t.probe key i := by
  rw [← start_eq h, ← stride_eq, probe, Probing.probe, ← Nat.cast_mul, ← Nat.cast_add,
    Int.tmod_eq_emod_of_nonneg (Int.natCast_nonneg _), Int.natCast_emod]

@[simp] theorem set_probe (j : ℕ) (item : Option (CString × ν)) :
    (t.set j item).probe = t.probe := rfl

theorem probe_zero : t.probe key 0 = t.start key := Probing.probe_zero start_lt

end Hashes

section Seek
variable {t : HashTable ν} {key : CString}

theorem taken_succ {i : ℕ} (hbefore : ∀ i' < i, Taken t.table key (t.probe key i'))
    (hhere : Taken t.table key (t.probe key i)) : ∀ i' < i+1, Taken t.table key (t.probe key i') := by
  intro i' hi'
  rcases Nat.lt_succ_iff_lt_or_eq.mp hi' with hlt | rfl
  · exact hbefore i' hlt
  · exact hhere

theorem probe_sum (hin : t.StartsInside key) (i : ℕ) :
    HFuncAddition t.HSize key+(i : ℤ)*HFuncHorner t.HSize key =
      ((t.start key+i*t.stride key : ℕ) : ℤ) := by
  rw [← start_eq hin, ← stride_eq]
  push_cast
  rfl

/-- Back at the start the period is over, and every probe met another key. -/
theorem full_of_back (hin : t.StartsInside key) {i : ℕ} (hi : i < t.period key)
    (htaken : ∀ i' < i+1, Taken t.table key (t.probe key i'))
    (hback : t.start key = t.probe key (i+1))
    (hbound : t.start key+(i+1)*t.stride key < 2^31) : t.Seeks key .full := by
  have hdvd : t.period key ∣ i+1 := (probe_eq_start start_lt).mp hback.symm
  have hperiod : t.period key = i+1 := le_antisymm (Nat.le_of_dvd i.succ_pos hdvd) hi
  refine .full hin (fun i' => ?_) (by rwa [hperiod])
  rw [probe, ← probe_mod_period t.positive]
  exact htaken _ (hperiod ▸ Nat.mod_lt _ period_pos)

/-- From the turn that reads the `i`-th probe on, when the earlier ones met other keys. -/
theorem hiSeekLoop_spec (hin : t.StartsInside key) {fuel i : ℕ} (hfuel : t.HSize ≤ i+fuel)
    (hi : i < t.period key) (hbefore : ∀ i' < i, Taken t.table key (t.probe key i'))
    (hbound : t.start key+i*t.stride key < 2^31) :
    t.Seeks key (t.hiSeekLoop key (HFuncAddition t.HSize key) fuel (i+1) (t.probe key i)) := by
  -- on the fuel; the period is at most the size, so it does not run out
  induction fuel generalizing i with
  | zero =>
    have hle : t.period key ≤ t.HSize := period_le
    omega
  | succ fuel ih =>
    have hrange : ¬((t.probe key i : ℤ) < 0 ∨ (t.HSize : ℤ) ≤ t.probe key i) := by
      have hlt := @probe_lt _ t key i
      omega
    rw [hiSeekLoop, if_neg hrange, Int.toNat_natCast]
    cases hslot : t.table (t.probe key i) with
    | none =>
      have hland : LandsAt (t.probe key) t.table key i := ⟨not_taken_of_none hslot, hbefore⟩
      have hseeks : t.Seeks key (t.landing (t.probe key i)) := .lands ⟨hin, i, hland, hbound, rfl⟩
      rwa [landing, hslot] at hseeks
    | some item =>
      dsimp only
      by_cases hkey : item.1 = key
      · have hland : LandsAt (t.probe key) t.table key i :=
          ⟨not_taken_of_key hslot hkey, hbefore⟩
        have hseeks : t.Seeks key (t.landing (t.probe key i)) := .lands ⟨hin, i, hland, hbound, rfl⟩
        rw [landing, hslot] at hseeks
        rwa [if_pos hkey]
      · rw [if_neg hkey]
        have htaken := taken_succ hbefore ⟨item, hslot, hkey⟩
        have hsum := probe_sum hin (i+1)
        by_cases hlarge : 2^31 ≤ t.start key+(i+1)*t.stride key
        · rw [hsum, if_pos (by omega)]
          exact .overflow hin hi htaken hlarge
        · rw [hsum, if_neg (by omega), ← hsum, probe_index hin]
          by_cases hback : t.start key = t.probe key (i+1)
          · rw [if_pos (by rw [← start_eq hin, hback])]
            exact full_of_back hin hi htaken hback (by omega)
          · have hlt : i+1 < t.period key := by
              refine lt_of_le_of_ne hi fun hperiod => hback ?_
              exact ((probe_eq_start start_lt).mpr (dvd_of_eq hperiod.symm)).symm
            rw [if_neg (by rw [← start_eq hin, Nat.cast_inj]; exact hback)]
            exact ih (by omega) hlt htaken (by omega)

theorem start_bound (t : HashTable ν) (key : CString) : t.start key < 2^31 := by
  have hlt : (charSum key).toInt < 2^31 := BitVec.toInt_lt
  rw [start, HFuncAddition]
  rcases le_total 0 (charSum key).toInt with h | h
  · have hle : (charSum key).toInt.tmod t.HSize ≤ (charSum key).toInt := by
      obtain ⟨n, hn⟩ := Int.eq_ofNat_of_zero_le h
      rw [hn, Int.tmod_eq_emod_of_nonneg (Int.natCast_nonneg n), ← Int.natCast_emod, Nat.cast_le]
      exact Nat.mod_le _ _
    omega
  · have hle : 0 ≤ (-(charSum key).toInt).tmod t.HSize := Int.tmod_nonneg _ (neg_nonneg.mpr h)
    rw [Int.neg_tmod] at hle
    omega

theorem hiSeek_spec (t : HashTable ν) (key : CString) : t.Seeks key (t.hiSeek key) := by
  rw [hiSeek]
  by_cases hin : t.StartsInside key
  · have hstart : HFuncAddition t.HSize key = t.probe key 0 := by rw [probe_zero, start_eq hin]
    have hbound : t.start key+0*t.stride key < 2^31 := by
      rw [zero_mul, add_zero]
      exact start_bound t key
    have hspec := hiSeekLoop_spec hin (Nat.zero_add t.HSize).ge period_pos
      (fun _ h => absurd h (Nat.not_lt_zero _)) hbound
    rwa [← hstart] at hspec
  · have hneg : HFuncAddition t.HSize key < 0 := not_le.mp fun h => hin (startsInside_iff.mpr h)
    -- the first turn already reads in front of the table
    have houtside : t.hiSeekLoop key (HFuncAddition t.HSize key) t.HSize 1
        (HFuncAddition t.HSize key) = .outside (HFuncAddition t.HSize key) := by
      obtain ⟨fuel, hfuel⟩ := Nat.exists_eq_add_one.mpr t.positive
      conv_lhs => arg 4; rw [hfuel]
      rw [hiSeekLoop, if_pos (Or.inl hneg)]
    rw [houtside]
    exact .outside hin

end Seek

end HashTable

end S3Dhcpd
