import Mathlib.Algebra.Order.BigOperators.Group.List
import S3Dhcpd.HashProbes

/-! How many slots `_hi_seek` reads, and what it has seen when it finds none. -/
namespace S3Dhcpd
open Probing

namespace HashTable
variable {ν : Type*} {t : HashTable ν} {key : CString}

/-- The indices that the loop of `_hi_seek` reads, in their order. -/
def probesLoop (t : HashTable ν) (key : CString) (start_pos : ℤ) : ℕ → ℕ → ℤ → List ℤ
  | 0, _, _ => []
  | fuel+1, hmul, hashV =>
    hashV :: if hashV < 0 ∨ t.HSize ≤ hashV then []
    else match t.table hashV.toNat with
      | none => []
      | some item =>
        if item.1 = key then []
        else if start_pos+hmul*HFuncHorner t.HSize key ≥ 2^31 then []
        else
          -- back at the beginning the search gives up
          let hashV := (start_pos+hmul*HFuncHorner t.HSize key).tmod t.HSize
          if start_pos = hashV then [] else probesLoop t key start_pos fuel (hmul+1) hashV

/-- The same of the whole search, which is given a number of turns here. -/
def probes (t : HashTable ν) (key : CString) (fuel : ℕ) : List ℤ :=
  t.probesLoop key (HFuncAddition t.HSize key) fuel 1 (HFuncAddition t.HSize key)

/-- The loop stops by itself after `HSize` turns at the latest, reads slots of the table only and
computes no sum that overflows; a search without a slot has seen one period of different ones, and
another key in each. -/
structure ProbingEnds (t : HashTable ν) (key : CString) : Prop where
  stops : ∀ fuel, (t.probes key fuel).length ≤ t.HSize
  finished : ∀ fuel ≥ t.HSize, t.hiSeekLoop key (HFuncAddition t.HSize key) fuel 1
    (HFuncAddition t.HSize key) ≠ .unfinished
  defined : t.ReadsInside key
  full : t.hiSeek key = .full →
    (t.probes key t.HSize).length = t.HSize/t.HSize.gcd (HFuncHorner t.HSize key).toNat ∧
    (t.probes key t.HSize).Nodup ∧
    ∀ index ∈ t.probes key t.HSize, ∃ j : ℕ, index = j ∧ Taken t.table key j

/-- A turn is the last one, or it leads to the next probe of a period that has not passed yet. -/
theorem turn_cases (hin : t.StartsInside key) (fuel i : ℕ) :
    (t.probesLoop key (HFuncAddition t.HSize key) (fuel+1) (i+1) (t.probe key i) =
        [(t.probe key i : ℤ)] ∧
      (t.hiSeekLoop key (HFuncAddition t.HSize key) (fuel+1) (i+1) (t.probe key i) = .full →
        t.start key = t.probe key (i+1))) ∨
    (t.start key ≠ t.probe key (i+1) ∧
      t.probesLoop key (HFuncAddition t.HSize key) (fuel+1) (i+1) (t.probe key i) =
        (t.probe key i : ℤ) ::
          t.probesLoop key (HFuncAddition t.HSize key) fuel (i+1+1) (t.probe key (i+1)) ∧
      t.hiSeekLoop key (HFuncAddition t.HSize key) (fuel+1) (i+1) (t.probe key i) =
        t.hiSeekLoop key (HFuncAddition t.HSize key) fuel (i+1+1) (t.probe key (i+1))) := by
  have hrange : ¬((t.probe key i : ℤ) < 0 ∨ (t.HSize : ℤ) ≤ t.probe key i) := by
    have hlt := @probe_lt _ t key i
    omega
  rw [probesLoop, hiSeekLoop, if_neg hrange, if_neg hrange, Int.toNat_natCast]
  cases t.table (t.probe key i) with
  | none => exact Or.inl ⟨rfl, fun h => by cases h⟩
  | some item =>
    dsimp only
    rw [probe_index hin]
    by_cases hkey : item.1 = key
    · rw [if_pos hkey, if_pos hkey]
      exact Or.inl ⟨rfl, fun h => by cases h⟩
    · rw [if_neg hkey, if_neg hkey]
      split_ifs with hlarge hback
      · exact Or.inl ⟨rfl, fun h => by cases h⟩
      · rw [← start_eq hin, Nat.cast_inj] at hback
        exact Or.inl ⟨rfl, fun _ => hback⟩
      · rw [← start_eq hin, Nat.cast_inj] at hback
        exact Or.inr ⟨hback, rfl, rfl⟩

theorem succ_lt_period {i : ℕ} (hi : i < t.period key) (h : t.start key ≠ t.probe key (i+1)) :
    i+1 < t.period key := by
  refine lt_of_le_of_ne hi fun hperiod => h ?_
  exact ((probe_eq_start start_lt).mpr (dvd_of_eq hperiod.symm)).symm

/-- However long the loop may go on, it stops within the period. -/
theorem probesLoop_length (hin : t.StartsInside key) (fuel : ℕ) {i : ℕ} (hi : i < t.period key) :
    (t.probesLoop key (HFuncAddition t.HSize key) fuel (i+1) (t.probe key i)).length ≤
      t.period key-i := by
  -- on the fuel; a turn that is not the last moves on inside the period
  induction fuel generalizing i with
  | zero => exact Nat.zero_le _
  | succ fuel ih =>
    rcases turn_cases hin fuel i with ⟨hlast, _⟩ | ⟨hnext, hprobes, _⟩
    · rw [hlast, List.length_singleton]
      omega
    · have hi' := succ_lt_period hi hnext
      have hrest := ih hi'
      rw [hprobes, List.length_cons]
      omega

/-- A search that is back at its start has read the whole period. -/
theorem probesLoop_full (hin : t.StartsInside key) (fuel : ℕ) {i : ℕ} (hi : i < t.period key)
    (hfull : t.hiSeekLoop key (HFuncAddition t.HSize key) fuel (i+1) (t.probe key i) = .full) :
    t.probesLoop key (HFuncAddition t.HSize key) fuel (i+1) (t.probe key i) =
      (List.range' i (t.period key-i)).map fun i => (t.probe key i : ℤ) := by
  induction fuel generalizing i with
  | zero => cases hfull
  | succ fuel ih =>
    rcases turn_cases hin fuel i with ⟨hlast, hback⟩ | ⟨hnext, hprobes, hseek⟩
    · -- the next probe is the first one again: the period ends here
      have hdvd : t.period key ∣ i+1 := (probe_eq_start start_lt).mp (hback hfull).symm
      have hperiod : t.period key-i = 1 := by
        have hle := Nat.le_of_dvd i.succ_pos hdvd
        omega
      rw [hlast, hperiod]
      rfl
    · rw [hseek] at hfull
      have hi' := succ_lt_period hi hnext
      have hsub : t.period key-i = t.period key-(i+1)+1 := by omega
      rw [hprobes, ih hi' hfull, hsub, List.range'_succ, List.map_cons]

theorem start_probe (hin : t.StartsInside key) : HFuncAddition t.HSize key = t.probe key 0 := by
  rw [probe_zero, start_eq hin]

theorem probes_full (hin : t.StartsInside key) (hfull : t.hiSeek key = .full) :
    t.probes key t.HSize = (List.range (t.period key)).map fun i => (t.probe key i : ℤ) := by
  have hloop := probesLoop_full hin t.HSize (i := 0) period_pos (by
    rw [← start_probe hin]
    exact hfull)
  rw [← start_probe hin, Nat.sub_zero, ← List.range_eq_range'] at hloop
  exact hloop

theorem Seeks.finished {r : Landing ν} (h : t.Seeks key r) : r ≠ .unfinished := by
  cases h with
  | @lands j _ =>
    rcases t.landing_cases j with ⟨_, hland⟩ | ⟨item, _, hland⟩ <;> simp [hland]
  | full _ _ _ => simp
  | outside _ => simp
  | overflow _ _ _ _ => simp

theorem Seeks.blocked {r : Landing ν} (h : t.Seeks key r) (hfull : r = .full) (i : ℕ) :
    Taken t.table key (t.probe key i) := by
  cases h with
  | @lands j _ =>
    rcases t.landing_cases j with ⟨_, hland⟩ | ⟨item, _, hland⟩
    · rw [hland] at hfull
      cases hfull
    · rw [hland] at hfull
      cases hfull
  | full _ hblocked _ => exact hblocked i
  | outside _ => cases hfull
  | overflow _ _ _ _ => cases hfull

theorem probingEnds_of_inside (hsize : t.HSize ≤ HASH_MAXSIZE) (hin : t.StartsInside key) :
    t.ProbingEnds key where
  stops := by
    intro fuel
    have hlen := probesLoop_length hin fuel (i := 0) period_pos
    rw [← start_probe hin] at hlen
    calc
      (t.probes key fuel).length ≤ t.period key := hlen
      _ ≤ t.HSize := period_le
  finished := by
    intro fuel hfuel
    have hfuel' : t.HSize ≤ 0+fuel := by rwa [Nat.zero_add]
    have hspec := hiSeekLoop_spec hin hfuel' period_pos (fun _ h => absurd h (Nat.not_lt_zero _))
      (by rw [Nat.zero_mul, Nat.add_zero]; exact start_bound t key)
    rw [← start_probe hin] at hspec
    exact hspec.finished
  defined := readsInside_iff.mpr ⟨hin, sumsBounded_of_size hsize key⟩
  full := by
    intro hfull
    rw [probes_full hin hfull]
    refine ⟨?_, ?_, ?_⟩
    · rw [List.length_map, List.length_range]
      rfl
    · refine List.Nodup.map_on ?_ List.nodup_range
      intro i hi i' hi' heq
      rw [List.mem_range] at hi hi'
      exact probe_inj t.positive hi hi' (Nat.cast_inj.mp heq)
    · intro index hindex
      obtain ⟨i, _, rfl⟩ := List.mem_map.mp hindex
      exact ⟨_, rfl, (hiSeek_spec t key).blocked hfull i⟩

/-- The sum wraps at the 32nd bit. -/
theorem charSum_ascii (h : key.Ascii) :
    (charSum key).toNat = (key.1.map BitVec.toNat).sum%2^32 := by
  have hfold (chars : List Byte) (hchars : ∀ c ∈ chars, c.toNat < 128) (hashvalue : U32) :
      (chars.foldl (fun hashvalue c => c.signExtend 32+hashvalue) hashvalue).toNat =
        (hashvalue.toNat+(chars.map BitVec.toNat).sum)%2^32 := by
    induction chars generalizing hashvalue with
    | nil => exact (Nat.mod_eq_of_lt hashvalue.isLt).symm
    | cons c chars ih =>
      rw [List.forall_mem_cons] at hchars
      have hmsb : c.msb = false := BitVec.msb_eq_false_iff_two_mul_lt.mpr (by omega)
      have hchar : (c.signExtend 32).toNat = c.toNat := by
        rw [BitVec.signExtend_eq_setWidth_of_msb_false hmsb,
          BitVec.toNat_setWidth_of_le (by decide)]
      rw [List.foldl_cons, ih hchars.2, BitVec.toNat_add, hchar, List.map_cons, List.sum_cons]
      omega
  have hsum := hfold key.1 h 0
  rwa [show (0 : U32).toNat = 0 from rfl, Nat.zero_add] at hsum

/-- The characters of an ASCII key do not sum up to a negative number, if the sum fits in `int`. -/
theorem startsInside_of_ascii (h : key.Ascii) (hlen : 127*key.1.length < 2^31) :
    t.StartsInside key := by
  have hsum : (key.1.map BitVec.toNat).sum ≤ key.1.length*127 := by
    have hle := List.sum_le_card_nsmul (key.1.map BitVec.toNat) 127 (by
      intro n hn
      obtain ⟨c, hc, rfl⟩ := List.mem_map.mp hn
      exact Nat.le_of_lt_succ (h c hc))
    rwa [List.length_map] at hle
  have hnat := charSum_ascii h
  left
  rw [BitVec.toInt_eq_toNat_of_lt (by omega)]
  exact Int.natCast_nonneg _

/-- In the tables that the code makes, probing ends as it should exactly for the keys that do not
begin at a negative index; ASCII keys of less than 16909321 characters never do. -/
theorem probing_ends (t : HashTable ν) (key : CString) (hsize : t.HSize ≤ HASH_MAXSIZE) :
    (t.ProbingEnds key ↔ t.StartsInside key) ∧
      (key.Ascii → 127*key.1.length < 2^31 → t.ProbingEnds key) := by
  refine ⟨⟨fun h => (readsInside_iff.mp h.defined).1, probingEnds_of_inside hsize⟩, ?_⟩
  exact fun hascii hlen => probingEnds_of_inside hsize (startsInside_of_ascii hascii hlen)

/-- The letter a, often enough for the sum to wrap. -/
def manyAs : CString := ⟨List.replicate 22139007 97, fun h => by
  exact absurd (List.eq_of_mem_replicate h) (by decide)⟩

theorem manyAs_ascii : manyAs.Ascii := by
  intro c hc
  rw [List.eq_of_mem_replicate hc]
  decide

/-- The sum of its characters is -2147483617, and the search begins in front of the table. -/
theorem probing_begins_outside : ¬∀ (t : HashTable String) (key : CString), t.HSize ≤ HASH_MAXSIZE →
    key.Ascii → t.ProbingEnds key := by
  intro h
  have hin := (readsInside_iff.mp (h (ofSize 256) manyAs (by decide) manyAs_ascii).defined).1
  have hnat : (charSum manyAs).toNat = 2147483679 := by
    have hsum : (manyAs.1.map BitVec.toNat).sum = 22139007*97 := by
      rw [manyAs, List.map_replicate, List.sum_replicate]
      rfl
    rw [charSum_ascii manyAs_ascii, hsum]
    decide
  have hint : (charSum manyAs).toInt = -2147483617 := by
    rw [BitVec.toInt_eq_toNat_cond, hnat]
    rfl
  rw [StartsInside, hint] at hin
  exact absurd hin (by decide)

/-- A table in which other keys have taken all four slots of the cycle of `ab`. -/
def crowded : HashTable String :=
  ((((ofSize 20).set 15 (some (ba, "1"))).set 0 (some (⟨[100], by decide⟩, "2"))).set 5
    (some (⟨[105], by decide⟩, "3"))).set 10 (some (⟨[110], by decide⟩, "4"))

example : (ofSize 20).performAll [.insert (ba, "1") true, .insert (⟨[100], by decide⟩, "2") true,
    .insert (⟨[105], by decide⟩, "3") true, .insert (⟨[110], by decide⟩, "4") true] =
      .ok crowded := by rfl

/-- The search comes round and gives up. -/
theorem probing_ends_example : crowded.ProbingEnds ab ∧ crowded.hiSeek ab = .full :=
  ⟨(probing_ends crowded ab (by decide)).2 (by decide) (by decide), by rfl⟩

end HashTable

end S3Dhcpd
