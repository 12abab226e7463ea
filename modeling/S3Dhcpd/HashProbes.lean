import S3Dhcpd.HashTable

/-! Which slots `_hi_seek` may read, and what the removal of one key does to another. -/
namespace S3Dhcpd
open Probing

namespace HashTable
variable {ν : Type*} {t : HashTable ν} {key k k' : CString} {j : ℕ}

theorem Finds.unique {j' : ℕ} (h : t.Finds key j) (h' : t.Finds key j') : j = j' := by
  obtain ⟨_, i, hi, _, rfl⟩ := h
  obtain ⟨_, i', hi', _, rfl⟩ := h'
  rw [hi.unique hi']

theorem Finds.not_taken (h : t.Finds key j) : ¬Taken t.table key j := by
  obtain ⟨_, i, hi, _, rfl⟩ := h
  exact hi.here

theorem Finds.lt_size (h : t.Finds key j) : j < t.HSize := by
  obtain ⟨_, i, _, _, rfl⟩ := h
  exact probe_lt i

/-- A sum that is too large lies behind the landing. -/
theorem sum_bounded {i i' : ℕ} (h : LandsAt (t.probe key) t.table key i)
    (hbound : t.start key+i*t.stride key < 2^31)
    (hbefore : ∀ i'' < i', Taken t.table key (t.probe key i'')) :
    t.start key+i'*t.stride key < 2^31 := by
  have hle : i' ≤ i := not_lt.mp fun hlt => h.here (hbefore i hlt)
  have hmul : i'*t.stride key ≤ i*t.stride key := Nat.mul_le_mul_right _ hle
  omega

theorem hiSeek_finds (h : t.Finds key j) : t.hiSeek key = t.landing j := by
  obtain ⟨hin, i, hland, hbound, rfl⟩ := h
  have hspec := hiSeek_spec t key
  generalize t.hiSeek key = r at hspec
  cases hspec with
  | lands hfinds => rw [hfinds.unique ⟨hin, i, hland, hbound, rfl⟩]
  | full _ hblocked _ => exact absurd (hblocked i) hland.here
  | outside hneg => exact absurd hin hneg
  | overflow _ _ hbefore hlarge =>
    exact absurd (sum_bounded hland hbound hbefore) (not_lt.mpr hlarge)

theorem landing_cases (t : HashTable ν) (j : ℕ) : (t.table j = none ∧ t.landing j = .vacant j) ∨
    ∃ item, t.table j = some item ∧ t.landing j = .found j item := by
  rw [landing]
  cases t.table j with
  | none => exact Or.inl ⟨rfl, rfl⟩
  | some item => exact Or.inr ⟨item, rfl, rfl⟩

theorem seek_vacant (h : t.Finds key j) (hslot : t.table j = none) : t.seek key = .ok none := by
  rw [seek, hiSeek_finds h, landing, hslot]

theorem seek_found (h : t.Finds key j) {item : CString × ν} (hslot : t.table j = some item) :
    t.seek key = .ok (some item.2) := by
  rw [seek, hiSeek_finds h, landing, hslot]

theorem Finds.key_eq (h : t.Finds key j) {item : CString × ν} (hslot : t.table j = some item) :
    item.1 = key := by
  by_contra hne
  exact h.not_taken ⟨item, hslot, hne⟩

theorem seek_some {v : ν} :
    t.seek key = .ok (some v) ↔ ∃ j, t.Finds key j ∧ t.table j = some (key, v) := by
  constructor
  · intro h
    have hspec := hiSeek_spec t key
    rw [seek] at h
    generalize t.hiSeek key = r at h hspec
    cases hspec with
    | @lands j hfinds =>
      rcases t.landing_cases j with ⟨_, hland⟩ | ⟨item, hslot, hland⟩
      · rw [hland] at h
        cases h
      · rw [hland] at h
        cases h
        exact ⟨j, hfinds, by rw [hslot, ← hfinds.key_eq hslot]⟩
    | full _ _ _ => cases h
    | outside _ => cases h
    | overflow _ _ _ _ => cases h
  · rintro ⟨j, hfinds, hslot⟩
    exact seek_found hfinds hslot

/-- Every index that the search for the key reads is defined, and lies in the table. -/
def ReadsInside (t : HashTable ν) (key : CString) : Prop :=
  (∀ index, t.hiSeek key ≠ .outside index) ∧ t.hiSeek key ≠ .overflow

/-- While the probes of the key meet other keys, for at most one period, their sums stay in the
range of `int`. -/
def SumsBounded (t : HashTable ν) (key : CString) : Prop :=
  ∀ i ≤ t.period key, (∀ i' < i, Taken t.table key (t.probe key i')) →
    t.start key+i*t.stride key < 2^31

/-- The tables that `GrowUp` makes are too small for the sums to overflow. -/
theorem sumsBounded_of_size (h : t.HSize ≤ HASH_MAXSIZE) (key : CString) : t.SumsBounded key := by
  intro i hi _
  rw [HASH_MAXSIZE] at h
  have hstart := @start_lt _ t key
  have hstride := @stride_lt _ t key
  have hperiod : t.period key ≤ t.HSize := period_le
  have hmul : i*t.stride key ≤ 32576*32576 :=
    Nat.mul_le_mul (hi.trans (hperiod.trans h)) (hstride.le.trans h)
  omega

theorem readsInside_iff : t.ReadsInside key ↔ t.StartsInside key ∧ t.SumsBounded key := by
  have hspec := hiSeek_spec t key
  constructor
  · rintro ⟨hinside, hoverflow⟩
    generalize t.hiSeek key = r at hspec hinside hoverflow
    cases hspec with
    | lands hfinds =>
      obtain ⟨hin, i, hland, hbound, _⟩ := hfinds
      exact ⟨hin, fun i' _ hbefore => sum_bounded hland hbound hbefore⟩
    | full hin _ hbound =>
      refine ⟨hin, fun i hi _ => ?_⟩
      have hmul : i*t.stride key ≤ t.period key*t.stride key := Nat.mul_le_mul_right _ hi
      omega
    | outside _ => exact absurd rfl (hinside _)
    | overflow _ _ _ _ => exact absurd rfl hoverflow
  · rintro ⟨hin, hbounded⟩
    rw [ReadsInside]
    generalize t.hiSeek key = r at hspec
    cases hspec with
    | @lands j _ =>
      rcases t.landing_cases j with ⟨_, hland⟩ | ⟨item, _, hland⟩ <;> simp [hland]
    | full _ _ _ => simp
    | outside hneg => exact absurd hin hneg
    | overflow _ hi hbefore hlarge => exact absurd (hbounded _ hi hbefore) (not_lt.mpr hlarge)

/-- The search reads valid slots only, exactly when the sum of the characters is not negative modulo
the size, and the later sums stay in the range of `int`. -/
theorem probes_valid (t : HashTable ν) (key : CString) :
    t.ReadsInside key ↔ t.StartsInside key ∧ t.SumsBounded key := readsInside_iff

/-- In the table of the settings the search for the letter é in UTF-8 begins at slot -148. -/
theorem probe_outside : ¬∀ (t : HashTable String) (key : CString), t.ReadsInside key := by
  intro h
  exact (h (ofSize 256) ⟨[0xC3, 0xA9], by decide⟩).1 (-148) (by rfl)

/-- The probes of `k'` pass the slot of `k` before they land. -/
def Passes (t : HashTable ν) (k' k : CString) : Prop :=
  ∃ j, t.Finds k j ∧ ∃ i', LandsAt (t.probe k') t.table k' i' ∧ ∃ i < i', t.probe k' i = j

section Remove
variable {item : CString × ν}

theorem remove_found (h : t.Finds key j) (hslot : t.table j = some item) :
    t.remove key = .ok (t.set j none, some item) := by
  rw [remove, hiSeek_finds h, landing, hslot]

/-- A slot that is emptied blocks no key any more. -/
theorem taken_set_none {j' : ℕ} :
    Taken (t.set j none).table key j' ↔ j' ≠ j ∧ Taken t.table key j' := by
  rw [set, taken_update]
  split_ifs with h <;> simp [h]

/-- The emptied slot is where the key itself lands now. -/
theorem finds_set_none (h : t.Finds key j) : (t.set j none).Finds key j := by
  obtain ⟨hin, i, hland, hbound, rfl⟩ := h
  refine ⟨hin, i, ⟨?_, fun i' hi' => ?_⟩, hbound, rfl⟩
  · exact fun htaken => (taken_set_none.mp htaken).1 rfl
  · exact taken_set_none.mpr ⟨(hland.before i' hi').slot_ne hland.here, hland.before i' hi'⟩

end Remove

/-- A search that does not pass the emptied slot ends where it ended. -/
theorem seek_kept {j i' : ℕ} {v' : ν} (hin : t.StartsInside k')
    (hland : LandsAt (t.probe k') t.table k' i') (hbound : t.start k'+i'*t.stride k' < 2^31)
    (hnot : ¬∃ i < i', t.probe k' i = j)
    (hslot : (t.set j none).table (t.probe k' i') = some (k', v')) :
    (t.set j none).seek k' = .ok (some v') := by
  have hland' : LandsAt ((t.set j none).probe k') (t.set j none).table k' i' :=
    ⟨fun htaken => hland.here (taken_set_none.mp htaken).2, fun i hi =>
      taken_set_none.mpr ⟨fun hprobe => hnot ⟨i, hi, hprobe⟩, hland.before i hi⟩⟩
  exact @seek_found _ (t.set j none) _ _ ⟨hin, i', hland', hbound, rfl⟩ _ hslot

/-- A search that passes it stops there, or earlier at a slot that held another key. -/
theorem seek_lost {j i i' : ℕ} {v' : ν} (hland : LandsAt (t.probe k') t.table k' i') (hi : i < i')
    (hprobe : t.probe k' i = j) : (t.set j none).seek k' ≠ .ok (some v') := by
  intro hsame
  obtain ⟨j₀, ⟨_, i₀, hland₀, _, rfl⟩, hslot₀⟩ := seek_some.mp hsame
  -- the new search ends at the emptied slot at the latest, and in front of it nothing has changed
  have hle : i₀ ≤ i := by
    by_contra hlt
    exact (taken_set_none.mp (hland₀.before i (not_le.mp hlt))).1 hprobe
  obtain ⟨x, hx, hxne⟩ := hland.before i₀ (by omega)
  rw [set_table, set_probe, Function.update_apply] at hslot₀
  split_ifs at hslot₀
  rw [hx, Option.some.injEq] at hslot₀
  exact hxne (congrArg Prod.fst hslot₀)

/-- What a search finds besides a removed key: the same as before, exactly when its probes do not
pass the emptied slot. -/
theorem remove_leaves_others (hne : k ≠ k') {v v' : ν} (hk : t.seek k = .ok (some v))
    (hk' : t.seek k' = .ok (some v')) :
    (∃ t' item, t.remove k = .ok (t', some item) ∧ t'.seek k' = t.seek k' ∧ t'.seek k = .ok none) ↔
      ¬t.Passes k' k := by
  obtain ⟨j, hfinds, hslot⟩ := seek_some.mp hk
  obtain ⟨j', hfinds', hslot'⟩ := seek_some.mp hk'
  -- the keys are in different slots
  have hj : j' ≠ j := by
    rintro rfl
    rw [hslot, Option.some.injEq, Prod.mk.injEq] at hslot'
    exact hne hslot'.1
  have hslot'' : (t.set j none).table j' = some (k', v') := by
    rw [set_table, Function.update_of_ne hj, hslot']
  have hgone : (t.set j none).seek k = .ok none :=
    seek_vacant (finds_set_none hfinds) (Function.update_self ..)
  obtain ⟨hin, i', hland, hbound, rfl⟩ := hfinds'
  have hpasses : t.Passes k' k ↔ ∃ i < i', t.probe k' i = j := by
    constructor
    · rintro ⟨j₀, hfinds₀, i₀, hland₀, hi₀⟩
      rwa [hfinds₀.unique hfinds, hland₀.unique hland] at hi₀
    · exact fun h => ⟨j, hfinds, i', hland, h⟩
  rw [remove_found hfinds hslot, hk', hpasses]
  constructor
  · rintro ⟨t', item, hremove, hsame, _⟩ ⟨i, hi, hprobe⟩
    obtain ⟨rfl, _⟩ := Prod.mk.inj (Except.ok.inj hremove)
    exact seek_lost hland hi hprobe hsame
  · intro hnot
    exact ⟨_, _, rfl, seek_kept hin hland hbound hnot hslot'', hgone⟩

/-- Two keys of the same characters begin at the same slot; the one that came first holds it. -/
def ab : CString := ⟨[97, 98], by decide⟩

def ba : CString := ⟨[98, 97], by decide⟩

/-- When the first of them is removed, the other is not found any more. -/
theorem remove_loses_key : ¬∀ (numEntries : ℤ) (ops : List (Op String)) (t : HashTable String),
    (∀ op ∈ ops, op.key.Ascii) → (ofSize numEntries).performAll ops = .ok t →
    ∀ (k k' : CString) (v v' : String), k.Ascii → k'.Ascii → k ≠ k' → t.seek k = .ok (some v) →
      t.seek k' = .ok (some v') →
      ∃ t' item, t.remove k = .ok (t', some item) ∧ t'.seek k' = t.seek k' ∧
        t'.seek k = .ok none := by
  intro h
  obtain ⟨t', item, hremove, hsame, _⟩ := h 20 [.insert (ab, "1") true, .insert (ba, "2") true] _
    (by decide) rfl ab ba "1" "2" (by decide) (by decide) (by decide) rfl rfl
  obtain ⟨rfl, _⟩ := Prod.mk.inj (Except.ok.inj hremove)
  have hlost := Except.ok.inj hsame
  exact absurd hlost (by decide)

/-- In the other order nothing is lost. -/
theorem remove_leaves_others_example : ∃ t' item,
    (((ofSize 20).set 15 (some (ab, "1"))).set 10 (some (ba, "2"))).remove ba =
      .ok (t', some item) ∧
    t'.seek ab = .ok (some "1") ∧ t'.seek ba = .ok none := by
  have hba : (((ofSize 20).set 15 (some (ab, "1"))).set 10 (some (ba, "2"))).seek ba =
      .ok (some "2") := by rfl
  have hab : (((ofSize 20).set 15 (some (ab, "1"))).set 10 (some (ba, "2"))).seek ab =
      .ok (some "1") := by rfl
  refine (remove_leaves_others (by decide) hba hab).mpr ?_
  rintro ⟨j, hfinds, i', hland, i, hi, hprobe⟩
  -- the first probe of `ab` lands
  obtain ⟨x, hx, hne⟩ := hland.before 0 (by omega)
  have hfirst : (((ofSize 20).set 15 (some (ab, "1"))).set 10 (some (ba, "2"))).table
      ((((ofSize 20).set 15 (some (ab, "1"))).set 10 (some (ba, "2"))).probe ab 0) =
      some (ab, "1") := by rfl
  obtain rfl := Option.some.inj (hx.symm.trans hfirst)
  exact hne rfl

end HashTable

end S3Dhcpd
