import S3Dhcpd.RcHash

/-! Which keys and values the hash table takes from `_add2`, and which it has already. -/
namespace S3Dhcpd.RcFile

variable {host : Host} {rc rc' : HashApprc} {key val stem : List Char} {found : Option String}

/-- The number of values of an array, as its counter says. -/
def arrayCount (rc : HashApprc) (stem : List Char) : ℤ :=
  ((rc.value (String.ofList (stem ++ "-count".toList))).map Apprc.atoi).getD 0

/-- The hash table has slots for a key and its value; for an array key, which has a section in front
of the brackets, slots for the element and then for the counter, and the counter can be read and
does not overflow. -/
def Takes (host : Host) (rc : HashApprc) (key val : List Char) : Prop :=
  let stem := key.take (key.length-3)
  let counter := stem ++ "-count".toList
  let element := stem ++ '-' :: decimal2 (arrayCount rc stem)
  if isArrayKey host key = true then
    3 ≤ key.length ∧ arrayCount rc stem ≠ 2^31-1 ∧ rc.h.ReadsInside (.ofText counter) ∧
      rc.h.Accepts (.ofText element, String.ofList val) ∧
      ∀ rc', rc.insert element val = .ok rc' →
        rc'.h.Accepts (.ofText counter, String.ofList (decimal (arrayCount rc stem+1)))
  else rc.h.Accepts (.ofText key, String.ofList val)

theorem add2_key {σ : Type} [KeyTable σ] {rc : σ} (h : isArrayKey host key = false) :
    add2 host rc key val = insertKey rc key val := by
  rw [add2, if_neg (by rw [h]; decide)]

/-- An array key leads to the insertion of an element, and then of the counter. -/
theorem add2_array (harray : isArrayKey host key = true) :
    add2 host rc key val = .ok rc' ↔ 3 ≤ key.length ∧ ∃ found rc₁,
      rc.seek (String.ofList (key.take (key.length-3) ++ "-count".toList)) = .ok found ∧
      rc.insert (key.take (key.length-3) ++ '-' :: decimal2 ((found.map Apprc.atoi).getD 0)) val =
        .ok rc₁ ∧
      (found.map Apprc.atoi).getD 0 ≠ 2^31-1 ∧
      rc₁.insert (key.take (key.length-3) ++ "-count".toList)
        (decimal ((found.map Apprc.atoi).getD 0+1)) = .ok rc' := by
  rw [add2, if_pos harray]
  by_cases hshort : key.length < 3
  · rw [if_pos hshort]
    exact iff_of_false (fun h => by cases h) fun h => absurd h.1 (not_le.mpr hshort)
  · rw [if_neg hshort, and_iff_right (not_lt.mp hshort), bind_eq_ok]
    refine exists_congr fun found => ?_
    simp only [bind_eq_ok, seekKey, insertKey, mapError_ok]
    constructor
    · rintro ⟨hseek, rc₁, hinsert, h⟩
      split_ifs at h with hmax
      exact ⟨rc₁, hseek, hinsert, hmax, mapError_ok.mp h⟩
    · rintro ⟨rc₁, hseek, hinsert, hmax, h⟩
      refine ⟨hseek, rc₁, hinsert, ?_⟩
      rw [if_neg hmax]
      exact mapError_ok.mpr h

theorem count_found (hkeyst : rc.keyst = none)
    (h : rc.seek (String.ofList (stem ++ "-count".toList)) = .ok found) :
    (found.map Apprc.atoi).getD 0 = arrayCount rc stem := by
  rw [HashApprc.seek_value h, HashApprc.keyName_none hkeyst, arrayCount]

/-- `_add2` comes through exactly when the table takes the pair. -/
theorem add2_ok_iff (hkeyst : rc.keyst = none) :
    (∃ rc', add2 host rc key val = .ok rc') ↔ Takes host rc key val := by
  rw [Takes]
  split_ifs with harray
  · have hreads := @HashApprc.seek_ok_iff rc
      (String.ofList (key.take (key.length-3) ++ "-count".toList))
    rw [HashApprc.keyName_none hkeyst, HashApprc.slotKey_ofList] at hreads
    simp only [add2_array harray]
    constructor
    · rintro ⟨rc', hlen, found, rc₁, hseek, hinsert, hmax, hcounter⟩
      rw [count_found hkeyst hseek] at hinsert hmax hcounter
      refine ⟨hlen, hmax, hreads.mp ⟨_, hseek⟩, HashApprc.insert_ok_iff.mp ⟨_, hinsert⟩, ?_⟩
      intro rc₂ hinsert'
      obtain rfl := Except.ok.inj (hinsert.symm.trans hinsert')
      exact HashApprc.insert_ok_iff.mp ⟨_, hcounter⟩
    · rintro ⟨hlen, hmax, hread, helement, hcounter⟩
      obtain ⟨found, hseek⟩ := hreads.mpr hread
      obtain ⟨rc₁, hinsert⟩ := HashApprc.insert_ok_iff.mpr helement
      obtain ⟨rc', hinsert'⟩ := HashApprc.insert_ok_iff.mpr (hcounter rc₁ hinsert)
      rw [← count_found hkeyst hseek] at hmax hinsert hinsert'
      exact ⟨rc', hlen, found, rc₁, hseek, hinsert, hmax, hinsert'⟩
  · rw [add2_key (eq_false_of_ne_true harray)]
    simp only [insertKey, mapError_ok]
    exact HashApprc.insert_ok_iff

theorem arrayCount_range (rc : HashApprc) (stem : List Char) :
    -2^31 ≤ arrayCount rc stem ∧ arrayCount rc stem < 2^31 := by
  rw [arrayCount]
  cases rc.value (String.ofList (stem ++ "-count".toList)) with
  | none => decide
  | some s => exact ⟨BitVec.le_toInt _, BitVec.toInt_lt⟩

/-- The counter of an array is another one afterwards. -/
theorem add2_counts (hkeyst : rc.keyst = none) (harray : isArrayKey host key = true)
    (h : add2 host rc key val = .ok rc') : rc'.value ≠ rc.value := by
  obtain ⟨_, found, rc₁, hseek, _, hmax, hcounter⟩ := (add2_array harray).mp h
  rw [count_found hkeyst hseek] at hmax hcounter
  have hrange := arrayCount_range rc (key.take (key.length-3))
  have hvalue := HashApprc.insert_value hcounter
    (String.ofList (key.take (key.length-3) ++ "-count".toList))
  rw [HashApprc.slotKey_ofList, if_pos rfl] at hvalue
  intro hsame
  rw [hsame] at hvalue
  -- the old text of the counter would be that of the next number
  have hcount : arrayCount rc (key.take (key.length-3)) =
      arrayCount rc (key.take (key.length-3))+1 := by
    conv_lhs => rw [arrayCount, hvalue]
    exact atoi_decimal (by omega) (by omega)
  omega

/-- The table stays the same exactly when it has the pair, under a key that is no array key. -/
theorem add2_same (hkeyst : rc.keyst = none) :
    (∃ rc', add2 host rc key val = .ok rc' ∧ rc'.value = rc.value) ↔
      isArrayKey host key = false ∧
        rc.value (String.ofList key) = some (String.ofList val) := by
  constructor
  · rintro ⟨rc', hadd, hsame⟩
    have harray : isArrayKey host key = false := by
      by_contra harray
      exact add2_counts hkeyst (eq_true_of_ne_false harray) hadd hsame
    rw [add2_key harray, insertKey, mapError_ok] at hadd
    have hvalue := HashApprc.insert_value hadd (String.ofList key)
    rw [HashApprc.slotKey_ofList, if_pos rfl, hsame] at hvalue
    exact ⟨harray, hvalue⟩
  · rintro ⟨harray, hvalue⟩
    obtain ⟨rc', hinsert⟩ := HashApprc.insert_present hvalue val
    refine ⟨rc', ?_, funext fun k => ?_⟩
    · rw [add2_key harray, insertKey, mapError_ok]
      exact hinsert
    · rw [HashApprc.insert_value hinsert]
      split_ifs with hk
      · rw [← hvalue]
        exact HashApprc.value_congr ((HashApprc.slotKey_ofList key).trans hk.symm)
      · rfl

end S3Dhcpd.RcFile
