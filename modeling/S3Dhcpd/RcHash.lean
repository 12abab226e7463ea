import S3Dhcpd.RcLine

/-! `dsApprc` over its hash table holds a finite map, as long as the table takes the keys. -/
namespace S3Dhcpd.HashApprc
open KeyedTable

variable {rc rc' : HashApprc} {key val : List Char} {k : String} {v : String} {r : Option String}

/-- The name of a key in the table. -/
def slotKey (k : String) : CString := .ofText k.toList

theorem slotKey_ofList (s : List Char) : slotKey (String.ofList s) = .ofText s := by
  rw [slotKey, String.toList_ofList]

theorem value_iff : rc.value k = some v ↔ rc.h.Holds (slotKey k) v := by
  rw [value, Option.map_eq_some_iff]
  constructor
  · rintro ⟨item, hfind, rfl⟩
    have hkey : item.1 = .ofText k.toList := by simpa using List.find?_some hfind
    rw [slotKey, ← hkey]
    exact HashTable.mem_items.mp (List.mem_of_find?_eq_some hfind)
  · intro hholds
    obtain ⟨item, hfind⟩ : ∃ item, rc.h.items.find? (·.1 = slotKey k) = some item := by
      rw [← Option.isSome_iff_exists, List.find?_isSome]
      exact ⟨(slotKey k, v), HashTable.mem_items.mpr hholds, decide_eq_true rfl⟩
    have hkey : item.1 = slotKey k := by simpa using List.find?_some hfind
    -- a key stands in one slot only
    have hmem : item ∈ rc.h.items := List.mem_of_find?_eq_some hfind
    have hitem : item = (slotKey k, v) := List.inj_on_of_nodup_map rc.chained.items_nodup hmem
      (HashTable.mem_items.mpr hholds) hkey
    exact ⟨item, hfind, congrArg Prod.snd hitem⟩

theorem value_new (k : String) : new.value k = none := by
  by_contra h
  obtain ⟨v, hvalue⟩ := Option.ne_none_iff_exists'.mp h
  obtain ⟨_, _, hslot⟩ := value_iff.mp hvalue
  cases hslot

theorem value_congr {k' : String} (h : slotKey k = slotKey k') : rc.value k = rc.value k' := by
  ext v
  rw [value_iff, value_iff, h]

theorem insert_ok (h : rc.insert key val = .ok rc') : ∃ old,
    rc.h.insert (.ofText key, String.ofList val) true = .ok (rc'.h, old) ∧
      rc'.keyst = rc.keyst := by
  rw [insert] at h
  split at h
  · rename_i r hr
    cases h
    exact ⟨r.2, hr, rfl⟩
  · cases h

theorem insert_error {e : HashTableException} (h : rc.insert key val = .error e) :
    rc.h.insert (.ofText key, String.ofList val) true = .error e := by
  rw [insert] at h
  split at h
  · cases h
  · rename_i hr
    rw [hr, ← Except.error.inj h]

theorem insert_keyst (h : rc.insert key val = .ok rc') : rc'.keyst = rc.keyst := by
  obtain ⟨_, _, hkeyst⟩ := insert_ok h
  exact hkeyst

/-- An insertion that comes through changes what is under its key. -/
theorem insert_value (h : rc.insert key val = .ok rc') (k : String) : rc'.value k =
    if slotKey k = .ofText key then some (String.ofList val) else rc.value k := by
  obtain ⟨old, hinsert, _⟩ := insert_ok h
  obtain ⟨t, old', hinsert', _, hholds⟩ :=
    HashTable.insert_accepts rc.chained (HashTable.accepts_of_insert rc.chained hinsert)
  obtain ⟨rfl, _⟩ := Prod.mk.inj (Except.ok.inj (hinsert.symm.trans hinsert'))
  ext v
  rw [value_iff, hholds]
  split_ifs
  · rw [Option.some.injEq, eq_comm]
  · exact value_iff.symm

/-- A key that is there finds its own slot. -/
theorem insert_present (h : rc.value (String.ofList key) = some v) (val : List Char) :
    ∃ rc', rc.insert key val = .ok rc' := by
  obtain ⟨j, hfinds, _⟩ := rc.chained.finds (value_iff.mp h)
  rw [slotKey_ofList] at hfinds
  obtain ⟨old, hinsert⟩ := @HashTable.insert_finds _ rc.h (.ofText key, String.ofList val) j hfinds
  cases hresult : rc.insert key val with
  | ok rc' => exact ⟨rc', rfl⟩
  | error e => cases (insert_error hresult).symm.trans hinsert

/-- What `seek` returns is the entry under the key's name. -/
theorem seek_value (h : rc.seek k = .ok r) : r = rc.value (rc.keyName k) := by
  cases r with
  | some v =>
    obtain ⟨j, hfinds, hslot⟩ := HashTable.seek_some.mp h
    exact (value_iff.mpr ⟨j, hfinds.lt_size, hslot⟩).symm
  | none =>
    cases hvalue : rc.value (rc.keyName k) with
    | none => rfl
    | some v =>
      have hseek := rc.chained.seek (value_iff.mp hvalue)
      cases (hseek.symm.trans h)

theorem keyName_none (h : rc.keyst = none) (k : String) : rc.keyName k = k := by
  rw [keyName, h]
  cases Apprc.isRelative k <;> rfl

theorem insert_ok_iff : (∃ rc', rc.insert key val = .ok rc') ↔
    rc.h.Accepts (.ofText key, String.ofList val) := by
  constructor
  · rintro ⟨rc', h⟩
    obtain ⟨old, hinsert, _⟩ := insert_ok h
    exact HashTable.accepts_of_insert rc.chained hinsert
  · intro haccepts
    obtain ⟨t, old, hinsert, _⟩ := HashTable.insert_accepts rc.chained haccepts
    cases h : rc.insert key val with
    | ok rc' => exact ⟨rc', rfl⟩
    | error e => cases (insert_error h).symm.trans hinsert

theorem seek_ok_iff : (∃ r, rc.seek k = .ok r) ↔ rc.h.ReadsInside (slotKey (rc.keyName k)) := by
  constructor
  · rintro ⟨r, h⟩
    exact HashTable.readsInside_of_seek h
  · intro hreads
    cases hvalue : rc.value (rc.keyName k) with
    | some v => exact ⟨some v, rc.chained.seek (value_iff.mp hvalue)⟩
    | none =>
      refine ⟨none, HashTable.seek_absent hreads fun v hholds => ?_⟩
      cases hvalue.symm.trans (value_iff.mpr hholds)

section Walk

/-- A key of the table as a text. -/
def slotText (c : CString) : String := String.ofList (c.1.map fun b => Char.ofNat b.toNat)

theorem slotKey_slotText (c : CString) : slotKey (slotText c) = c := by
  have hbyte : ∀ b : Byte, byteOfChar (Char.ofNat b.toNat) = b := forall_byte (by decide +kernel)
  apply Subtype.ext
  rw [slotKey, slotText, String.toList_ofList, CString.ofText]
  dsimp only
  have hsame : (byteOfChar ∘ fun b : Byte => Char.ofNat b.toNat) = id := funext hbyte
  rw [List.map_map, hsame, List.map_id, List.takeWhile_eq_self_iff]
  intro b hb
  exact decide_eq_true fun hzero => c.2 (hzero ▸ hb)

theorem slotText_injective : Function.Injective slotText :=
  Function.LeftInverse.injective slotKey_slotText

/-- The entries in the order of their slots, as a walk comes to them. -/
def entries (rc : HashApprc) : Table (String × String) Prod.fst where
  rows := rc.h.items.map fun item => (slotText item.1, item.2)
  unique := by
    have hkeys : (rc.h.items.map fun item => (slotText item.1, item.2)).map Prod.fst =
        (rc.h.items.map Prod.fst).map slotText := by
      rw [List.map_map, List.map_map]
      rfl
    rw [hkeys]
    exact rc.chained.items_nodup.map slotText_injective

/-- The settings that are read of the table. -/
def walked (rc : HashApprc) : Apprc := ⟨rc.entries, rc.keyst⟩

theorem mem_entries {item : String × String} : item ∈ rc.entries.rows ↔
    ∃ c, rc.h.Holds c item.2 ∧ slotText c = item.1 := by
  rw [entries, List.mem_map]
  constructor
  · rintro ⟨⟨c, v⟩, hmem, rfl⟩
    exact ⟨c, HashTable.mem_items.mp hmem, rfl⟩
  · rintro ⟨c, hholds, htext⟩
    exact ⟨(c, item.2), HashTable.mem_items.mpr hholds, Prod.ext htext rfl⟩

/-- Under a key that the table does not shorten the walk comes to what the table holds. -/
theorem walked_value (hk : slotText (slotKey k) = k) : rc.walked.value k = rc.value k := by
  ext v
  rw [value_iff, Apprc.value, Option.map_eq_some_iff]
  constructor
  · rintro ⟨item, hrow, rfl⟩
    obtain ⟨hmem, rfl⟩ := Table.row?_eq_some.mp hrow
    obtain ⟨c, hholds, htext⟩ := mem_entries.mp hmem
    rwa [← htext, slotKey_slotText]
  · intro hholds
    exact ⟨(k, v), Table.row?_eq_some.mpr ⟨mem_entries.mpr ⟨_, hholds, hk⟩, rfl⟩, rfl⟩

/-- What a search of the hash table finds is what is read of the settings. -/
theorem seek_walked (hk : slotText (slotKey (rc.keyName k)) = rc.keyName k)
    (h : rc.seek k = .ok r) : r = rc.walked.seek k := by
  have hseek : rc.walked.seek k = rc.walked.value (rc.keyName k) := by
    have hkeyst : rc.walked.keyst = rc.keyst := rfl
    rw [Apprc.seek, keyName, Apprc.value, hkeyst]
    cases Apprc.isRelative k <;> cases rc.keyst <;> rfl
  rw [seek_value h, hseek, walked_value hk]

end Walk

end S3Dhcpd.HashApprc
