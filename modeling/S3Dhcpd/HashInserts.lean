import S3Dhcpd.HashProbes

/-! Which runs of insertions `dsHashTable` accepts, and what it holds afterwards. -/
namespace S3Dhcpd
open Probing

namespace HashTable
variable {ν : Type*} {t t' : HashTable ν} {key : CString} {a : CString × ν} {v : ν} {j : ℕ}

/-- Every entry is where a search for its key ends. -/
def Chained (t : HashTable ν) : Prop :=
  ∀ j < t.HSize, ∀ item, t.table j = some item → t.Finds item.1 j

/-- The table as a finite map. -/
def Holds (t : HashTable ν) (key : CString) (v : ν) : Prop :=
  ∃ j < t.HSize, t.table j = some (key, v)

/-- The entries find free slots, one after the other. -/
def Fits : HashTable ν → List (CString × ν) → Prop
  | _, [] => True
  | t, item :: rest =>
    ∃ j, t.Finds item.1 j ∧ t.table j = none ∧ (t.set j (some item)).Fits rest

/-- The entry finds a slot in the table; or the table may grow, and in the larger one the old entries,
in the order of their slots, and then the new one find free slots. -/
def Accepts (t : HashTable ν) (a : CString × ν) : Prop :=
  (∃ j, t.Finds a.1 j) ∨
    (t.StartsInside a.1 ∧ t.HSize < HASH_MAXSIZE ∧ t.grown.Fits (t.items ++ [a]))

theorem Chained.finds (hT : t.Chained) (h : t.Holds key v) :
    ∃ j, t.Finds key j ∧ t.table j = some (key, v) := by
  obtain ⟨j, hj, hslot⟩ := h
  exact ⟨j, hT j hj _ hslot, hslot⟩

theorem Chained.seek (hT : t.Chained) (h : t.Holds key v) : t.seek key = .ok (some v) :=
  seek_some.mpr (hT.finds h)

theorem seek_absent (hreads : t.ReadsInside key) (h : ∀ v, ¬t.Holds key v) :
    t.seek key = .ok none := by
  cases hseek : t.seek key with
  | error e =>
    rw [HashTable.seek] at hseek
    split at hseek
    · cases hseek
    · cases hseek
    · cases hseek
    · cases hseek
    · exact absurd ‹_› (hreads.1 _)
    · exact absurd ‹_› hreads.2
  | ok r =>
    cases r with
    | none => rfl
    | some v =>
      obtain ⟨j, hfinds, hslot⟩ := seek_some.mp hseek
      exact absurd ⟨j, hfinds.lt_size, hslot⟩ (h v)

/-- A search that returns has read valid slots only. -/
theorem readsInside_of_seek {r : Option ν} (h : t.seek key = .ok r) : t.ReadsInside key := by
  rw [HashTable.seek] at h
  constructor
  · intro index hindex
    rw [hindex] at h
    cases h
  · intro hoverflow
    rw [hoverflow] at h
    cases h

section Write

theorem finds_set_self (h : t.Finds a.1 j) : (t.set j (some a)).Finds a.1 j := by
  obtain ⟨hin, i, hland, hbound, rfl⟩ := h
  refine ⟨hin, i, ⟨?_, fun i' hi' => ?_⟩, hbound, rfl⟩
  · exact not_taken_of_key (Function.update_self ..) rfl
  · have hne := (hland.before i' hi').slot_ne hland.here
    rw [set_table, taken_update, set_probe, if_neg hne]
    exact hland.before i' hi'

/-- A slot that gets an entry stays, or becomes, an obstacle for the other keys. -/
theorem finds_set_other {j' : ℕ} (h : t.Finds key j') (hkey : a.1 ≠ key) (hj : j' ≠ j) :
    (t.set j (some a)).Finds key j' := by
  obtain ⟨hin, i, hland, hbound, rfl⟩ := h
  refine ⟨hin, i, ⟨?_, fun i' hi' => ?_⟩, hbound, rfl⟩
  · rw [set_table, taken_update, set_probe, if_neg hj]
    exact hland.here
  · rw [set_table, taken_update, set_probe]
    split_ifs
    · exact ⟨a, rfl, hkey⟩
    · exact hland.before i' hi'

theorem Chained.set (hT : t.Chained) (h : t.Finds a.1 j) : (t.set j (some a)).Chained := by
  intro j' hj' item hslot
  rw [set_table, Function.update_apply] at hslot
  split_ifs at hslot with heq
  · cases hslot
    rw [heq]
    exact finds_set_self h
  · refine finds_set_other (hT j' hj' item hslot) ?_ heq
    intro hkey
    exact heq ((hT j' hj' item hslot).unique (hkey ▸ h))

/-- The slot where a search ends is free or holds the key, so nothing else is overwritten. -/
theorem holds_set (hT : t.Chained) (h : t.Finds a.1 j) :
    (t.set j (some a)).Holds key v ↔ if key = a.1 then v = a.2 else t.Holds key v := by
  constructor
  · rintro ⟨j', hj', hslot⟩
    rw [set_table, Function.update_apply] at hslot
    split_ifs at hslot with heq
    · obtain rfl := Option.some.inj hslot
      rw [if_pos rfl]
    · have hkey : key ≠ a.1 := by
        rintro rfl
        exact heq ((hT j' hj' _ hslot).unique h)
      rw [if_neg hkey]
      exact ⟨j', hj', hslot⟩
  · intro hv
    split_ifs at hv with hkey
    · refine ⟨j, h.lt_size, ?_⟩
      rw [set_table, Function.update_self, hkey, hv]
    · obtain ⟨j', hj', hslot⟩ := hv
      refine ⟨j', hj', ?_⟩
      rw [set_table, Function.update_of_ne, hslot]
      rintro rfl
      exact hkey (h.key_eq hslot)

theorem holds_set_none (h : t.Finds a.1 j) (hslot : t.table j = none) :
    (t.set j (some a)).Holds key v ↔ (key, v) = a ∨ t.Holds key v := by
  constructor
  · rintro ⟨j', hj', hslot'⟩
    rw [set_table, Function.update_apply] at hslot'
    split_ifs at hslot'
    · exact Or.inl (Option.some.inj hslot').symm
    · exact Or.inr ⟨j', hj', hslot'⟩
  · rintro (rfl | ⟨j', hj', hslot'⟩)
    · exact ⟨j, h.lt_size, Function.update_self ..⟩
    · refine ⟨j', hj', ?_⟩
      rw [set_table, Function.update_of_ne, hslot']
      rintro rfl
      rw [hslot] at hslot'
      cases hslot'

end Write

section Grow
variable {items rest : List (CString × ν)}

/-- The copy loop places what fits. -/
theorem copyItems_fits (hT : t.Chained) (h : t.Fits (items ++ rest)) :
    ∃ t', t.copyItems items = .ok t' ∧ t'.Chained ∧ t'.Fits rest ∧
      ∀ key v, t'.Holds key v ↔ t.Holds key v ∨ (key, v) ∈ items := by
  induction items generalizing t with
  | nil => exact ⟨t, rfl, hT, h, fun key v => by simp⟩
  | cons item items ih =>
    obtain ⟨j, hfinds, hslot, hrest⟩ := h
    obtain ⟨t', hcopy, hT', hfits, hholds⟩ := ih (hT.set hfinds) hrest
    refine ⟨t', ?_, hT', hfits, fun key v => ?_⟩
    · rw [copyItems, hiSeek_finds hfinds, landing, hslot]
      exact hcopy
    · rw [hholds, holds_set_none hfinds hslot, List.mem_cons]
      tauto

/-- What the copy loop has placed did fit, when the keys are distinct and new. -/
theorem fits_of_copyItems (hkeys : (items.map Prod.fst).Nodup)
    (hnew : ∀ item ∈ items, ∀ v, ¬t.Holds item.1 v) (h : t.copyItems items = .ok t')
    (hrest : t'.Fits rest) : t.Fits (items ++ rest) := by
  -- on the entries; the ones that are copied later are not in the table yet
  induction items generalizing t with
  | nil =>
    cases h
    exact hrest
  | cons item items ih =>
    rw [List.map_cons, List.nodup_cons] at hkeys
    rw [List.forall_mem_cons] at hnew
    have hspec := hiSeek_spec t item.1
    rw [copyItems] at h
    generalize t.hiSeek item.1 = r at h hspec
    cases hspec with
    | @lands j hfinds =>
      rcases t.landing_cases j with ⟨hslot, hland⟩ | ⟨old, hslot, hland⟩
      · rw [hland] at h
        refine ⟨j, hfinds, hslot, ih hkeys.2 ?_ h⟩
        intro item' hitem' v hholds
        rcases (holds_set_none hfinds hslot).mp hholds with heq | hholds
        · refine hkeys.1 (List.mem_map.mpr ⟨item', hitem', ?_⟩)
          rw [← heq]
        · exact hnew.2 item' hitem' v hholds
      · -- the key would be in the table already
        have hkey := hfinds.key_eq hslot
        exact absurd ⟨j, hfinds.lt_size, by rw [hslot, ← hkey]⟩ (hnew.1 old.2)
    | full _ _ _ => cases h
    | outside _ => cases h
    | overflow _ _ _ _ => cases h

theorem mem_items {item : CString × ν} :
    item ∈ t.items ↔ t.Holds item.1 item.2 := by
  simp only [HashTable.items, Holds, List.mem_filterMap, List.mem_range]

theorem Chained.items_nodup (hT : t.Chained) : (t.items.map Prod.fst).Nodup := by
  rw [HashTable.items, List.Nodup, List.pairwise_map, List.pairwise_filterMap]
  refine List.Pairwise.imp_of_mem ?_ List.nodup_range
  intro i j hi hj hne item hitem item' hitem' hkey
  rw [List.mem_range] at hi hj
  exact hne ((hT i hi item hitem).unique (hkey ▸ hT j hj item' hitem'))

theorem grown_empty : ¬t.grown.Holds key v := by
  rintro ⟨j, _, hslot⟩
  cases hslot

theorem grown_chained : t.grown.Chained := by
  intro j _ item hslot
  cases hslot

end Grow

section Insert

/-- Below `HASH_MAXSIZE` a search without a landing ends at its start. -/
theorem hiSeek_full (hin : t.StartsInside key) (hsize : t.HSize ≤ HASH_MAXSIZE)
    (hnone : ¬∃ j, t.Finds key j) : t.hiSeek key = .full := by
  have hspec := hiSeek_spec t key
  generalize t.hiSeek key = r at hspec
  cases hspec with
  | lands hfinds => exact absurd ⟨_, hfinds⟩ hnone
  | full _ _ _ => rfl
  | outside hneg => exact absurd hin hneg
  | overflow _ hi hbefore hlarge =>
    exact absurd (sumsBounded_of_size hsize key _ hi hbefore) (not_lt.mpr hlarge)

theorem insert_finds (h : t.Finds a.1 j) : ∃ old, t.insert a true = .ok (t.set j (some a), old) := by
  rw [HashTable.insert, hiSeek_finds h]
  rcases t.landing_cases j with ⟨_, hland⟩ | ⟨item, _, hland⟩
  · rw [hland]
    exact ⟨none, rfl⟩
  · rw [hland]
    exact ⟨some item, rfl⟩

theorem growUp_eq (h : t.HSize < HASH_MAXSIZE) : t.growUp = t.grown.copyItems t.items := by
  rw [growUp, if_neg (not_le.mpr h)]

/-- An accepted entry is inserted, and changes what the table holds under its key only. -/
theorem insert_accepts (hT : t.Chained) (h : t.Accepts a) :
    ∃ t' old, t.insert a true = .ok (t', old) ∧ t'.Chained ∧
      ∀ key v, t'.Holds key v ↔ if key = a.1 then v = a.2 else t.Holds key v := by
  by_cases hfinds : ∃ j, t.Finds a.1 j
  · obtain ⟨j, hj⟩ := hfinds
    obtain ⟨old, hinsert⟩ := insert_finds hj
    exact ⟨_, old, hinsert, hT.set hj, fun key v => holds_set hT hj⟩
  · obtain ⟨hin, hsize, hfits⟩ := h.resolve_left hfinds
    obtain ⟨t', hcopy, hT', ⟨j, hj, hslot, _⟩, hholds⟩ := copyItems_fits grown_chained hfits
    -- `insert` seeks a second time, in the larger table
    refine ⟨t'.set j (some a), none, ?_, hT'.set hj, fun key v => ?_⟩
    · rw [HashTable.insert, hiSeek_full hin hsize.le hfinds]
      dsimp only
      rw [growUp_eq hsize, hcopy]
      change t'.write a true (t'.hiSeek a.1) = _
      rw [hiSeek_finds hj, landing, hslot, write]
    · rw [holds_set hT' hj, hholds, mem_items, or_iff_right grown_empty]

/-- The larger table has the old entries, and no others. -/
theorem copyItems_absent (hT : t.Chained) (h : t.grown.copyItems t.items = .ok t')
    (habsent : ∀ v, ¬t.Holds key v) (v : ν) : ¬t'.Holds key v := by
  have hfits : t.grown.Fits (t.items ++ []) :=
    fits_of_copyItems hT.items_nodup (fun _ _ _ => grown_empty) h trivial
  obtain ⟨t'', hcopy, _, _, hholds⟩ := copyItems_fits grown_chained hfits
  obtain rfl := Except.ok.inj (h.symm.trans hcopy)
  rw [hholds, mem_items, or_iff_right grown_empty]
  exact habsent v

theorem vacant_of_write (habsent : ∀ v, ¬t.Holds a.1 v)
    {r : HashTable ν × Option (CString × ν)} (h : t.write a true (t.hiSeek a.1) = .ok r) :
    ∃ j, t.Finds a.1 j ∧ t.table j = none := by
  have hspec := hiSeek_spec t a.1
  generalize t.hiSeek a.1 = landing at h hspec
  cases hspec with
  | @lands j hfinds =>
    rcases t.landing_cases j with ⟨hslot, _⟩ | ⟨item, hslot, _⟩
    · exact ⟨j, hfinds, hslot⟩
    · have hkey := hfinds.key_eq hslot
      exact absurd ⟨j, hfinds.lt_size, by rw [hslot, ← hkey]⟩ (habsent item.2)
  | full _ _ _ => cases h
  | outside _ => cases h
  | overflow _ _ _ _ => cases h

theorem accepts_of_insert (hT : t.Chained) {r : HashTable ν × Option (CString × ν)}
    (h : t.insert a true = .ok r) : t.Accepts a := by
  have hspec := hiSeek_spec t a.1
  rw [HashTable.insert] at h
  generalize hr : t.hiSeek a.1 = landing at h hspec
  cases hspec with
  | @lands j hfinds => exact Or.inl ⟨j, hfinds⟩
  | full hin hblocked hbound =>
    -- a key that the table held would not be blocked
    have habsent : ∀ v, ¬t.Holds a.1 v := by
      intro v hholds
      obtain ⟨j, hfinds, _⟩ := hT.finds hholds
      obtain ⟨_, i, hland, _, _⟩ := hfinds
      exact hland.here (hblocked i)
    refine Or.inr ⟨hin, ?_⟩
    dsimp only at h
    cases hgrow : t.growUp with
    | error e =>
      rw [hgrow] at h
      cases h
    | ok t' =>
      rw [hgrow] at h
      have hwrite : t'.write a true (t'.hiSeek a.1) = .ok r := h
      rw [growUp] at hgrow
      split_ifs at hgrow with hsize
      obtain ⟨j, hfinds, hslot⟩ := vacant_of_write (copyItems_absent hT hgrow habsent) hwrite
      exact ⟨not_le.mp hsize, fits_of_copyItems hT.items_nodup (fun _ _ _ => grown_empty) hgrow
        ⟨j, hfinds, hslot, trivial⟩⟩
  | outside _ => cases h
  | overflow _ _ _ _ => cases h

end Insert

/-- The value that a run of insertions inserts last under a key. -/
def lastValue (ops : List (CString × ν)) (key : CString) : Option ν :=
  (ops.reverse.find? (·.1 = key)).map Prod.snd

/-- Insertions with `replace`, into a new table. -/
def insertAll (numEntries : ℤ) (ops : List (CString × ν)) :
    Except HashTableException (HashTable ν) :=
  (ofSize numEntries).performAll (ops.map (.insert · true))

section Run
variable {numEntries : ℤ} {ops pre : List (CString × ν)}

theorem insertAll_snoc : insertAll numEntries (pre ++ [a]) =
    insertAll numEntries pre >>= fun t => Prod.fst <$> t.insert a true := by
  rw [insertAll, performAll, List.map_append, List.foldlM_append]
  refine bind_congr fun t => ?_
  simp only [List.map_cons, List.map_nil, List.foldlM_cons, List.foldlM_nil, bind_pure, perform]

theorem insertAll_snoc_ok (h : insertAll numEntries (pre ++ [a]) = .ok t') :
    ∃ t old, insertAll numEntries pre = .ok t ∧ t.insert a true = .ok (t', old) := by
  rw [insertAll_snoc] at h
  cases hpre : insertAll numEntries pre with
  | error e =>
    rw [hpre] at h
    cases h
  | ok t =>
    rw [hpre] at h
    have h : Prod.fst <$> t.insert a true = .ok t' := h
    cases hinsert : t.insert a true with
    | error e =>
      rw [hinsert] at h
      cases h
    | ok r =>
      rw [hinsert] at h
      cases h
      exact ⟨t, r.2, rfl, hinsert⟩

theorem lastValue_snoc : lastValue (pre ++ [a]) key =
    if key = a.1 then some a.2 else lastValue pre key := by
  rw [lastValue, List.reverse_append, List.reverse_singleton, List.singleton_append,
    List.find?_cons]
  by_cases hkey : key = a.1
  · rw [if_pos hkey, decide_eq_true hkey.symm]
    rfl
  · rw [if_neg hkey, decide_eq_false (Ne.symm hkey)]
    rfl

/-- A run that comes through leaves what it inserted last under each key. -/
theorem insertAll_spec (h : insertAll numEntries pre = .ok t) :
    t.Chained ∧ ∀ key v, t.Holds key v ↔ lastValue pre key = some v := by
  induction pre using List.reverseRecOn generalizing t with
  | nil =>
    cases h
    refine ⟨fun j _ item hslot => ?_, fun key v => ⟨?_, fun h => ?_⟩⟩
    · cases hslot
    · rintro ⟨j, _, hslot⟩
      cases hslot
    · cases h
  | append_singleton pre a ih =>
    obtain ⟨t₀, old, hpre, hinsert⟩ := insertAll_snoc_ok h
    obtain ⟨hT₀, hholds₀⟩ := ih hpre
    obtain ⟨t', old', hinsert', hT', hholds'⟩ :=
      insert_accepts hT₀ (accepts_of_insert hT₀ hinsert)
    obtain ⟨rfl, _⟩ := Prod.mk.inj (Except.ok.inj (hinsert.symm.trans hinsert'))
    refine ⟨hT', fun key v => ?_⟩
    rw [hholds', lastValue_snoc]
    split_ifs
    · rw [Option.some.injEq, eq_comm]
    · exact hholds₀ key v

/-- No insertion throws or leaves the table, and after each of them the search for the key returns
the value that was inserted last under it. -/
def KeepsKey (numEntries : ℤ) (ops : List (CString × ν)) (key : CString) : Prop :=
  ∀ pre, pre <+: ops → ∃ t, insertAll numEntries pre = .ok t ∧ t.seek key = .ok (lastValue pre key)

theorem insertAll_seek (h : insertAll numEntries pre = .ok t) (hreads : t.ReadsInside key) :
    t.seek key = .ok (lastValue pre key) := by
  obtain ⟨hT, hholds⟩ := insertAll_spec h
  cases hlast : lastValue pre key with
  | some v => exact hT.seek ((hholds key v).mpr hlast)
  | none =>
    refine seek_absent hreads fun v hv => ?_
    rw [hholds, hlast] at hv
    cases hv

/-- A run keeps every key exactly when each insertion is accepted in the table that it meets, and
the searches for the key stay inside. -/
theorem insert_keeps_key : KeepsKey numEntries ops key ↔
    (∀ pre a post t, ops = pre ++ a :: post → insertAll numEntries pre = .ok t → t.Accepts a) ∧
      ∀ pre t, pre <+: ops → insertAll numEntries pre = .ok t →
        t.StartsInside key ∧ t.SumsBounded key := by
  constructor
  · intro h
    constructor
    · rintro pre a post t rfl hpre
      obtain ⟨t', hnext, _⟩ := h (pre ++ [a]) ⟨post, by simp⟩
      obtain ⟨t₀, old, hpre', hinsert⟩ := insertAll_snoc_ok hnext
      obtain rfl := Except.ok.inj (hpre.symm.trans hpre')
      exact accepts_of_insert (insertAll_spec hpre).1 hinsert
    · intro pre t hprefix hpre
      obtain ⟨t', hpre', hseek⟩ := h pre hprefix
      obtain rfl := Except.ok.inj (hpre.symm.trans hpre')
      exact readsInside_iff.mp (readsInside_of_seek hseek)
  · rintro ⟨haccepts, hreads⟩ pre hprefix
    -- each insertion meets the table that the ones before it have left
    have hrun : ∃ t, insertAll numEntries pre = .ok t := by
      induction pre using List.reverseRecOn with
      | nil => exact ⟨_, rfl⟩
      | append_singleton pre a ih =>
        obtain ⟨post, hpost⟩ := hprefix
        rw [List.append_assoc] at hpost
        obtain ⟨t, hpre⟩ := ih ⟨_, hpost⟩
        obtain ⟨t', old, hinsert, _⟩ :=
          insert_accepts (insertAll_spec hpre).1 (haccepts pre a post t hpost.symm hpre)
        refine ⟨t', ?_⟩
        rw [insertAll_snoc, hpre]
        change Prod.fst <$> t.insert a true = .ok t'
        rw [hinsert]
        rfl
    obtain ⟨t, hpre⟩ := hrun
    exact ⟨t, hpre, insertAll_seek hpre (readsInside_iff.mpr (hreads pre t hprefix hpre))⟩

/-- Two keys with the same characters; the stride of the second is a multiple of the size of the
settings' table, before it grows and after. -/
theorem insert_refused : ¬∀ (numEntries : ℤ) (ops : List (CString × String)),
    (∀ a ∈ ops, a.1.Ascii) → (ops.map Prod.fst).dedup.length < HASH_MAXSIZE →
    ∀ key : CString, key.Ascii → KeepsKey numEntries ops key := by
  intro h
  obtain ⟨t, ht, _⟩ := h 256 [(⟨[97, 112, 101], by decide⟩, "1"), (⟨[112, 101, 97], by decide⟩, "2")]
    (by decide) (by decide) ⟨[97, 112, 101], by decide⟩ (by decide) _ List.prefix_rfl
  have hfull : (insertAll 256 [((⟨[97, 112, 101], by decide⟩ : CString), "1"),
      (⟨[112, 101, 97], by decide⟩, "2")]).toOption.isNone = true := by decide +kernel
  rw [ht] at hfull
  cases hfull

end Run

end HashTable

end S3Dhcpd
