import Mathlib.Data.List.MinMax
import Mathlib.Data.List.Nodup
import Mathlib.Data.List.Sort
import Mathlib.Data.Set.Function

/-! Tables of rows under a unique key, read by queries that promise no row order. -/
namespace KeyedTable

/-- The order in which a query visits the rows it matches: some permutation of them. -/
structure Scan (ρ : Type*) where
  visit : List ρ → List ρ
  perm : ∀ rows, (visit rows).Perm rows

namespace Scan
variable {ρ τ : Type*} [LinearOrder τ]

/-- Rows are visited in the order in which they were inserted. -/
def rowid : Scan ρ := ⟨id, fun _ => .refl _⟩

/-- `select … where p limit 1`. -/
def first (s : Scan ρ) (p : ρ → Bool) (rows : List ρ) : Option ρ :=
  (s.visit (rows.filter p)).head?

/-- `select … where p order by rank limit 1`; the visit decides between equal ranks. -/
def least (s : Scan ρ) (p : ρ → Bool) (rank : ρ → τ) (rows : List ρ) : Option ρ :=
  (s.visit (rows.filter p)).argmin rank

theorem mem_visit (s : Scan ρ) (rows : List ρ) (r : ρ) : r ∈ s.visit rows ↔ r ∈ rows :=
  (s.perm rows).mem_iff

theorem first_some {s : Scan ρ} {p : ρ → Bool} {rows : List ρ} {r : ρ}
    (h : s.first p rows = some r) : r ∈ rows ∧ p r = true := by
  have hr : r ∈ s.visit (rows.filter p) := List.mem_of_mem_head? h
  exact List.mem_filter.mp ((s.mem_visit _ r).mp hr)

theorem first_none {s : Scan ρ} {p : ρ → Bool} {rows : List ρ} :
    s.first p rows = none ↔ ∀ r ∈ rows, p r = false := by
  have hlen := (s.perm (rows.filter p)).length_eq
  rw [first, List.head?_eq_none_iff, ← List.length_eq_zero_iff, hlen, List.length_eq_zero_iff,
    List.filter_eq_nil_iff]
  simp only [Bool.not_eq_true]

theorem least_some {s : Scan ρ} {p : ρ → Bool} {rank : ρ → τ} {rows : List ρ} {r : ρ}
    (h : s.least p rank rows = some r) :
    r ∈ rows ∧ p r = true ∧ ∀ r' ∈ rows, p r' = true → rank r ≤ rank r' := by
  have hr := (s.mem_visit _ r).mp (List.argmin_mem h)
  refine ⟨(List.mem_filter.mp hr).1, (List.mem_filter.mp hr).2, ?_⟩
  intro r' hr' hp
  exact List.le_of_mem_argmin ((s.mem_visit _ r').mpr (List.mem_filter.mpr ⟨hr', hp⟩)) h

theorem least_none {s : Scan ρ} {p : ρ → Bool} {rank : ρ → τ} {rows : List ρ} :
    s.least p rank rows = none ↔ ∀ r ∈ rows, p r = false := by
  rw [least, List.argmin_eq_none]
  have h : s.first p rows = none ↔ _ := first_none
  rwa [first, List.head?_eq_none_iff] at h

/-- The scan that visits `r` before every other row. -/
def favour [DecidableEq ρ] (r : ρ) : Scan ρ where
  visit rows := if r ∈ rows then r :: rows.erase r else rows
  perm rows := by
    split_ifs with h
    · exact (List.perm_cons_erase h).symm
    · exact .refl _

/-- Nothing but the filter constrains `limit 1`: each matching row is the answer of some scan. -/
theorem favour_first [DecidableEq ρ] {p : ρ → Bool} {rows : List ρ} {r : ρ}
    (hr : r ∈ rows) (hp : p r = true) : (favour r).first p rows = some r := by
  have hf : r ∈ rows.filter p := List.mem_filter.mpr ⟨hr, hp⟩
  simp only [first, favour, if_pos hf, List.head?_cons]

/-- Each matching row of least rank is the answer of some scan. -/
theorem favour_least [DecidableEq ρ] {p : ρ → Bool} {rank : ρ → τ} {rows : List ρ} {r : ρ}
    (hr : r ∈ rows) (hp : p r = true) (hmin : ∀ r' ∈ rows, p r' = true → rank r ≤ rank r') :
    (favour r).least p rank rows = some r := by
  have hf : r ∈ rows.filter p := List.mem_filter.mpr ⟨hr, hp⟩
  simp only [least, favour, if_pos hf, List.argmin_cons]
  cases hc : ((rows.filter p).erase r).argmin rank with
  | none => rfl
  | some c =>
    have hm := List.mem_filter.mp (List.mem_of_mem_erase (List.argmin_mem hc))
    exact if_neg (hmin c hm.1 hm.2).not_gt

end Scan

/-- Rows whose keys are pairwise distinct: a table under a unique index. -/
structure Table {κ : Type*} (ρ : Type*) (key : ρ → κ) where
  rows : List ρ
  unique : (rows.map key).Nodup

namespace Table
variable {κ ρ : Type*} {key : ρ → κ}

@[ext] theorem ext {T T' : Table ρ key} (h : T.rows = T'.rows) : T = T' := by
  cases T
  cases T'
  cases h
  rfl

def empty : Table ρ key := ⟨[], List.nodup_nil⟩

theorem row_unique (T : Table ρ key) {r r' : ρ} (hr : r ∈ T.rows) (hr' : r' ∈ T.rows)
    (hk : key r = key r') : r = r' := List.inj_on_of_nodup_map T.unique hr hr' hk

theorem rows_nodup (T : Table ρ key) : T.rows.Nodup := List.Nodup.of_map key T.unique

variable [DecidableEq κ]

/-- The row under a key, if there is one: the table as a finite map. -/
def row? (T : Table ρ key) (k : κ) : Option ρ := T.rows.find? (fun r => key r = k)

/-- How many rows a statement keyed by `k` touches. -/
def changes (T : Table ρ key) (k : κ) : ℕ := T.rows.countP (fun r => key r = k)

/-- `update … where key = k`. -/
def update (T : Table ρ key) (k : κ) (f : ρ → ρ) (hf : ∀ r, key (f r) = key r) : Table ρ key where
  rows := T.rows.map (fun r => if key r = k then f r else r)
  unique := by
    have hk : key ∘ (fun r => if key r = k then f r else r) = key := by
      funext r
      simp only [Function.comp_apply]
      split_ifs
      · exact hf r
      · rfl
    rw [List.map_map, hk]
    exact T.unique

/-- The row takes the place of the one under its key, or is appended. -/
def put (T : Table ρ key) (r : ρ) : Table ρ key where
  rows := if key r ∈ T.rows.map key then T.rows.map (fun r' => if key r' = key r then r else r')
    else T.rows ++ [r]
  unique := by
    split_ifs with h
    · have hk : key ∘ (fun r' => if key r' = key r then r else r') = key := by
        funext r'
        simp only [Function.comp_apply]
        split_ifs with heq
        · exact heq.symm
        · rfl
      rw [List.map_map, hk]
      exact T.unique
    · rw [List.map_append, List.map_singleton]
      exact List.Nodup.append T.unique (List.nodup_singleton _) (List.disjoint_singleton.mpr h)

/-- `insert`, refused when the key is taken. -/
def insert (T : Table ρ key) (r : ρ) : Option (Table ρ key) :=
  if h : key r ∈ T.rows.map key then none
  else some ⟨T.rows ++ [r], by
    rw [List.map_append, List.map_singleton]
    exact List.Nodup.append T.unique (List.nodup_singleton _)
      (List.disjoint_singleton.mpr h)⟩

/-- `insert`, with a violation of the unique index ignored. -/
def insertIgnore (T : Table ρ key) (r : ρ) : Table ρ key := (T.insert r).getD T

theorem row?_eq_some {T : Table ρ key} {k : κ} {r : ρ} :
    T.row? k = some r ↔ r ∈ T.rows ∧ key r = k := by
  have hfound {r' : ρ} (h : T.row? k = some r') : r' ∈ T.rows ∧ key r' = k :=
    ⟨List.mem_of_find?_eq_some h, by simpa only [decide_eq_true_eq] using List.find?_some h⟩
  refine ⟨hfound, fun ⟨hr, hk⟩ => ?_⟩
  have hsome : (T.row? k).isSome := List.find?_isSome.mpr ⟨r, hr, decide_eq_true hk⟩
  obtain ⟨r', hr'⟩ := Option.isSome_iff_exists.mp hsome
  rw [hr', T.row_unique (hfound hr').1 hr ((hfound hr').2.trans hk.symm)]

theorem row?_eq_none {T : Table ρ key} {k : κ} : T.row? k = none ↔ ∀ r ∈ T.rows, key r ≠ k := by
  simp only [row?, List.find?_eq_none, decide_eq_true_eq, ne_eq]

theorem row?_mem {T : Table ρ key} {r : ρ} (hr : r ∈ T.rows) : T.row? (key r) = some r :=
  row?_eq_some.mpr ⟨hr, rfl⟩

theorem mem_iff_row? {T : Table ρ key} {r : ρ} : r ∈ T.rows ↔ T.row? (key r) = some r :=
  ⟨row?_mem, fun h => (row?_eq_some.mp h).1⟩

/-- A statement keyed by `k` touches one row or none. -/
theorem changes_eq_one {T : Table ρ key} {k : κ} : T.changes k = 1 ↔ ∃ r, T.row? k = some r := by
  have hle : T.changes k ≤ 1 := by
    have h := List.nodup_iff_count_le_one.mp T.unique k
    rwa [List.count_eq_countP, List.countP_map] at h
  have hpos : 0 < T.changes k ↔ ∃ r, T.row? k = some r := by
    simp only [changes, List.countP_pos_iff, decide_eq_true_eq, row?_eq_some]
  rw [← hpos]
  omega

theorem mem_update {T : Table ρ key} {k : κ} {f : ρ → ρ} {hf : ∀ r, key (f r) = key r} {r' : ρ} :
    r' ∈ (T.update k f hf).rows ↔
      (∃ r, T.row? k = some r ∧ r' = f r) ∨ (r' ∈ T.rows ∧ key r' ≠ k) := by
  simp only [update, List.mem_map, row?_eq_some]
  constructor
  · rintro ⟨r, hr, rfl⟩
    by_cases hk : key r = k
    · exact Or.inl ⟨r, ⟨hr, hk⟩, if_pos hk⟩
    · rw [if_neg hk]
      exact Or.inr ⟨hr, hk⟩
  · rintro (⟨r, ⟨hr, hk⟩, rfl⟩ | ⟨hr, hk⟩)
    · exact ⟨r, hr, if_pos hk⟩
    · exact ⟨r', hr, if_neg hk⟩

theorem row?_update (T : Table ρ key) (k : κ) (f : ρ → ρ) (hf : ∀ r, key (f r) = key r) (k' : κ) :
    (T.update k f hf).row? k' = if k' = k then (T.row? k).map f else T.row? k' := by
  apply Option.ext
  intro r'
  rw [row?_eq_some, mem_update]
  split_ifs with hk
  · subst hk
    rw [Option.map_eq_some_iff]
    constructor
    · rintro ⟨⟨r, hr, rfl⟩ | ⟨_, hne⟩, hkey⟩
      · exact ⟨r, hr, rfl⟩
      · exact absurd hkey hne
    · rintro ⟨r, hr, rfl⟩
      exact ⟨Or.inl ⟨r, hr, rfl⟩, (hf r).trans (row?_eq_some.mp hr).2⟩
  · rw [row?_eq_some]
    constructor
    · rintro ⟨⟨r, hr, rfl⟩ | ⟨hmem, _⟩, hkey⟩
      · exact absurd (hkey.symm.trans ((hf r).trans (row?_eq_some.mp hr).2)) hk
      · exact ⟨hmem, hkey⟩
    · rintro ⟨hmem, hkey⟩
      exact ⟨Or.inr ⟨hmem, fun h => hk (hkey.symm.trans h)⟩, hkey⟩

/-- An update after which a row does not match takes just this row from the matching ones. -/
theorem perm_filter_update {T : Table ρ key} {p : ρ → Bool} {r : ρ} (hr : r ∈ T.rows)
    (hp : p r = true) {f : ρ → ρ} (hf : ∀ r, key (f r) = key r) (hpf : p (f r) = false) :
    (T.rows.filter p).Perm (r :: (T.update (key r) f hf).rows.filter p) := by
  have hrow : T.row? (key r) = some r := row?_mem hr
  have hgone {x : ρ} (hx : x ∈ (T.update (key r) f hf).rows) (hpx : p x = true) :
      x ∈ T.rows ∧ key x ≠ key r := by
    rcases mem_update.mp hx with ⟨y, hy, rfl⟩ | h
    · rw [hrow, Option.some.injEq] at hy
      rw [← hy, hpf] at hpx
      cases hpx
    · exact h
  -- neither side lists a row twice, so it is enough to compare members
  refine (List.perm_ext_iff_of_nodup (T.rows_nodup.filter p) ?_).mpr ?_
  · refine List.nodup_cons.mpr ⟨?_, (rows_nodup _).filter p⟩
    intro hmem
    exact (hgone (List.mem_filter.mp hmem).1 hp).2 rfl
  · intro x
    rw [List.mem_cons, List.mem_filter, List.mem_filter]
    constructor
    · rintro ⟨hx, hpx⟩
      by_cases hk : key x = key r
      · exact Or.inl (T.row_unique hx hr hk)
      · exact Or.inr ⟨mem_update.mpr (Or.inr ⟨hx, hk⟩), hpx⟩
    · rintro (rfl | ⟨hx, hpx⟩)
      · exact ⟨hr, hp⟩
      · exact ⟨(hgone hx hpx).1, hpx⟩

theorem update_absent {T : Table ρ key} {k : κ} (f : ρ → ρ) (hf : ∀ r, key (f r) = key r)
    (h : T.row? k = none) : T.update k f hf = T := by
  apply Table.ext
  conv_rhs => rw [← List.map_id T.rows]
  apply List.map_congr_left
  intro r hr
  exact if_neg (row?_eq_none.mp h r hr)

section Write
variable {T T' : Table ρ key} {k : κ} {new : ρ}

theorem mem_write (hk : key new = k)
    (hrows : ∀ k', T'.row? k' = if k' = k then some new else T.row? k') {r : ρ} :
    r ∈ T'.rows ↔ r = new ∨ (r ∈ T.rows ∧ key r ≠ k) := by
  rw [mem_iff_row?, hrows]
  split_ifs with h
  · rw [Option.some.injEq]
    constructor
    · rintro rfl
      exact Or.inl rfl
    · rintro (rfl | ⟨_, hne⟩)
      · rfl
      · exact absurd h hne
  · rw [← mem_iff_row?]
    constructor
    · exact fun hr => Or.inr ⟨hr, h⟩
    · rintro (rfl | ⟨hr, _⟩)
      · exact absurd hk h
      · exact hr

theorem mem_write_ne (hrows : ∀ k', T'.row? k' = if k' = k then some new else T.row? k') {r : ρ}
    (hne : key r ≠ k) : r ∈ T'.rows ↔ r ∈ T.rows := by
  rw [mem_iff_row?, hrows, if_neg hne, ← mem_iff_row?]

end Write

theorem insert_absent {T : Table ρ key} {r : ρ} (h : T.row? (key r) = none) :
    ∃ T', T.insert r = some T' ∧ T'.rows = T.rows ++ [r] := by
  have hk : key r ∉ T.rows.map key := by
    rw [List.mem_map]
    rintro ⟨r', hr', hk⟩
    exact row?_eq_none.mp h r' hr' hk
  exact ⟨⟨T.rows ++ [r], _⟩, dif_neg hk, rfl⟩

theorem insert_some {T T' : Table ρ key} {r : ρ} (h : T.insert r = some T') :
    T'.rows = T.rows ++ [r] ∧ ∀ r' ∈ T.rows, key r' ≠ key r := by
  rw [insert] at h
  split_ifs at h with hk
  cases h
  exact ⟨rfl, fun r' hr' heq => hk (List.mem_map.mpr ⟨r', hr', heq⟩)⟩

theorem insertIgnore_rows (T : Table ρ key) (r : ρ) : (T.insertIgnore r).rows =
    T.rows ++ if T.row? (key r) = none then [r] else [] := by
  split_ifs with h
  · obtain ⟨T', hT', hrows⟩ := insert_absent h
    rw [insertIgnore, hT', Option.getD_some, hrows]
  · obtain ⟨r₀, hr₀⟩ := Option.ne_none_iff_exists'.mp h
    have hk : key r ∈ T.rows.map key := List.mem_map.mpr ⟨r₀, row?_eq_some.mp hr₀⟩
    rw [insertIgnore, insert, dif_pos hk, Option.getD_none, List.append_nil]

theorem mem_insertIgnore {T : Table ρ key} {r r' : ρ} :
    r' ∈ (T.insertIgnore r).rows ↔ r' ∈ T.rows ∨ (r' = r ∧ T.row? (key r) = none) := by
  rw [insertIgnore_rows, List.mem_append]
  split_ifs with h <;> simp [h]

theorem row?_insertIgnore_none {T : Table ρ key} {r : ρ} {k : κ} :
    (T.insertIgnore r).row? k = none ↔ T.row? k = none ∧ key r ≠ k := by
  simp only [row?_eq_none, mem_insertIgnore]
  constructor
  · intro h
    refine ⟨fun x hx => h x (Or.inl hx), ?_⟩
    rintro rfl
    exact h r (Or.inr ⟨rfl, fun x hx => h x (Or.inl hx)⟩) rfl
  · rintro ⟨hold, hr⟩ x (hx | ⟨rfl, _⟩)
    · exact hold x hx
    · exact hr

/-- Of rows that their keys tell apart those are inserted whose keys are not taken. -/
theorem mem_insertNew {S : Set ρ} (hS : S.InjOn key) {T : Table ρ key} {rows : List ρ}
    (hrows : ∀ r ∈ rows, r ∈ S) {r' : ρ} :
    r' ∈ (rows.foldl insertIgnore T).rows ↔
      r' ∈ T.rows ∨ (r' ∈ rows ∧ T.row? (key r') = none) := by
  induction rows generalizing T with
  | nil => simp
  | cons r rows ih =>
    rw [List.forall_mem_cons] at hrows
    rw [List.foldl_cons, ih hrows.2, mem_insertIgnore, row?_insertIgnore_none, List.mem_cons]
    constructor
    · rintro ((hx | ⟨rfl, hk⟩) | ⟨hx, hk, _⟩)
      · exact Or.inl hx
      · exact Or.inr ⟨Or.inl rfl, hk⟩
      · exact Or.inr ⟨Or.inr hx, hk⟩
    · rintro (hx | ⟨rfl | hx, hk⟩)
      · exact Or.inl (Or.inl hx)
      · exact Or.inl (Or.inr ⟨rfl, hk⟩)
      · -- a row that comes later under the same key is the same row
        by_cases hr : key r = key r'
        · have hsame : r = r' := hS hrows.1 (hrows.2 r' hx) hr
          exact Or.inl (Or.inr ⟨hsame.symm, hsame ▸ hk⟩)
        · exact Or.inr ⟨hx, hk, hr⟩

theorem insertAll_append (T : Table ρ key) (rows : List ρ) :
    T.rows <+: (rows.foldl insertIgnore T).rows := by
  induction rows generalizing T with
  | nil => exact List.prefix_rfl
  | cons r rows ih =>
    refine List.IsPrefix.trans ?_ (ih (T.insertIgnore r))
    rw [insertIgnore_rows]
    exact List.prefix_append _ _

theorem insertAll_taken {T : Table ρ key} {rows : List ρ}
    (h : ∀ r ∈ rows, T.row? (key r) ≠ none) : rows.foldl insertIgnore T = T := by
  induction rows with
  | nil => rfl
  | cons r rows ih =>
    rw [List.forall_mem_cons] at h
    have hsame : T.insertIgnore r = T := by
      apply Table.ext
      rw [insertIgnore_rows, if_neg h.1, List.append_nil]
    rw [List.foldl_cons, hsame, ih h.2]

theorem row?_append_new {T T' : Table ρ key} {r : ρ} (h : T'.rows = T.rows ++ [r]) (k : κ) :
    T'.row? k = if k = key r then some r else T.row? k := by
  apply Option.ext
  intro r'
  have hmem : r ∈ T'.rows := by simp [h]
  rw [row?_eq_some]
  -- under the key of `r` there is `r` alone, since keys are unique
  split_ifs with hk
  · subst hk
    rw [Option.some.injEq]
    constructor
    · rintro ⟨hr', hk⟩
      exact T'.row_unique hmem hr' hk.symm
    · rintro rfl
      exact ⟨hmem, rfl⟩
  · rw [row?_eq_some, h, List.mem_append, List.mem_singleton]
    constructor
    · rintro ⟨hr' | rfl, hkey⟩
      · exact ⟨hr', hkey⟩
      · exact absurd hkey.symm hk
    · rintro ⟨hr', hkey⟩
      exact ⟨Or.inl hr', hkey⟩

theorem mem_put {T : Table ρ key} {r r' : ρ} :
    r' ∈ (T.put r).rows ↔ r' = r ∨ (r' ∈ T.rows ∧ key r' ≠ key r) := by
  rw [put]
  split_ifs with h
  · rw [List.mem_map]
    constructor
    · rintro ⟨r₀, hr₀, rfl⟩
      split_ifs with hk
      · exact Or.inl rfl
      · exact Or.inr ⟨hr₀, hk⟩
    · rintro (rfl | ⟨hr', hk⟩)
      · obtain ⟨r₀, hr₀, hk⟩ := List.mem_map.mp h
        exact ⟨r₀, hr₀, if_pos hk⟩
      · exact ⟨r', hr', if_neg hk⟩
  · rw [List.mem_append, List.mem_singleton, or_comm]
    refine or_congr Iff.rfl ⟨fun hr' => ⟨hr', fun hk => h ?_⟩, And.left⟩
    exact List.mem_map.mpr ⟨r', hr', hk⟩

theorem row?_put (T : Table ρ key) (r : ρ) (k : κ) :
    (T.put r).row? k = if k = key r then some r else T.row? k := by
  apply Option.ext
  intro r'
  rw [row?_eq_some, mem_put]
  split_ifs with hk
  · rw [Option.some.injEq]
    constructor
    · rintro ⟨rfl | ⟨_, hne⟩, hkey⟩
      · rfl
      · exact absurd (hkey.trans hk) hne
    · rintro rfl
      exact ⟨Or.inl rfl, hk.symm⟩
  · rw [row?_eq_some]
    constructor
    · rintro ⟨rfl | ⟨hr', _⟩, hkey⟩
      · exact absurd hkey.symm hk
      · exact ⟨hr', hkey⟩
    · rintro ⟨hr', hkey⟩
      exact ⟨Or.inr ⟨hr', fun h => hk (hkey.symm.trans h)⟩, hkey⟩

end Table

end KeyedTable
