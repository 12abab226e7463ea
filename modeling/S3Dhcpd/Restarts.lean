import Mathlib.Logic.Function.Iterate
import S3Dhcpd.Populate

/-! Restarts: what `prepare_databases` adds to the leases of earlier runs. -/
namespace S3Dhcpd
open KeyedTable

/-- `range_start <= a < range_end`, in big-endian order, for some subnet. -/
def Ranged (nets : Subnets) (a : U32) : Prop :=
  ∃ sub ∈ nets.subnets, InRange sub.range_start.u_addr sub.range_end.u_addr a

/-- A range that starts at 255.255.255.255, as an unset one does, is empty. -/
theorem inRange_dynamic {sub : Subnet} {a : U32}
    (h : InRange sub.range_start.u_addr sub.range_end.u_addr a) : sub.hasDynamicRange = true := by
  rw [Subnet.hasDynamicRange, bne_iff_ne]
  intro hstart
  obtain ⟨hlo, hhi⟩ := h
  rw [hstart] at hlo
  have hnone : hostOrder INADDR_NONE = 2^32-1 := by decide
  have hend := (ipSwapInt sub.range_end.u_addr).isLt
  simp only [hostOrder] at *
  omega

theorem ranged_rows {nets : Subnets} (hmask : PrefixNets nets) {row : Lease} :
    (∃ sub ∈ nets.subnets, row ∈ rangeRows sub) ↔ ∃ a, Ranged nets a ∧ row = freshRow (.ofU32 a) := by
  constructor
  · rintro ⟨sub, hsub, hrow⟩
    obtain ⟨_, a, ha, rfl⟩ := (mem_rangeRows (hmask sub hsub) (nets.ranges sub hsub)).mp hrow
    exact ⟨a, ⟨sub, hsub, ha⟩, rfl⟩
  · rintro ⟨a, ⟨sub, hsub, ha⟩, rfl⟩
    exact ⟨sub, hsub, (mem_rangeRows (hmask sub hsub) (nets.ranges sub hsub)).mpr
      ⟨inRange_dynamic ha, a, ha, rfl⟩⟩

theorem inRange_myaddress {nets : Subnets} (hmask : PrefixNets nets) {sub : Subnet}
    (hsub : sub ∈ nets.subnets) {a : U32}
    (ha : InRange sub.range_start.u_addr sub.range_end.u_addr a) :
    sub.myaddress (.ofU32 a) = true := by
  obtain ⟨hstart, hend⟩ := nets.ranges sub hsub (inRange_dynamic ha)
  exact inRange_inSubnet (hmask sub hsub) hstart hend ha

theorem Canonical.row?_none {T : Leases} (hT : Canonical T) {a : U32} :
    T.row? (ipU2s a) = none ↔ ∀ row ∈ T.rows, ipS2u row.ip ≠ a := by
  rw [Table.row?_eq_none]
  apply forall₂_congr
  intro row hrow
  apply not_congr
  rw [← hT.row_text hrow]
  constructor
  · exact fun h => ipU2s_injective (by rwa [ipS2u_ipU2s])
  · rintro rfl
    rw [ipS2u_ipU2s]

section Populate
variable {nets : Subnets} {T : Leases}

theorem populate_append (nets : Subnets) (T : Leases) : T.rows <+: (populate nets T).rows := by
  rw [populate, ← List.foldl_flatMap]
  exact Table.insertAll_append T _

theorem mem_populate_ranged (hmask : PrefixNets nets) (hT : Canonical T) {row : Lease} :
    row ∈ (populate nets T).rows ↔ row ∈ T.rows ∨
      ∃ a, (Ranged nets a ∧ ∀ row' ∈ T.rows, ipS2u row'.ip ≠ a) ∧ row = freshRow (.ofU32 a) := by
  rw [mem_populate_old, ranged_rows hmask]
  refine or_congr_right ⟨?_, ?_⟩
  · rintro ⟨⟨a, ha, rfl⟩, hnone⟩
    exact ⟨a, ⟨ha, hT.row?_none.mp hnone⟩, rfl⟩
  · rintro ⟨a, ⟨ha, habsent⟩, rfl⟩
    exact ⟨⟨a, ha, rfl⟩, hT.row?_none.mpr habsent⟩

/-- The rows behind the old ones are new, each for one address. -/
theorem populate_added (hmask : PrefixNets nets) (hT : Canonical T) : ∃ addrs : List U32,
    addrs.Nodup ∧ (∀ a, a ∈ addrs ↔ Ranged nets a ∧ ∀ row ∈ T.rows, ipS2u row.ip ≠ a) ∧
      (populate nets T).rows = T.rows ++ addrs.map fun a => freshRow (.ofU32 a) := by
  obtain ⟨added, hadded⟩ := populate_append nets T
  have hnodup := (populate nets T).rows_nodup
  rw [← hadded] at hnodup
  obtain ⟨_, hnodup', hdisjoint⟩ := List.nodup_append.mp hnodup
  have hmem {row : Lease} : row ∈ added ↔ ∃ a, (Ranged nets a ∧
      ∀ row' ∈ T.rows, ipS2u row'.ip ≠ a) ∧ row = freshRow (.ofU32 a) := by
    have hall := @mem_populate_ranged nets T hmask hT row
    rw [← hadded, List.mem_append] at hall
    constructor
    · intro hrow
      rcases hall.mp (Or.inr hrow) with hold | hnew
      · exact absurd rfl (hdisjoint row hold row hrow)
      · exact hnew
    · rintro ⟨a, ⟨ha, habsent⟩, rfl⟩
      apply (hall.mpr (Or.inr ⟨a, ⟨ha, habsent⟩, rfl⟩)).resolve_left
      intro hold
      exact habsent _ hold (ipS2u_ipU2s a)
  -- a new row is known by its address
  have hrows : (added.map fun row => ipS2u row.ip).map (fun a => freshRow (.ofU32 a)) = added := by
    rw [List.map_map]
    conv_rhs => rw [← List.map_id added]
    apply List.map_congr_left
    intro row hrow
    obtain ⟨a, _, rfl⟩ := hmem.mp hrow
    simp only [Function.comp_apply, freshRow, IPAddress.ofU32, ipS2u_ipU2s, id_eq]
  refine ⟨added.map fun row => ipS2u row.ip, ?_, ?_, ?_⟩
  · apply List.Nodup.of_map fun a => freshRow (.ofU32 a)
    rwa [hrows]
  · intro a
    rw [List.mem_map]
    constructor
    · rintro ⟨row, hrow, rfl⟩
      obtain ⟨a, ha, rfl⟩ := hmem.mp hrow
      rwa [freshRow, IPAddress.ofU32, ipS2u_ipU2s]
    · intro ha
      exact ⟨freshRow (.ofU32 a), hmem.mpr ⟨a, ha, rfl⟩, ipS2u_ipU2s a⟩
  · rw [hrows, hadded]

theorem populate_again (nets : Subnets) (T : Leases) :
    populate nets (populate nets T) = populate nets T := by
  conv_lhs => rw [populate, ← List.foldl_flatMap]
  apply Table.insertAll_taken
  intro row hrow hnone
  have hold : T.row? row.ip = none := by
    rw [Table.row?_eq_none] at hnone ⊢
    exact fun r hr => hnone r ((populate_append nets T).subset hr)
  have hmem : row ∈ (populate nets T).rows :=
    mem_populate_old.mpr (Or.inr ⟨List.mem_flatMap.mp hrow, hold⟩)
  exact Table.row?_eq_none.mp hnone row hmem rfl

/-- A restart keeps the leases and adds one free row for every address of the ranges that has
none; more restarts add nothing. -/
theorem restart_populates (hmask : PrefixNets nets) (hT : Canonical T) :
    (∃ addrs : List U32, addrs.Nodup ∧
      (∀ a, a ∈ addrs ↔ Ranged nets a ∧ ∀ row ∈ T.rows, ipS2u row.ip ≠ a) ∧
      (populate nets T).rows = T.rows ++ addrs.map fun a => ⟨"", ipU2s a, 0, 0, "-"⟩) ∧
    (∀ sub ∈ nets.subnets, ∀ a, InRange sub.range_start.u_addr sub.range_end.u_addr a →
      sub.myaddress (.ofU32 a) = true) ∧
    ∀ n, (populate nets)^[n+1] T = populate nets T := by
  refine ⟨populate_added hmask hT, fun sub hsub a ha => inRange_myaddress hmask hsub ha, ?_⟩
  intro n
  induction n with
  | zero => rfl
  | succ n ih => rw [Function.iterate_succ_apply', ih, populate_again]

end Populate

/-- The example's range, over a table in which its first address is leased already. -/
theorem restart_populates_example : (populate exampleNets
    ⟨[⟨macU2s 1, "10.20.11.50", 1000, 1180, "new"⟩], by decide⟩).rows =
      [⟨macU2s 1, "10.20.11.50", 1000, 1180, "new"⟩, ⟨"", "10.20.11.51", 0, 0, "-"⟩] := by
  have hcanonical : Canonical ⟨[⟨macU2s 1, "10.20.11.50", 1000, 1180, "new"⟩], by decide⟩ := by
    intro row hrow
    rw [List.mem_singleton.mp hrow, canonicalQuad_iff]
    decide
  have h := (restart_populates exampleNets_prefix hcanonical).2.2 1
  rw [← h]
  decide

end S3Dhcpd
