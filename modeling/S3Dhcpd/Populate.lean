import Mathlib.Data.List.Pairwise
import S3Dhcpd.AllocatorSteps

/-! `prepare_databases`: the leases of earlier runs are kept, and every address of a dynamic range
gets a row. -/
namespace S3Dhcpd
open KeyedTable

/-- `values ('', ?, 0, 0, '-')` -/
def freshRow (ip : IPAddress) : Lease := ⟨"", ip.s_addr, 0, 0, "-"⟩

/-- `for (uint32_t new_ip = start_range; new_ip < end_range; ++new_ip)` -/
def hostParts (start_range end_range : U32) : List U32 :=
  (List.range' start_range.toNat (end_range.toNat-start_range.toNat)).map (BitVec.ofNat 32)

def rangeRows (sub : Subnet) : List Lease :=
  let start_range := ipIsolateAddr sub.netmask.u_addr sub.range_start.u_addr
  let end_range := ipIsolateAddr sub.netmask.u_addr sub.range_end.u_addr
  if !sub.hasDynamicRange then []
  else (hostParts start_range end_range).map fun new_ip => freshRow (sub.composeIp new_ip)

def populate (nets : Subnets) (T : Leases) : Leases :=
  nets.subnets.foldl (fun T sub => (rangeRows sub).foldl Table.insertIgnore T) T

/-- The populated table, and the static addresses that the packet filter is told to admit. -/
def prepareDatabases (cfg : Config) (scan : Scan Lease) (T : Leases) : Leases × List Effect :=
  let T' := populate cfg.nets T
  (T', if cfg.pf_enabled then
    (scan.visit (T'.rows.filter (·.auth_info = "static"))).map fun row => .pfAdd (ipS2u row.ip)
  else [])

/-- The addresses that the dynamic ranges span. -/
def Pool (nets : Subnets) (a : U32) : Prop :=
  ∃ sub ∈ nets.subnets, sub.hasDynamicRange = true ∧
    InRange sub.range_start.u_addr sub.range_end.u_addr a

/-- Every netmask is a prefix. -/
def PrefixNets (nets : Subnets) : Prop := ∀ sub ∈ nets.subnets, PrefixMask sub.netmask.u_addr

/-- No address lies in two subnets. -/
def DisjointNets (nets : Subnets) : Prop :=
  nets.subnets.Pairwise fun sub sub' => ∀ ip, ¬(sub.myaddress ip = true ∧ sub'.myaddress ip = true)

theorem mem_hostParts {start_range end_range x : U32} : x ∈ hostParts start_range end_range ↔
    start_range.toNat ≤ x.toNat ∧ x.toNat < end_range.toNat := by
  rw [hostParts, List.mem_map]
  have hend := end_range.isLt
  constructor
  · rintro ⟨n, hn, rfl⟩
    have hn := List.mem_range'_1.mp hn
    rw [BitVec.toNat_ofNat, Nat.mod_eq_of_lt (by omega)]
    omega
  · rintro ⟨hlo, hhi⟩
    exact ⟨x.toNat, List.mem_range'_1.mpr ⟨hlo, by omega⟩, by simp⟩

theorem mem_rangeRows {sub : Subnet} (hmask : PrefixMask sub.netmask.u_addr)
    (hrange : sub.RangeInside) {row : Lease} : row ∈ rangeRows sub ↔
      sub.hasDynamicRange = true ∧ ∃ a, InRange sub.range_start.u_addr sub.range_end.u_addr a ∧
        row = freshRow (.ofU32 a) := by
  cases hdyn : sub.hasDynamicRange with
  | false => simp [rangeRows, hdyn]
  | true =>
    obtain ⟨hstart, hend⟩ := hrange hdyn
    simp only [rangeRows, hdyn, Bool.not_true, Bool.false_eq_true, ↓reduceIte, List.mem_map,
      mem_hostParts, true_and]
    constructor
    · rintro ⟨x, ⟨hlo, hhi⟩, rfl⟩
      exact ⟨_, (compose_range hmask hstart hend _).mp ⟨x, hlo, hhi, rfl⟩, rfl⟩
    · -- every address of the range is composed from one host part
      rintro ⟨a, ha, rfl⟩
      obtain ⟨x, hlo, hhi, rfl⟩ := (compose_range hmask hstart hend a).mpr ha
      exact ⟨x, ⟨hlo, hhi⟩, rfl⟩

theorem freshRow_injOn : Set.InjOn Lease.ip (Set.range freshRow) := by
  rintro _ ⟨ip, rfl⟩ _ ⟨ip', rfl⟩ h
  simp only [freshRow] at h ⊢
  rw [h]

theorem rangeRows_fresh {sub : Subnet} {row : Lease} (h : row ∈ rangeRows sub) :
    ∃ a, row = freshRow (.ofU32 a) := by
  simp only [rangeRows] at h
  split_ifs at h
  · cases h
  · obtain ⟨x, _, rfl⟩ := List.mem_map.mp h
    exact ⟨_, rfl⟩

theorem mem_populate_old {nets : Subnets} {T : Leases} {row : Lease} :
    row ∈ (populate nets T).rows ↔ row ∈ T.rows ∨
      ((∃ sub ∈ nets.subnets, row ∈ rangeRows sub) ∧ T.row? row.ip = none) := by
  have hfresh : ∀ r ∈ nets.subnets.flatMap rangeRows, r ∈ Set.range freshRow := by
    intro r hr
    obtain ⟨sub, _, hr⟩ := List.mem_flatMap.mp hr
    obtain ⟨a, rfl⟩ := rangeRows_fresh hr
    exact ⟨_, rfl⟩
  rw [populate, ← List.foldl_flatMap, Table.mem_insertNew freshRow_injOn hfresh, List.mem_flatMap]

theorem mem_populate {nets : Subnets} {row : Lease} :
    row ∈ (populate nets Table.empty).rows ↔ ∃ sub ∈ nets.subnets, row ∈ rangeRows sub := by
  rw [mem_populate_old]
  refine ⟨?_, fun h => Or.inr ⟨h, rfl⟩⟩
  rintro (h | h)
  · exact absurd h List.not_mem_nil
  · exact h.1

theorem populate_fresh {nets : Subnets} {row : Lease} (h : row ∈ (populate nets Table.empty).rows) :
    ∃ a, row = freshRow (.ofU32 a) := by
  obtain ⟨sub, _, hrow⟩ := mem_populate.mp h
  exact rangeRows_fresh hrow

/-- An empty database is populated with one free row for each address of the pool. -/
theorem mem_populate_pool {nets : Subnets} (hmask : PrefixNets nets) {row : Lease} :
    row ∈ (populate nets Table.empty).rows ↔ ∃ a, Pool nets a ∧ row = freshRow (.ofU32 a) := by
  rw [mem_populate]
  constructor
  · rintro ⟨sub, hsub, hrow⟩
    obtain ⟨hdyn, a, ha, rfl⟩ := (mem_rangeRows (hmask sub hsub) (nets.ranges sub hsub)).mp hrow
    exact ⟨a, ⟨sub, hsub, hdyn, ha⟩, rfl⟩
  · rintro ⟨a, ⟨sub, hsub, hdyn, ha⟩, rfl⟩
    exact ⟨sub, hsub, (mem_rangeRows (hmask sub hsub) (nets.ranges sub hsub)).mpr ⟨hdyn, a, ha, rfl⟩⟩

theorem populate_canonical (nets : Subnets) : Canonical (populate nets Table.empty) := by
  intro row hrow
  obtain ⟨a, rfl⟩ := populate_fresh hrow
  rw [canonicalQuad_iff, freshRow, IPAddress.ofU32, ipS2u_ipU2s]

theorem pool_mysubnet {nets : Subnets} (hmask : PrefixNets nets) (hdis : DisjointNets nets) {a : U32}
    (ha : Pool nets a) {ip : IPAddress} (hip : ip.u_addr = a) :
    ∃ sub, nets.mysubnet ip = some sub ∧ sub.hasDynamicRange = true := by
  obtain ⟨sub, hsub, hdyn, hrange⟩ := ha
  obtain ⟨hstart, hend⟩ := nets.ranges sub hsub hdyn
  have hin : sub.myaddress ip = true := by
    rw [Subnet.myaddress, hip]
    exact inRange_inSubnet (hmask sub hsub) hstart hend hrange
  obtain ⟨sub', hfound⟩ := Option.isSome_iff_exists.mp
    (List.find?_isSome.mpr ⟨sub, hsub, hin⟩ : (nets.mysubnet ip).isSome)
  refine ⟨sub', hfound, ?_⟩
  have hsub' := List.mem_of_find?_eq_some hfound
  have hin' : sub'.myaddress ip = true :=
    List.find?_some (p := fun s : Subnet => s.myaddress ip) hfound
  -- the first match may be another subnet, but no address is in two
  by_cases hne : sub' = sub
  · rw [hne, hdyn]
  · have hsymm : Std.Symm fun s s' : Subnet =>
        ∀ ip, ¬(s.myaddress ip = true ∧ s'.myaddress ip = true) :=
      ⟨fun _ _ h ip hip => h ip hip.symm⟩
    exact absurd ⟨hin', hin⟩ (List.Pairwise.forall hdis hsub' hsub hne ip)

/-- The example configuration's table, before any client. -/
def exampleTable : Leases := populate exampleNets .empty

theorem exampleNets_prefix : PrefixNets exampleNets := by
  intro sub hsub
  rw [List.mem_singleton.mp hsub]
  exact ⟨8, by decide, by decide⟩

theorem exampleNets_disjoint : DisjointNets exampleNets := List.pairwise_singleton _ _

end S3Dhcpd
