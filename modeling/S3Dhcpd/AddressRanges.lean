import Mathlib.Data.Nat.Bitwise
import S3Dhcpd.Tools

/-! Addresses in host order: what the masks and swaps of `tools.h` compute when the netmask is a
prefix. -/
namespace S3Dhcpd

@[simp] theorem ipSwapInt_ipSwapInt (a : U32) : ipSwapInt (ipSwapInt a) = a := by
  apply byte_ext 4 (by decide)
  intro m hm
  interval_cases m <;> simp [ipSwapInt, uint32]

theorem ipSwapInt_injective : Function.Injective ipSwapInt :=
  Function.LeftInverse.injective ipSwapInt_ipSwapInt

/-- An address as the number that its text spells. -/
def hostOrder (a : U32) : ℕ := (ipSwapInt a).toNat

theorem hostOrder_injective : Function.Injective hostOrder :=
  fun _ _ h => ipSwapInt_injective (BitVec.eq_of_toNat_eq h)

/-- A netmask of leading ones that leaves `k` host bits. -/
def HostBits (mask : U32) (k : ℕ) : Prop := k ≤ 32 ∧ ipSwapInt mask = BitVec.allOnes 32 <<< k

def PrefixMask (mask : U32) : Prop := ∃ k, HostBits mask k

/-- `range_start <= a < range_end`, as big-endian numbers. -/
def InRange (range_start range_end a : U32) : Prop :=
  hostOrder range_start ≤ hostOrder a ∧ hostOrder a < hostOrder range_end

theorem toNat_and_host (v : U32) (k : ℕ) :
    (v &&& ~~~(BitVec.allOnes 32 <<< k)).toNat = v.toNat%2^k := by
  apply Nat.eq_of_testBit_eq
  intro i
  rw [Nat.testBit_mod_two_pow, BitVec.testBit_toNat, BitVec.testBit_toNat, BitVec.getLsbD_and,
    BitVec.getLsbD_not, BitVec.getLsbD_shiftLeft, BitVec.getLsbD_allOnes]
  by_cases hv : v.getLsbD i
  · have hi : i < 32 := BitVec.lt_of_getLsbD hv
    by_cases hk : i < k <;> simp [hv, hi, hk]
    omega
  · simp [hv]

theorem toNat_and_network (v : U32) (k : ℕ) :
    (v &&& BitVec.allOnes 32 <<< k).toNat = 2^k*(v.toNat/2^k) := by
  apply Nat.eq_of_testBit_eq
  intro i
  rw [Nat.testBit_two_pow_mul, Nat.testBit_div_two_pow, BitVec.testBit_toNat, BitVec.testBit_toNat,
    BitVec.getLsbD_and, BitVec.getLsbD_shiftLeft, BitVec.getLsbD_allOnes]
  by_cases hk : k ≤ i
  · by_cases hv : v.getLsbD i
    · have hi : i < 32 := BitVec.lt_of_getLsbD hv
      simp [hv, hi, hk, show i-k+k = i by omega, show i-k < 32 by omega]
    · simp [hv, show i-k+k = i by omega]
  · simp [hk, show i < k by omega]

theorem hostOrder_isolate {mask : U32} {k : ℕ} (hm : HostBits mask k) (a : U32) :
    (ipIsolateAddr mask a).toNat = hostOrder a%2^k := by
  rw [ipIsolateAddr, hm.2, toNat_and_host, hostOrder]

theorem ipInSubnet_iff {mask : U32} {k : ℕ} (hm : HostBits mask k) (subnet a : U32) :
    ipInSubnet subnet mask a = true ↔ hostOrder subnet = 2^k*(hostOrder a/2^k) := by
  rw [ipInSubnet, beq_iff_eq, hm.2, hostOrder, hostOrder, ← toNat_and_network, BitVec.toNat_inj,
    eq_comm]

/-- A host part below the network part is added to it by the `or` of `ip_compose_ip`. -/
theorem hostOrder_compose {k q : ℕ} {subnet x : U32} (hs : hostOrder subnet = 2^k*q)
    (hx : x.toNat < 2^k) : hostOrder (ipComposeIp subnet x) = hostOrder subnet+x.toNat := by
  rw [hostOrder, ipComposeIp, ipSwapInt_ipSwapInt, BitVec.toNat_or, ← hostOrder, hs, Nat.or_comm]
  exact (Nat.two_pow_add_eq_or_of_lt hx q).symm

/-- The loop over host parts yields exactly the addresses of the range. -/
theorem compose_range {subnet mask range_start range_end : U32} (hmask : PrefixMask mask)
    (hstart : ipInSubnet subnet mask range_start = true)
    (hend : ipInSubnet subnet mask range_end = true) (a : U32) :
    (∃ x : U32, (ipIsolateAddr mask range_start).toNat ≤ x.toNat ∧
      x.toNat < (ipIsolateAddr mask range_end).toNat ∧ a = ipComposeIp subnet x) ↔
    InRange range_start range_end a := by
  obtain ⟨k, hk⟩ := hmask
  have hs := (ipInSubnet_iff hk subnet range_start).mp hstart
  have he := (ipInSubnet_iff hk subnet range_end).mp hend
  rw [hostOrder_isolate hk, hostOrder_isolate hk]
  -- from here on it is arithmetic of host parts below `2^k`
  have hpos : 0 < 2^k := Nat.two_pow_pos k
  have hsdiv := Nat.div_add_mod (hostOrder range_start) (2^k)
  have hediv := Nat.div_add_mod (hostOrder range_end) (2^k)
  have hemod := Nat.mod_lt (hostOrder range_end) hpos
  constructor
  · rintro ⟨x, hlo, hhi, rfl⟩
    have hx := hostOrder_compose hs (hhi.trans hemod)
    constructor <;> omega
  · rintro ⟨hlo, hhi⟩
    have hx : hostOrder a-hostOrder subnet < 2^32 := by
      have := (ipSwapInt a).isLt
      simp only [hostOrder] at *
      omega
    have hxn : (BitVec.ofNat 32 (hostOrder a-hostOrder subnet)).toNat =
        hostOrder a-hostOrder subnet := by
      rw [BitVec.toNat_ofNat, Nat.mod_eq_of_lt hx]
    refine ⟨BitVec.ofNat 32 (hostOrder a-hostOrder subnet), by omega, by omega, ?_⟩
    apply hostOrder_injective
    rw [hostOrder_compose hs (by omega), hxn]
    omega

theorem inRange_inSubnet {subnet mask range_start range_end : U32} (hmask : PrefixMask mask)
    (hstart : ipInSubnet subnet mask range_start = true)
    (hend : ipInSubnet subnet mask range_end = true) {a : U32}
    (ha : InRange range_start range_end a) : ipInSubnet subnet mask a = true := by
  obtain ⟨k, hk⟩ := hmask
  have hs := (ipInSubnet_iff hk subnet range_start).mp hstart
  have he := (ipInSubnet_iff hk subnet range_end).mp hend
  rw [ipInSubnet_iff hk]
  have hq : hostOrder range_start/2^k = hostOrder range_end/2^k :=
    Nat.eq_of_mul_eq_mul_left (Nat.two_pow_pos k) (hs.symm.trans he)
  have h₁ := Nat.div_le_div_right (c := 2^k) ha.1
  have h₂ := Nat.div_le_div_right (c := 2^k) ha.2.le
  rw [hs, show hostOrder a/2^k = hostOrder range_start/2^k by omega]

end S3Dhcpd
