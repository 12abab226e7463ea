import S3Dhcpd.Frames
import S3Dhcpd.OnesComplement

/-! The checksums of the IP and the UDP header complete the sums over what they protect. -/
namespace S3Dhcpd

section Words
variable {l l' : List Byte} {sum : U32}

/-- The big-endian words of a list of bytes, padded with a zero byte. -/
def words : List Byte → List ℕ
  | [] => []
  | [b] => [256*b.toNat]
  | a :: b :: l => (256*a.toNat+b.toNat) :: words l

theorem words_le (l : List Byte) : ∀ w ∈ words l, w ≤ 0xFFFF := by
  induction l using words.induct with
  | case1 => simp [words]
  | case2 b =>
    have hb := b.isLt
    simp only [words, List.forall_mem_singleton]
    omega
  | case3 a b l ih =>
    have ha := a.isLt
    have hb := b.isLt
    rw [words, List.forall_mem_cons]
    exact ⟨by omega, ih⟩

theorem words_append (h : l.length%2 = 0) : words (l ++ l') = words l ++ words l' := by
  induction l using words.induct with
  | case1 => rfl
  | case2 b => simp at h
  | case3 a b l ih =>
    rw [List.length_cons, List.length_cons] at h
    rw [List.cons_append, List.cons_append, words, words, ih (by omega), List.cons_append]

theorem ntohs_append (a b : Byte) : (ntohs (b ++ a)).toNat = 256*a.toNat+b.toNat := by
  have hbytes : ntohs (b ++ a) = a ++ b := by simp [ntohs, htons]
  have ha := a.isLt
  have hb := b.isLt
  rw [hbytes, BitVec.toNat_append, Nat.shiftLeft_eq, Nat.mul_comm, ← Nat.two_pow_add_eq_or_of_lt hb]

theorem words_shortBytes (n : BitVec 16) : words (shortBytes n) = [(ntohs n).toNat] := by
  have hn : byteOf n 1 ++ byteOf n 0 = n := by
    apply byte_ext 2 (by decide)
    intro m hm
    interval_cases m <;> simp
  rw [shortBytes, words, ← ntohs_append, hn, words]

theorem carried_toNat {a : U32} (hsum : sum.toNat ≤ 0xFFFF) (ha : a.toNat ≤ 0xFFFF) :
    (carried (sum+a)).toNat = OnesComplement.add 0xFFFF sum.toNat a.toNat := by
  have hadd : (sum+a).toNat = sum.toNat+a.toNat := by
    rw [BitVec.toNat_add, Nat.mod_eq_of_lt (by omega)]
  have hgt : sum+a > 0xFFFF ↔ sum.toNat+a.toNat > 0xFFFF := by
    rw [← hadd]
    rfl
  rw [carried, OnesComplement.add]
  by_cases h : sum.toNat+a.toNat > 0xFFFF
  · have hmask : (0xFFFF : U32).toNat = 0xFFFF := rfl
    rw [if_pos h, if_pos (hgt.mpr h), BitVec.toNat_sub, hadd, hmask]
    omega
  · rw [if_neg h, if_neg (mt hgt.mp h), hadd]

/-- The loop of `ip_checksum` is a sum with an end-around carry. -/
theorem ipChecksum_toNat (h : sum.toNat ≤ 0xFFFF) :
    (ipChecksum l sum).toNat = OnesComplement.sum 0xFFFF sum.toNat (words l) := by
  -- the partial sums stay words, so no step overflows
  induction l, sum using ipChecksum.induct with
  | case1 sum => rfl
  | case2 b sum =>
    have hb : (b.setWidth 32 <<< 8 : U32).toNat = 256*b.toNat := by
      have hlt := b.isLt
      rw [BitVec.toNat_shiftLeft, BitVec.toNat_setWidth, Nat.shiftLeft_eq]
      omega
    have hword := words_le [b] (256*b.toNat) (List.mem_singleton_self _)
    rw [ipChecksum, carried_toNat h (hb ▸ hword), hb]
    rfl
  | case3 a b buf sum ih =>
    have hword : ((ntohs (b ++ a)).setWidth 32 : U32).toNat = 256*a.toNat+b.toNat := by
      have ha := a.isLt
      have hb := b.isLt
      rw [BitVec.toNat_setWidth, ntohs_append, Nat.mod_eq_of_lt (by omega)]
    have hle := words_le (a :: b :: buf) (256*a.toNat+b.toNat) List.mem_cons_self
    have hcarried := carried_toNat h (hword ▸ hle)
    rw [hword] at hcarried
    rw [ipChecksum, ih (hcarried ▸ OnesComplement.add_le h hle), hcarried, words,
      OnesComplement.sum_cons]

theorem ipWrapsum_toNat (h : sum.toNat ≤ 0xFFFF) :
    (ntohs ((ipWrapsum sum).setWidth 16)).toNat = 0xFFFF-sum.toNat := by
  have hnarrow : (ipWrapsum sum).setWidth 16 = htons ((~~~sum &&& 0xFFFF).setWidth 16) := by
    rw [ipWrapsum, BitVec.setWidth_setWidth_of_le _ (by decide), BitVec.setWidth_eq]
  have hmask : (0xFFFF : U32).toNat = 2^16-1 := rfl
  rw [hnarrow, ntohs, htons_htons, BitVec.toNat_setWidth, BitVec.toNat_and, hmask,
    Nat.and_two_pow_sub_one_eq_mod, BitVec.toNat_not]
  omega

end Words

section Checksums
variable {ip : s3_ip} {udp : s3_udphdr} {data : List Byte}

/-- The stored word completes the sum over a list with a zero in its place. -/
theorem wrapsum_completes {sum : U32} {start : ℕ} {front back : List ℕ} (hstart : start ≤ 0xFFFF)
    (hsum : sum.toNat = OnesComplement.sum 0xFFFF start (front ++ 0 :: back))
    (hle : ∀ w ∈ front ++ 0 :: back, w ≤ 0xFFFF) :
    OnesComplement.sum 0xFFFF start
      (front ++ (ntohs ((ipWrapsum sum).setWidth 16)).toNat :: back) = 0xFFFF := by
  have hsum_le : sum.toNat ≤ 0xFFFF := hsum ▸ OnesComplement.sum_le hstart hle
  rw [ipWrapsum_toNat hsum_le, hsum]
  exact OnesComplement.sum_verify (by decide) hstart hle

/-- The header in front of the checksum, and behind it. -/
def s3_ip.front (ip : s3_ip) : List Byte :=
  [ip.ip_v ++ ip.ip_hl, ip.ip_tos] ++ shortBytes ip.ip_len ++ shortBytes ip.ip_id ++
    shortBytes ip.ip_off ++ [ip.ip_ttl, ip.ip_p]

def s3_ip.back (ip : s3_ip) : List Byte := bytesOf ip.ip_src ++ bytesOf ip.ip_dst

def s3_udphdr.front (udp : s3_udphdr) : List Byte :=
  shortBytes udp.uh_sport ++ shortBytes udp.uh_dport ++ shortBytes udp.uh_ulen

theorem words_ip (ip : s3_ip) :
    words ip.bytes = words ip.front ++ (ntohs ip.ip_sum).toNat :: words ip.back := by
  have hbytes : ip.bytes = ip.front ++ (shortBytes ip.ip_sum ++ ip.back) := by
    simp [s3_ip.bytes, s3_ip.front, s3_ip.back]
  have hfront : ip.front.length = 10 := rfl
  rw [hbytes, words_append (by rw [hfront]), words_append (by rw [length_shortBytes]),
    words_shortBytes, List.singleton_append]

theorem words_udp (udp : s3_udphdr) :
    words udp.bytes = words udp.front ++ [(ntohs udp.uh_sum).toNat] := by
  have hbytes : udp.bytes = udp.front ++ shortBytes udp.uh_sum := rfl
  have hfront : udp.front.length = 6 := rfl
  rw [hbytes, words_append (by rw [hfront]), words_shortBytes]

theorem ntohs_zero : (ntohs 0).toNat = 0 := by decide

/-- With its checksum the IP header sums up to all ones. -/
theorem ip_verifies (hzero : ip.ip_sum = 0) : OnesComplement.sum 0xFFFF 0 (words
    { ip with ip_sum := (ipWrapsum (ipChecksum ip.bytes 0)).setWidth 16 }.bytes) = 0xFFFF := by
  have hblank : words ip.bytes = words ip.front ++ 0 :: words ip.back := by
    rw [words_ip, hzero, ntohs_zero]
  rw [words_ip]
  refine wrapsum_completes (Nat.zero_le _) ?_ (hblank ▸ words_le ip.bytes)
  rw [ipChecksum_toNat (Nat.zero_le _), hblank]
  rfl

/-- The words of the pseudo-header: both addresses, the protocol and the length. -/
def pseudoWords (ip : s3_ip) (udp : s3_udphdr) : List ℕ :=
  words ip.back ++ [IPPROTO_UDP.toNat, (ntohs udp.uh_ulen).toNat]

theorem pseudoWords_sum (uh_sum : BitVec 16) :
    pseudoWords ip { udp with uh_sum := uh_sum } = pseudoWords ip udp := rfl

theorem udpSum_toNat (hlen : IPPROTO_UDP.toNat+(ntohs udp.uh_ulen).toNat ≤ 0xFFFF) :
    (udpSum data ip udp).toNat = OnesComplement.sum 0xFFFF
      (IPPROTO_UDP.toNat+(ntohs udp.uh_ulen).toNat)
      (words ip.back ++ words data ++ words udp.bytes) := by
  have hstart : (IPPROTO_UDP.setWidth 32+(ntohs udp.uh_ulen).setWidth 32 : U32).toNat =
      IPPROTO_UDP.toNat+(ntohs udp.uh_ulen).toNat := by
    have hproto : (IPPROTO_UDP.setWidth 32 : U32).toNat = IPPROTO_UDP.toNat := rfl
    rw [BitVec.toNat_add, hproto, BitVec.toNat_setWidth]
    omega
  have hback : (ipChecksum ip.back
      (IPPROTO_UDP.setWidth 32+(ntohs udp.uh_ulen).setWidth 32)).toNat ≤ 0xFFFF := by
    rw [ipChecksum_toNat (hstart ▸ hlen)]
    exact OnesComplement.sum_le (hstart ▸ hlen) (words_le _)
  have hdata : (ipChecksum data (ipChecksum ip.back
      (IPPROTO_UDP.setWidth 32+(ntohs udp.uh_ulen).setWidth 32))).toNat ≤ 0xFFFF := by
    rw [ipChecksum_toNat hback]
    exact OnesComplement.sum_le hback (words_le _)
  rw [udpSum, ← s3_ip.back, ipChecksum_toNat hdata, ipChecksum_toNat hback,
    ipChecksum_toNat (hstart ▸ hlen), hstart, OnesComplement.sum_append, OnesComplement.sum_append]

/-- So does the UDP datagram with its pseudo-header. -/
theorem udp_verifies (hzero : udp.uh_sum = 0)
    (hlen : IPPROTO_UDP.toNat+(ntohs udp.uh_ulen).toNat ≤ 0xFFFF) :
    OnesComplement.sum 0xFFFF 0 (pseudoWords ip udp ++ (words
      { udp with uh_sum := (ipWrapsum (udpSum data ip udp)).setWidth 16 }.bytes ++ words data)) =
        0xFFFF := by
  have hblank : words udp.bytes = words udp.front ++ [0] := by
    rw [words_udp, hzero, ntohs_zero]
  have hsum := @udpSum_toNat ip udp data hlen
  rw [hblank, ← List.append_assoc] at hsum
  have hle : ∀ w ∈ words ip.back ++ words data ++ words udp.front ++ [0], w ≤ 0xFFFF := by
    have hudp := words_le udp.bytes
    rw [hblank, List.forall_mem_append] at hudp
    simp only [List.forall_mem_append]
    exact ⟨⟨⟨words_le _, words_le _⟩, hudp.1⟩, hudp.2⟩
  have hcomplete := wrapsum_completes hlen hsum hle
  -- the program starts its sum with the protocol and the length, and takes the payload first
  have hstart : ∀ l, OnesComplement.sum 0xFFFF (IPPROTO_UDP.toNat+(ntohs udp.uh_ulen).toNat) l =
      OnesComplement.sum 0xFFFF 0 ([IPPROTO_UDP.toNat, (ntohs udp.uh_ulen).toNat] ++ l) := by
    intro l
    have hproto : OnesComplement.add 0xFFFF 0 IPPROTO_UDP.toNat = IPPROTO_UDP.toNat := by decide
    have hadd : OnesComplement.add 0xFFFF IPPROTO_UDP.toNat (ntohs udp.uh_ulen).toNat =
        IPPROTO_UDP.toNat+(ntohs udp.uh_ulen).toNat := if_neg (Nat.not_lt.mpr hlen)
    rw [List.cons_append, List.singleton_append, OnesComplement.sum_cons, OnesComplement.sum_cons,
      hproto, hadd]
  rw [hstart] at hcomplete
  refine (OnesComplement.sum_perm (Nat.zero_le _) ?_ ?_).trans hcomplete
  · have hulen := Nat.le_of_lt_succ (ntohs udp.uh_ulen).isLt
    simp only [pseudoWords, List.forall_mem_append, List.forall_mem_cons]
    exact ⟨⟨words_le _, by decide, hulen, by simp⟩, words_le _, words_le _⟩
  · have hwords : words
        { udp with uh_sum := (ipWrapsum (udpSum data ip udp)).setWidth 16 }.bytes = words udp.front ++
          [(ntohs ((ipWrapsum (udpSum data ip udp)).setWidth 16)).toNat] := words_udp _
    rw [hwords, pseudoWords]
    apply List.perm_iff_count.mpr
    intro w
    simp only [List.count_append]
    omega

end Checksums

end S3Dhcpd
