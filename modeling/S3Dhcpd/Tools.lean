import Mathlib.Data.BitVec
import Mathlib.Data.List.Basic
import Mathlib.Tactic.IntervalCases

/-! The address primitives of `tools.h`, on a little-endian machine with eight-bit `char`. A C
text is a string whose characters are its bytes. -/
namespace S3Dhcpd

abbrev Byte := BitVec 8
abbrev U32 := BitVec 32
abbrev U64 := BitVec 64

/-- `BYTE(n,m)`: the byte at offset `m` of an integer in memory. -/
def byteOf {w : ℕ} (n : BitVec w) (m : ℕ) : Byte := n.extractLsb' (8*m) 8

/-- `*(uint32_t *)t` -/
def uint32 (t₀ t₁ t₂ t₃ : Byte) : U32 := t₃ ++ t₂ ++ t₁ ++ t₀

/-- `*(uint64_t *)t` -/
def uint64 (t₀ t₁ t₂ t₃ t₄ t₅ t₆ t₇ : Byte) : U64 :=
  t₇ ++ t₆ ++ t₅ ++ t₄ ++ t₃ ++ t₂ ++ t₁ ++ t₀

def byteOfChar (c : Char) : Byte := BitVec.ofNat 8 c.toNat

/-- `t[i] = (t[i]*10) + (*s-'0')`, in `char`. -/
def readDecimal (x : Byte) (c : Char) : Byte := x*10 + (byteOfChar c - 48)

/-- The loop of `ip_s2u`. A fourth dot moves `i` past `char t[4]`; what the source then writes
beyond the array is dropped here, and `ipS2uInside` says that it writes nothing there. -/
def ipS2uLoop : List Char → List Byte → ℕ → List Byte
  | [], t, _ => t
  | c :: s, t, i =>
    if c = '.' then ipS2uLoop s t (i+1)
    else if c.toNat = 0 then t
    else ipS2uLoop s (t.modify i (readDecimal · c)) i

/-- No character of a text is written behind `char t[4]`: `i` is the number of dots before it. -/
def ipS2uInside : List Char → ℕ → Bool
  | [], _ => true
  | c :: s, i =>
    if c = '.' then ipS2uInside s (i+1)
    else if c.toNat = 0 then true
    else decide (i < 4) && ipS2uInside s i

def ipS2u (s_addr : String) : U32 :=
  let t := ipS2uLoop s_addr.toList [0, 0, 0, 0] 0
  uint32 (t.getD 0 0) (t.getD 1 0) (t.getD 2 0) (t.getD 3 0)

/-- `d + '0'` -/
def decimalDigit (d : Byte) : Char := Char.ofNat (d.toNat + 48)

/-- One round of the loop of `ip_u2s`: a byte in decimal, without leading zeros. -/
def octetText (s : Byte) : List Char :=
  let s1 := s/100
  let s2 := s%100/10
  (if s1 > 0 then [decimalDigit s1] else []) ++
    (if s1 > 0 ∨ s2 > 0 then [decimalDigit s2] else []) ++ [decimalDigit (s%10)]

def ipU2s (addr : U32) : String :=
  String.ofList (octetText (byteOf addr 0) ++ '.' :: (octetText (byteOf addr 1) ++
    '.' :: (octetText (byteOf addr 2) ++ '.' :: octetText (byteOf addr 3))))

/-- The swapped view that the subnet primitives compute with. -/
def ipSwapInt (ipaddr : U32) : U32 :=
  uint32 (byteOf ipaddr 3) (byteOf ipaddr 2) (byteOf ipaddr 1) (byteOf ipaddr 0)

def ipInSubnet (subnet mask ipaddr : U32) : Bool :=
  (ipSwapInt ipaddr &&& ipSwapInt mask) == ipSwapInt subnet

def getIpBroadcast (subnet mask : U32) : U32 :=
  ipSwapInt (ipSwapInt subnet ||| ~~~ ipSwapInt mask)

def ipIsolateAddr (mask ipaddr : U32) : U32 := ipSwapInt ipaddr &&& ~~~ ipSwapInt mask

/-- The host part `ipaddr` is in host order, the subnet and the result in network order. -/
def ipComposeIp (subnet ipaddr : U32) : U32 := ipSwapInt (ipaddr ||| ipSwapInt subnet)

/-- `(a > 9) ? (a-10) + 'A' : a + '0'` -/
def hexDigit (a : Byte) : Char :=
  if a > 9 then Char.ofNat ((a-10).toNat + 65) else Char.ofNat (a.toNat + 48)

def hexPair (b : Byte) : List Char := [hexDigit ((b &&& 0xF0) >>> 4), hexDigit (b &&& 0xF)]

/-- Six of the eight bytes are printed. -/
def macU2s (chaddr : U64) : String :=
  String.ofList (hexPair (byteOf chaddr 0) ++ ':' :: (hexPair (byteOf chaddr 1) ++
    ':' :: (hexPair (byteOf chaddr 2) ++ ':' :: (hexPair (byteOf chaddr 3) ++
      ':' :: (hexPair (byteOf chaddr 4) ++ ':' :: hexPair (byteOf chaddr 5))))))

/-- A hexadecimal digit shifted into a byte; `*s > '9'` compares signed characters. -/
def readHex (x : Byte) (c : Char) : Byte :=
  if (byteOfChar c).toInt > 57 then (x <<< 4) ||| (byteOfChar c - 65 + 10)
  else (x <<< 4) ||| (byteOfChar c - 48)

/-- The loop of `mac_s2u`. -/
def macS2uLoop : List Char → List Byte → ℕ → List Byte
  | [], t, _ => t
  | c :: s, t, i =>
    if c = ':' then macS2uLoop s t (i+1)
    else if c.toNat = 0 ∨ i > 6 then t
    else macS2uLoop s (t.modify i (readHex · c)) i

def macS2u (s_mac : String) : U64 :=
  let t := macS2uLoop s_mac.toList [0, 0, 0, 0, 0, 0, 0, 0] 0
  uint64 (t.getD 0 0) (t.getD 1 0) (t.getD 2 0) (t.getD 3 0)
    (t.getD 4 0) (t.getD 5 0) (t.getD 6 0) (t.getD 7 0)

/-- The six bytes that `mac_u2s` prints: what identifies a client. -/
def hwAddr (chaddr : U64) : BitVec 48 := chaddr.setWidth 48

@[simp] theorem byteOf_append_zero {w : ℕ} (x : BitVec w) (b : Byte) : byteOf (x ++ b) 0 = b := by
  apply BitVec.eq_of_getLsbD_eq
  intro i hi
  simp [byteOf, BitVec.getLsbD_append, hi]

@[simp] theorem byteOf_append_succ {w : ℕ} (x : BitVec w) (b : Byte) (m : ℕ) :
    byteOf (x ++ b) (m+1) = byteOf x m := by
  apply BitVec.eq_of_getLsbD_eq
  intro i hi
  have h : ¬8*(m+1)+i < 8 := by omega
  simp [byteOf, BitVec.getLsbD_append, h, show 8*(m+1)+i-8 = 8*m+i by omega]

@[simp] theorem byteOf_byte (b : Byte) : byteOf b 0 = b := by simp [byteOf]

theorem byte_ext {w : ℕ} (n : ℕ) (hw : w ≤ 8*n) {a b : BitVec w}
    (h : ∀ m < n, byteOf a m = byteOf b m) : a = b := by
  apply BitVec.eq_of_getLsbD_eq
  intro i hi
  have hm : 8*(i/8)+i%8 = i := Nat.div_add_mod i 8
  have hbit (x : BitVec w) : (byteOf x (i/8)).getLsbD (i%8) = x.getLsbD i := by
    simp [byteOf, Nat.mod_lt, hm]
  rw [← hbit a, ← hbit b, h (i/8) (by omega)]

theorem uint32_bytes (a : U32) :
    uint32 (byteOf a 0) (byteOf a 1) (byteOf a 2) (byteOf a 3) = a := by
  apply byte_ext 4 (by decide)
  intro m hm
  interval_cases m <;> simp [uint32]

theorem uint64_bytes (a : U64) : uint64 (byteOf a 0) (byteOf a 1) (byteOf a 2) (byteOf a 3)
    (byteOf a 4) (byteOf a 5) (byteOf a 6) (byteOf a 7) = a := by
  apply byte_ext 8 (by decide)
  intro m hm
  interval_cases m <;> simp [uint64]

/-- What holds of the numbers below 256 holds of every byte. -/
theorem forall_byte {P : Byte → Prop} (h : ∀ n < 256, P (BitVec.ofNat 8 n)) (b : Byte) : P b := by
  have hb := h b.toNat b.isLt
  rwa [BitVec.ofNat_toNat, BitVec.setWidth_eq] at hb

theorem octetText_read : ∀ b : Byte, (octetText b).foldl readDecimal 0 = b :=
  forall_byte (by decide +kernel)

theorem octetText_digits (b : Byte) : ∀ c ∈ octetText b, c ≠ '.' ∧ c.toNat ≠ 0 := by
  have hall : ∀ b : Byte, (octetText b).all (fun c => c ≠ '.' ∧ c.toNat ≠ 0) = true :=
    forall_byte (by decide +kernel)
  intro c hc
  simpa using List.all_eq_true.mp (hall b) c hc

theorem length_octetText : ∀ b : Byte, (octetText b).length ≤ 3 :=
  forall_byte (by decide +kernel)

theorem length_ipU2s (a : U32) : (ipU2s a).length ≤ 15 := by
  have h₀ := length_octetText (byteOf a 0)
  have h₁ := length_octetText (byteOf a 1)
  have h₂ := length_octetText (byteOf a 2)
  have h₃ := length_octetText (byteOf a 3)
  rw [ipU2s, String.length_ofList]
  simp only [List.length_append, List.length_cons]
  omega

/-- `ip_s2u` reads a group of characters into the current byte. -/
theorem ipS2uLoop_group (s rest : List Char) (hs : ∀ c ∈ s, c ≠ '.' ∧ c.toNat ≠ 0)
    (t : List Byte) (i : ℕ) :
    ipS2uLoop (s ++ rest) t i = ipS2uLoop rest (t.modify i (s.foldl readDecimal ·)) i := by
  induction s generalizing t with
  | nil => exact congrArg (ipS2uLoop rest · i) (List.modify_id i t).symm
  | cons c s ih =>
    obtain ⟨hdot, hnul⟩ := hs c List.mem_cons_self
    rw [List.cons_append, ipS2uLoop, if_neg hdot, if_neg hnul,
      ih fun c hc => hs c (List.mem_cons_of_mem _ hc), List.modify_modify_eq]
    rfl

theorem ipS2uLoop_octet (b : Byte) (rest : List Char) (t : List Byte) (i : ℕ)
    (h0 : t.modify i (fun _ => 0) = t) :
    ipS2uLoop (octetText b ++ rest) t i = ipS2uLoop rest (t.modify i fun _ => b) i := by
  rw [ipS2uLoop_group _ _ (octetText_digits b), ← h0, List.modify_modify_eq, List.modify_modify_eq]
  congr 2
  funext _
  exact octetText_read b

@[simp] theorem ipS2u_ipU2s (a : U32) : ipS2u (ipU2s a) = a := by
  have hloop : ipS2uLoop (ipU2s a).toList [0, 0, 0, 0] 0 =
      [byteOf a 0, byteOf a 1, byteOf a 2, byteOf a 3] := by
    have hend (t : List Byte) (i : ℕ) (h0 : t.modify i (fun _ => 0) = t) :
        ipS2uLoop (octetText (byteOf a 3)) t i = t.modify i fun _ => byteOf a 3 := by
      conv_lhs => rw [← List.append_nil (octetText (byteOf a 3))]
      exact ipS2uLoop_octet _ [] t i h0
    rw [ipU2s, String.toList_ofList, ipS2uLoop_octet _ _ _ _ rfl, ipS2uLoop, if_pos rfl,
      ipS2uLoop_octet _ _ _ _ rfl, ipS2uLoop, if_pos rfl, ipS2uLoop_octet _ _ _ _ rfl, ipS2uLoop,
      if_pos rfl, hend _ _ rfl]
    rfl
  rw [ipS2u, hloop]
  exact uint32_bytes a

theorem ipS2uInside_group (s rest : List Char) (hs : ∀ c ∈ s, c ≠ '.' ∧ c.toNat ≠ 0) {i : ℕ}
    (hi : i < 4) : ipS2uInside (s ++ rest) i = ipS2uInside rest i := by
  induction s with
  | nil => rfl
  | cons c s ih =>
    obtain ⟨hdot, hnul⟩ := hs c List.mem_cons_self
    rw [List.cons_append, ipS2uInside, if_neg hdot, if_neg hnul, decide_eq_true hi, Bool.true_and]
    exact ih fun c hc => hs c (List.mem_cons_of_mem _ hc)

theorem ipS2uInside_octet (b : Byte) (rest : List Char) {i : ℕ} (hi : i < 4) :
    ipS2uInside (octetText b ++ rest) i = ipS2uInside rest i :=
  ipS2uInside_group _ _ (octetText_digits b) hi

/-- A printed address has four groups. -/
theorem ipS2uInside_ipU2s (a : U32) : ipS2uInside (ipU2s a).toList 0 = true := by
  have hlast : ipS2uInside (octetText (byteOf a 3)) 3 = true := by
    rw [← List.append_nil (octetText (byteOf a 3)), ipS2uInside_octet _ _ (by decide)]
    rfl
  rw [ipU2s, String.toList_ofList, ipS2uInside_octet _ _ (by decide), ipS2uInside, if_pos rfl,
    ipS2uInside_octet _ _ (by decide), ipS2uInside, if_pos rfl, ipS2uInside_octet _ _ (by decide),
    ipS2uInside, if_pos rfl, hlast]

/-- The text of `IPAddress()` denotes 0.0.0.0. -/
theorem ipS2u_empty : ipS2u "" = 0 := by decide

theorem ipU2s_injective : Function.Injective ipU2s := Function.LeftInverse.injective ipS2u_ipU2s

/-- A dotted quad without leading zeros. -/
def CanonicalQuad (s : String) : Prop :=
  ∃ n₀ < 256, ∃ n₁ < 256, ∃ n₂ < 256, ∃ n₃ < 256,
    s = toString n₀ ++ "." ++ toString n₁ ++ "." ++ toString n₂ ++ "." ++ toString n₃

theorem octetText_toString : ∀ b : Byte, octetText b = (toString b.toNat).toList :=
  forall_byte (by decide +kernel)

/-- The canonical texts are those that `ip_u2s` writes. -/
theorem canonicalQuad_iff (s : String) : CanonicalQuad s ↔ s = ipU2s (ipS2u s) := by
  have htext (b₀ b₁ b₂ b₃ : Byte) : toString b₀.toNat ++ "." ++ toString b₁.toNat ++ "." ++
      toString b₂.toNat ++ "." ++ toString b₃.toNat = ipU2s (uint32 b₀ b₁ b₂ b₃) := by
    apply String.toList_inj.mp
    simp [ipU2s, uint32, octetText_toString]
  constructor
  · rintro ⟨n₀, h₀, n₁, h₁, n₂, h₂, n₃, h₃, rfl⟩
    have h := htext (BitVec.ofNat 8 n₀) (BitVec.ofNat 8 n₁) (BitVec.ofNat 8 n₂) (BitVec.ofNat 8 n₃)
    simp only [BitVec.toNat_ofNat, Nat.reducePow, Nat.mod_eq_of_lt h₀, Nat.mod_eq_of_lt h₁,
      Nat.mod_eq_of_lt h₂, Nat.mod_eq_of_lt h₃] at h
    rw [h, ipS2u_ipU2s]
  · intro h
    refine ⟨_, (byteOf (ipS2u s) 0).isLt, _, (byteOf (ipS2u s) 1).isLt, _,
      (byteOf (ipS2u s) 2).isLt, _, (byteOf (ipS2u s) 3).isLt, ?_⟩
    rw [htext, uint32_bytes]
    exact h

theorem hexPair_read : ∀ b : Byte, (hexPair b).foldl readHex 0 = b :=
  forall_byte (by decide +kernel)

theorem hexPair_digits (b : Byte) : ∀ c ∈ hexPair b, c ≠ ':' ∧ c.toNat ≠ 0 := by
  have hall : ∀ b : Byte, (hexPair b).all (fun c => c ≠ ':' ∧ c.toNat ≠ 0) = true :=
    forall_byte (by decide +kernel)
  intro c hc
  simpa using List.all_eq_true.mp (hall b) c hc

theorem macS2uLoop_pair (b : Byte) (rest : List Char) (t : List Byte) (i : ℕ) (hi : i ≤ 6)
    (h0 : t.modify i (fun _ => 0) = t) :
    macS2uLoop (hexPair b ++ rest) t i = macS2uLoop rest (t.modify i fun _ => b) i := by
  have hgroup (s : List Char) (hs : ∀ c ∈ s, c ≠ ':' ∧ c.toNat ≠ 0) (t : List Byte) :
      macS2uLoop (s ++ rest) t i = macS2uLoop rest (t.modify i (s.foldl readHex ·)) i := by
    induction s generalizing t with
    | nil => exact congrArg (macS2uLoop rest · i) (List.modify_id i t).symm
    | cons c s ih =>
      obtain ⟨hcolon, hnul⟩ := hs c List.mem_cons_self
      have hgo : ¬(c.toNat = 0 ∨ i > 6) := by omega
      rw [List.cons_append, macS2uLoop, if_neg hcolon, if_neg hgo,
        ih fun c hc => hs c (List.mem_cons_of_mem _ hc), List.modify_modify_eq]
      rfl
  rw [hgroup _ (hexPair_digits b), ← h0, List.modify_modify_eq, List.modify_modify_eq]
  congr 2
  funext _
  exact hexPair_read b

theorem length_macU2s (m : U64) : (macU2s m).length = 17 := by
  rw [macU2s, String.length_ofList]
  rfl

/-- The text of a hardware address names its first six bytes. -/
theorem macS2u_macU2s (m : U64) : macS2u (macU2s m) =
    uint64 (byteOf m 0) (byteOf m 1) (byteOf m 2) (byteOf m 3) (byteOf m 4) (byteOf m 5) 0 0 := by
  have hend (t : List Byte) (h0 : t.modify 5 (fun _ => 0) = t) :
      macS2uLoop (hexPair (byteOf m 5)) t 5 = t.modify 5 fun _ => byteOf m 5 := by
    conv_lhs => rw [← List.append_nil (hexPair (byteOf m 5))]
    exact macS2uLoop_pair _ [] t 5 (by decide) h0
  rw [macS2u, macU2s, String.toList_ofList, macS2uLoop_pair _ _ _ _ (by decide) rfl, macS2uLoop,
    if_pos rfl, macS2uLoop_pair _ _ _ _ (by decide) rfl, macS2uLoop, if_pos rfl,
    macS2uLoop_pair _ _ _ _ (by decide) rfl, macS2uLoop, if_pos rfl,
    macS2uLoop_pair _ _ _ _ (by decide) rfl, macS2uLoop, if_pos rfl,
    macS2uLoop_pair _ _ _ _ (by decide) rfl, macS2uLoop, if_pos rfl, hend _ rfl]
  rfl

theorem byteOf_hwAddr (m : U64) {k : ℕ} (hk : k < 6) : byteOf (hwAddr m) k = byteOf m k := by
  apply BitVec.eq_of_getLsbD_eq
  intro i hi
  simp [byteOf, hwAddr, show 8*k+i < 48 by omega]

theorem macU2s_inj {m m' : U64} : macU2s m = macU2s m' ↔ hwAddr m = hwAddr m' := by
  constructor
  · intro h
    have hu := congrArg macS2u h
    rw [macS2u_macU2s, macS2u_macU2s] at hu
    apply byte_ext 6 (by decide)
    intro k hk
    rw [byteOf_hwAddr m hk, byteOf_hwAddr m' hk]
    have hb := congrArg (fun a : U64 => byteOf a k) hu
    interval_cases k <;> simpa [uint64] using hb
  · intro h
    have hb {k : ℕ} (hk : k < 6) : byteOf m k = byteOf m' k := by
      rw [← byteOf_hwAddr m hk, h, byteOf_hwAddr m' hk]
    simp only [macU2s, hb (show 0 < 6 by decide), hb (show 1 < 6 by decide),
      hb (show 2 < 6 by decide), hb (show 3 < 6 by decide), hb (show 4 < 6 by decide),
      hb (show 5 < 6 by decide)]

theorem macU2s_ne_empty (m : U64) : macU2s m ≠ "" := by
  intro h
  have hl := congrArg (fun s : String => s.toList.length) h
  simp [macU2s] at hl

end S3Dhcpd
