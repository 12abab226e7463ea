import S3Dhcpd.Tools

/-! The texts of addresses as database keys: which texts `tools.h` writes, and that it reads them
back. -/
namespace S3Dhcpd

def isUpperHex (c : Char) : Bool := decide ('0' ≤ c ∧ c ≤ '9') || decide ('A' ≤ c ∧ c ≤ 'F')

/-- Two-digit upper-case hexadecimal groups with a colon between them. -/
def macText (groups : List (Char × Char)) : List Char :=
  [':'].intercalate (groups.map fun group => [group.1, group.2])

/-- Six groups. -/
def CanonicalMac (s : String) : Prop :=
  ∃ groups : Fin 6 → Char × Char, (∀ k, isUpperHex (groups k).1 ∧ isUpperHex (groups k).2) ∧
    s = String.ofList (macText (List.ofFn groups))

theorem hexDigit_surjective {c : Char} (hc : isUpperHex c) :
    ∃ n < 16, c = hexDigit (BitVec.ofNat 8 n) := by
  have hdecimal : ∀ n < 10, Char.ofNat (n+48) = hexDigit (BitVec.ofNat 8 n) := by decide
  have hletter : ∀ n < 6, Char.ofNat (n+65) = hexDigit (BitVec.ofNat 8 (n+10)) := by decide
  rw [isUpperHex, Bool.or_eq_true, decide_eq_true_iff, decide_eq_true_iff] at hc
  rcases hc with ⟨hlow, hhigh⟩ | ⟨hlow, hhigh⟩
  · have hl : 48 ≤ c.toNat := hlow
    have hh : c.toNat ≤ 57 := hhigh
    refine ⟨c.toNat-48, by omega, ?_⟩
    rw [← hdecimal _ (by omega), Nat.sub_add_cancel hl, Char.ofNat_toNat]
  · have hl : 65 ≤ c.toNat := hlow
    have hh : c.toNat ≤ 70 := hhigh
    refine ⟨c.toNat-65+10, by omega, ?_⟩
    rw [← hletter _ (by omega), Nat.sub_add_cancel hl, Char.ofNat_toNat]

/-- Two digits are the text of a byte. -/
theorem hexPair_surjective {c d : Char} (hc : isUpperHex c) (hd : isUpperHex d) :
    ∃ b : Byte, [c, d] = hexPair b := by
  have hdigits : ∀ b : Byte, hexPair b = [hexDigit (b >>> 4), hexDigit (b &&& 0xF)] :=
    forall_byte (by decide +kernel)
  have hparts : ∀ n < 16, ∀ m < 16,
      BitVec.ofNat 8 (16*n+m) >>> 4 = BitVec.ofNat 8 n ∧
      BitVec.ofNat 8 (16*n+m) &&& 0xF = BitVec.ofNat 8 m := by
    decide +kernel
  obtain ⟨n, hn, rfl⟩ := hexDigit_surjective hc
  obtain ⟨m, hm, rfl⟩ := hexDigit_surjective hd
  obtain ⟨hhigh, hlow⟩ := hparts n hn m hm
  exact ⟨BitVec.ofNat 8 (16*n+m), by rw [hdigits, hhigh, hlow]⟩

/-- The canonical texts are those that `mac_u2s` writes. -/
theorem canonicalMac_iff (s : String) : CanonicalMac s ↔ ∃ m, s = macU2s m := by
  constructor
  · rintro ⟨groups, hhex, rfl⟩
    choose b hb using fun k => hexPair_surjective (hhex k).1 (hhex k).2
    refine ⟨uint64 (b 0) (b 1) (b 2) (b 3) (b 4) (b 5) 0 0, ?_⟩
    simp [macU2s, macText, uint64, List.intercalate, ← hb]
  · rintro ⟨m, rfl⟩
    have hpair : ∀ b : Byte, isUpperHex (hexDigit ((b &&& 0xF0) >>> 4)) = true ∧
        isUpperHex (hexDigit (b &&& 0xF)) = true := forall_byte (by decide +kernel)
    exact ⟨fun k => (hexDigit ((byteOf m k &&& 0xF0) >>> 4), hexDigit (byteOf m k &&& 0xF)),
      fun k => hpair (byteOf m k), rfl⟩

theorem macS2u_low (m : U64) : macS2u (macU2s m) = (hwAddr m).setWidth 64 := by
  rw [macS2u_macU2s]
  apply byte_ext 8 (by decide)
  intro k hk
  have hlow {k : ℕ} (hk : k < 6) : byteOf ((hwAddr m).setWidth 64) k = byteOf m k := by
    rw [← byteOf_hwAddr m hk]
    apply BitVec.eq_of_getLsbD_eq
    intro i hi
    simp [byteOf, show 8*k+i < 64 by omega]
  have hhigh {k : ℕ} (hk : 6 ≤ k) : byteOf ((hwAddr m).setWidth 64) k = 0 := by
    apply BitVec.eq_of_getLsbD_eq
    intro i hi
    simp [byteOf, hwAddr, show ¬8*k+i < 48 by omega]
  interval_cases k <;> simp [uint64, hlow, hhigh] <;> rfl

/-- Addresses and their texts are the same thing, and so are hardware addresses of six bytes and
theirs. -/
theorem texts_faithful :
    (∀ a, ipS2u (ipU2s a) = a) ∧
    (∀ s, CanonicalQuad s → ipU2s (ipS2u s) = s) ∧
    (∀ m, macS2u (macU2s m) = (hwAddr m).setWidth 64) ∧
    (∀ s, CanonicalMac s → macU2s (macS2u s) = s) ∧
    (∀ a b, ipU2s a = ipU2s b ↔ a = b) ∧
    (∀ m m', macU2s m = macU2s m' ↔ hwAddr m = hwAddr m') := by
  refine ⟨ipS2u_ipU2s, fun s hs => ((canonicalQuad_iff s).mp hs).symm, macS2u_low, fun s hs => ?_,
    fun a b => ipU2s_injective.eq_iff, fun m m' => macU2s_inj⟩
  obtain ⟨m, rfl⟩ := (canonicalMac_iff s).mp hs
  rw [macU2s_inj, macS2u_low, hwAddr, BitVec.setWidth_setWidth_of_le _ (by decide)]
  exact BitVec.setWidth_eq _

end S3Dhcpd
