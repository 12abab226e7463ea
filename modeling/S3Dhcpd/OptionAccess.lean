import S3Dhcpd.OptionGrammar
import S3Dhcpd.ReadLog

/-! What `get_message_type` and `get_requested_address` read of the values of options. -/
namespace S3Dhcpd
open ByteMemory ReadLog

/-- `*(_options[i].value) & 0xFF` -/
def valueByte : Reader Byte ℤ := do
  return (← Reader.fetch 0).toNat

/-- `*(uint32_t *)(_options[i].value)` -/
def valueWord : Reader Byte U32 := do
  return uint32 (← Reader.fetch 0) (← Reader.fetch 1) (← Reader.fetch 2) (← Reader.fetch 3)

namespace DHCP_Packet

/-- The option that `get_message_type` reads. -/
def messageTypeOption (p : DHCP_Packet) : Option DHCP_Option :=
  p.options.find? (·.code = DHO_DHCP_MESSAGE_TYPE)

/-- The option that `get_requested_address` reads. -/
def requestedAddressOption (p : DHCP_Packet) : Option DHCP_Option :=
  if p.ciaddr ≠ 0 then none else p.options.find? (·.code = DHO_DHCP_REQUESTED_ADDRESS)

/-- Both accessors read inside the values of the options that they have found. -/
structure AccessedInside (p : DHCP_Packet) (g : Garbage) : Prop where
  type : ∀ o, p.messageTypeOption = some o → valueByte.Within o.length.toNat (o.valueAt g)
  address : ∀ o, p.requestedAddressOption = some o → valueWord.Within o.length.toNat (o.valueAt g)

end DHCP_Packet

section Access
variable {p : DHCP_Packet} {g : Garbage}

/-- The accessors are the readers, on the value of the option that they find. -/
theorem getMessageType_reads : p.getMessageType g =
    match p.messageTypeOption with
    | some o => valueByte.value (o.valueAt g)
    | none => -1 := rfl

theorem requestedAddress_reads : p.requestedAddress g =
    if p.ciaddr ≠ 0 then some p.ciaddr
    else p.requestedAddressOption.map fun o => valueWord.value (o.valueAt g) := by
  rw [DHCP_Packet.requestedAddress, DHCP_Packet.requestedAddressOption]
  split_ifs
  · rfl
  · cases p.options.find? (·.code = DHO_DHCP_REQUESTED_ADDRESS) <;> rfl

theorem within_valueByte {n : ℕ} {m : ℕ → Byte} : valueByte.Within n m ↔ 0 < n := by
  simp [valueByte]

theorem within_valueWord {n : ℕ} {m : ℕ → Byte} : valueWord.Within n m ↔ 4 ≤ n := by
  simp only [valueWord, Reader.within_bind, Reader.within_fetch, Reader.within_pure, and_true]
  omega

theorem accessedInside_iff : p.AccessedInside g ↔
    (∀ o, p.messageTypeOption = some o → 0 < o.length.toNat) ∧
    ∀ o, p.requestedAddressOption = some o → 4 ≤ o.length.toNat := by
  constructor
  · rintro ⟨htype, haddress⟩
    exact ⟨fun o ho => within_valueByte.mp (htype o ho),
      fun o ho => within_valueWord.mp (haddress o ho)⟩
  · rintro ⟨htype, haddress⟩
    exact ⟨fun o ho => within_valueByte.mpr (htype o ho),
      fun o ho => within_valueWord.mpr (haddress o ho)⟩

/-- The first option of a code, where it starts in the packet. -/
def firstOption (buffer : ℕ → Byte) (pktlength : ℕ) (code : Byte) : Option ℕ :=
  (optionArea buffer pktlength).find? fun o => buffer o = code

section Parsed
variable {buffer : ℕ → Byte} {pktlength : ℕ}

theorem find_firstOption (hparsed : marshall buffer pktlength = .ok p)
    (hfew : (optionArea buffer pktlength).length < MAX_DHCP_OPTIONS) (code : Byte) :
    p.options.find? (·.code = code) = (firstOption buffer pktlength code).map (optionAt buffer) := by
  have hoptions : readOptions buffer pktlength pktlength 0 240 =
      (optionArea buffer pktlength).map (optionAt buffer) := by
    rw [readOptions_area (Nat.zero_le _), ← optionArea, Nat.sub_zero, List.take_of_length_le hfew.le]
  rw [marshall_options hparsed, hoptions, List.find?_map]
  rfl

/-- The accessors stay inside the options whose lengths are those that they take for granted. -/
theorem accessed_inside (hparsed : marshall buffer pktlength = .ok p)
    (hfew : (optionArea buffer pktlength).length < MAX_DHCP_OPTIONS) (g : Garbage) :
    p.AccessedInside g ↔
      (∀ o, firstOption buffer pktlength DHO_DHCP_MESSAGE_TYPE = some o →
        0 < (buffer (o+1)).toNat) ∧
      (p.ciaddr = 0 → ∀ o, firstOption buffer pktlength DHO_DHCP_REQUESTED_ADDRESS = some o →
        4 ≤ (buffer (o+1)).toNat) := by
  have hlength (found : Option ℕ) (P : ℕ → Prop) :
      (∀ o, found.map (optionAt buffer) = some o → P o.length.toNat) ↔
        ∀ o, found = some o → P (buffer (o+1)).toNat := by
    cases found <;> simp [optionAt]
  rw [accessedInside_iff, DHCP_Packet.messageTypeOption, DHCP_Packet.requestedAddressOption,
    find_firstOption hparsed hfew, find_firstOption hparsed hfew, hlength _ fun n => 0 < n]
  -- `get_requested_address` prefers `ciaddr`, and then reads no option
  by_cases hciaddr : p.ciaddr = 0
  · rw [if_neg (not_not.mpr hciaddr), hlength _ fun n => 4 ≤ n]
    simp only [hciaddr, true_implies]
  · rw [if_pos hciaddr]
    refine and_congr_right fun _ => ⟨fun _ hzero => absurd hzero hciaddr, fun _ o ho => ?_⟩
    cases ho

end Parsed

theorem accessed_inside_padded :
    (packetAt paddedBuffer [⟨DHO_DHCP_MESSAGE_TYPE, 1, [3]⟩]).AccessedInside ⟨fun _ _ => 0, fun _ => 0⟩ :=
  (@accessed_inside _ paddedBuffer 248 (by rfl) (by decide) _).mpr
    ⟨by decide, by decide⟩

/-- A packet whose message type has no value. -/
def untypedBuffer : ℕ → Byte :=
  write (write (fun _ => 0) 236 DHCP_MAGIC_COOKIE) 240 [DHO_DHCP_MESSAGE_TYPE, 0, DHO_END]

/-- The byte behind an empty value is taken for the message type. -/
theorem empty_type_read : ∃ p, marshall untypedBuffer 243 = .ok p ∧
    (optionArea untypedBuffer 243).length < MAX_DHCP_OPTIONS ∧
    (∀ o ∈ optionArea untypedBuffer 243, OptionInside untypedBuffer 243 o) ∧
    ∀ g, ¬ p.AccessedInside g := by
  have hpacket : OptionPacket untypedBuffer 243 [.option ⟨DHO_DHCP_MESSAGE_TYPE, 0, []⟩] :=
    ⟨by decide, by decide, by decide, by decide, by decide⟩
  refine ⟨_, hpacket.marshall, by decide, by decide, fun g h => ?_⟩
  exact absurd ((accessedInside_iff.mp h).1 _ rfl) (by decide)

end Access

end S3Dhcpd
