import S3Dhcpd.RadiusPacket

/-! What `unmarshall` puts on the wire of an accounting packet. -/
namespace S3Dhcpd
open ByteMemory ReadLog

/-- The attribute as it stands in a packet; its length byte counts itself and the type. -/
def RADIUS_Attribute.wire (a : RADIUS_Attribute) : List Byte :=
  a.type :: (a.length+2) :: a.value.take a.length.toNat

namespace RADIUS_Packet

def attributesWire (p : RADIUS_Packet) : List Byte := p.attributes.1.flatMap RADIUS_Attribute.wire

/-- Code, identifier and length of the packet. -/
def head (p : RADIUS_Packet) (ident : Byte) : List Byte :=
  [p.code, ident] ++ shortBytes (htons (BitVec.ofNat 16 (20+p.attributesWire.length)))

/-- The digest that authenticates a packet sent under an identifier. -/
def authenticator (md5 : List Byte → Digest) (p : RADIUS_Packet) (auth_salt : List Byte)
    (ident : Byte) : Digest :=
  md5 (p.head ident ++ p.auth.1 ++ p.attributesWire ++ auth_salt)

end RADIUS_Packet

section Attributes
variable {buffer : ℕ → Byte} {offset : ℕ} {packet_len : BitVec 16}
  {attributes : List RADIUS_Attribute}

open RADIUS_Packet

theorem length_attribute_wire (a : RADIUS_Attribute) : a.wire.length = a.length.toNat+2 := by
  rw [RADIUS_Attribute.wire, List.length_cons, List.length_cons, List.length_take,
    Nat.min_eq_left a.stored]

theorem length_attributes_wire (attributes : List RADIUS_Attribute) :
    (attributes.flatMap RADIUS_Attribute.wire).length ≤ 257*attributes.length := by
  induction attributes with
  | nil => exact Nat.le_refl _
  | cons a attributes ih =>
    rw [List.flatMap_cons, List.length_append, length_attribute_wire, List.length_cons]
    omega

theorem writeAttributes_before {i : ℕ} (hi : i < offset) :
    (writeAttributes attributes buffer offset packet_len).1 i = buffer i := by
  induction attributes generalizing buffer offset packet_len with
  | nil => rfl
  | cons a attributes ih =>
    rw [writeAttributes, ih (by omega), write_before (by omega), write_before (by omega),
      write_before hi]

/-- The attribute loop of `unmarshall` writes the attributes, and counts their bytes. -/
theorem writeAttributes_holds :
    Holds (writeAttributes attributes buffer offset packet_len).1 offset
      (attributes.flatMap RADIUS_Attribute.wire) ∧
    (writeAttributes attributes buffer offset packet_len).2 =
      packet_len+BitVec.ofNat 16 (attributes.flatMap RADIUS_Attribute.wire).length := by
  induction attributes generalizing buffer offset packet_len with
  | nil => exact ⟨holds_nil, (BitVec.add_zero packet_len).symm⟩
  | cons a attributes ih =>
    have hlen := length_attribute_wire a
    -- type, length byte and value follow each other without a gap
    have hattribute : Holds (write (write (write buffer offset [a.type]) (offset+1) [a.length+2])
        (offset+2) (a.value.take a.length.toNat)) offset a.wire := by
      refine ⟨?_, ?_, holds_write⟩
      · rw [write_before (by omega), write_before (by omega), write_head]
      · rw [write_before (by omega), write_head]
    obtain ⟨hrest, hcount⟩ := @ih (write (write (write buffer offset [a.type]) (offset+1)
      [a.length+2]) (offset+2) (a.value.take a.length.toNat)) (offset+(a.length.toNat+2))
      (packet_len+BitVec.ofNat 16 (a.length.toNat+2))
    rw [List.flatMap_cons, holds_append, hlen, List.length_append, hlen]
    refine ⟨⟨hattribute.congr fun i _ hi => ?_, hrest⟩, ?_⟩
    · rw [writeAttributes, writeAttributes_before (hlen ▸ hi)]
    · rw [writeAttributes, hcount, BitVec.add_assoc, BitVec.ofNat_add_ofNat]

end Attributes

section Wire
variable (md5 : List Byte → Digest) (p : RADIUS_Packet) (auth_salt : List Byte)
  (buffer : ℕ → Byte)

open RADIUS_Packet

/-- No packet is too long for its length field. -/
theorem attributesWire_lt : 20+p.attributesWire.length < 2^16 := by
  have hlen := length_attributes_wire p.attributes.1
  have hfew : p.attributes.1.length ≤ 64 := p.attributes.2.1
  rw [attributesWire]
  omega

theorem writeAttributes_packet : ∃ written, (∃ packet_len,
      writeAttributes p.attributes.1 (write buffer 0 [p.code]) 20 20 = (written, packet_len) ∧
      packet_len = BitVec.ofNat 16 (20+p.attributesWire.length)) ∧
    Holds written 0 [p.code, buffer 1] ∧ Holds written 20 p.attributesWire := by
  obtain ⟨hattributes, hcount⟩ := @writeAttributes_holds (write buffer 0 [p.code]) 20 20
    p.attributes.1
  refine ⟨_, ⟨_, rfl, ?_⟩, ⟨?_, ?_, holds_nil⟩, hattributes⟩
  · have h20 : (20 : BitVec 16) = BitVec.ofNat 16 20 := rfl
    rw [hcount, attributesWire, h20, BitVec.ofNat_add_ofNat]
  · rw [writeAttributes_before (by decide), write_head]
  · rw [writeAttributes_before (by decide), write_behind (by simp)]

/-- What stands in the buffer after `unmarshall`. The identifier is what stood there before. -/
theorem unmarshall_radius (hroom : p.attributes.1.length < MAX_RADIUS_ATTRIBUTES) :
    ∃ out, p.unmarshall md5 auth_salt buffer = some (out, 20+p.attributesWire.length) ∧
      Holds out 0 (p.head (buffer 1) ++ (p.authenticator md5 auth_salt (buffer 1)).1 ++
        p.attributesWire) := by
  obtain ⟨written, ⟨packet_len, hwritten, hlen⟩, hcode, hattributes⟩ :=
    writeAttributes_packet p buffer
  have hpacket_len : packet_len.toNat = 20+p.attributesWire.length := by
    rw [hlen, BitVec.toNat_ofNat, Nat.mod_eq_of_lt (attributesWire_lt p)]
  -- the two writes to the header lie before the attributes
  have hhead : Holds (write written 2 (shortBytes (htons packet_len))) 0 (p.head (buffer 1)) := by
    rw [hlen]
    exact hcode.write rfl
  have hbody : Holds (write written 2 (shortBytes (htons packet_len))) 20 p.attributesWire :=
    hattributes.congr fun i hi _ => write_behind (by rw [length_shortBytes]; omega)
  have hdigest : md5 (read (write written 2 (shortBytes (htons packet_len))) 0 4 ++ p.auth.1 ++
      read (write written 2 (shortBytes (htons packet_len))) 20 (packet_len.toNat-20) ++ auth_salt) =
        p.authenticator md5 auth_salt (buffer 1) := by
    have hread : read (write written 2 (shortBytes (htons packet_len))) 0 4 = p.head (buffer 1) :=
      hhead.read
    rw [hread, hpacket_len, Nat.add_sub_cancel_left, hbody.read]
    rfl
  have hdigest_length : (p.authenticator md5 auth_salt (buffer 1)).1.length = 16 :=
    (p.authenticator md5 auth_salt (buffer 1)).2
  refine ⟨write (write written 2 (shortBytes (htons packet_len))) 4
    (p.authenticator md5 auth_salt (buffer 1)).1, ?_, holds_append.mpr ⟨hhead.write rfl, ?_⟩⟩
  · rw [← hdigest, ← hpacket_len]
    simp only [RADIUS_Packet.unmarshall, if_neg hroom.ne]
    rw [hwritten]
  · have hoffset : 0+(p.head (buffer 1) ++
        (p.authenticator md5 auth_salt (buffer 1)).1).length = 20 := by
      rw [List.length_append, hdigest_length]
      rfl
    rw [hoffset]
    exact hbody.congr fun i hi _ => write_behind (by rw [hdigest_length]; omega)

end Wire

end S3Dhcpd
