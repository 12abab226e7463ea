import S3Dhcpd.RadiusCodec

/-! How far `marshall` reads into a buffer, and whether the attribute array keeps its end mark. -/
namespace S3Dhcpd
open ByteMemory ReadLog

section Area
variable (buffer : ℕ → Byte) (length : ℕ)

/-- How many bytes the attribute at an offset takes; a length byte of 0 or 1 stands for 256 or
257. -/
def attributeSize (offset : ℕ) : ℕ := (buffer (offset+1)-2).toNat+2

/-- The offsets of the attributes of a packet, as their length bytes chain them up to the end of the
packet or a type of zero. -/
def attributeOffsets : (fuel : ℕ) → ℕ → List ℕ
  | 0, _ => []
  | fuel+1, offset =>
    if offset ≥ length ∨ buffer offset = 0 then []
    else offset :: attributeOffsets fuel (offset+attributeSize buffer offset)

/-- The attributes of the packet in a buffer. No attribute is shorter than two bytes. -/
def attributeArea : List ℕ := attributeOffsets buffer length length 20

end Area

section Loop
variable {buffer : ℕ → Byte} {length pktlength room fuel offset : ℕ}

open RADIUS_Packet

theorem attributeOffsets_nil (hend : offset ≥ length ∨ buffer offset = 0) :
    attributeOffsets buffer length fuel offset = [] := by
  cases fuel with
  | zero => rfl
  | succ fuel => exact if_pos hend

theorem attributeOffsets_cons (hoffset : offset < length) (htype : buffer offset ≠ 0) :
    attributeOffsets buffer length (fuel+1) offset =
      offset :: attributeOffsets buffer length fuel (offset+attributeSize buffer offset) := by
  rw [attributeOffsets, if_neg (not_or.mpr ⟨Nat.not_le.mpr hoffset, htype⟩)]

theorem readAttributes_nil (hend : offset ≥ length ∨ buffer offset = 0) :
    ((readAttributes length (room+1) offset).value buffer).1 = [] := by
  rw [readAttributes]
  split
  · rfl
  · next hoffset =>
    rw [Reader.value_bind, Reader.value_fetch, dif_pos (hend.resolve_left hoffset)]
    rfl

/-- The attribute loop of `marshall` stores the first attributes of the area, as many as there is
room for. -/
theorem length_readAttributes (hfuel : length ≤ offset+fuel) :
    ((readAttributes length room offset).value buffer).1.length =
      min room (attributeOffsets buffer length fuel offset).length := by
  -- the loop and the chain of offsets advance together
  induction room generalizing offset fuel with
  | zero => rw [Nat.zero_min]; rfl
  | succ room ih =>
    by_cases hend : offset ≥ length ∨ buffer offset = 0
    · rw [attributeOffsets_nil hend, readAttributes_nil hend]
      rfl
    · obtain ⟨hoffset, htype⟩ := not_or.mp hend
      obtain ⟨fuel, rfl⟩ : ∃ k, fuel = k+1 := ⟨fuel-1, by omega⟩
      have hrest := @ih fuel (offset+attributeSize buffer offset) (by rw [attributeSize]; omega)
      rw [readAttributes_cons (Nat.not_le.mp hoffset) htype,
        attributeOffsets_cons (Nat.not_le.mp hoffset) htype, List.length_cons, List.length_cons,
        Nat.add_min_add_right, ← hrest]
      rfl

/-- It reads inside the packet if each attribute that it stores ends there. -/
theorem within_readAttributes (hlength : length ≤ pktlength) (hfuel : length ≤ offset+fuel) :
    (readAttributes length room offset).Within pktlength buffer ↔
      ∀ o ∈ (attributeOffsets buffer length fuel offset).take room,
        o+attributeSize buffer o ≤ pktlength := by
  induction room generalizing offset fuel with
  | zero => simp [readAttributes]
  | succ room ih =>
    by_cases hoffset : offset ≥ length
    · rw [readAttributes, if_pos hoffset, attributeOffsets_nil (Or.inl hoffset)]
      simp
    · rw [readAttributes, if_neg hoffset, Reader.within_bind, Reader.within_fetch, Reader.value_fetch]
      by_cases htype : buffer offset = 0
      · rw [dif_pos htype, attributeOffsets_nil (Or.inr htype)]
        simp
        omega
      · obtain ⟨fuel, rfl⟩ : ∃ k, fuel = k+1 := ⟨fuel-1, by omega⟩
        have hrest := @ih fuel (offset+attributeSize buffer offset) (by rw [attributeSize]; omega)
        rw [dif_neg htype, attributeOffsets_cons (Nat.not_le.mp hoffset) htype, List.take_succ_cons,
          List.forall_mem_cons, ← hrest]
        simp only [Reader.within_bind, Reader.within_fetch, Reader.within_fetchMany,
          Reader.value_fetch, Reader.within_pure, and_true, attributeSize]
        -- the last byte of the value is the last one that is read
        constructor
        · rintro ⟨hin, hin', hvalue, hwithin⟩
          exact ⟨by omega, hwithin⟩
        · rintro ⟨hin, hwithin⟩
          exact ⟨by omega, by omega, by omega, hwithin⟩

end Loop

section Array
variable {p : RADIUS_Packet} {slots : List RADIUS_Attribute}

/-- A slot of type zero ends the search of `attr`, whatever it looks for. -/
theorem findAttr_stops (hend : ∃ a ∈ slots, a.type = 0) (p_type : U32) :
    findAttr p_type slots ≠ none := by
  induction slots with
  | nil => simp at hend
  | cons a slots ih =>
    rw [findAttr]
    split
    · simp
    · next htype =>
      split
      · simp
      · obtain ⟨b, hb, hzero⟩ := hend
        rcases List.mem_cons.mp hb with rfl | hb
        · exact absurd hzero htype
        · exact ih ⟨b, hb, hzero⟩

theorem slots_end : (∃ a ∈ p.slots, a.type = 0) ↔
    p.attributes.1.length < MAX_RADIUS_ATTRIBUTES := by
  constructor
  · rintro ⟨a, ha, hzero⟩
    rcases List.mem_append.mp ha with ha | ha
    · exact absurd hzero (p.attributes.2.2 a ha)
    · have hfree := List.ne_nil_of_mem ha
      rw [Ne, List.replicate_eq_nil_iff] at hfree
      omega
  · intro hroom
    have hfree : MAX_RADIUS_ATTRIBUTES-p.attributes.1.length ≠ 0 := by omega
    exact ⟨.unset, List.mem_append_right _ (List.mem_replicate.mpr ⟨hfree, rfl⟩), rfl⟩

end Array

section Parse
variable (md5 : List Byte → Digest) (auth_salt : List Byte) (buffer : ℕ → Byte) {pktlength : ℕ}

open RADIUS_Packet

/-- The parser reads below `pktlength` and keeps an end mark in the array, where `attr` stops. -/
def ParsesInside (md5 : List Byte → Digest) (auth_salt : List Byte) (buffer : ℕ → Byte)
    (pktlength : ℕ) : Prop :=
  (RADIUS_Packet.marshall md5 auth_salt).Within pktlength buffer ∧
    ∀ p digest, (RADIUS_Packet.marshall md5 auth_salt).value buffer = (p, digest) →
      (∃ a ∈ p.slots, a.type = 0) ∧ ∀ p_type, p.attr p_type ≠ none

/-- A packet that is parsed inside is parsed from its own bytes alone. -/
theorem ParsesInside.alone {md5 : List Byte → Digest} {auth_salt : List Byte} {buffer buffer' : ℕ → Byte}
    (h : ParsesInside md5 auth_salt buffer pktlength) (hagree : ∀ i < pktlength, buffer' i = buffer i) :
    (RADIUS_Packet.marshall md5 auth_salt).value buffer' =
      (RADIUS_Packet.marshall md5 auth_salt).value buffer :=
  h.1.congr hagree

/-- The length of the packet as its header has it. -/
def lengthField (buffer : ℕ → Byte) : ℕ := (ntohs (shortAt buffer 2)).toNat

/-- What `marshall` reads, besides the header: as many bytes as the length field says, and the
attributes. -/
theorem within_marshall (hpktlength : 20 ≤ pktlength) :
    (RADIUS_Packet.marshall md5 auth_salt).Within pktlength buffer ↔
      lengthField buffer ≤ pktlength ∧
      (readAttributes (lengthField buffer) MAX_RADIUS_ATTRIBUTES 20).Within pktlength buffer := by
  have hshort : (ntohs (buffer 3 ++ buffer 2)).toNat = lengthField buffer := rfl
  simp only [RADIUS_Packet.marshall, Reader.within_bind, Reader.within_fetch,
    Reader.within_fetchMany, Reader.value_fetch, Reader.within_pure, and_true, hshort]
  constructor
  · rintro ⟨-, -, -, -, -, hbody, -, hattributes⟩
    exact ⟨by omega, hattributes⟩
  · rintro ⟨hlength, hattributes⟩
    exact ⟨by omega, by omega, by omega, by omega, by omega, by omega, by omega, hattributes⟩

theorem marshall_slots_end {p : RADIUS_Packet} {digest : Digest}
    (h : (RADIUS_Packet.marshall md5 auth_salt).value buffer = (p, digest)) :
    (∃ a ∈ p.slots, a.type = 0) ↔
      (attributeArea buffer (lengthField buffer)).length < MAX_RADIUS_ATTRIBUTES := by
  have hstored : p.attributes.1.length =
      min MAX_RADIUS_ATTRIBUTES (attributeArea buffer (lengthField buffer)).length := by
    rw [value_marshall] at h
    obtain ⟨rfl, -⟩ := Prod.mk.inj h
    exact length_readAttributes (Nat.le_add_left _ _)
  rw [slots_end, hstored]
  omega

/-- The parser stays inside the packet where the lengths in the packet do, and where the array has
room for one attribute more. -/
theorem radius_parse_inside (hpktlength : 20 ≤ pktlength) :
    ParsesInside md5 auth_salt buffer pktlength ↔
      lengthField buffer ≤ pktlength ∧
      (attributeArea buffer (lengthField buffer)).length < MAX_RADIUS_ATTRIBUTES ∧
      ∀ o ∈ attributeArea buffer (lengthField buffer), o+attributeSize buffer o ≤ pktlength := by
  have hwithin (hlength : lengthField buffer ≤ pktlength)
      (hfew : (attributeArea buffer (lengthField buffer)).length < MAX_RADIUS_ATTRIBUTES) :
      (readAttributes (lengthField buffer) MAX_RADIUS_ATTRIBUTES 20).Within pktlength buffer ↔
        ∀ o ∈ attributeArea buffer (lengthField buffer), o+attributeSize buffer o ≤ pktlength := by
    rw [within_readAttributes hlength (Nat.le_add_left _ _), ← attributeArea,
      List.take_of_length_le hfew.le]
  rw [ParsesInside, within_marshall md5 auth_salt buffer hpktlength]
  constructor
  · rintro ⟨⟨hlength, hattributes⟩, hend⟩
    -- the end mark shows that the array was not filled, so no attribute was left out
    have hfew := (marshall_slots_end md5 auth_salt buffer rfl).mp (hend _ _ rfl).1
    exact ⟨hlength, hfew, (hwithin hlength hfew).mp hattributes⟩
  · rintro ⟨hlength, hfew, hinside⟩
    refine ⟨⟨hlength, (hwithin hlength hfew).mpr hinside⟩, fun p digest h => ?_⟩
    have hmark := (marshall_slots_end md5 auth_salt buffer h).mpr hfew
    exact ⟨hmark, findAttr_stops hmark⟩

/-- A request with a status and a session of three characters. -/
def startRadius : ℕ → Byte :=
  write (write (fun _ => 0) 0 [RAD_ACCT_REQUEST, 0x4F, 0, 31]) 20
    [RAD_ATTR_ACCT_STATUS_TYPE, 6, 0, 0, 0, 11, RAD_ATTR_ACCT_SESSION_ID, 5, 0x61, 0x62, 0x63]

theorem radius_parse_inside_example : ParsesInside (fun _ => zeroAuth) [] startRadius 31 := by
  have hlength : lengthField startRadius ≤ 31 := by decide
  have harea : attributeArea startRadius (lengthField startRadius) = [20, 26] := by decide
  have hinside : ∀ o ∈ [20, 26], o+attributeSize startRadius o ≤ 31 := by decide
  apply (radius_parse_inside (fun _ => zeroAuth) [] startRadius (by decide : 20 ≤ 31)).mpr
  rw [harea]
  exact ⟨hlength, by decide, hinside⟩

/-- The length field of the packet is believed: the parser reads four bytes behind its end. -/
theorem radius_parse_outside :
    ¬ ParsesInside (fun _ => zeroAuth) []
      (write (fun _ => 0) 0 [RAD_ACCT_RESPONSE, 0x4F, 0, 24]) 20 := by
  intro h
  have hlength := ((within_marshall _ _ _ (Nat.le_refl 20)).mp h.1).1
  exact absurd hlength (by decide)

end Parse

end S3Dhcpd
