import S3Dhcpd.RadiusWire

/-! What `marshall` makes of an accounting packet on the wire: the round trip, and the identifier. -/
namespace S3Dhcpd
open ByteMemory ReadLog

section RoundTrip
variable {md5 : List Byte → Digest} {p : RADIUS_Packet} {auth_salt : List Byte}
  {buffer : ℕ → Byte}

/-- The value of an attribute is as long as its length says. -/
def RADIUS_Attribute.Full (a : RADIUS_Attribute) : Prop := a.value.length = a.length.toNat

/-- A packet as the requests of the server are: the array is not full, and the authenticator has
not been set. -/
structure RADIUS_Packet.Unsigned (p : RADIUS_Packet) : Prop where
  auth : p.auth = zeroAuth
  room : p.attributes.1.length < MAX_RADIUS_ATTRIBUTES
  full : ∀ a ∈ p.attributes.1, a.Full

/-- `marshall` recovers what `unmarshall` has sent, under the same secret. -/
def RADIUS_Packet.RoundTrip (md5 : List Byte → Digest) (p : RADIUS_Packet) (auth_salt : List Byte)
    (buffer : ℕ → Byte) : Prop :=
  ∃ out pktlength, p.unmarshall md5 auth_salt buffer = some (out, pktlength) ∧
    ∃ q digest, (RADIUS_Packet.marshall md5 auth_salt).value out = (q, digest) ∧
      q.code = p.code ∧ q.attributes = p.attributes ∧ digest = q.auth ∧
      q.length.toNat = pktlength

open RADIUS_Packet

theorem readAttributes_cons {length offset room : ℕ} {out : ℕ → Byte} (hin : offset < length)
    (htype : out offset ≠ 0) :
    ((readAttributes length (room+1) offset).value out).1 = ⟨out offset, out (offset+1)-2,
      read out (offset+2) (out (offset+1)-2).toNat, (length_read ..).ge⟩ ::
        ((readAttributes length room (offset+((out (offset+1)-2).toNat+2))).value out).1 := by
  rw [readAttributes, if_neg (Nat.not_le.mpr hin), Reader.value_bind, Reader.value_fetch,
    dif_neg htype]
  rfl

/-- The attribute loop of `marshall` over the attributes of a packet. -/
theorem readAttributes_wire {length offset room : ℕ} {out : ℕ → Byte} (l : Attributes room)
    (hfull : ∀ a ∈ l.1, a.Full) (hout : Holds out offset (l.1.flatMap RADIUS_Attribute.wire))
    (hlength : offset+(l.1.flatMap RADIUS_Attribute.wire).length = length) :
    (readAttributes length room offset).value out = l := by
  -- on the slots that are left; the offset moves behind the attribute that was read
  induction room generalizing offset with
  | zero =>
    obtain ⟨attributes, hroom, htypes⟩ := l
    obtain rfl := List.eq_nil_of_length_eq_zero (Nat.le_zero.mp hroom)
    rfl
  | succ room ih =>
    obtain ⟨attributes, hroom, htypes⟩ := l
    cases attributes with
    | nil =>
      have hend : offset ≥ length := by
        simp only [List.flatMap_nil, List.length_nil] at hlength
        omega
      rw [readAttributes, if_pos hend]
      rfl
    | cons a attributes =>
      have ha : a.Full := hfull a List.mem_cons_self
      have hlen := length_attribute_wire a
      rw [List.flatMap_cons, List.length_append, hlen] at hlength
      rw [List.flatMap_cons, holds_append, hlen] at hout
      obtain ⟨⟨htype, hlen_byte, hvalue⟩, hrest⟩ := hout
      -- the parser takes off the two bytes that the encoder added
      have hlen_value : out (offset+1)-2 = a.length := by rw [hlen_byte, BitVec.add_sub_cancel]
      have hin : offset < length := by omega
      have hnonzero : out offset ≠ 0 := htype ▸ htypes a List.mem_cons_self
      rw [List.take_of_length_le ha.le, holds_iff_read, ha] at hvalue
      have hrest_value := @ih (offset+(a.length.toNat+2))
        ⟨attributes, Nat.le_of_succ_le_succ hroom, fun b hb => htypes b (List.mem_cons_of_mem a hb)⟩
        (fun b hb => hfull b (List.mem_cons_of_mem a hb)) hrest (by rw [← hlength, Nat.add_assoc])
      have hattribute : (⟨out offset, out (offset+1)-2,
          read out (offset+2) (out (offset+1)-2).toNat, (length_read ..).ge⟩ : RADIUS_Attribute) = a := by
        apply RADIUS_Attribute.ext htype hlen_value
        rw [hlen_value]
        exact hvalue
      apply Subtype.ext
      rw [readAttributes_cons hin hnonzero, hattribute, hlen_value, hrest_value]

theorem radius_fields {ident : Byte} {out : ℕ → Byte} {digest : Digest}
    (h : Holds out 0 (p.head ident ++ digest.1 ++ p.attributesWire)) :
    out 0 = p.code ∧ out 1 = ident ∧
      ntohs (shortAt out 2) = BitVec.ofNat 16 (20+p.attributesWire.length) ∧
      read out 0 4 = p.head ident ∧ read out 4 16 = digest.1 ∧
      Holds out 20 p.attributesWire := by
  have hdigest_length : digest.1.length = 16 := digest.2
  have hhead_length : (p.head ident).length = 4 := rfl
  rw [holds_append, holds_append, List.length_append, hdigest_length, hhead_length] at h
  obtain ⟨⟨hhead, hdigest⟩, hbody⟩ := h
  have hread := hhead.read
  rw [holds_iff_read, hdigest_length] at hdigest
  obtain ⟨hcode, hident, hlength⟩ := hhead
  refine ⟨hcode, hident, ?_, hread, hdigest, hbody⟩
  have hshort : shortAt out 2 = htons (BitVec.ofNat 16 (20+p.attributesWire.length)) :=
    holds_shortBytes.mp hlength
  rw [hshort, ntohs, htons_htons]

theorem value_marshall (md5 : List Byte → Digest) (auth_salt : List Byte) (out : ℕ → Byte) :
    (RADIUS_Packet.marshall md5 auth_salt).value out =
      (⟨out 0, out 1, ntohs (shortAt out 2), ⟨read out 4 16, length_read ..⟩,
        (readAttributes (ntohs (shortAt out 2)).toNat MAX_RADIUS_ATTRIBUTES 20).value out⟩,
      md5 (read out 0 4 ++ zeroAuth.1 ++ read out 20 ((ntohs (shortAt out 2)).toNat-20) ++
        auth_salt)) := by
  simp only [RADIUS_Packet.marshall, Reader.value_bind, Reader.value_fetch, Reader.value_fetchMany,
    Reader.value_pure]
  rfl

theorem RADIUS_Packet.Unsigned.roundTrip (hp : p.Unsigned) : p.RoundTrip md5 auth_salt buffer := by
  obtain ⟨out, hout, hholds⟩ := unmarshall_radius md5 p auth_salt buffer hp.room
  obtain ⟨hcode, -, hlength, hhead, hauth, hbody⟩ := radius_fields hholds
  have hlength_nat : (ntohs (shortAt out 2)).toNat = 20+p.attributesWire.length := by
    rw [hlength, BitVec.toNat_ofNat, Nat.mod_eq_of_lt (attributesWire_lt p)]
  refine ⟨out, _, hout, _, _, value_marshall md5 auth_salt out, hcode, ?_, ?_, hlength_nat⟩
  · exact readAttributes_wire p.attributes hp.full hbody hlength_nat.symm
  · apply Subtype.ext
    -- the authenticator was computed over the zeroes that the parser puts in its place
    have hdigest : md5 (read out 0 4 ++ zeroAuth.1 ++
        read out 20 ((ntohs (shortAt out 2)).toNat-20) ++ auth_salt) =
          p.authenticator md5 auth_salt (buffer 1) := by
      rw [hhead, hlength_nat, Nat.add_sub_cancel_left, hbody.read, ← hp.auth]
      rfl
    rw [hdigest]
    exact hauth.symm

theorem ofStr_full {type : Byte} {value : List Byte} (h : value.length < 256) :
    (RADIUS_Attribute.ofStr type value).Full := by
  have hlength : (BitVec.ofNat 8 value.length).toNat = value.length := by
    rw [BitVec.toNat_ofNat, Nat.mod_eq_of_lt h]
  exact hlength.symm

/-- The accounting requests of the server are such packets while their texts fit. -/
theorem createAcctRequest_unsigned {status_type : U32} {auth_info ipaddr : String}
    (hauth_info : auth_info.length ≤ 253) (hipaddr : ipaddr.length ≤ 253) :
    (createAcctRequest status_type auth_info ipaddr).Unsigned where
  auth := rfl
  room := Nat.lt_of_sub_pos (by decide : 0 < MAX_RADIUS_ATTRIBUTES-5)
  full := by
    intro a ha
    have hlen : ∀ s : String, (textBytes s).length = s.length := by
      intro s
      rw [textBytes, List.length_map, String.length_toList]
    simp only [createAcctRequest, List.mem_cons, List.not_mem_nil, or_false] at ha
    rcases ha with rfl | rfl | rfl | rfl | rfl
    · rfl
    · exact ofStr_full (by rw [hlen]; omega)
    · exact ofStr_full (by decide)
    · exact ofStr_full (by rw [hlen]; omega)
    · rfl

/-- The parser takes back what was sent under the same secret, and its digest is the authenticator.
The accounting requests of the server are sent so while their texts fit. -/
theorem radius_codec (md5 : List Byte → Digest) (auth_salt : List Byte) (buffer : ℕ → Byte) :
    (∀ p : RADIUS_Packet, p.Unsigned → p.RoundTrip md5 auth_salt buffer) ∧
    ∀ (status_type : U32) (auth_info ipaddr : String), auth_info.length ≤ 253 →
      ipaddr.length ≤ 253 → (createAcctRequest status_type auth_info ipaddr).Unsigned :=
  ⟨fun _ hp => hp.roundTrip, fun _ _ _ => createAcctRequest_unsigned⟩

/-- An accounting request as it is sent when a lease begins. -/
def exampleRequest : RADIUS_Packet := createAcctRequest 11 "02:00:00:00:00:01" "192.168.1.7"

theorem radius_codec_request :
    exampleRequest.RoundTrip (fun l => List.Vector.ofFn fun i => l.getD i.1 0)
      (textBytes "secret") (fun _ => 0) :=
  (radius_codec _ _ _).1 _ ((radius_codec (fun _ => zeroAuth) [] (fun _ => 0)).2 _ _ _
    (by decide) (by decide))

end RoundTrip

section Identifier
variable {md5 : List Byte → Digest} {p : RADIUS_Packet} {auth_salt : List Byte}
  {buffer buffer' : ℕ → Byte}

open RADIUS_Packet

/-- Two runs over different buffers send the same bytes, and the identifier among them. -/
def RADIUS_Packet.Determined (md5 : List Byte → Digest) (p : RADIUS_Packet) (auth_salt : List Byte)
    (buffer buffer' : ℕ → Byte) : Prop :=
  ∃ out out' pktlength, p.unmarshall md5 auth_salt buffer = some (out, pktlength) ∧
    p.unmarshall md5 auth_salt buffer' = some (out', pktlength) ∧
    (∀ i < pktlength, out i = out' i) ∧ out 1 = p.ident ∧ out' 1 = p.ident

theorem unmarshall_ident {out : ℕ → Byte} {pktlength : ℕ}
    (h : p.unmarshall md5 auth_salt buffer = some (out, pktlength)) :
    p.attributes.1.length < MAX_RADIUS_ATTRIBUTES ∧ out 1 = buffer 1 := by
  have hroom : p.attributes.1.length < MAX_RADIUS_ATTRIBUTES := by
    apply p.attributes.2.1.lt_of_ne
    intro hfull
    rw [RADIUS_Packet.unmarshall, if_pos hfull] at h
    cases h
  obtain ⟨out', hout', hholds⟩ := unmarshall_radius md5 p auth_salt buffer hroom
  obtain ⟨rfl, -⟩ := Prod.mk.inj (Option.some.inj (h.symm.trans hout'))
  exact ⟨hroom, (radius_fields hholds).2.1⟩

/-- The packet is determined only where the buffer held the identifier already. -/
theorem unmarshall_determined (md5 : List Byte → Digest) (p : RADIUS_Packet) (auth_salt : List Byte)
    (buffer buffer' : ℕ → Byte) :
    p.Determined md5 auth_salt buffer buffer' ↔
      p.attributes.1.length < MAX_RADIUS_ATTRIBUTES ∧ buffer 1 = p.ident ∧ buffer' 1 = p.ident := by
  constructor
  · rintro ⟨out, out', pktlength, hout, hout', -, hident, hident'⟩
    obtain ⟨hroom, hbuffer⟩ := unmarshall_ident hout
    exact ⟨hroom, hbuffer.symm.trans hident, (unmarshall_ident hout').2.symm.trans hident'⟩
  · rintro ⟨hroom, hbuffer, hbuffer'⟩
    obtain ⟨out, hout, hholds⟩ := unmarshall_radius md5 p auth_salt buffer hroom
    obtain ⟨out', hout', hholds'⟩ := unmarshall_radius md5 p auth_salt buffer' hroom
    refine ⟨out, out', _, hout, hout', fun i hi => ?_, (unmarshall_ident hout).2.trans hbuffer,
      (unmarshall_ident hout').2.trans hbuffer'⟩
    -- under one identifier both runs write one list of bytes
    rw [hbuffer] at hholds
    rw [hbuffer'] at hholds'
    apply hholds.agree hholds' (Nat.zero_le i)
    have hdigest_length : (p.authenticator md5 auth_salt p.ident).1.length = 16 :=
      (p.authenticator md5 auth_salt p.ident).2
    have hhead_length : (p.head p.ident).length = 4 := rfl
    rw [List.length_append, List.length_append, hdigest_length, hhead_length]
    omega

/-- The request of the server goes out under whatever identifier stood in the buffer. -/
theorem exampleRequest_not_determined :
    ¬ exampleRequest.Determined (fun _ => zeroAuth) (textBytes "secret") (fun _ => 0) (fun _ => 1) := by
  rintro ⟨out, out', pktlength, hout, -, -, hident, -⟩
  have hbuffer := (unmarshall_ident hout).2.symm.trans hident
  exact absurd hbuffer (by decide)

end Identifier

end S3Dhcpd
