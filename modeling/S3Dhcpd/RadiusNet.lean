import S3Dhcpd.Md5Stream
import S3Dhcpd.RadiusCodec

/-! `RADIUS_Net`: accounting datagrams under the digest that `md5.c` computes. -/
namespace S3Dhcpd
open ByteMemory ReadLog

/-- A state on the stack, and one call of `md5_append` for each part. -/
def partsDigest (garbage : ℕ → Byte) (parts : List (List Byte)) : Digest :=
  Md5.md5Finish (parts.foldl Md5.md5Append (Md5.md5Init garbage))

theorem partsDigest_eq (garbage : ℕ → Byte) {parts : List (List Byte)}
    (hparts : ∀ part ∈ parts, Md5.Countable part) :
    partsDigest garbage parts = Md5.md5 parts.flatten :=
  (Md5.appended_pieces garbage hparts).finish

namespace RADIUS_Packet
variable (garbage : ℕ → Byte)

/-- `unmarshall` with its calls of `md5_append`. -/
def unmarshallParts (p : RADIUS_Packet) (auth_salt : List Byte) (buffer : ℕ → Byte) :
    Option ((ℕ → Byte) × ℕ) :=
  if p.attributes.1.length = MAX_RADIUS_ATTRIBUTES then none
  else
    let buffer := write buffer 0 [p.code]
    let (buffer, packet_len) := writeAttributes p.attributes.1 buffer 20 20
    let buffer := write buffer 2 (shortBytes (htons packet_len))
    let digest := partsDigest garbage
      [read buffer 0 4, p.auth.1, read buffer 20 (packet_len.toNat-20), auth_salt]
    some (write buffer 4 digest.1, packet_len.toNat)

/-- `marshall` with its calls of `md5_append`. -/
def marshallParts (auth_salt : List Byte) : Reader Byte (RADIUS_Packet × Digest) := do
  let code ← Reader.fetch 0
  let ident ← Reader.fetch 1
  let length := ntohs ((← Reader.fetch 3) ++ (← Reader.fetch 2))
  let head ← Reader.fetchMany 0 4
  let body ← Reader.fetchMany 20 (length.toNat-20)
  let digest := partsDigest garbage [head.1, zeroAuth.1, body.1, auth_salt]
  let auth ← Reader.fetchMany 4 16
  let attributes ← readAttributes length.toNat MAX_RADIUS_ATTRIBUTES 20
  return (⟨code, ident, length, auth, attributes⟩, digest)

theorem countable_short {l : List Byte} (h : l.length < 2^16) : Md5.Countable l := by
  rw [Md5.Countable]
  omega

/-- The digest over a header, an authenticator, a body and the salt. -/
theorem partsDigest_four {a b c d : List Byte} (ha : a.length < 2^16) (hb : b.length < 2^16)
    (hc : c.length < 2^16) (hd : Md5.Countable d) :
    partsDigest garbage [a, b, c, d] = Md5.md5 (a ++ b ++ c ++ d) := by
  rw [partsDigest_eq]
  · simp only [List.flatten_cons, List.flatten_nil, List.append_nil, List.append_assoc]
  · simp only [List.forall_mem_cons, List.not_mem_nil, false_implies, implies_true, and_true]
    exact ⟨countable_short ha, countable_short hb, countable_short hc, hd⟩

section Parts
variable {auth_salt : List Byte} (hsalt : Md5.Countable auth_salt)
include hsalt

theorem unmarshallParts_eq (p : RADIUS_Packet) (buffer : ℕ → Byte) :
    p.unmarshallParts garbage auth_salt buffer = p.unmarshall Md5.md5 auth_salt buffer := by
  have hbody (n : BitVec 16) : n.toNat-20 < 2^16 := by
    have hn := n.isLt
    omega
  have hauth : p.auth.1.length = 16 := p.auth.2
  have hdigest (written : ℕ → Byte) (n : BitVec 16) :
      partsDigest garbage [read written 0 4, p.auth.1, read written 20 (n.toNat-20), auth_salt] =
        Md5.md5 (read written 0 4 ++ p.auth.1 ++ read written 20 (n.toNat-20) ++ auth_salt) := by
    apply partsDigest_four garbage _ _ _ hsalt
    · rw [length_read]
      decide
    · rw [hauth]
      decide
    · rw [length_read]
      exact hbody n
  simp only [unmarshallParts, hdigest, RADIUS_Packet.unmarshall]

theorem marshallParts_eq :
    marshallParts garbage auth_salt = RADIUS_Packet.marshall Md5.md5 auth_salt := by
  have hdigest (head : List.Vector Byte 4) (n : BitVec 16) (body : List.Vector Byte (n.toNat-20)) :
      partsDigest garbage [head.1, zeroAuth.1, body.1, auth_salt] =
        Md5.md5 (head.1 ++ zeroAuth.1 ++ body.1 ++ auth_salt) := by
    have hn := n.isLt
    apply partsDigest_four garbage _ _ _ hsalt
    · rw [head.2]
      decide
    · rw [zeroAuth.2]
      decide
    · rw [body.2]
      omega
  simp only [marshallParts, hdigest, RADIUS_Packet.marshall]

end Parts

end RADIUS_Packet

def RAD_SESSION_DHCP_START : U32 := 11
def RAD_SESSION_DHCP_END : U32 := 12

namespace RADIUS_Net

/-- `u_char message_buf[1024]` -/
def MESSAGE_BUF : ℕ := 1024

/-- The bytes that `send_acct_message` hands to `sendto`. The message buffer and the digest state
are on the stack. -/
def sendAcctMessage (garbage message_buf : ℕ → Byte) (auth_salt : List Byte) (status_type : U32)
    (auth_info ipaddr : String) : Option (List Byte) := do
  let request := RADIUS_Packet.createAcctRequest status_type auth_info ipaddr
  let (message_buf, message_length) ← request.unmarshallParts garbage auth_salt message_buf
  return read message_buf 0 message_length

/-- What the parser finds in a datagram that begins at the front of a buffer: the status, the
session and the calling station of an authentic request. -/
def received (garbage : ℕ → Byte) (auth_salt : List Byte) (buffer : ℕ → Byte) :
    Option (List Byte × List Byte × List Byte) := do
  let (q, digest) := (RADIUS_Packet.marshallParts garbage auth_salt).value buffer
  let status ← (q.attr (RAD_ATTR_ACCT_STATUS_TYPE.zeroExtend 32)).join
  let session ← (q.attr (RAD_ATTR_ACCT_SESSION_ID.zeroExtend 32)).join
  let station ← (q.attr (RAD_ATTR_CALLING_STATION_ID.zeroExtend 32)).join
  if q.code = RAD_ACCT_REQUEST ∧ digest = q.auth then
    return (status.value, session.value, station.value)
  else none

section Messages
variable {garbage message_buf : ℕ → Byte} {auth_salt : List Byte} {status_type : U32}
  {auth_info ipaddr : String}

theorem length_textBytes (s : String) : (textBytes s).length = s.length := by
  rw [textBytes, List.length_map, String.length_toList]

/-- How long the attributes of a request are. -/
theorem length_request (hauth : auth_info.length ≤ 253) (hip : ipaddr.length ≤ 253) :
    (RADIUS_Packet.createAcctRequest status_type auth_info ipaddr).attributesWire.length =
      24+auth_info.length+ipaddr.length := by
  have hattribute (a : RADIUS_Attribute) : a.wire.length = a.length.toNat+2 :=
    length_attribute_wire a
  have htext {s : String} (h : s.length ≤ 253) (type : Byte) :
      (RADIUS_Attribute.ofStr type (textBytes s)).wire.length = s.length+2 := by
    rw [hattribute, RADIUS_Attribute.ofStr, BitVec.toNat_ofNat, length_textBytes,
      Nat.mod_eq_of_lt (by omega)]
  simp only [RADIUS_Packet.attributesWire, RADIUS_Packet.createAcctRequest, List.flatMap_cons,
    List.flatMap_nil, List.length_append, List.length_nil, htext hauth, htext hip]
  have hname : (textBytes "dhcpd" ++ [0]).length = 6 := by decide
  have hfour : (4 : Byte).toNat = 4 := rfl
  simp only [hattribute, RADIUS_Attribute.ofInt, RADIUS_Attribute.ofStr, hname, hfour,
    BitVec.toNat_ofNat]
  omega

/-- The parser on any memory in which the bytes of an unsigned packet stand. -/
theorem marshall_holds {md5 : List Byte → Digest} {p : RADIUS_Packet} (hp : p.Unsigned)
    {ident : Byte} {buffer : ℕ → Byte} (h : Holds buffer 0
      (p.head ident ++ (p.authenticator md5 auth_salt ident).1 ++ p.attributesWire)) :
    ∃ q digest, (RADIUS_Packet.marshall md5 auth_salt).value buffer = (q, digest) ∧
      q.code = p.code ∧ q.attributes = p.attributes ∧ digest = q.auth := by
  obtain ⟨hcode, -, hlength, hhead, hauth, hbody⟩ := radius_fields h
  have hlength_nat : (ntohs (shortAt buffer 2)).toNat = 20+p.attributesWire.length := by
    rw [hlength, BitVec.toNat_ofNat, Nat.mod_eq_of_lt (attributesWire_lt p)]
  refine ⟨_, _, value_marshall md5 auth_salt buffer, hcode, ?_, ?_⟩
  · exact readAttributes_wire p.attributes hp.full hbody hlength_nat.symm
  · apply Subtype.ext
    have hdigest : md5 (read buffer 0 4 ++ zeroAuth.1 ++
        read buffer 20 ((ntohs (shortAt buffer 2)).toNat-20) ++ auth_salt) =
          p.authenticator md5 auth_salt ident := by
      rw [hhead, hlength_nat, Nat.add_sub_cancel_left, hbody.read, ← hp.auth]
      rfl
    rw [hdigest]
    exact hauth.symm

/-- The attributes by which a request names its session. -/
theorem attr_request {q : RADIUS_Packet} (hq : q.attributes =
    (RADIUS_Packet.createAcctRequest status_type auth_info ipaddr).attributes) :
    q.attr (RAD_ATTR_ACCT_STATUS_TYPE.zeroExtend 32) =
      some (some (.ofInt RAD_ATTR_ACCT_STATUS_TYPE (htonl status_type))) ∧
    q.attr (RAD_ATTR_ACCT_SESSION_ID.zeroExtend 32) =
      some (some (.ofStr RAD_ATTR_ACCT_SESSION_ID (textBytes auth_info))) ∧
    q.attr (RAD_ATTR_CALLING_STATION_ID.zeroExtend 32) =
      some (some (.ofStr RAD_ATTR_CALLING_STATION_ID (textBytes ipaddr))) := by
  simp only [RADIUS_Packet.attr, RADIUS_Packet.slots, hq, RADIUS_Packet.createAcctRequest,
    List.cons_append]
  refine ⟨?_, ?_, ?_⟩ <;> simp [findAttr, RADIUS_Attribute.ofInt, RADIUS_Attribute.ofStr,
    RAD_ATTR_ACCT_STATUS_TYPE, RAD_ATTR_ACCT_SESSION_ID, RAD_ATTR_CALLED_STATION_ID,
    RAD_ATTR_CALLING_STATION_ID]

/-- A message whose texts fit their attributes fits the buffer, and is received as it was meant,
whatever the memory held that it was built in and the memory that it is received in. -/
theorem acct_message_received (garbage message_buf garbage' : ℕ → Byte)
    (hsalt : Md5.Countable auth_salt) (status_type : U32) (hauth : auth_info.length ≤ 253)
    (hip : ipaddr.length ≤ 253) :
    ∃ datagram, sendAcctMessage garbage message_buf auth_salt status_type auth_info ipaddr =
        some datagram ∧ datagram.length = 44+auth_info.length+ipaddr.length ∧
      datagram.length ≤ MESSAGE_BUF ∧ ∀ buffer, Holds buffer 0 datagram →
        received garbage' auth_salt buffer =
          some (bytesOf (htonl status_type), textBytes auth_info, textBytes ipaddr) := by
  have hp := @createAcctRequest_unsigned status_type auth_info ipaddr hauth hip
  have hlength := @length_request status_type auth_info ipaddr hauth hip
  obtain ⟨out, hout, hholds⟩ := unmarshall_radius Md5.md5
    (RADIUS_Packet.createAcctRequest status_type auth_info ipaddr) auth_salt message_buf hp.room
  have hsize : (44+auth_info.length+ipaddr.length) =
      20+(RADIUS_Packet.createAcctRequest status_type auth_info ipaddr).attributesWire.length := by
    rw [hlength]
    omega
  refine ⟨read out 0 (44+auth_info.length+ipaddr.length), ?_, length_read .., ?_, ?_⟩
  · simp only [sendAcctMessage, RADIUS_Packet.unmarshallParts_eq garbage hsalt, hout, hsize]
    rfl
  · rw [length_read, MESSAGE_BUF]
    omega
  · intro buffer hbuffer
    -- what was sent is what `unmarshall` left in its buffer
    have hsent := hholds.read
    rw [List.length_append, List.length_append,
      ((RADIUS_Packet.createAcctRequest status_type auth_info ipaddr).authenticator Md5.md5 auth_salt
        (message_buf 1)).2, show ((RADIUS_Packet.createAcctRequest status_type auth_info
        ipaddr).head (message_buf 1)).length = 4 from rfl] at hsent
    rw [hsize, hsent] at hbuffer
    obtain ⟨q, digest, hvalue, hcode, hattributes, hdigest⟩ := marshall_holds hp hbuffer
    obtain ⟨hstatus, hsession, hstation⟩ := attr_request hattributes
    have hauthentic : q.code = RAD_ACCT_REQUEST ∧ digest = q.auth := ⟨hcode, hdigest⟩
    simp only [received, RADIUS_Packet.marshallParts_eq garbage' hsalt, hvalue, hstatus, hsession,
      hstation]
    simp only [Option.join_some, Option.bind_eq_bind, Option.bind_some, if_pos hauthentic]
    rfl

end Messages

end RADIUS_Net

end S3Dhcpd
