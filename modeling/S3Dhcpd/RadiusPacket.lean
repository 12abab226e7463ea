import S3Dhcpd.ReadLog
import S3Dhcpd.Wire

/-! `RADIUS_Packet`: accounting requests, their bytes, and the parser of responses. MD5 is a
parameter, a function of everything that has been appended; `Md5` and `RadiusNet` put in the one of
`md5.c`. -/
namespace S3Dhcpd
open ByteMemory ReadLog

def RAD_ACCT_REQUEST : Byte := 4
def RAD_ACCT_RESPONSE : Byte := 5

def RAD_ATTR_NAS_IP_ADDRESS : Byte := 4
def RAD_ATTR_CALLED_STATION_ID : Byte := 30
def RAD_ATTR_CALLING_STATION_ID : Byte := 31
def RAD_ATTR_ACCT_STATUS_TYPE : Byte := 40
def RAD_ATTR_ACCT_SESSION_ID : Byte := 44

def MAX_RADIUS_ATTRIBUTES : ℕ := 64

/-- `md5_byte_t digest[16]` -/
abbrev Digest := List.Vector Byte 16

/-- `u_char _auth[16]`, as the constructor clears it. -/
def zeroAuth : Digest := List.Vector.replicate 16 0

/-- An attribute whose value is stored in at least as many bytes as its length says. -/
@[ext] structure RADIUS_Attribute where
  type : Byte
  length : Byte
  value : List Byte
  stored : length.toNat ≤ value.length
deriving DecidableEq

namespace RADIUS_Attribute

/-- `int_attr` -/
def ofInt (type : Byte) (value : U32) : RADIUS_Attribute := ⟨type, 4, bytesOf value, Nat.le_refl 4⟩

/-- `str_attr`: the length is kept in a byte, however long the text is. -/
def ofStr (type : Byte) (value : List Byte) : RADIUS_Attribute where
  type := type
  length := BitVec.ofNat 8 value.length
  value := value
  stored := by
    rw [BitVec.toNat_ofNat]
    exact Nat.mod_le _ _

/-- A slot as the constructor leaves it. -/
def unset : RADIUS_Attribute := ⟨0, 0, [], Nat.le_refl 0⟩

end RADIUS_Attribute

/-- The attributes in front of the first slot of type zero, with room for so many. -/
abbrev Attributes (room : ℕ) : Type :=
  {l : List RADIUS_Attribute // l.length ≤ room ∧ ∀ a ∈ l, a.type ≠ 0}

namespace Attributes

def empty (room : ℕ) : Attributes room :=
  ⟨[], Nat.zero_le _, fun _ ha => absurd ha List.not_mem_nil⟩

def cons {room : ℕ} (a : RADIUS_Attribute) (ha : a.type ≠ 0) (rest : Attributes room) :
    Attributes (room+1) :=
  ⟨a :: rest.1, Nat.succ_le_succ rest.2.1, List.forall_mem_cons.mpr ⟨ha, rest.2.2⟩⟩

end Attributes

structure RADIUS_Packet where
  code : Byte
  ident : Byte
  length : BitVec 16
  auth : Digest
  attributes : Attributes MAX_RADIUS_ATTRIBUTES

/-- The bytes of a C text. -/
def textBytes (s : String) : List Byte := s.toList.map byteOfChar

/-- The loop of `attr` over the slots of an array: without a slot of type zero it may leave it. -/
def findAttr (p_type : U32) : List RADIUS_Attribute → Option (Option RADIUS_Attribute)
  | [] => none
  | a :: slots =>
    if a.type = 0 then some none
    else if a.type.zeroExtend 32 = p_type then some (some a)
    else findAttr p_type slots

namespace RADIUS_Packet

/-- `_attributes[MAX_RADIUS_ATTRIBUTES]` -/
def slots (p : RADIUS_Packet) : List RADIUS_Attribute :=
  p.attributes.1 ++ List.replicate (MAX_RADIUS_ATTRIBUTES-p.attributes.1.length) .unset

def attr (p : RADIUS_Packet) (p_type : U32) : Option (Option RADIUS_Attribute) :=
  findAttr p_type p.slots

/-- `sizeof("dhcpd")` counts the terminating zero. -/
def createAcctRequest (status_type : U32) (auth_info ipaddr : String) : RADIUS_Packet where
  code := RAD_ACCT_REQUEST
  ident := 0x4F
  length := 20
  auth := zeroAuth
  attributes := ⟨[
    .ofInt RAD_ATTR_ACCT_STATUS_TYPE (htonl status_type),
    .ofStr RAD_ATTR_ACCT_SESSION_ID (textBytes auth_info),
    .ofStr RAD_ATTR_CALLED_STATION_ID (textBytes "dhcpd" ++ [0]),
    .ofStr RAD_ATTR_CALLING_STATION_ID (textBytes ipaddr),
    .ofInt RAD_ATTR_NAS_IP_ADDRESS 0], by simp [MAX_RADIUS_ATTRIBUTES], by
      simp [RADIUS_Attribute.ofInt, RADIUS_Attribute.ofStr, RAD_ATTR_ACCT_STATUS_TYPE,
        RAD_ATTR_ACCT_SESSION_ID, RAD_ATTR_CALLED_STATION_ID, RAD_ATTR_CALLING_STATION_ID,
        RAD_ATTR_NAS_IP_ADDRESS]⟩

section Parse
variable (length : ℕ)

/-- The attribute loop of `marshall`, with so many slots of the array left. An attribute whose
length byte is 0 or 1 is taken for one of 254 or 255 bytes. -/
def readAttributes : (room : ℕ) → ℕ → Reader Byte (Attributes room)
  | 0, _ => pure (.empty 0)
  | room+1, attribute_offset =>
    if attribute_offset ≥ length then pure (.empty _)
    else do
      let type ← Reader.fetch attribute_offset
      if h : type = 0 then pure (.empty _)
      else do
        let len := (← Reader.fetch (attribute_offset+1))-2
        let value ← Reader.fetchMany (attribute_offset+2) len.toNat
        let rest ← readAttributes room (attribute_offset+(len.toNat+2))
        return .cons ⟨type, len, value.1, value.2.ge⟩ h rest

end Parse

variable (md5 : List Byte → Digest)

/-- `marshall` on a packet fresh from the constructor: the packet that is read, and the digest that
its authenticator is compared with. A mismatch is only logged, and `pktlength` is not used. -/
def marshall (auth_salt : List Byte) : Reader Byte (RADIUS_Packet × Digest) := do
  let code ← Reader.fetch 0
  let ident ← Reader.fetch 1
  let length := ntohs ((← Reader.fetch 3) ++ (← Reader.fetch 2))
  -- Code + Identifier + Length, auth is all zeroes at this point, taking in account all attributes
  let head ← Reader.fetchMany 0 4
  let body ← Reader.fetchMany 20 (length.toNat-20)
  let digest := md5 (head.1 ++ zeroAuth.1 ++ body.1 ++ auth_salt)
  let auth ← Reader.fetchMany 4 16
  let attributes ← readAttributes length.toNat MAX_RADIUS_ATTRIBUTES 20
  return (⟨code, ident, length, auth, attributes⟩, digest)

/-- The attribute loop of `unmarshall`, with the packet's length so far in a `ushort`. -/
def writeAttributes : List RADIUS_Attribute → (ℕ → Byte) → ℕ → BitVec 16 → (ℕ → Byte) × BitVec 16
  | [], buffer, _, packet_len => (buffer, packet_len)
  | a :: attributes, buffer, attribute_offset, packet_len =>
    let buffer := write buffer attribute_offset [a.type]
    let buffer := write buffer (attribute_offset+1) [a.length+2]
    let buffer := write buffer (attribute_offset+2) (a.value.take a.length.toNat)
    writeAttributes attributes buffer (attribute_offset+(a.length.toNat+2))
      (packet_len+BitVec.ofNat 16 (a.length.toNat+2))

/-- The buffer after `unmarshall`, and the length of the packet in it. The identifier is not
written. A full array has no slot of type zero where the attribute loop could stop. -/
def unmarshall (p : RADIUS_Packet) (auth_salt : List Byte) (buffer : ℕ → Byte) :
    Option ((ℕ → Byte) × ℕ) :=
  if p.attributes.1.length = MAX_RADIUS_ATTRIBUTES then none
  else
    let buffer := write buffer 0 [p.code]
    let (buffer, packet_len) := writeAttributes p.attributes.1 buffer 20 20
    let buffer := write buffer 2 (shortBytes (htons packet_len))
    let digest := md5 (read buffer 0 4 ++ p.auth.1 ++ read buffer 20 (packet_len.toNat-20) ++
      auth_salt)
    some (write buffer 4 digest.1, packet_len.toNat)

end RADIUS_Packet

end S3Dhcpd
