import S3Dhcpd.Subnets

/-! `DHCP_Packet`: requests parsed from the receive buffer, and the replies to them. -/
namespace S3Dhcpd

def DHCP_DISCOVER : Byte := 1
def DHCP_OFFER : Byte := 2
def DHCP_REQUEST : Byte := 3
def DHCP_DECLINE : Byte := 4
def DHCP_ACK : Byte := 5
def DHCP_NAK : Byte := 6
def DHCP_RELEASE : Byte := 7
def DHCP_INFORM : Byte := 8

def DHO_PAD : Byte := 0
def DHO_SUBNET : Byte := 1
def DHO_ROUTERS : Byte := 3
def DHO_DOMAIN_NAME_SERVERS : Byte := 6
def DHO_DOMAIN_NAME : Byte := 15
def DHO_DHCP_REQUESTED_ADDRESS : Byte := 50
def DHO_DHCP_LEASE_TIME : Byte := 51
def DHO_DHCP_MESSAGE_TYPE : Byte := 53
def DHO_DHCP_SERVER_IDENTIFIER : Byte := 54
def DHO_DHCP_RENEWAL_TIME : Byte := 58
def DHO_END : Byte := 255

def BOOT_REPLY : Byte := 2
def BOOTP_ABSOLUTE_MIN_LEN : ℕ := 236
def MAX_DHCP_OPTIONS : ℕ := 32

structure DHCP_Option where
  code : Byte
  length : Byte
  value : List Byte
deriving DecidableEq, Repr

/-- The options are those before the first `DHO_END`. -/
structure DHCP_Packet where
  op : Byte
  htype : Byte
  hlen : Byte
  hops : Byte
  xid : U32
  secs : BitVec 16
  flags : BitVec 16
  ciaddr : U32
  yiaddr : U32
  siaddr : U32
  giaddr : U32
  chaddr : List Byte
  sname : List Byte
  file : List Byte
  options : List DHCP_Option
deriving DecidableEq, Repr

inductive DHCP_PacketException where
  | invalidCookie
  | notAllowed (ip : String)
deriving DecidableEq, Repr

def DHCP_PacketException.msg : DHCP_PacketException → String
  | .invalidCookie => "Invalid dhcp magic cookie"
  | .notAllowed ip => "ip '" ++ ip ++ "' is not within allowed range"

/-- Memory that the program reads without having written it: behind the value of the first option
of a code, and in the eight bytes allocated for nameservers. -/
structure Garbage where
  beyond : Byte → ℕ → Byte
  dns : ℕ → Byte

section Parse
variable (buffer : ℕ → Byte)

def bytesAt (offset n : ℕ) : List Byte := (List.range n).map fun i => buffer (offset+i)

def uint32At (offset : ℕ) : U32 :=
  uint32 (buffer offset) (buffer (offset+1)) (buffer (offset+2)) (buffer (offset+3))

def shortAt (offset : ℕ) : BitVec 16 := buffer (offset+1) ++ buffer offset

def checkMagicCookie (len : ℕ) : Bool :=
  !(len < 240 || bytesAt buffer 236 4 != [0x63, 0x82, 0x53, 0x63])

/-- The option loop of `marshall`. What lies behind the packet in the buffer is read when an
option reaches there. -/
def readOptions (pktlength : ℕ) : ℕ → ℕ → ℕ → List DHCP_Option
  | 0, _, _ => []
  | fuel+1, option_idx, option_offset =>
    if (option_offset : ℤ) > pktlength-1 then []
    -- the end mark then goes behind the array
    else if option_idx = MAX_DHCP_OPTIONS then []
    else if buffer option_offset = DHO_PAD then
      readOptions pktlength fuel option_idx (option_offset+1)
    else if buffer option_offset = DHO_END then []
    else
      let length := buffer (option_offset+1)
      ⟨buffer option_offset, length, bytesAt buffer (option_offset+2) length.toNat⟩ ::
        readOptions pktlength fuel (option_idx+1) (option_offset+length.toNat+2)

def marshall (pktlength : ℕ) : Except DHCP_PacketException DHCP_Packet :=
  if !checkMagicCookie buffer pktlength then .error .invalidCookie
  else .ok {
    op := buffer 0
    htype := buffer 1
    hlen := buffer 2
    hops := buffer 3
    xid := uint32At buffer 4
    secs := shortAt buffer 8
    flags := shortAt buffer 10
    ciaddr := uint32At buffer 12
    yiaddr := uint32At buffer 16
    siaddr := uint32At buffer 20
    giaddr := uint32At buffer 24
    chaddr := bytesAt buffer 28 16
    sname := bytesAt buffer 44 64
    file := bytesAt buffer 108 128
    options := readOptions buffer pktlength pktlength 0 240 }

/-- Every turn of the loop advances, so the packet's length is fuel enough. -/
theorem readOptions_fuel {pktlength fuel option_idx option_offset : ℕ}
    (h : pktlength ≤ option_offset+fuel) : readOptions buffer pktlength (fuel+1) option_idx option_offset =
      readOptions buffer pktlength fuel option_idx option_offset := by
  induction fuel generalizing option_idx option_offset with
  | zero => rw [readOptions, readOptions, if_pos (by omega)]
  | succ fuel ih =>
    conv_lhs => rw [readOptions]
    conv_rhs => rw [readOptions]
    simp only [ih (show pktlength ≤ option_offset+1+fuel by omega),
      ih (show pktlength ≤ option_offset+(buffer (option_offset+1)).toNat+2+fuel by omega)]

end Parse

def bytesOf (addr : U32) : List Byte := [byteOf addr 0, byteOf addr 1, byteOf addr 2, byteOf addr 3]

/-- `htonl` -/
def htonl (hostlong : U32) : U32 := ipSwapInt hostlong

/-- `htons` -/
def htons (hostshort : BitVec 16) : BitVec 16 := byteOf hostshort 0 ++ byteOf hostshort 1

/-- `ntohs` -/
def ntohs (netshort : BitVec 16) : BitVec 16 := htons netshort

namespace DHCP_Option

/-- The byte at an offset from `value`, which need not belong to the option. -/
def valueAt (g : Garbage) (o : DHCP_Option) (i : ℕ) : Byte := o.value.getD i (g.beyond o.code i)

def ofByte (code p_val : Byte) : DHCP_Option := ⟨code, 1, [p_val]⟩

def ofU32 (code : Byte) (p_val : U32) : DHCP_Option := ⟨code, 4, bytesOf p_val⟩

/-- The length is kept in a byte, however long the text is. -/
def ofText (code : Byte) (p_val : String) : DHCP_Option :=
  ⟨code, BitVec.ofNat 8 p_val.toList.length, p_val.toList.map byteOfChar⟩

/-- Eight bytes, the last four of them unwritten without a second nameserver. -/
def ofNameservers (g : Garbage) (sub : Subnet) : DHCP_Option :=
  ⟨DHO_DOMAIN_NAME_SERVERS, 8, bytesOf sub.nameserver1.u_addr ++
    if sub.nameserver2.u_addr ≠ INADDR_NONE then bytesOf sub.nameserver2.u_addr
    else [g.dns 4, g.dns 5, g.dns 6, g.dns 7]⟩

end DHCP_Option

namespace DHCP_Packet

/-- `MACAddress(*(uint64_t *) chaddr)` -/
def mac (p : DHCP_Packet) : MACAddress :=
  let c := fun i => p.chaddr.getD i 0
  .ofU64 (uint64 (c 0) (c 1) (c 2) (c 3) (c 4) (c 5) (c 6) (c 7))

def ip (p : DHCP_Packet) : IPAddress := .ofU32 p.ciaddr

def getMessageType (p : DHCP_Packet) (g : Garbage) : ℤ :=
  match p.options.find? (·.code = DHO_DHCP_MESSAGE_TYPE) with
  | some o => (o.valueAt g 0).toNat
  | none => -1

/-- The address that a request names: in `ciaddr`, else in option 50. -/
def requestedAddress (p : DHCP_Packet) (g : Garbage) : Option U32 :=
  if p.ciaddr ≠ 0 then some p.ciaddr
  else match p.options.find? (·.code = DHO_DHCP_REQUESTED_ADDRESS) with
    | some o => some (uint32 (o.valueAt g 0) (o.valueAt g 1) (o.valueAt g 2) (o.valueAt g 3))
    | none => none

def getRequestedAddress (p : DHCP_Packet) (g : Garbage) : IPAddress :=
  requested (p.requestedAddress g)

/-- What all replies have in common. -/
def respond (request : DHCP_Packet) (ciaddr yiaddr : U32) (options : List DHCP_Option) :
    DHCP_Packet where
  op := BOOT_REPLY
  htype := request.htype
  hlen := request.hlen
  hops := 0
  xid := request.xid
  secs := 0
  flags := request.flags
  ciaddr := ciaddr
  yiaddr := yiaddr
  siaddr := 0
  giaddr := request.giaddr
  chaddr := request.chaddr
  sname := List.replicate 64 0
  file := List.replicate 128 0
  options := options

section Replies
variable (nets : Subnets) (g : Garbage) (request : DHCP_Packet) (yiaddr : IPAddress)

def createDhcpOffer : Except DHCP_PacketException DHCP_Packet :=
  match nets.mysubnet yiaddr with
  | none => .error (.notAllowed yiaddr.s_addr)
  | some mysub => .ok (request.respond 0 yiaddr.u_addr [
      .ofByte DHO_DHCP_MESSAGE_TYPE DHCP_OFFER,
      .ofU32 DHO_DHCP_SERVER_IDENTIFIER nets.globalnet.addr.u_addr,
      .ofU32 DHO_DHCP_LEASE_TIME (htonl nets.globalnet.lease_time),
      .ofU32 DHO_DHCP_RENEWAL_TIME (htonl nets.globalnet.renew_time),
      .ofText DHO_DOMAIN_NAME nets.globalnet.domain_name,
      .ofU32 DHO_SUBNET mysub.netmask.u_addr,
      .ofU32 DHO_ROUTERS mysub.gateway.u_addr,
      .ofNameservers g mysub])

/-- Without a subnet there is no reply. -/
def createDhcpAck : Option DHCP_Packet :=
  match nets.mysubnet yiaddr with
  | none => none
  | some mysub => some (request.respond 0 yiaddr.u_addr [
      .ofByte DHO_DHCP_MESSAGE_TYPE DHCP_ACK,
      .ofU32 DHO_DHCP_SERVER_IDENTIFIER nets.globalnet.addr.u_addr,
      .ofU32 DHO_DHCP_LEASE_TIME (htonl nets.globalnet.lease_time),
      .ofU32 DHO_DHCP_RENEWAL_TIME (htonl nets.globalnet.renew_time),
      .ofText DHO_DOMAIN_NAME nets.globalnet.domain_name,
      .ofU32 DHO_ROUTERS mysub.gateway.u_addr,
      .ofU32 DHO_SUBNET mysub.netmask.u_addr,
      .ofNameservers g mysub])

/-- The answer to `DHCPINFORM` names no lease. -/
def createDhcpAck2 : Option DHCP_Packet :=
  match nets.mysubnet yiaddr with
  | none => none
  | some mysub => some (request.respond request.ciaddr 0 [
      .ofByte DHO_DHCP_MESSAGE_TYPE DHCP_ACK,
      .ofU32 DHO_DHCP_SERVER_IDENTIFIER nets.globalnet.addr.u_addr,
      .ofText DHO_DOMAIN_NAME nets.globalnet.domain_name,
      .ofU32 DHO_ROUTERS mysub.gateway.u_addr,
      .ofU32 DHO_SUBNET mysub.netmask.u_addr,
      .ofNameservers g mysub])

def createDhcpNak : DHCP_Packet :=
  request.respond 0 0 [
    .ofByte DHO_DHCP_MESSAGE_TYPE DHCP_NAK,
    .ofU32 DHO_DHCP_SERVER_IDENTIFIER nets.globalnet.addr.u_addr]

end Replies

end DHCP_Packet

end S3Dhcpd
