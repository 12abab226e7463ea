import Mathlib.Data.Vector.Basic
import S3Dhcpd.Wire

/-! `send_broadcast_packet`: the Ethernet, IP and UDP headers in front of a payload. -/
namespace S3Dhcpd

def ETHERTYPE_IP : BitVec 16 := 0x0800
def IPPROTO_UDP : Byte := 17
def DHCP_SERVER_PORT : BitVec 16 := 67
def DHCP_CLIENT_PORT : BitVec 16 := 68

structure s3_eth where
  eth_dhost : List.Vector Byte 6
  eth_shost : List.Vector Byte 6
  eth_type : BitVec 16

structure s3_ip where
  ip_hl : BitVec 4
  ip_v : BitVec 4
  ip_tos : Byte
  ip_len : BitVec 16
  ip_id : BitVec 16
  ip_off : BitVec 16
  ip_ttl : Byte
  ip_p : Byte
  ip_sum : BitVec 16
  ip_src : U32
  ip_dst : U32

structure s3_udphdr where
  uh_sport : BitVec 16
  uh_dport : BitVec 16
  uh_ulen : BitVec 16
  uh_sum : BitVec 16

def s3_eth.bytes (eth : s3_eth) : List Byte :=
  eth.eth_dhost.1 ++ eth.eth_shost.1 ++ shortBytes eth.eth_type

/-- The header length is the low half of the first byte. -/
def s3_ip.bytes (ip : s3_ip) : List Byte :=
  [ip.ip_v ++ ip.ip_hl, ip.ip_tos] ++ shortBytes ip.ip_len ++ shortBytes ip.ip_id ++
    shortBytes ip.ip_off ++ [ip.ip_ttl, ip.ip_p] ++ shortBytes ip.ip_sum ++
    bytesOf ip.ip_src ++ bytesOf ip.ip_dst

def s3_udphdr.bytes (udp : s3_udphdr) : List Byte :=
  shortBytes udp.uh_sport ++ shortBytes udp.uh_dport ++ shortBytes udp.uh_ulen ++
    shortBytes udp.uh_sum

/-- `if (sum > 0xFFFF) sum -= 0xFFFF` -/
def carried (sum : U32) : U32 := if sum > 0xFFFF then sum-0xFFFF else sum

/-- A single byte left over is the high byte of a word. -/
def ipChecksum : List Byte → U32 → U32
  | [], sum => sum
  | [b], sum => carried (sum+b.setWidth 32 <<< 8)
  | a :: b :: buf, sum => ipChecksum buf (carried (sum+(ntohs (b ++ a)).setWidth 32))

def ipWrapsum (sum : U32) : U32 := (htons ((~~~sum &&& 0xFFFF).setWidth 16)).setWidth 32

/-- The two symbols that the build may define. -/
structure BuildFlags where
  IP_LEN_HOST_BYTEORDER : Bool
  FIX_UDP_CHECKSUM : Bool

/-- `build_ethernet_header`, for the address that the interface reports. -/
def buildEthernetHeader (mac : List.Vector Byte 6) : s3_eth :=
  ⟨List.Vector.replicate 6 0xFF, mac, htons ETHERTYPE_IP⟩

section Send
variable (flags : BuildFlags) (hw_header : s3_eth) (my_ip : U32) (data : List Byte)

/-- The IP header before its checksum. -/
def broadcastIp : s3_ip where
  ip_hl := 5
  ip_v := 4
  ip_tos := 16
  ip_len := if flags.IP_LEN_HOST_BYTEORDER then BitVec.ofNat 16 (data.length+28)
    else htons (BitVec.ofNat 16 (data.length+28))
  ip_id := 0
  ip_off := htons 0x4000
  ip_ttl := 16
  ip_p := IPPROTO_UDP
  ip_sum := 0
  ip_src := my_ip
  ip_dst := htonl 0xFFFFFFFF

/-- The UDP header before its checksum. -/
def broadcastUdp : s3_udphdr where
  uh_sport := htons DHCP_SERVER_PORT
  uh_dport := htons DHCP_CLIENT_PORT
  uh_ulen := htons (BitVec.ofNat 16 (8+data.length))
  uh_sum := 0

/-- The sum over the addresses, the payload and the UDP header, in this order. -/
def udpSum (ip : s3_ip) (udp : s3_udphdr) : U32 :=
  let sum := ipChecksum (bytesOf ip.ip_src ++ bytesOf ip.ip_dst)
    (IPPROTO_UDP.setWidth 32+(ntohs udp.uh_ulen).setWidth 32)
  ipChecksum udp.bytes (ipChecksum data sum)

/-- The headers as they are sent; the UDP checksum is left at zero unless the build asks for it. -/
def sentIp : s3_ip :=
  let ip := broadcastIp flags my_ip data
  { ip with ip_sum := (ipWrapsum (ipChecksum ip.bytes 0)).setWidth 16 }

def sentUdp : s3_udphdr :=
  let udp := broadcastUdp data
  if flags.FIX_UDP_CHECKSUM then
    { udp with uh_sum := (ipWrapsum (udpSum data (sentIp flags my_ip data) udp)).setWidth 16 }
  else udp

/-- The frame that `send_broadcast_packet` injects. -/
def sendBroadcastPacket : List Byte :=
  hw_header.bytes ++ (sentIp flags my_ip data).bytes ++ (sentUdp flags my_ip data).bytes ++ data

end Send

end S3Dhcpd
