import S3Dhcpd.Capture
import S3Dhcpd.Checksums

/-! What a receiver makes of a broadcast frame: its checksums, and the payload that `recv_packet`
takes out of it. -/
namespace S3Dhcpd
open ByteMemory

/-- The IP header of a frame, its UDP datagram, and the pseudo-header that goes with it. -/
def ipHeader (frame : List Byte) : List Byte := (frame.drop 14).take 20

def udpDatagram (frame : List Byte) : List Byte := frame.drop 34

def pseudoHeader (frame : List Byte) : List Byte :=
  (frame.drop 26).take 8 ++ [0, IPPROTO_UDP] ++ (frame.drop 38).take 2

/-- A frame that was captured as a whole. -/
structure Capture.Whole (c : Capture) (frame : List Byte) : Prop where
  holds : Holds c.packet 0 frame
  caplen : c.caplen.toNat = frame.length
  len : c.len.toNat = frame.length

/-- The checksums of a frame verify, and `recv_packet` takes the payload out of it. -/
structure FrameOf (flags : BuildFlags) (data frame : List Byte) : Prop where
  ip : OnesComplement.sum 0xFFFF 0 (words (ipHeader frame)) = 0xFFFF
  udp : flags.FIX_UDP_CHECKSUM = true →
    OnesComplement.sum 0xFFFF 0 (words (pseudoHeader frame) ++ words (udpDatagram frame)) = 0xFFFF
  payload : ∀ c maxlen frames, c.Whole frame → (data.length : ℤ) ≤ maxlen →
    ∃ copy, recvPacket maxlen (some c :: frames) = some copy ∧ copy.frame = c ∧
      copy.size = data.length ∧ read c.packet copy.offset copy.size.toNat = data

section Frame
variable {eth : s3_eth} {ip : s3_ip} {udp : s3_udphdr} {data frame : List Byte}

theorem length_eth (eth : s3_eth) : eth.bytes.length = 14 := by
  have hdhost : eth.eth_dhost.1.length = 6 := eth.eth_dhost.2
  have hshost : eth.eth_shost.1.length = 6 := eth.eth_shost.2
  rw [s3_eth.bytes, List.length_append, List.length_append, hdhost, hshost, length_shortBytes]

theorem length_ip (ip : s3_ip) : ip.bytes.length = 20 := rfl

theorem length_udp (udp : s3_udphdr) : udp.bytes.length = 8 := rfl

theorem ipHeader_bytes (h : frame = eth.bytes ++ ip.bytes ++ udp.bytes ++ data) :
    ipHeader frame = ip.bytes := by
  rw [ipHeader, h, List.append_assoc, List.append_assoc, List.drop_left' (length_eth eth),
    List.take_left' (length_ip ip)]

theorem udpDatagram_bytes (h : frame = eth.bytes ++ ip.bytes ++ udp.bytes ++ data) :
    udpDatagram frame = udp.bytes ++ data := by
  have hlength : (eth.bytes ++ ip.bytes).length = 34 := by
    rw [List.length_append, length_eth, length_ip]
  rw [udpDatagram, h, List.append_assoc, List.drop_left' hlength]

theorem pseudoHeader_words (h : frame = eth.bytes ++ ip.bytes ++ udp.bytes ++ data) :
    words (pseudoHeader frame) = pseudoWords ip udp := by
  -- split where the addresses begin, and where the length of the datagram stands
  have hip : frame = (eth.bytes ++ (ip.front ++ shortBytes ip.ip_sum)) ++
      (ip.back ++ (udp.bytes ++ data)) := by
    rw [h]
    simp [s3_ip.bytes, s3_ip.front, s3_ip.back]
  have hudp : frame = (eth.bytes ++ ip.bytes ++ (shortBytes udp.uh_sport ++
      shortBytes udp.uh_dport)) ++ (shortBytes udp.uh_ulen ++ (shortBytes udp.uh_sum ++ data)) := by
    rw [h]
    simp [s3_udphdr.bytes]
  have h26 : (eth.bytes ++ (ip.front ++ shortBytes ip.ip_sum)).length = 26 := by
    rw [List.length_append, length_eth]
    rfl
  have h38 : (eth.bytes ++ ip.bytes ++ (shortBytes udp.uh_sport ++
      shortBytes udp.uh_dport)).length = 38 := by
    rw [List.length_append, List.length_append, length_eth]
    rfl
  have hback : ip.back.length = 8 := rfl
  have haddresses : (frame.drop 26).take 8 = ip.back := by
    rw [hip, List.drop_left' h26, List.take_left' hback]
  have hulen : (frame.drop 38).take 2 = shortBytes udp.uh_ulen := by
    rw [hudp, List.drop_left' h38, List.take_left' (length_shortBytes _)]
  rw [pseudoHeader, haddresses, hulen, List.append_assoc, words_append (by rw [hback]),
    words_append (by rfl), words_shortBytes]
  rfl

/-- Behind headers of 42 bytes `recv_packet` finds the payload. -/
theorem recvPacket_whole {c : Capture} {maxlen : ℤ} {frames : List (Option Capture)}
    (h : frame = eth.bytes ++ ip.bytes ++ udp.bytes ++ data) (hhl : ip.ip_hl = 5)
    (hdata : data.length ≤ 65507) (hc : c.Whole frame) (hmaxlen : (data.length : ℤ) ≤ maxlen) :
    ∃ copy, recvPacket maxlen (some c :: frames) = some copy ∧ copy.frame = c ∧
      copy.size = data.length ∧ read c.packet copy.offset copy.size.toNat = data := by
  have hlength : frame.length = 42+data.length := by
    rw [h, List.length_append, List.length_append, List.length_append, length_eth, length_ip,
      length_udp]
  have hholds := hc.holds
  simp only [h, holds_append, List.length_append, length_eth, length_ip, length_udp,
    Nat.zero_add, Nat.reduceAdd] at hholds
  obtain ⟨⟨⟨-, hip⟩, -⟩, hpayload⟩ := hholds
  have hfirst : c.packet 14 = ip.ip_v ++ ip.ip_hl := hip.1
  -- the header length is the one that the builder wrote
  have hheader : c.pktHeaderSize = 42 := by
    have hnibble : ∀ v : BitVec 4, IP_HEADER_SIZE (v ++ (5 : BitVec 4)) = 20 := by decide
    rw [Capture.pktHeaderSize, hfirst, hhl, hnibble]
  have hlen : c.len.toNat = 42+data.length := hc.len.trans hlength
  have hsize : c.udpPacketSize = data.length := by
    rw [udpPacketSize_eq (by omega), hheader, hlen, if_pos (by omega)]
    omega
  refine ⟨⟨c, c.pktHeaderSize, c.udpPacketSize⟩, ?_, rfl, hsize, ?_⟩
  · rw [recvPacket, if_neg (by omega), if_neg (by omega)]
  · simp only [hheader, hsize, Int.toNat_natCast]
    exact hpayload.read

end Frame

/-- Every broadcast frame verifies and decodes, with either byte order of the IP length. -/
theorem broadcast_frame (flags : BuildFlags) (mac : List.Vector Byte 6) (my_ip : U32)
    {data : List Byte} (hdata : data.length ≤ 65507) :
    FrameOf flags data (sendBroadcastPacket flags (buildEthernetHeader mac) my_ip data) := by
  have hframe : sendBroadcastPacket flags (buildEthernetHeader mac) my_ip data =
      (buildEthernetHeader mac).bytes ++ (sentIp flags my_ip data).bytes ++
        (sentUdp flags my_ip data).bytes ++ data := rfl
  refine ⟨?_, fun hfix => ?_, fun c maxlen frames hc hmaxlen => ?_⟩
  · rw [ipHeader_bytes hframe]
    exact ip_verifies rfl
  · have hudp : sentUdp flags my_ip data = { broadcastUdp data with
        uh_sum := (ipWrapsum (udpSum data (sentIp flags my_ip data) (broadcastUdp data))).setWidth 16 } :=
      if_pos hfix
    have hulen : (ntohs (broadcastUdp data).uh_ulen).toNat = 8+data.length := by
      rw [broadcastUdp, ntohs, htons_htons, BitVec.toNat_ofNat, Nat.mod_eq_of_lt (by omega)]
    have hproto : IPPROTO_UDP.toNat = 17 := rfl
    rw [pseudoHeader_words hframe, udpDatagram_bytes hframe, hudp, pseudoWords_sum,
      words_append (by rw [length_udp])]
    have hlen : IPPROTO_UDP.toNat+(ntohs (broadcastUdp data).uh_ulen).toNat ≤ 0xFFFF := by
      rw [hulen, hproto]
      omega
    exact @udp_verifies (sentIp flags my_ip data) (broadcastUdp data) data rfl hlen
  · exact recvPacket_whole hframe rfl hdata hc hmaxlen

theorem broadcast_frame_odd : FrameOf ⟨false, true⟩ [1, 2, 3]
    (sendBroadcastPacket ⟨false, true⟩ (buildEthernetHeader (List.Vector.replicate 6 2))
      (htonl 0x0A14000A) [1, 2, 3]) :=
  broadcast_frame _ _ _ (by decide)

end S3Dhcpd
