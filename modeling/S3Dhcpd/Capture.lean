import S3Dhcpd.Tools
import S3Dhcpd.ByteMemory

/-! `recv_packet` over the frames that the capture library delivers. -/
namespace S3Dhcpd
open ByteMemory

/-- A frame as `pcap_next` delivers it: `caplen` bytes of the `len` that were on the wire. What stands
behind them in memory is not of the frame. -/
structure Capture where
  packet : ℕ → Byte
  caplen : U32
  len : U32
  captured : 15 ≤ caplen.toNat
  caplen_le : caplen.toNat ≤ len.toNat

/-- What `recv_packet` copies to its buffer; the size is handed to `memcpy` as it is. -/
structure Copy where
  frame : Capture
  offset : ℕ
  size : ℤ

/-- `(*(pkt) & 0xF) * 4` -/
def IP_HEADER_SIZE (pkt : Byte) : ℕ := (pkt &&& 0xF).toNat*4

namespace Capture

def pktHeaderSize (c : Capture) : ℕ := 14+IP_HEADER_SIZE (c.packet 14)+8

/-- The difference of `len` and the header size, narrowed to `int`. -/
def udpPacketSize (c : Capture) : ℤ := (c.len-BitVec.ofNat 32 c.pktHeaderSize).toInt

end Capture

/-- The loop of `recv_packet`; `pcap_next` delivers nothing when it times out. -/
def recvPacket (maxlen : ℤ) : List (Option Capture) → Option Copy
  | [] => none
  | none :: frames => recvPacket maxlen frames
  | some c :: frames =>
    if c.len.toNat < c.pktHeaderSize then recvPacket maxlen frames
    else if c.udpPacketSize > maxlen then recvPacket maxlen frames
    else some ⟨c, c.pktHeaderSize, c.udpPacketSize⟩

/-- The copy is of at most `maxlen` captured bytes right behind the headers of one of the frames. -/
structure CopiesCaptured (maxlen : ℤ) (frames : List (Option Capture)) (copy : Copy) : Prop where
  frame : some copy.frame ∈ frames
  behind : copy.offset = copy.frame.pktHeaderSize
  length : 0 ≤ copy.size ∧ copy.size ≤ maxlen
  inside : copy.offset+copy.size ≤ copy.frame.caplen.toNat

/-- Whatever `recv_packet` returns has been captured. -/
def ReceivesCaptured (maxlen : ℤ) (frames : List (Option Capture)) : Prop :=
  ∀ copy, recvPacket maxlen frames = some copy → CopiesCaptured maxlen frames copy

/-- The two checks of `recv_packet`. -/
def Capture.passes (maxlen : ℤ) (c : Capture) : Bool :=
  c.pktHeaderSize ≤ c.len.toNat ∧ c.udpPacketSize ≤ maxlen

/-- The first frame that passes the checks. -/
def firstPassing (maxlen : ℤ) (frames : List (Option Capture)) : Option Capture :=
  (frames.filterMap id).find? (Capture.passes maxlen)

section Receive
variable {maxlen : ℤ} {frames : List (Option Capture)} {c : Capture}

theorem recvPacket_eq : recvPacket maxlen frames =
    (firstPassing maxlen frames).map fun c => ⟨c, c.pktHeaderSize, c.udpPacketSize⟩ := by
  -- frames that fail a check are passed over, as a search would
  induction frames with
  | nil => rfl
  | cons frame frames ih =>
    cases frame with
    | none => exact ih
    | some c =>
      have hfirst : firstPassing maxlen (some c :: frames) =
          if c.passes maxlen then some c else firstPassing maxlen frames := by
        have hfilter : (some c :: frames).filterMap id = c :: frames.filterMap id := rfl
        rw [firstPassing, hfilter, List.find?_cons]
        cases c.passes maxlen <;> rfl
      rw [recvPacket, hfirst, ih]
      by_cases hlen : c.len.toNat < c.pktHeaderSize
      · have hpasses : c.passes maxlen = false := by simp [Capture.passes, hlen]
        rw [if_pos hlen, hpasses]
        rfl
      · by_cases hsize : c.udpPacketSize > maxlen
        · have hpasses : c.passes maxlen = false := by simp [Capture.passes, hsize]
          rw [if_neg hlen, if_pos hsize, hpasses]
          rfl
        · have hpasses : c.passes maxlen = true := by
            simp only [Capture.passes, decide_eq_true_eq]
            omega
          rw [if_neg hlen, if_neg hsize, hpasses]
          rfl

theorem firstPassing_some (h : firstPassing maxlen frames = some c) :
    some c ∈ frames ∧ c.pktHeaderSize ≤ c.len.toNat ∧ c.udpPacketSize ≤ maxlen := by
  have hpasses := List.find?_some h
  rw [Capture.passes, decide_eq_true_eq] at hpasses
  obtain ⟨frame, hframe, hc⟩ := List.mem_filterMap.mp (List.mem_of_find?_eq_some h)
  exact ⟨hc ▸ hframe, hpasses⟩

theorem pktHeaderSize_le (c : Capture) : c.pktHeaderSize ≤ 82 := by
  have hnibble : ∀ b : Byte, (b &&& 0xF).toNat ≤ 15 := forall_byte (by decide +kernel)
  have h := hnibble (c.packet 14)
  rw [Capture.pktHeaderSize, IP_HEADER_SIZE]
  omega

/-- The size of the copy is that of the payload on the wire where `int` holds it. -/
theorem udpPacketSize_eq (h : c.pktHeaderSize ≤ c.len.toNat) : c.udpPacketSize =
    if c.len.toNat-c.pktHeaderSize < 2^31 then (c.len.toNat-c.pktHeaderSize : ℤ)
    else (c.len.toNat-c.pktHeaderSize : ℤ)-2^32 := by
  have hheader := pktHeaderSize_le c
  have hlen := c.len.isLt
  rw [Capture.udpPacketSize, BitVec.toInt_eq_toNat_cond, BitVec.toNat_sub, BitVec.toNat_ofNat]
  split_ifs <;> omega

end Receive

/-- Only captured bytes are copied, exactly if the first frame that passes the checks was captured as
a whole and its payload is not too long for an `int`. -/
theorem receives_captured (maxlen : ℤ) (frames : List (Option Capture)) :
    ReceivesCaptured maxlen frames ↔ ∀ c, firstPassing maxlen frames = some c →
      c.caplen = c.len ∧ c.len.toNat-c.pktHeaderSize < 2^31 := by
  constructor
  · intro h c hc
    obtain ⟨-, hlen, -⟩ := firstPassing_some hc
    have hcopy := h ⟨c, c.pktHeaderSize, c.udpPacketSize⟩ (by rw [recvPacket_eq, hc]; rfl)
    have hsize := hcopy.length.1
    have hinside := hcopy.inside
    have hcaplen := c.caplen_le
    simp only [udpPacketSize_eq hlen] at hsize hinside
    have hbig := c.len.isLt
    -- a difference from `2^31` on is a negative size
    split_ifs at hsize hinside with hfits
    · refine ⟨BitVec.eq_of_toNat_eq ?_, hfits⟩
      omega
    · omega
  · intro h copy hcopy
    rw [recvPacket_eq] at hcopy
    obtain ⟨c, hc, rfl⟩ := Option.map_eq_some_iff.mp hcopy
    obtain ⟨hmem, hlen, hmaxlen⟩ := firstPassing_some hc
    obtain ⟨hwhole, hfits⟩ := h c hc
    have hsize := udpPacketSize_eq hlen
    rw [if_pos hfits] at hsize
    refine ⟨hmem, rfl, ⟨?_, hmaxlen⟩, ?_⟩
    · simp only [hsize]
      omega
    · simp only [hsize, hwhole]
      omega

/-- A frame of 1500 bytes, of which 1024 are captured. -/
def truncatedFrame : Capture :=
  ⟨fun i => if i = 14 then 0x45 else 0, 1024, 1500, by decide, by decide⟩

/-- Of a frame that was captured in part, bytes are copied that were not. -/
theorem truncated_frame_copied : ¬ ReceivesCaptured 4096 [some truncatedFrame] := by
  intro h
  have hcopy := h ⟨truncatedFrame, 42, 1458⟩ (by rfl)
  exact absurd hcopy.inside (by decide)

end S3Dhcpd
