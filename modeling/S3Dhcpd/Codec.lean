import Mathlib.Data.List.DropRight
import S3Dhcpd.Wire

/-! `marshall` and `unmarshall` are inverse to each other on well-formed packets. -/
namespace S3Dhcpd
open ByteMemory

section Codec
variable {g : Garbage} {buffer : ℕ → Byte} {p : DHCP_Packet}

/-- A packet that can be parsed as a whole. -/
structure DHCP_Packet.WellFormed (p : DHCP_Packet) : Prop extends p.Framed where
  few : p.options.length < MAX_DHCP_OPTIONS
  options : ∀ o ∈ p.options, o.WellFormed

theorem length_wire (hp : p.Framed) :
    p.wire.length = 241+(p.options.flatMap DHCP_Option.wire).length := by
  simp [DHCP_Packet.wire, hp.length_header, DHCP_MAGIC_COOKIE]
  omega

theorem length_options (options : List DHCP_Option) :
    options.length ≤ (options.flatMap DHCP_Option.wire).length := by
  induction options with
  | nil => exact Nat.le_refl _
  | cons o options ih =>
    simp only [List.flatMap_cons, List.length_append, List.length_cons, DHCP_Option.wire]
    omega

theorem marshall_wire (hp : p.WellFormed) {rest : List Byte} (h : Holds buffer 0 (p.wire ++ rest))
    {pktlength : ℕ} (hlen : p.wire.length ≤ pktlength) : marshall buffer pktlength = .ok p := by
  rw [length_wire hp.toFramed] at hlen
  have hsplit : p.wire ++ rest = p.header ++ (DHCP_MAGIC_COOKIE ++
      (p.options.flatMap DHCP_Option.wire ++ DHO_END :: rest)) := by
    simp [DHCP_Packet.wire]
  rw [hsplit, holds_append, holds_append, Nat.zero_add, hp.toFramed.length_header] at h
  obtain ⟨hheader, hcookie, hoptions⟩ := h
  have hoptions : Holds buffer 240 (p.options.flatMap DHCP_Option.wire ++ DHO_END :: rest) :=
    hoptions
  have hread : bytesAt buffer 236 4 = [0x63, 0x82, 0x53, 0x63] := hcookie.read
  have hmagic : checkMagicCookie buffer pktlength = true := by
    simp [checkMagicCookie, hread]
    omega
  -- each option takes two bytes or more, so the packet's length is fuel enough
  have hmany := length_options p.options
  rw [marshall_packetAt hmagic, readOptions_wire hp.options (by omega)
    (by rw [Nat.zero_add]; exact hp.few) hoptions (by omega)]
  exact congrArg Except.ok ((holds_header hp.toFramed).mp hheader)

theorem headerFields_contiguous (hp : p.Framed) : Contiguous 0 (headerFields p) := by
  simp [headerFields, Contiguous, hp.chaddr, hp.sname]

theorem writeHeader_holds (hp : p.Framed) (buffer : ℕ → Byte) :
    Holds (write (writeAll buffer (headerFields p)) 236 DHCP_MAGIC_COOKIE) 0
      (p.header ++ DHCP_MAGIC_COOKIE) := by
  have hempty : Holds buffer 0 [] := holds_nil
  exact (hempty.writeAll (headerFields_contiguous hp)).write hp.length_header

/-- The length of a packet, before the padding. -/
def packetLength (p : DHCP_Packet) : ℕ := 241+(p.options.map fun o => o.length.toNat+2).sum

theorem unmarshall_padded (p : DHCP_Packet) (buffer : ℕ → Byte) :
    let options := writeOptions g p.options
      (write (writeAll buffer (headerFields p)) 236 DHCP_MAGIC_COOKIE) 240
    unmarshall g p buffer = (write (write options.1 options.2 [DHO_END]) (options.2+1)
      (List.replicate (max 300 (packetLength p)-packetLength p) 0), max 300 (packetLength p)) := by
  have hlen : BOOTP_ABSOLUTE_MIN_LEN+DHCP_MAGIC_COOKIE.length+
      (p.options.map fun o => o.length.toNat+2).sum+1 = packetLength p := by
    simp only [BOOTP_ABSOLUTE_MIN_LEN, DHCP_MAGIC_COOKIE, packetLength, List.length_cons,
      List.length_nil]
    omega
  have hshort : BOOTP_ABSOLUTE_MIN_LEN+DHCP_VEND_SIZE = 300 := rfl
  have hshort' : DHCP_VEND_SIZE+BOOTP_ABSOLUTE_MIN_LEN = 300 := rfl
  simp only [unmarshall, hlen, hshort, hshort']
  split_ifs with h
  · rw [max_eq_left h.le]
  · rw [max_eq_right (Nat.not_lt.mp h), Nat.sub_self]

/-- What stands in the buffer after `unmarshall`: the packet, padded with zeros. -/
theorem unmarshall_holds (hp : p.Framed) (buffer : ℕ → Byte) :
    Holds (unmarshall g p buffer).1 0 ((p.sent g).wire ++
      List.replicate ((unmarshall g p buffer).2-(p.sent g).wire.length) 0) ∧
    (p.sent g).wire.length = packetLength p := by
  have hsent : (p.sent g).Framed := ⟨hp.chaddr, hp.sname, hp.file⟩
  have hlength : (p.sent g).wire.length = packetLength p := by
    rw [length_wire hsent, packetLength, ← @length_wire_sum g]
    rfl
  have hheader := writeHeader_holds hp buffer
  have h240 : (p.header ++ DHCP_MAGIC_COOKIE).length = 240 := by
    simp [hp.length_header, DHCP_MAGIC_COOKIE]
  -- the header, the options and the end mark are written one behind the other
  obtain ⟨hoptions, hend⟩ := writeOptions_holds g hheader h240 p.options
  refine ⟨?_, hlength⟩
  rw [unmarshall_padded, hlength]
  refine Holds.write (hoptions.write ?_) ?_
  · rw [List.length_append, h240, length_wire_sum, hend]
  · rw [hlength, hend, packetLength]
    omega

theorem unmarshall_length (p : DHCP_Packet) (buffer : ℕ → Byte) :
    (unmarshall g p buffer).2 = max 300 (packetLength p) :=
  congrArg Prod.snd (unmarshall_padded p buffer)

theorem unmarshall_read (hp : p.Framed) (buffer : ℕ → Byte) :
    read (unmarshall g p buffer).1 0 (unmarshall g p buffer).2 = (p.sent g).wire ++
      List.replicate ((unmarshall g p buffer).2-(p.sent g).wire.length) 0 := by
  obtain ⟨hholds, hlength⟩ := @unmarshall_holds g p hp buffer
  have hread := hholds.read
  rwa [List.length_append, List.length_replicate, Nat.add_sub_cancel' (by
    rw [hlength, unmarshall_length]
    exact le_max_right _ _)] at hread

/-- A packet with valid codes is parsed as it was sent. -/
theorem marshall_unmarshall (hp : p.Framed) (hfew : p.options.length < MAX_DHCP_OPTIONS)
    (hcodes : ∀ o ∈ p.options, o.code ≠ DHO_PAD ∧ o.code ≠ DHO_END) (buffer : ℕ → Byte) :
    marshall (unmarshall g p buffer).1 (unmarshall g p buffer).2 = .ok (p.sent g) := by
  have hsent : (p.sent g).WellFormed := by
    refine ⟨⟨hp.chaddr, hp.sname, hp.file⟩, ?_, ?_⟩
    · rwa [DHCP_Packet.sent, List.length_map]
    · intro o' ho'
      obtain ⟨o, ho, rfl⟩ := List.mem_map.mp ho'
      exact ⟨(hcodes o ho).1, (hcodes o ho).2, sent_value_length g o⟩
  obtain ⟨hholds, hlength⟩ := @unmarshall_holds g p hp buffer
  apply marshall_wire hsent hholds
  rw [hlength, unmarshall_length]
  exact le_max_right _ _

theorem DHCP_Packet.WellFormed.sent (hp : p.WellFormed) : p.sent g = p := by
  have hoptions : p.options.map (·.sent g) = p.options := by
    conv_rhs => rw [← List.map_id p.options]
    exact List.map_congr_left fun o ho => (hp.options o ho).sent
  rw [DHCP_Packet.sent, hoptions]

theorem rdropWhile_padding (l : List Byte) (k : ℕ) :
    (l ++ [DHO_END] ++ List.replicate k 0).rdropWhile (· = 0) = l ++ [DHO_END] := by
  induction k with
  | zero =>
    rw [List.replicate_zero, List.append_nil]
    exact List.rdropWhile_concat_neg _ _ _ (by decide)
  | succ k ih =>
    rw [List.replicate_succ', ← List.append_assoc, List.rdropWhile_concat_pos _ _ _ (by decide), ih]

/-- What is parsed from a packet without padding between its options is sent as the same bytes,
up to zeros at the end. -/
theorem unmarshall_marshall {header : List Byte} {options : List DHCP_Option} {k : ℕ}
    (hheader : header.length = 236) (hfew : options.length < MAX_DHCP_OPTIONS)
    (hwell : ∀ o ∈ options, o.WellFormed) {packet : List Byte}
    (hpacket : packet = header ++ DHCP_MAGIC_COOKIE ++ options.flatMap DHCP_Option.wire ++
      [DHO_END] ++ List.replicate k 0) (h : Holds buffer 0 packet) (out : ℕ → Byte) :
    ∃ p, marshall buffer packet.length = .ok p ∧
      (read (unmarshall g p out).1 0 (unmarshall g p out).2).rdropWhile (· = 0) =
        packet.rdropWhile (· = 0) := by
  have hp : (packetAt buffer options).WellFormed := ⟨packetAt_framed buffer options, hfew, hwell⟩
  -- the header that is parsed is the one that stands in the packet
  have hread : (packetAt buffer options).header = header := by
    have hparsed : Holds buffer 0 (packetAt buffer options).header :=
      (holds_header hp.toFramed).mpr rfl
    rw [hpacket, List.append_assoc, List.append_assoc, List.append_assoc, holds_append] at h
    rw [← hparsed.read, hp.toFramed.length_header, ← hheader, h.1.read]
  have hwire : packet = (packetAt buffer options).wire ++ List.replicate k 0 := by
    rw [hpacket, DHCP_Packet.wire, hread]
    rfl
  refine ⟨packetAt buffer options, ?_, ?_⟩
  · apply marshall_wire hp (hwire ▸ h)
    rw [hwire, List.length_append]
    omega
  · rw [unmarshall_read hp.toFramed, hp.sent, hwire, DHCP_Packet.wire, rdropWhile_padding,
      rdropWhile_padding]

end Codec

/-- The codec is a bijection between packets and their formats: what is sent is parsed as the same
packet, and what is parsed is sent as the same bytes, up to zeros at the end. -/
theorem codec_bijective :
    (∀ (g : Garbage) (p : DHCP_Packet) (buffer : ℕ → Byte), p.WellFormed →
      marshall (unmarshall g p buffer).1 (unmarshall g p buffer).2 = .ok p ∧
      (unmarshall g p buffer).2 = max 300 (241+(p.options.map fun o => o.length.toNat+2).sum)) ∧
    ∀ (g : Garbage) (header : List Byte) (options : List DHCP_Option) (k : ℕ) (packet : List Byte)
      (buffer out : ℕ → Byte), header.length = 236 → options.length < MAX_DHCP_OPTIONS →
      (∀ o ∈ options, o.WellFormed) →
      packet = header ++ DHCP_MAGIC_COOKIE ++ options.flatMap DHCP_Option.wire ++ [DHO_END] ++
        List.replicate k 0 →
      Holds buffer 0 packet → ∃ p, marshall buffer packet.length = .ok p ∧
        (read (unmarshall g p out).1 0 (unmarshall g p out).2).rdropWhile (· = 0) =
          packet.rdropWhile (· = 0) := by
  constructor
  · intro g p buffer hp
    have hround := @marshall_unmarshall g p hp.toFramed hp.few
      (fun o ho => ⟨(hp.options o ho).pad, (hp.options o ho).mark⟩) buffer
    rw [hp.sent] at hround
    exact ⟨hround, unmarshall_length p buffer⟩
  · intro g header options k packet buffer out hheader hfew hwell hpacket h
    exact unmarshall_marshall hheader hfew hwell hpacket h out

/-- A DISCOVER of the example's first client, as a packet. -/
def examplePacket : DHCP_Packet where
  op := 1
  htype := 1
  hlen := 6
  hops := 0
  xid := 0x01020304
  secs := 0
  flags := 0x80
  ciaddr := 0
  yiaddr := 0
  siaddr := 0
  giaddr := 0
  chaddr := 1 :: List.replicate 15 0
  sname := List.replicate 64 0
  file := List.replicate 128 0
  options := [⟨DHO_DHCP_MESSAGE_TYPE, 1, [DHCP_DISCOVER]⟩]

theorem examplePacket_wellFormed : examplePacket.WellFormed where
  chaddr := rfl
  sname := rfl
  file := rfl
  few := by decide
  options := by
    intro o ho
    rw [List.mem_singleton.mp ho]
    exact ⟨by decide, by decide, rfl⟩

/-- Round trips of the example, from the packet and from its bytes. -/
theorem codec_bijective_example :
    marshall (unmarshall ⟨fun _ _ => 0, fun _ => 0⟩ examplePacket fun _ => 0).1
      (unmarshall ⟨fun _ _ => 0, fun _ => 0⟩ examplePacket fun _ => 0).2 = .ok examplePacket ∧
    ∃ p, marshall (write (fun _ => 7) 0 examplePacket.wire) examplePacket.wire.length = .ok p ∧
      (read (unmarshall ⟨fun _ _ => 0, fun _ => 0⟩ p fun _ => 0).1 0
        (unmarshall ⟨fun _ _ => 0, fun _ => 0⟩ p fun _ => 0).2).rdropWhile (· = 0) =
          examplePacket.wire.rdropWhile (· = 0) := by
  refine ⟨(codec_bijective.1 _ _ _ examplePacket_wellFormed).1, ?_⟩
  refine codec_bijective.2 _ examplePacket.header examplePacket.options 0 _ _ _
    examplePacket_wellFormed.toFramed.length_header (by decide) examplePacket_wellFormed.options ?_
    holds_write
  exact (List.append_nil _).symm

end S3Dhcpd
