import S3Dhcpd.ByteMemory
import S3Dhcpd.Packet

/-! `unmarshall`, and what stands in the buffer after it: the header, the cookie, the options. -/
namespace S3Dhcpd
open ByteMemory

def DHCP_MAGIC_COOKIE : List Byte := [0x63, 0x82, 0x53, 0x63]
def DHCP_VEND_SIZE : ℕ := 64

def shortBytes (n : BitVec 16) : List Byte := [byteOf n 0, byteOf n 1]

/-- The option with the bytes that a copy of `length` bytes from its value delivers. -/
def DHCP_Option.sent (g : Garbage) (o : DHCP_Option) : DHCP_Option :=
  { o with value := (List.range o.length.toNat).map (o.valueAt g) }

section Encode
variable (g : Garbage)

/-- The option loop of `unmarshall`, with the offset that it ends at. -/
def writeOptions : List DHCP_Option → (ℕ → Byte) → ℕ → (ℕ → Byte) × ℕ
  | [], buffer, option_offset => (buffer, option_offset)
  | o :: options, buffer, option_offset =>
    let buffer := write buffer option_offset [o.code]
    let buffer := write buffer (option_offset+1) [o.length]
    let buffer := write buffer (option_offset+2) (o.sent g).value
    writeOptions options buffer (option_offset+(o.length.toNat+2))

/-- `// Build packet header`: the writes to fixed offsets. -/
def headerFields (p : DHCP_Packet) : List (ℕ × List Byte) := [
  (0, [p.op]), (1, [p.htype]), (2, [p.hlen]), (3, [p.hops]), (4, bytesOf p.xid),
  (8, shortBytes p.secs), (10, shortBytes p.flags), (12, bytesOf p.ciaddr), (16, bytesOf p.yiaddr),
  (20, bytesOf p.siaddr), (24, bytesOf p.giaddr), (28, p.chaddr), (44, p.sname), (108, p.file)]

/-- The buffer after `unmarshall`, and the length of the packet in it. -/
def unmarshall (p : DHCP_Packet) (buffer : ℕ → Byte) : (ℕ → Byte) × ℕ :=
  let packet_len := BOOTP_ABSOLUTE_MIN_LEN+DHCP_MAGIC_COOKIE.length+
    (p.options.map fun o => o.length.toNat+2).sum+1
  let short := packet_len < BOOTP_ABSOLUTE_MIN_LEN+DHCP_VEND_SIZE
  let padding_len := if short then DHCP_VEND_SIZE+BOOTP_ABSOLUTE_MIN_LEN-packet_len else 0
  let packet_len := if short then DHCP_VEND_SIZE+BOOTP_ABSOLUTE_MIN_LEN else packet_len
  let buffer := write (writeAll buffer (headerFields p)) 236 DHCP_MAGIC_COOKIE
  let (buffer, option_offset) := writeOptions g p.options buffer 240
  let buffer := write buffer option_offset [DHO_END]
  (write buffer (option_offset+1) (List.replicate padding_len 0), packet_len)

end Encode

/-- The option as it stands in a packet. -/
def DHCP_Option.wire (o : DHCP_Option) : List Byte := o.code :: o.length :: o.value

/-- A code between 1 and 254, and a value as long as the length byte says. -/
structure DHCP_Option.WellFormed (o : DHCP_Option) : Prop where
  pad : o.code ≠ DHO_PAD
  mark : o.code ≠ DHO_END
  value : o.value.length = o.length.toNat

instance (o : DHCP_Option) : Decidable o.WellFormed :=
  decidable_of_iff (o.code ≠ DHO_PAD ∧ o.code ≠ DHO_END ∧ o.value.length = o.length.toNat)
    ⟨fun h => ⟨h.1, h.2.1, h.2.2⟩, fun h => ⟨h.pad, h.mark, h.value⟩⟩

namespace DHCP_Packet

/-- The fixed part of a packet. -/
def header (p : DHCP_Packet) : List Byte := (headerFields p).flatMap Prod.snd

/-- A packet up to and with its end mark. -/
def wire (p : DHCP_Packet) : List Byte :=
  p.header ++ DHCP_MAGIC_COOKIE ++ p.options.flatMap DHCP_Option.wire ++ [DHO_END]

/-- The arrays have the sizes of the source's. -/
structure Framed (p : DHCP_Packet) : Prop where
  chaddr : p.chaddr.length = 16
  sname : p.sname.length = 64
  file : p.file.length = 128

def sent (g : Garbage) (p : DHCP_Packet) : DHCP_Packet :=
  { p with options := p.options.map (·.sent g) }

theorem Framed.length_header {p : DHCP_Packet} (hp : p.Framed) : p.header.length = 236 := by
  simp [header, headerFields, bytesOf, shortBytes, hp.chaddr, hp.sname, hp.file]

end DHCP_Packet

/-- The packet whose header stands in the buffer. -/
def packetAt (buffer : ℕ → Byte) (options : List DHCP_Option) : DHCP_Packet where
  op := buffer 0
  htype := buffer 1
  hlen := buffer 2
  hops := buffer 3
  xid := uint32At buffer 4
  secs := shortAt buffer 8
  flags := shortAt buffer 10
  ciaddr := uint32At buffer 12
  yiaddr := uint32At buffer 16
  siaddr := uint32At buffer 20
  giaddr := uint32At buffer 24
  chaddr := bytesAt buffer 28 16
  sname := bytesAt buffer 44 64
  file := bytesAt buffer 108 128
  options := options

section Header
variable {buffer : ℕ → Byte} {p : DHCP_Packet} {offset : ℕ}

theorem packetAt_framed (buffer : ℕ → Byte) (options : List DHCP_Option) :
    (packetAt buffer options).Framed where
  chaddr := by simp [packetAt, bytesAt]
  sname := by simp [packetAt, bytesAt]
  file := by simp [packetAt, bytesAt]

theorem marshall_packetAt {pktlength : ℕ} (h : checkMagicCookie buffer pktlength = true) :
    marshall buffer pktlength = .ok (packetAt buffer (readOptions buffer pktlength pktlength 0 240)) := by
  simp [marshall, h, packetAt]

theorem marshall_options {pktlength : ℕ} (h : marshall buffer pktlength = .ok p) :
    p.options = readOptions buffer pktlength pktlength 0 240 := by
  rw [marshall] at h
  split_ifs at h
  cases h
  rfl

theorem bytesAt_eq_read (buffer : ℕ → Byte) (offset n : ℕ) :
    bytesAt buffer offset n = read buffer offset n := rfl

theorem holds_bytesOf {a : U32} : Holds buffer offset (bytesOf a) ↔ uint32At buffer offset = a := by
  simp only [bytesOf, holds_cons, holds_nil, and_true, uint32At, Nat.add_assoc, Nat.reduceAdd]
  constructor
  · rintro ⟨h₀, h₁, h₂, h₃⟩
    rw [h₀, h₁, h₂, h₃, uint32_bytes]
  · rintro rfl
    simp [uint32]

theorem holds_shortBytes {n : BitVec 16} :
    Holds buffer offset (shortBytes n) ↔ shortAt buffer offset = n := by
  simp only [shortBytes, holds_cons, holds_nil, and_true, shortAt]
  constructor
  · rintro ⟨h₀, h₁⟩
    rw [h₀, h₁]
    apply byte_ext 2 (by decide)
    intro m hm
    interval_cases m <;> simp
  · rintro rfl
    simp

theorem holds_bytes {l : List Byte} {n : ℕ} (hl : l.length = n) :
    Holds buffer offset l ↔ bytesAt buffer offset n = l := by
  rw [holds_iff_read, hl, bytesAt_eq_read]

theorem htons_htons (n : BitVec 16) : htons (htons n) = n := by
  apply byte_ext 2 (by decide)
  intro m hm
  interval_cases m <;> simp [htons]

@[simp] theorem length_bytesOf (a : U32) : (bytesOf a).length = 4 := rfl

@[simp] theorem length_shortBytes (n : BitVec 16) : (shortBytes n).length = 2 := rfl

theorem holds_header (hp : p.Framed) :
    Holds buffer 0 p.header ↔ packetAt buffer p.options = p := by
  simp only [DHCP_Packet.header, headerFields, List.flatMap_cons, List.flatMap_nil, holds_append,
    List.length_singleton, length_bytesOf, length_shortBytes, hp.chaddr, hp.sname, holds_bytes hp.chaddr,
    holds_bytes hp.sname, holds_bytes hp.file, holds_bytesOf, holds_shortBytes, holds_cons,
    holds_nil, Nat.reduceAdd, Nat.zero_add, and_true]
  cases p
  simp only [packetAt, DHCP_Packet.mk.injEq, and_true]

end Header

section Options
variable {g : Garbage} {buffer : ℕ → Byte} {offset : ℕ}

theorem sent_value_length (g : Garbage) (o : DHCP_Option) :
    (o.sent g).value.length = o.length.toNat := by
  simp [DHCP_Option.sent]

theorem DHCP_Option.WellFormed.sent {o : DHCP_Option} (h : o.WellFormed) : o.sent g = o := by
  cases o with
  | mk code length value =>
    simp only [DHCP_Option.sent, DHCP_Option.mk.injEq, true_and]
    apply List.ext_getElem
    · simp [h.value]
    · intro i _ hi
      simp [DHCP_Option.valueAt, hi]

theorem length_wire_sum (options : List DHCP_Option) :
    ((options.map (·.sent g)).flatMap DHCP_Option.wire).length =
      (options.map fun o => o.length.toNat+2).sum := by
  induction options with
  | nil => rfl
  | cons o options ih =>
    rw [List.map_cons, List.flatMap_cons, List.length_append, ih, DHCP_Option.wire,
      List.length_cons, List.length_cons, sent_value_length, List.map_cons, List.sum_cons]

/-- The option loop of `unmarshall` extends what has been written by the options. -/
theorem writeOptions_holds (g : Garbage) {l : List Byte} (h : Holds buffer 0 l) (hoffset : l.length = offset)
    (options : List DHCP_Option) :
    Holds (writeOptions g options buffer offset).1 0
      (l ++ (options.map (·.sent g)).flatMap DHCP_Option.wire) ∧
    (writeOptions g options buffer offset).2 =
      offset+(options.map fun o => o.length.toNat+2).sum := by
  induction options generalizing buffer l offset with
  | nil => exact ⟨by simpa [writeOptions] using h, rfl⟩
  | cons o options ih =>
    -- the three writes of one turn put one more option behind `l`
    have hoption : Holds (write (write (write buffer offset [o.code]) (offset+1) [o.length])
        (offset+2) (o.sent g).value) 0 (l ++ [o.code] ++ [o.length] ++ (o.sent g).value) := by
      refine Holds.write (Holds.write (Holds.write h hoffset) ?_) ?_
      · simp [hoffset]
      · simp [hoffset]
    have hlength : (l ++ [o.code] ++ [o.length] ++ (o.sent g).value).length =
        offset+(o.length.toNat+2) := by
      simp [hoffset, sent_value_length]
    obtain ⟨hrest, hend⟩ := ih hoption hlength
    refine ⟨?_, ?_⟩
    · simpa [writeOptions, DHCP_Option.wire, DHCP_Option.sent] using hrest
    · rw [writeOptions, hend, List.map_cons, List.sum_cons, Nat.add_assoc]

/-- What the area of the options is made of. -/
inductive AreaItem where
  | pad
  | option (o : DHCP_Option)

def AreaItem.wire : AreaItem → List Byte
  | pad => [DHO_PAD]
  | option o => o.wire

def AreaItem.option? : AreaItem → Option DHCP_Option
  | pad => none
  | option o => some o

/-- An area ends at an end mark or with the packet. -/
def AreaEnds (buffer : ℕ → Byte) (pktlength offset : ℕ) : Prop :=
  offset = pktlength ∨ offset < pktlength ∧ buffer offset = DHO_END

instance (buffer : ℕ → Byte) (pktlength offset : ℕ) : Decidable (AreaEnds buffer pktlength offset) :=
  inferInstanceAs (Decidable (_ ∨ _))

section Items
variable {pktlength fuel option_idx : ℕ}

theorem readOptions_end (hfuel : pktlength ≤ offset+fuel) (hidx : option_idx < MAX_DHCP_OPTIONS)
    (hend : AreaEnds buffer pktlength offset) :
    readOptions buffer pktlength fuel option_idx offset = [] := by
  cases fuel with
  | zero => rfl
  | succ fuel =>
    rw [readOptions]
    rcases hend with rfl | ⟨hlt, hmark⟩
    · rw [if_pos (by omega)]
    · rw [if_neg (by omega), if_neg hidx.ne, hmark]
      rfl

/-- The option loop of `marshall` skips padding and reads well-formed options. -/
theorem readOptions_items {items : List AreaItem}
    (hwell : ∀ o ∈ items.filterMap AreaItem.option?, o.WellFormed) (hfuel : pktlength ≤ offset+fuel)
    (hidx : option_idx+(items.filterMap AreaItem.option?).length < MAX_DHCP_OPTIONS)
    (h : Holds buffer offset (items.flatMap AreaItem.wire))
    (hend : AreaEnds buffer pktlength (offset+(items.flatMap AreaItem.wire).length)) :
    readOptions buffer pktlength fuel option_idx offset = items.filterMap AreaItem.option? := by
  induction items generalizing offset fuel option_idx with
  | nil => exact readOptions_end hfuel (Nat.lt_of_add_right_lt hidx) hend
  | cons item items ih =>
    rw [List.flatMap_cons, holds_append] at h
    rw [List.flatMap_cons, List.length_append, ← Nat.add_assoc] at hend
    obtain ⟨hitem, hrest⟩ := h
    have hfull : option_idx ≠ MAX_DHCP_OPTIONS := by omega
    have hlen : 0 < item.wire.length := by cases item <;> exact Nat.succ_pos _
    have hin : offset < pktlength := by
      rcases hend with hend | ⟨hend, -⟩ <;> omega
    -- every item takes a byte at least, so the fuel lasts
    obtain ⟨fuel, rfl⟩ : ∃ n, fuel = n+1 := ⟨fuel-1, by omega⟩
    cases item with
    | pad =>
      have hpad : buffer offset = DHO_PAD := hitem.1
      rw [readOptions, if_neg (by omega), if_neg hfull, if_pos hpad]
      exact ih hwell (by omega) hidx hrest hend
    | option o =>
      have hoptions : (AreaItem.option o :: items).filterMap AreaItem.option? =
          o :: items.filterMap AreaItem.option? := rfl
      rw [hoptions] at hwell hidx ⊢
      obtain ⟨ho, hwell⟩ := List.forall_mem_cons.mp hwell
      obtain ⟨hcode, hlength, hvalue⟩ : buffer offset = o.code ∧ buffer (offset+1) = o.length ∧
        Holds buffer (offset+2) o.value := hitem
      have hsize : (AreaItem.option o).wire.length = o.length.toNat+2 := by
        rw [← ho.value]
        rfl
      have hbytes : bytesAt buffer (offset+2) o.length.toNat = o.value := by
        rw [← ho.value]
        exact hvalue.read
      rw [List.length_cons] at hidx
      rw [hsize, ← Nat.add_assoc] at hrest hend
      rw [readOptions, if_neg (by omega), if_neg hfull, hcode, if_neg ho.pad, if_neg ho.mark]
      simp only [hlength, hbytes]
      rw [ih hwell (by omega) (by omega) hrest hend]

end Items

theorem readOptions_wire {pktlength fuel option_idx : ℕ} {options : List DHCP_Option}
    {rest : List Byte} (hwell : ∀ o ∈ options, o.WellFormed) (hfuel : pktlength ≤ offset+fuel)
    (hidx : option_idx+options.length < MAX_DHCP_OPTIONS)
    (h : Holds buffer offset (options.flatMap DHCP_Option.wire ++ DHO_END :: rest))
    (hlen : offset+(options.flatMap DHCP_Option.wire).length < pktlength) :
    readOptions buffer pktlength fuel option_idx offset = options := by
  have hoptions : (options.map AreaItem.option).filterMap AreaItem.option? = options := by
    rw [List.filterMap_map]
    exact List.filterMap_some
  have hwire : (options.map AreaItem.option).flatMap AreaItem.wire =
      options.flatMap DHCP_Option.wire := List.flatMap_map ..
  rw [holds_append] at h
  have hitems := @readOptions_items buffer offset pktlength fuel option_idx
    (options.map AreaItem.option)
  rw [hoptions, hwire] at hitems
  exact hitems hwell hfuel hidx h.1 (Or.inr ⟨hlen, h.2.1⟩)

end Options

end S3Dhcpd
