import S3Dhcpd.OptionSlots

/-! The packets that `marshall` parses as a whole, by the grammar of their option area. -/
namespace S3Dhcpd
open ByteMemory

/-- The options among the items of an area. -/
def areaOptions (items : List AreaItem) : List DHCP_Option := items.filterMap AreaItem.option?

/-- A packet with the magic cookie, an area of the given items, and behind them an end mark or the
end of the packet. -/
structure OptionPacket (buffer : ℕ → Byte) (pktlength : ℕ) (items : List AreaItem) : Prop where
  cookie : checkMagicCookie buffer pktlength = true
  area : Holds buffer 240 (items.flatMap AreaItem.wire)
  ends : AreaEnds buffer pktlength (240+(items.flatMap AreaItem.wire).length)
  few : (areaOptions items).length < MAX_DHCP_OPTIONS
  wellFormed : ∀ o ∈ areaOptions items, o.WellFormed

/-- What the program makes of such a packet. -/
structure Accepted (buffer : ℕ → Byte) (pktlength : ℕ) (items : List AreaItem) (p : DHCP_Packet) :
    Prop where
  parsed : marshall buffer pktlength = .ok p
  options : p.options = areaOptions items
  slots : (marshallSlots buffer pktlength).Filled (areaOptions items)
  mark : ((marshallSlots buffer pktlength).slots (areaOptions items).length).code = DHO_END
  same : ∀ buffer' pktlength' items', OptionPacket buffer' pktlength' items' →
    areaOptions items' = areaOptions items → (∀ i < 240, buffer' i = buffer i) →
      marshall buffer' pktlength' = .ok p
  type : ∀ g o b value, (areaOptions items).find? (·.code = DHO_DHCP_MESSAGE_TYPE) = some o →
    o.value = b :: value → p.getMessageType g = b.toNat
  untyped : ∀ g, (∀ o ∈ areaOptions items, o.code ≠ DHO_DHCP_MESSAGE_TYPE) →
    p.getMessageType g = -1

section Grammar
variable {buffer : ℕ → Byte} {pktlength : ℕ} {items : List AreaItem} {p : DHCP_Packet}

theorem OptionPacket.marshall (h : OptionPacket buffer pktlength items) :
    marshall buffer pktlength = .ok (packetAt buffer (areaOptions items)) := by
  rw [marshall_packetAt h.cookie, readOptions_items h.wellFormed (by omega)
    (by rw [Nat.zero_add]; exact h.few) h.area h.ends]
  rfl

theorem getMessageType_first {g : Garbage} {o : DHCP_Option} {b : Byte} {value : List Byte}
    (ho : p.options.find? (·.code = DHO_DHCP_MESSAGE_TYPE) = some o) (hvalue : o.value = b :: value) :
    p.getMessageType g = b.toNat := by
  simp only [DHCP_Packet.getMessageType, ho, DHCP_Option.valueAt, hvalue, List.getD_cons_zero]

theorem getMessageType_none {g : Garbage}
    (h : ∀ o ∈ p.options, o.code ≠ DHO_DHCP_MESSAGE_TYPE) : p.getMessageType g = -1 := by
  have hnone : p.options.find? (·.code = DHO_DHCP_MESSAGE_TYPE) = none := by
    rw [List.find?_eq_none]
    intro o ho
    rw [decide_eq_true_eq]
    exact h o ho
  rw [DHCP_Packet.getMessageType, hnone]

/-- Every packet of the grammar is parsed as its options, wherever padding stands between them and
whatever stands behind the end mark. -/
theorem option_grammar (h : OptionPacket buffer pktlength items) :
    ∃ p, Accepted buffer pktlength items p := by
  have hparsed := h.marshall
  obtain ⟨hslots, hmark⟩ := marshall_slots hparsed
  -- the parse is a function of the header and of the options, so equal ones give one result
  refine ⟨packetAt buffer (areaOptions items), hparsed, rfl, hslots, hmark, ?_, ?_, ?_⟩
  · intro buffer' pktlength' items' h' hsame hheader
    rw [h'.marshall, hsame, packetAt_congr hheader]
  · exact fun g o b value ho hvalue => getMessageType_first ho hvalue
  · exact fun g hnone => getMessageType_none hnone

/-- A REQUEST with padding before and behind its only option, and a byte behind the end mark. -/
def paddedBuffer : ℕ → Byte :=
  write (write (fun _ => 0) 236 DHCP_MAGIC_COOKIE) 240 [0, 53, 1, 3, 0, 0, 255, 7]

theorem option_grammar_padded : ∃ p, Accepted paddedBuffer 248
    [.pad, .option ⟨DHO_DHCP_MESSAGE_TYPE, 1, [3]⟩, .pad, .pad] p :=
  option_grammar ⟨by decide, by decide, by decide, by decide, by decide⟩

end Grammar

end S3Dhcpd
