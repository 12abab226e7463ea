import S3Dhcpd.Network

/-! What the stations on the network make of the frames that the server sends. -/
namespace S3Dhcpd
open ByteMemory Runs

/-- Whoever captures the frame as a whole, and takes it apart as the server does, reads the reply,
whatever its buffer held. -/
def Carries (frame : List Byte) (reply : DHCP_Packet) : Prop :=
  ∀ c : Capture, c.Whole frame → ∃ copy, recvPacket DHCP_MAX_MTU [some c] = some copy ∧
    ∀ buf, marshall (copy.onto buf) copy.size.toNat = .ok reply

/-- A station has read the reply. -/
def Hears (frame : List Byte) (reply : DHCP_Packet) : Prop :=
  ∃ (c : Capture) (copy : Copy) (buf : ℕ → Byte), c.Whole frame ∧
    recvPacket DHCP_MAX_MTU [some c] = some copy ∧
      marshall (copy.onto buf) copy.size.toNat = .ok reply

/-- The frame leases an address to a client. -/
def Served.Announces (v : Served) (a : U32) (client : BitVec 48) : Prop :=
  ∃ frame reply, v.sent = some (.frame frame) ∧ Hears frame reply ∧
    reply.optionValues DHO_DHCP_LEASE_TIME ≠ [] ∧ reply.yiaddr = a ∧
      hwAddr reply.mac.u_addr = client

section Frames
variable {frame : List Byte} {reply reply' : DHCP_Packet}

theorem Carries.unique (h : Carries frame reply) (h' : Hears frame reply') : reply' = reply := by
  obtain ⟨c, copy, buf, hc, hcopy, hread⟩ := h'
  obtain ⟨copy', hcopy', hread'⟩ := h c hc
  obtain rfl := Option.some.inj (hcopy.symm.trans hcopy')
  exact Except.ok.inj (hread.symm.trans (hread' buf))

/-- A frame that can be captured at all is heard. -/
theorem Carries.hears (h : Carries frame reply) (hlong : 15 ≤ frame.length)
    (hshort : frame.length < 2^32) : Hears frame reply := by
  have hlength : (BitVec.ofNat 32 frame.length).toNat = frame.length := by
    rw [BitVec.toNat_ofNat, Nat.mod_eq_of_lt hshort]
  have hholds : Holds (write (fun _ => (0 : Byte)) 0 frame) 0 frame := holds_write
  have hcapture : ∃ c : Capture, c.Whole frame :=
    ⟨⟨write (fun _ => 0) 0 frame, BitVec.ofNat 32 frame.length, BitVec.ofNat 32 frame.length,
      by rwa [hlength], le_rfl⟩, hholds, hlength, hlength⟩
  obtain ⟨c, hc⟩ := hcapture
  obtain ⟨copy, hcopy, hread⟩ := h c hc
  exact ⟨c, copy, fun _ => 0, hc, hcopy, hread _⟩

end Frames

section Replies
variable {cfg : Config} {T : Leases} {d : Datagram} {request response : DHCP_Packet}
  {net : DHCP_Net} {g : Garbage}

theorem answers_built (h : Answers cfg T d request response) : ∃ type ciaddr yiaddr leased,
    Built cfg.nets d.garbage request response type ciaddr yiaddr leased := by
  cases h with
  | offered _ _ offer => exact ⟨_, _, _, _, createDhcpOffer_built offer⟩
  | exhausted _ _ => exact ⟨_, _, _, _, createDhcpNak_built⟩
  | acknowledged _ _ ack => exact ⟨_, _, _, _, createDhcpAck_built ack⟩
  | declined _ _ => exact ⟨_, _, _, _, createDhcpNak_built⟩
  | informed _ ack => exact ⟨_, _, _, _, createDhcpAck2_built ack⟩

theorem length_ofText (code : Byte) (p_val : String) :
    (DHCP_Option.ofText code p_val).length.toNat ≤ 255 :=
  Nat.le_of_lt_succ (DHCP_Option.ofText code p_val).length.isLt

/-- The longest replies are offers and acknowledgements under a long domain name. -/
theorem answers_short (h : Answers cfg T d request response) : packetLength response ≤ 541 := by
  have hname := length_ofText DHO_DOMAIN_NAME cfg.nets.globalnet.domain_name
  have hbyte (code b : Byte) : (DHCP_Option.ofByte code b).length.toNat = 1 := rfl
  have hword (code : Byte) (a : U32) : (DHCP_Option.ofU32 code a).length.toNat = 4 := rfl
  have hservers (sub : Subnet) : (DHCP_Option.ofNameservers d.garbage sub).length.toNat = 8 := rfl
  have hnak : packetLength (request.createDhcpNak cfg.nets) = 250 := rfl
  cases h with
  | @offered leases ip effects response _ _ offer =>
    rw [DHCP_Packet.createDhcpOffer] at offer
    cases hsub : cfg.nets.mysubnet ip with
    | none =>
      rw [hsub] at offer
      cases offer
    | some sub =>
      rw [hsub] at offer
      cases offer
      simp only [packetLength, DHCP_Packet.respond, List.map_cons, List.map_nil, List.sum_cons,
        List.sum_nil, hbyte, hword, hservers]
      omega
  | exhausted _ _ => omega
  | @acknowledged leases response _ _ ack =>
    rw [DHCP_Packet.createDhcpAck] at ack
    cases hsub : cfg.nets.mysubnet (request.getRequestedAddress d.garbage) with
    | none =>
      rw [hsub] at ack
      cases ack
    | some sub =>
      rw [hsub] at ack
      cases ack
      simp only [packetLength, DHCP_Packet.respond, List.map_cons, List.map_nil, List.sum_cons,
        List.sum_nil, hbyte, hword, hservers]
      omega
  | declined _ _ => omega
  | @informed response _ ack =>
    rw [DHCP_Packet.createDhcpAck2] at ack
    cases hsub : cfg.nets.mysubnet (request.getRequestedAddress d.garbage) with
    | none =>
      rw [hsub] at ack
      cases ack
    | some sub =>
      rw [hsub] at ack
      cases ack
      simp only [packetLength, DHCP_Packet.respond, List.map_cons, List.map_nil, List.sum_cons,
        List.sum_nil, hbyte, hword, hservers]
      omega

theorem Built.sent_wellFormed {nets : Subnets} {type : Byte} {ciaddr yiaddr : U32} {leased : Bool}
    (h : Built nets g request response type ciaddr yiaddr leased) (hrequest : request.Framed) :
    (response.sent g).WellFormed := by
  have hframed : response.Framed := by
    rw [h.respond]
    exact ⟨hrequest.chaddr, rfl, rfl⟩
  refine ⟨⟨hframed.chaddr, hframed.sname, hframed.file⟩, ?_, ?_⟩
  · rw [DHCP_Packet.sent, List.length_map]
    exact h.few
  · intro o' ho'
    obtain ⟨o, ho, rfl⟩ := List.mem_map.mp ho'
    exact ⟨(h.codes o ho).1, (h.codes o ho).2, sent_value_length g o⟩

/-- What `unmarshall` has written arrives at the stations. -/
theorem broadcast_carries (hresponse : (response.sent g).WellFormed)
    (hshort : packetLength response ≤ DHCP_MAX_MTU) (buffer : ℕ → Byte) :
    Carries (sendBroadcastPacket net.flags net.hw_header net.my_ip
      (read (unmarshall g response buffer).1 0 (unmarshall g response buffer).2))
      (response.sent g) := by
  have hframed : response.Framed := ⟨hresponse.chaddr, hresponse.sname, hresponse.file⟩
  have hlength : (read (unmarshall g response buffer).1 0 (unmarshall g response buffer).2).length =
      max 300 (packetLength response) := by
    rw [length_read, unmarshall_length]
  have hmtu : max 300 (packetLength response) ≤ DHCP_MAX_MTU := max_le (by decide) hshort
  intro c hc
  obtain ⟨copy, hcopy, hframe, hsize, hread⟩ := @recvPacket_whole net.hw_header _ _ _ _ c
    DHCP_MAX_MTU [] rfl rfl (by rw [hlength]; exact hmtu.trans (by decide)) hc
    (by rw [hlength]; exact Int.ofNat_le.mpr hmtu)
  refine ⟨copy, hcopy, fun buf => ?_⟩
  -- the copy is what stood in the server's buffer: the reply, padded with zeros
  have hholds := onto_holds copy buf
  rw [hframe, hread, unmarshall_read hframed] at hholds
  apply marshall_wire hresponse hholds
  rw [(@unmarshall_holds g response hframed buffer).2, hsize, hlength, Int.toNat_natCast]
  exact le_max_right _ _

theorem broadcast_hears (hresponse : (response.sent g).WellFormed)
    (hshort : packetLength response ≤ DHCP_MAX_MTU) (buffer : ℕ → Byte) :
    Hears (sendBroadcastPacket net.flags net.hw_header net.my_ip
      (read (unmarshall g response buffer).1 0 (unmarshall g response buffer).2))
      (response.sent g) := by
  have hmtu : max 300 (packetLength response) ≤ DHCP_MAX_MTU := max_le (by decide) hshort
  have hlength : (sendBroadcastPacket net.flags net.hw_header net.my_ip
      (read (unmarshall g response buffer).1 0 (unmarshall g response buffer).2)).length =
        42+max 300 (packetLength response) := by
    rw [sendBroadcastPacket, List.length_append, List.length_append, List.length_append, length_eth,
      length_ip, length_udp, length_read, unmarshall_length]
  rw [DHCP_MAX_MTU] at hmtu
  exact (broadcast_carries hresponse hshort buffer).hears (by omega) (by omega)

end Replies

section Turns
variable {cfg : Config} {net : DHCP_Net} {s : Server} {d : Datagram}

/-- What a turn broadcasts is a reply to its request, and arrives as that. -/
theorem turn_frame {frame : List Byte}
    (h : (s.turn cfg net d).2.sent = some (.frame frame)) : ∃ request response,
      d.request = some request ∧
        (mainLoop cfg s.leases d).2.response = .ok (some (response, .broadcast)) ∧
        Carries frame (response.sent d.garbage) ∧ Hears frame (response.sent d.garbage) ∧
        RepliesTo cfg s.leases d request (response.sent d.garbage) .broadcast := by
  obtain ⟨⟨message_buf, message_length, to_addr⟩, hemitted, hsent⟩ := Option.map_eq_some_iff.mp h
  obtain ⟨response, hresponse, rfl, rfl⟩ := emitted_some hemitted
  cases to_addr with
  | address to_addr => cases hsent
  | broadcast =>
    obtain rfl := Sent.frame.inj hsent
    cases hrequest : d.request with
    | none => exact absurd hresponse (mainLoop_silent hrequest)
    | some request =>
      obtain ⟨hanswer, hto⟩ := mainLoop_answers hrequest hresponse
      obtain ⟨type, ciaddr, yiaddr, leased, hbuilt⟩ := answers_built hanswer
      have hframed := request_framed hrequest
      have hwell := hbuilt.sent_wellFormed hframed
      have hshort : packetLength response ≤ DHCP_MAX_MTU :=
        (answers_short hanswer).trans (by decide)
      refine ⟨request, response, rfl, hresponse, broadcast_carries hwell hshort _,
        broadcast_hears hwell hshort _, ?_⟩
      rw [hto]
      exact (answers_wireReply hframed hanswer).2

/-- What is granted to a DISCOVER is what the allocator returns in the call of the turn. -/
theorem discover_grants {request : DHCP_Packet} (hrequest : d.request = some request)
    (hdiscover : request.getMessageType d.garbage = DHCP_DISCOVER.toNat) {a : U32}
    (h : grantedAddress cfg s.leases d request = some a) : ∃ ip effects,
      ip.u_addr = a ∧ (s.turn cfg net d).2.answered cfg =
        some (⟨d.env, .ipAlloc request.mac.u_addr⟩, .alloc (some ip) effects) := by
  rw [grantedAddress, if_pos hdiscover] at h
  have hop : d.op = some (.ipAlloc request.mac.u_addr) := by
    rw [Datagram.op, hrequest]
    exact requestOp_alloc.mpr ⟨hdiscover, rfl⟩
  obtain ⟨leases, ip, effects, hr, -⟩ := ipAlloc_spec cfg d.env request.mac s.leases
  rw [hr] at h
  obtain ⟨ip, rfl, rfl⟩ := Option.map_eq_some_iff.mp h
  have hserve : (serveCall cfg s.leases ⟨d.env, .ipAlloc request.mac.u_addr⟩).2 =
      .alloc (some ip) effects := by
    have hmac : MACAddress.ofU64 request.mac.u_addr = request.mac := rfl
    simp only [serveCall, hmac, hr, answerAlloc]
  refine ⟨ip, effects, rfl, ?_⟩
  rw [← hserve]
  exact congrArg (Option.map _ ∘ Option.map _) hop

theorem requested_grants {request : DHCP_Packet} (hrequest : d.request = some request)
    (hreq : request.getMessageType d.garbage = DHCP_REQUEST.toNat) {a : U32} (ha : a ≠ INADDR_NONE)
    (h : grantedAddress cfg s.leases d request = some a) : (s.turn cfg net d).2.answered cfg =
      some (⟨d.env, .ipCheck request.mac.u_addr (some a)⟩, .check true) := by
  rw [grantedAddress, if_neg (by rw [hreq]; decide), if_pos hreq] at h
  obtain ⟨leases, granted, hr, -⟩ := ipCheck_spec cfg d.env request.mac
    (request.getRequestedAddress d.garbage) s.leases
  dsimp only at h
  rw [hr] at h
  cases granted with
  | false => cases h
  | true =>
    have haddr : (request.getRequestedAddress d.garbage).u_addr = a := Option.some.inj h
    rw [DHCP_Packet.getRequestedAddress] at hr haddr
    cases hip : request.requestedAddress d.garbage with
    | none =>
      -- without an address the one that is confirmed is INADDR_NONE
      rw [hip] at haddr
      exact (ha haddr.symm).elim
    | some b =>
      rw [hip] at hr haddr
      obtain rfl : b = a := haddr
      have hop : d.op = some (.ipCheck request.mac.u_addr (some b)) := by
        rw [Datagram.op, hrequest]
        exact requestOp_check.mpr ⟨hreq, rfl, hip⟩
      have hserve : (serveCall cfg s.leases ⟨d.env, .ipCheck request.mac.u_addr (some b)⟩).2 =
          .check true := by
        have hmac : MACAddress.ofU64 request.mac.u_addr = request.mac := rfl
        simp only [serveCall, hmac, hr, answerCheck]
      rw [← hserve]
      exact congrArg (Option.map _ ∘ Option.map _) hop

theorem RepliesTo.mac {request reply : DHCP_Packet} {to_addr : Destination}
    (h : RepliesTo cfg s.leases d request reply to_addr) : reply.mac = request.mac := by
  rw [DHCP_Packet.mac, h.chaddr, DHCP_Packet.mac]

/-- What is announced on the wire has been granted by the allocator. -/
theorem announces_grants {a : U32} {client : BitVec 48} (ha : a ≠ INADDR_NONE)
    (h : (s.turn cfg net d).2.Announces a client) :
    ∃ e, (s.turn cfg net d).2.answered cfg = some e ∧ Grants e a client := by
  obtain ⟨frame, reply, hsent, hheard, hlease, hyiaddr, rfl⟩ := h
  obtain ⟨request, response, hrequest, -, hcarries, -, hreplies⟩ := turn_frame hsent
  obtain rfl := hcarries.unique hheard
  have hleasing := hreplies.lease.mp hlease
  have hgranted := hreplies.granted hleasing
  rw [hyiaddr] at hgranted
  rw [hreplies.mac]
  by_cases hdiscover : request.getMessageType d.garbage = DHCP_DISCOVER.toNat
  · obtain ⟨ip, effects, rfl, hanswered⟩ := discover_grants hrequest hdiscover hgranted
    exact ⟨_, hanswered, rfl, rfl⟩
  · have hreq : request.getMessageType d.garbage = DHCP_REQUEST.toNat := by
      by_contra hreq
      rw [grantedAddress, if_neg hdiscover, if_neg hreq] at hgranted
      cases hgranted
    exact ⟨_, requested_grants hrequest hreq ha hgranted, rfl, rfl⟩

end Turns

end S3Dhcpd
