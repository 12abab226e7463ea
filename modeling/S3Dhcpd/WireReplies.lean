import S3Dhcpd.Codec
import S3Dhcpd.Replies

/-! What a turn puts on the wire, as the client's own parser would read it. -/
namespace S3Dhcpd

/-- `response->unmarshall(message_buf, &message_length)`: what a turn sends, and to whom. -/
def emitted (cfg : Config) (T : Leases) (d : Datagram) : Option ((ℕ → Byte) × ℕ × Destination) :=
  match (mainLoop cfg T d).2.response with
  | .ok (some (response, to_addr)) =>
    let (message_buf, message_length) := unmarshall d.garbage response d.buffer
    some (message_buf, message_length, to_addr)
  | _ => none

/-- The values of all options of a code. -/
def DHCP_Packet.optionValues (p : DHCP_Packet) (code : Byte) : List (List Byte) :=
  (p.options.filter (·.code = code)).map DHCP_Option.value

/-- The address that the allocator grants to the client of a request. -/
def grantedAddress (cfg : Config) (T : Leases) (d : Datagram) (request : DHCP_Packet) : Option U32 :=
  if request.getMessageType d.garbage = DHCP_DISCOVER.toNat then
    match ipAlloc cfg d.env request.mac T with
    | .ok r => r.ip.map IPAddress.u_addr
    | .error _ => none
  else if request.getMessageType d.garbage = DHCP_REQUEST.toNat then
    let ip := request.getRequestedAddress d.garbage
    match ipCheck cfg d.env request.mac ip T with
    | .ok (_, true) => some ip.u_addr
    | _ => none
  else none

/-- The reply is an OFFER, or an ACK to a REQUEST. -/
def Leasing (g : Garbage) (request reply : DHCP_Packet) : Prop :=
  reply.optionValues DHO_DHCP_MESSAGE_TYPE = [[DHCP_OFFER]] ∨
    request.getMessageType g = DHCP_REQUEST.toNat ∧
      reply.optionValues DHO_DHCP_MESSAGE_TYPE = [[DHCP_ACK]]

/-- The reply has a type that the type of the request allows. -/
def TypeMatches (g : Garbage) (request reply : DHCP_Packet) : Prop :=
  let type := request.getMessageType g
  let value := reply.optionValues DHO_DHCP_MESSAGE_TYPE
  type = DHCP_DISCOVER.toNat ∧ (value = [[DHCP_OFFER]] ∨ value = [[DHCP_NAK]]) ∨
  type = DHCP_REQUEST.toNat ∧ (value = [[DHCP_ACK]] ∨ value = [[DHCP_NAK]]) ∨
  type = DHCP_INFORM.toNat ∧ value = [[DHCP_ACK]]

/-- A reply that matches its request. -/
structure RepliesTo (cfg : Config) (T : Leases) (d : Datagram) (request reply : DHCP_Packet)
    (to_addr : Destination) : Prop where
  op : reply.op = BOOT_REPLY
  htype : reply.htype = request.htype
  hlen : reply.hlen = request.hlen
  xid : reply.xid = request.xid
  flags : reply.flags = request.flags
  giaddr : reply.giaddr = request.giaddr
  chaddr : reply.chaddr = request.chaddr
  type : TypeMatches d.garbage request reply
  server : reply.optionValues DHO_DHCP_SERVER_IDENTIFIER =
    [bytesOf cfg.nets.globalnet.addr.u_addr]
  granted : Leasing d.garbage request reply → grantedAddress cfg T d request = some reply.yiaddr
  others : ¬Leasing d.garbage request reply → reply.yiaddr = 0
  lease : reply.optionValues DHO_DHCP_LEASE_TIME ≠ [] ↔ Leasing d.garbage request reply
  to_addr : to_addr =
    if request.getMessageType d.garbage = DHCP_INFORM.toNat ∧ request.ciaddr ≠ 0 then
      .address request.ciaddr
    else .broadcast

/-- The parser reads a response from the wire as a reply that matches the request. -/
def WireReply (cfg : Config) (T : Leases) (d : Datagram) (request response : DHCP_Packet) : Prop :=
  marshall (unmarshall d.garbage response d.buffer).1 (unmarshall d.garbage response d.buffer).2 =
    .ok (response.sent d.garbage) ∧
  RepliesTo cfg T d request (response.sent d.garbage) (destination request response)

/-- What a builder fills into a reply. -/
structure Built (nets : Subnets) (g : Garbage) (request response : DHCP_Packet) (type : Byte)
    (ciaddr yiaddr : U32) (leased : Bool) : Prop where
  respond : response = request.respond ciaddr yiaddr response.options
  few : response.options.length < MAX_DHCP_OPTIONS
  codes : ∀ o ∈ response.options, o.code ≠ DHO_PAD ∧ o.code ≠ DHO_END
  type : (response.sent g).optionValues DHO_DHCP_MESSAGE_TYPE = [[type]]
  server : (response.sent g).optionValues DHO_DHCP_SERVER_IDENTIFIER =
    [bytesOf nets.globalnet.addr.u_addr]
  lease : (response.sent g).optionValues DHO_DHCP_LEASE_TIME ≠ [] ↔ leased = true

section Builders
variable {nets : Subnets} {g : Garbage} {request response : DHCP_Packet} {ip : IPAddress}
  {type : Byte} {ciaddr yiaddr : U32}

theorem optionValues_sent {code : Byte} : (response.sent g).optionValues code ≠ [] ↔
    code ∈ response.options.map DHCP_Option.code := by
  simp [DHCP_Packet.optionValues, DHCP_Packet.sent, DHCP_Option.sent]

/-- What is sent of a reply hangs on the list of its codes. -/
theorem built_of_codes {leased : Bool} (codes : List Byte)
    (hrespond : response = request.respond ciaddr yiaddr response.options)
    (hcodes : response.options.map DHCP_Option.code = codes) (hfew : codes.length < MAX_DHCP_OPTIONS)
    (hvalid : ∀ code ∈ codes, code ≠ DHO_PAD ∧ code ≠ DHO_END)
    (hlease : DHO_DHCP_LEASE_TIME ∈ codes ↔ leased = true)
    (htype : (response.sent g).optionValues DHO_DHCP_MESSAGE_TYPE = [[type]])
    (hserver : (response.sent g).optionValues DHO_DHCP_SERVER_IDENTIFIER =
      [bytesOf nets.globalnet.addr.u_addr]) :
    Built nets g request response type ciaddr yiaddr leased where
  respond := hrespond
  few := by rwa [← hcodes, List.length_map] at hfew
  codes := fun o ho => hvalid o.code (hcodes ▸ List.mem_map_of_mem ho)
  type := htype
  server := hserver
  lease := by rw [optionValues_sent, hcodes, hlease]

theorem createDhcpOffer_built (h : request.createDhcpOffer nets g ip = .ok response) :
    Built nets g request response DHCP_OFFER 0 ip.u_addr true := by
  rw [DHCP_Packet.createDhcpOffer] at h
  cases hsub : nets.mysubnet ip with
  | none =>
    rw [hsub] at h
    cases h
  | some mysub =>
    rw [hsub] at h
    cases h
    exact built_of_codes [DHO_DHCP_MESSAGE_TYPE, DHO_DHCP_SERVER_IDENTIFIER, DHO_DHCP_LEASE_TIME,
      DHO_DHCP_RENEWAL_TIME, DHO_DOMAIN_NAME, DHO_SUBNET, DHO_ROUTERS, DHO_DOMAIN_NAME_SERVERS]
      rfl rfl (by decide) (by decide +kernel) (by decide) rfl rfl

theorem createDhcpAck_built (h : request.createDhcpAck nets g ip = some response) :
    Built nets g request response DHCP_ACK 0 ip.u_addr true := by
  rw [DHCP_Packet.createDhcpAck] at h
  cases hsub : nets.mysubnet ip with
  | none =>
    rw [hsub] at h
    cases h
  | some mysub =>
    rw [hsub] at h
    cases h
    exact built_of_codes [DHO_DHCP_MESSAGE_TYPE, DHO_DHCP_SERVER_IDENTIFIER, DHO_DHCP_LEASE_TIME,
      DHO_DHCP_RENEWAL_TIME, DHO_DOMAIN_NAME, DHO_ROUTERS, DHO_SUBNET, DHO_DOMAIN_NAME_SERVERS]
      rfl rfl (by decide) (by decide +kernel) (by decide) rfl rfl

theorem createDhcpAck2_built (h : request.createDhcpAck2 nets g ip = some response) :
    Built nets g request response DHCP_ACK request.ciaddr 0 false := by
  rw [DHCP_Packet.createDhcpAck2] at h
  cases hsub : nets.mysubnet ip with
  | none =>
    rw [hsub] at h
    cases h
  | some mysub =>
    rw [hsub] at h
    cases h
    exact built_of_codes [DHO_DHCP_MESSAGE_TYPE, DHO_DHCP_SERVER_IDENTIFIER, DHO_DOMAIN_NAME,
      DHO_ROUTERS, DHO_SUBNET, DHO_DOMAIN_NAME_SERVERS]
      rfl rfl (by decide) (by decide +kernel) (by decide) rfl rfl

theorem createDhcpNak_built :
    Built nets g request (request.createDhcpNak nets) DHCP_NAK 0 0 false :=
  built_of_codes [DHO_DHCP_MESSAGE_TYPE, DHO_DHCP_SERVER_IDENTIFIER]
    rfl rfl (by decide) (by decide +kernel) (by decide) rfl rfl

/-- A reply is parsed as it was built, with the bytes of its options that were sent. -/
theorem Built.parsed {leased : Bool}
    (h : Built nets g request response type ciaddr yiaddr leased) (hrequest : request.Framed)
    (buffer : ℕ → Byte) :
    marshall (unmarshall g response buffer).1 (unmarshall g response buffer).2 =
      .ok (response.sent g) := by
  refine marshall_unmarshall ?_ h.few h.codes buffer
  rw [h.respond]
  exact ⟨hrequest.chaddr, rfl, rfl⟩

end Builders

theorem request_framed {d : Datagram} {request : DHCP_Packet} (h : d.request = some request) :
    request.Framed := by
  rw [Datagram.request] at h
  split_ifs at h with hcookie
  rw [marshall_packetAt hcookie] at h
  cases h
  exact packetAt_framed _ _

section Matching
variable {cfg : Config} {T : Leases} {d : Datagram} {request response : DHCP_Packet}
  {type : Byte} {ciaddr yiaddr : U32} {leased : Bool}

theorem emitted_some {message_buf : ℕ → Byte} {message_length : ℕ} {to_addr : Destination}
    (h : emitted cfg T d = some (message_buf, message_length, to_addr)) :
    ∃ response, (mainLoop cfg T d).2.response = .ok (some (response, to_addr)) ∧
      message_buf = (unmarshall d.garbage response d.buffer).1 ∧
      message_length = (unmarshall d.garbage response d.buffer).2 := by
  rw [emitted] at h
  split at h
  · rename_i response to_addr' hresponse
    cases h
    exact ⟨response, hresponse, rfl, rfl⟩
  · cases h

theorem Built.leasing (h : Built cfg.nets d.garbage request response type ciaddr yiaddr leased) :
    Leasing d.garbage request (response.sent d.garbage) ↔ type = DHCP_OFFER ∨
      request.getMessageType d.garbage = DHCP_REQUEST.toNat ∧ type = DHCP_ACK := by
  simp only [Leasing, h.type, List.cons.injEq, and_true]

theorem Built.typeMatches (h : Built cfg.nets d.garbage request response type ciaddr yiaddr leased) :
    TypeMatches d.garbage request (response.sent d.garbage) ↔
      request.getMessageType d.garbage = DHCP_DISCOVER.toNat ∧ (type = DHCP_OFFER ∨ type = DHCP_NAK) ∨
      request.getMessageType d.garbage = DHCP_REQUEST.toNat ∧ (type = DHCP_ACK ∨ type = DHCP_NAK) ∨
      request.getMessageType d.garbage = DHCP_INFORM.toNat ∧ type = DHCP_ACK := by
  simp only [TypeMatches, h.type, List.cons.injEq, and_true]

theorem Built.repliesTo (h : Built cfg.nets d.garbage request response type ciaddr yiaddr leased)
    (htype : TypeMatches d.garbage request (response.sent d.garbage))
    (hleasing : Leasing d.garbage request (response.sent d.garbage) ↔ leased = true)
    (hgranted : leased = true → grantedAddress cfg T d request = some yiaddr)
    (hothers : leased = false → yiaddr = 0)
    (hciaddr : ciaddr =
      if request.getMessageType d.garbage = DHCP_INFORM.toNat then request.ciaddr else 0) :
    RepliesTo cfg T d request (response.sent d.garbage) (destination request response) where
  op := (congrArg DHCP_Packet.op h.respond :)
  htype := (congrArg DHCP_Packet.htype h.respond :)
  hlen := (congrArg DHCP_Packet.hlen h.respond :)
  xid := (congrArg DHCP_Packet.xid h.respond :)
  flags := (congrArg DHCP_Packet.flags h.respond :)
  giaddr := (congrArg DHCP_Packet.giaddr h.respond :)
  chaddr := (congrArg DHCP_Packet.chaddr h.respond :)
  type := htype
  server := h.server
  granted := by
    intro hlease
    have hyiaddr : (response.sent d.garbage).yiaddr = yiaddr := congrArg DHCP_Packet.yiaddr h.respond
    rw [hyiaddr, hgranted (hleasing.mp hlease)]
  others := by
    intro hlease
    have hyiaddr : (response.sent d.garbage).yiaddr = yiaddr := congrArg DHCP_Packet.yiaddr h.respond
    rw [hyiaddr, hothers (Bool.eq_false_iff.mpr fun hleased => hlease (hleasing.mpr hleased))]
  lease := by rw [h.lease, hleasing]
  to_addr := by
    have hresponse : response.ciaddr = ciaddr := congrArg DHCP_Packet.ciaddr h.respond
    rw [destination, hresponse, hciaddr]
    -- only the answer to an INFORM keeps `ciaddr`
    by_cases hinform : request.getMessageType d.garbage = DHCP_INFORM.toNat
    · by_cases hzero : request.ciaddr = 0
      · simp [hinform, hzero]
      · simp only [hinform, hzero, ↓reduceIte, ne_eq, not_false_eq_true, and_self]
        rfl
    · simp [hinform]

theorem offer_wireReply {ip : IPAddress} (hrequest : request.Framed)
    (htype : request.getMessageType d.garbage = DHCP_DISCOVER.toNat)
    (hgranted : grantedAddress cfg T d request = some ip.u_addr)
    (hoffer : request.createDhcpOffer cfg.nets d.garbage ip = .ok response) :
    WireReply cfg T d request response := by
  have hbuilt := createDhcpOffer_built hoffer
  refine ⟨hbuilt.parsed hrequest _, hbuilt.repliesTo ?_ ?_ (fun _ => hgranted) ?_ ?_⟩
  · exact hbuilt.typeMatches.mpr (Or.inl ⟨htype, Or.inl rfl⟩)
  · simp [hbuilt.leasing]
  · intro hleased
    cases hleased
  · rw [htype, if_neg (by decide)]

theorem ack_wireReply (hrequest : request.Framed)
    (htype : request.getMessageType d.garbage = DHCP_REQUEST.toNat)
    (hgranted : grantedAddress cfg T d request =
      some (request.getRequestedAddress d.garbage).u_addr)
    (hack : request.createDhcpAck cfg.nets d.garbage (request.getRequestedAddress d.garbage) =
      some response) : WireReply cfg T d request response := by
  have hbuilt := createDhcpAck_built hack
  refine ⟨hbuilt.parsed hrequest _, hbuilt.repliesTo ?_ ?_ (fun _ => hgranted) ?_ ?_⟩
  · exact hbuilt.typeMatches.mpr (Or.inr (Or.inl ⟨htype, Or.inl rfl⟩))
  · simp [hbuilt.leasing, htype]
  · intro hleased
    cases hleased
  · rw [htype, if_neg (by decide)]

theorem nak_wireReply (hrequest : request.Framed)
    (htype : request.getMessageType d.garbage = DHCP_DISCOVER.toNat ∨
      request.getMessageType d.garbage = DHCP_REQUEST.toNat) :
    WireReply cfg T d request (request.createDhcpNak cfg.nets) := by
  have hbuilt := @createDhcpNak_built cfg.nets d.garbage request
  refine ⟨hbuilt.parsed hrequest _, hbuilt.repliesTo ?_ ?_ ?_ (fun _ => rfl) ?_⟩
  · exact hbuilt.typeMatches.mpr (htype.imp (fun h => ⟨h, Or.inr rfl⟩)
      fun h => Or.inl ⟨h, Or.inr rfl⟩)
  · simp [hbuilt.leasing, DHCP_NAK, DHCP_OFFER, DHCP_ACK]
  · intro hleased
    cases hleased
  · rcases htype with htype | htype
    · rw [htype, if_neg (by decide)]
    · rw [htype, if_neg (by decide)]

theorem ack2_wireReply (hrequest : request.Framed)
    (htype : request.getMessageType d.garbage = DHCP_INFORM.toNat)
    (hack : request.createDhcpAck2 cfg.nets d.garbage (request.getRequestedAddress d.garbage) =
      some response) : WireReply cfg T d request response := by
  have hbuilt := createDhcpAck2_built hack
  refine ⟨hbuilt.parsed hrequest _, hbuilt.repliesTo ?_ ?_ ?_ (fun _ => rfl) ?_⟩
  · exact hbuilt.typeMatches.mpr (Or.inr (Or.inr ⟨htype, rfl⟩))
  · simp [hbuilt.leasing, htype, DHCP_OFFER, DHCP_ACK, DHCP_INFORM, DHCP_REQUEST]
  · intro hleased
    cases hleased
  · rw [if_pos htype]

/-- Every answer matches its request once it has been sent. -/
theorem answers_wireReply (hrequest : request.Framed) (h : Answers cfg T d request response) :
    WireReply cfg T d request response := by
  cases h with
  | @offered leases ip effects response htype hallocated hoffer =>
    refine offer_wireReply hrequest htype ?_ hoffer
    rw [grantedAddress, if_pos htype, hallocated]
    rfl
  | @exhausted leases effects htype hrefused => exact nak_wireReply hrequest (Or.inl htype)
  | @acknowledged leases response htype hchecked hack =>
    refine ack_wireReply hrequest htype ?_ hack
    rw [grantedAddress, if_neg (by rw [htype]; decide), if_pos htype]
    simp only [hchecked]
  | @declined leases htype hchecked => exact nak_wireReply hrequest (Or.inr htype)
  | @informed response htype hack => exact ack2_wireReply hrequest htype hack

end Matching

/-- What a turn sends is read by the program's own parser as a reply that matches the request. -/
theorem reply_matches_request {cfg : Config} {T : Leases} {d : Datagram} {message_buf : ℕ → Byte}
    {message_length : ℕ} {to_addr : Destination}
    (h : emitted cfg T d = some (message_buf, message_length, to_addr)) :
    ∃ request reply, d.request = some request ∧ marshall message_buf message_length = .ok reply ∧
      RepliesTo cfg T d request reply to_addr := by
  obtain ⟨response, hresponse, rfl, rfl⟩ := emitted_some h
  cases hrequest : d.request with
  | none => exact absurd hresponse (mainLoop_silent hrequest)
  | some request =>
    obtain ⟨hanswer, rfl⟩ := mainLoop_answers hrequest hresponse
    obtain ⟨hparsed, hmatch⟩ := answers_wireReply (request_framed hrequest) hanswer
    exact ⟨request, response.sent d.garbage, rfl, hparsed, hmatch⟩

/-- The reply to the DISCOVER of the example's first client. -/
theorem reply_matches_request_example :
    ∃ message_buf message_length to_addr,
      emitted exampleCfg exampleTable (exampleDatagram 1000 DHCP_DISCOVER 1 0) =
        some (message_buf, message_length, to_addr) ∧
      ∃ request reply, (exampleDatagram 1000 DHCP_DISCOVER 1 0).request = some request ∧
        marshall message_buf message_length = .ok reply ∧
        RepliesTo exampleCfg exampleTable (exampleDatagram 1000 DHCP_DISCOVER 1 0) request reply
          to_addr := by
  have hemitted : (emitted exampleCfg exampleTable
      (exampleDatagram 1000 DHCP_DISCOVER 1 0)).isSome = true := by
    decide +kernel
  obtain ⟨⟨message_buf, message_length, to_addr⟩, h⟩ := Option.isSome_iff_exists.mp hemitted
  exact ⟨message_buf, message_length, to_addr, h, reply_matches_request h⟩

end S3Dhcpd
