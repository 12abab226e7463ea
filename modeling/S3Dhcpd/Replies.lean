import S3Dhcpd.MainLoop

/-! What a turn may answer, and to whom. -/
namespace S3Dhcpd

/-- The responses to a request. -/
inductive Answers (cfg : Config) (T : Leases) (d : Datagram) (request : DHCP_Packet) :
    DHCP_Packet → Prop where
  | offered {leases : Leases} {ip : IPAddress} {effects : List Effect} {response : DHCP_Packet}
      (type : request.getMessageType d.garbage = DHCP_DISCOVER.toNat)
      (allocated : ipAlloc cfg d.env request.mac T = .ok ⟨leases, some ip, effects⟩)
      (offer : request.createDhcpOffer cfg.nets d.garbage ip = .ok response) :
      Answers cfg T d request response
  | exhausted {leases : Leases} {effects : List Effect}
      (type : request.getMessageType d.garbage = DHCP_DISCOVER.toNat)
      (refused : ipAlloc cfg d.env request.mac T = .ok ⟨leases, none, effects⟩) :
      Answers cfg T d request (request.createDhcpNak cfg.nets)
  | acknowledged {leases : Leases} {response : DHCP_Packet}
      (type : request.getMessageType d.garbage = DHCP_REQUEST.toNat)
      (checked : ipCheck cfg d.env request.mac (request.getRequestedAddress d.garbage) T =
        .ok (leases, true))
      (ack : request.createDhcpAck cfg.nets d.garbage (request.getRequestedAddress d.garbage) =
        some response) : Answers cfg T d request response
  | declined {leases : Leases} (type : request.getMessageType d.garbage = DHCP_REQUEST.toNat)
      (checked : ipCheck cfg d.env request.mac (request.getRequestedAddress d.garbage) T =
        .ok (leases, false)) : Answers cfg T d request (request.createDhcpNak cfg.nets)
  | informed {response : DHCP_Packet}
      (type : request.getMessageType d.garbage = DHCP_INFORM.toNat)
      (ack : request.createDhcpAck2 cfg.nets d.garbage (request.getRequestedAddress d.garbage) =
        some response) : Answers cfg T d request response

section Inversion
variable {cfg : Config} {T : Leases} {d : Datagram} {request response : DHCP_Packet}
  {to_addr : Destination}

theorem respond_some {effects : List Effect} {reply : Option DHCP_Packet} :
    (Turn.respond effects request reply).response = .ok (some (response, to_addr)) ↔
      reply = some response ∧ to_addr = destination request response := by
  cases reply with
  | none => simp [Turn.respond]
  | some reply =>
    simp only [Turn.respond, Option.map_some, Except.ok.injEq, Option.some.injEq, Prod.mk.injEq]
    constructor
    · rintro ⟨rfl, rfl⟩
      exact ⟨rfl, rfl⟩
    · rintro ⟨rfl, rfl⟩
      exact ⟨rfl, rfl⟩

theorem discover_answers (htype : request.getMessageType d.garbage = DHCP_DISCOVER.toNat) :
    (offerOrNak cfg T d request (ipAlloc cfg d.env request.mac T)).2.response =
      .ok (some (response, to_addr)) →
        Answers cfg T d request response ∧ to_addr = destination request response := by
  obtain ⟨leases, ip, effects, hr, _⟩ := ipAlloc_spec cfg d.env request.mac T
  rw [hr]
  intro h
  cases ip with
  | none =>
    obtain ⟨hreply, hto⟩ := respond_some.mp h
    cases hreply
    exact ⟨.exhausted htype hr, hto⟩
  | some ip =>
    simp only [offerOrNak] at h
    -- without an offer there is no response at all
    cases hoffer : request.createDhcpOffer cfg.nets d.garbage ip with
    | error e =>
      rw [hoffer] at h
      cases h
    | ok reply =>
      rw [hoffer] at h
      obtain ⟨hreply, hto⟩ := respond_some.mp h
      cases hreply
      exact ⟨.offered htype hr hoffer, hto⟩

theorem request_answers (htype : request.getMessageType d.garbage = DHCP_REQUEST.toNat) :
    (ackOrNak cfg T d request (request.getRequestedAddress d.garbage)
      (ipCheck cfg d.env request.mac (request.getRequestedAddress d.garbage) T)).2.response =
        .ok (some (response, to_addr)) →
          Answers cfg T d request response ∧ to_addr = destination request response := by
  obtain ⟨leases, granted, hr, _⟩ := ipCheck_spec cfg d.env request.mac
    (request.getRequestedAddress d.garbage) T
  rw [hr]
  intro h
  cases granted with
  | false =>
    obtain ⟨hreply, hto⟩ := respond_some.mp h
    cases hreply
    exact ⟨.declined htype hr, hto⟩
  | true =>
    obtain ⟨hreply, hto⟩ := respond_some.mp h
    exact ⟨.acknowledged htype hr hreply, hto⟩

/-- Every response is one of these, and is sent where its own `ciaddr` says. -/
theorem mainLoop_answers (hrequest : d.request = some request)
    (h : (mainLoop cfg T d).2.response = .ok (some (response, to_addr))) :
    Answers cfg T d request response ∧ to_addr = destination request response := by
  rw [mainLoop_request, hrequest] at h
  simp only [dispatch] at h
  split_ifs at h with hdiscover hrelease hinform hreq
  · exact discover_answers hdiscover h
  · exact absurd (respond_some.mp h).1.symm (Option.some_ne_none _)
  · obtain ⟨hreply, hto⟩ := respond_some.mp h
    exact ⟨.informed hinform hreply, hto⟩
  · exact request_answers hreq h
  · exact absurd (respond_some.mp h).1.symm (Option.some_ne_none _)
  · exact absurd (respond_some.mp h).1.symm (Option.some_ne_none _)

theorem mainLoop_silent (hrequest : d.request = none) :
    (mainLoop cfg T d).2.response ≠ .ok (some (response, to_addr)) := by
  rw [mainLoop_request, hrequest]
  exact fun h => absurd (Except.ok.inj h).symm (Option.some_ne_none _)

end Inversion

section Fields
variable {nets : Subnets} {g : Garbage} {request response : DHCP_Packet} {ip : IPAddress}

theorem createDhcpNak_type : (request.createDhcpNak nets).getMessageType g = DHCP_NAK.toNat := rfl

/-- An offer is built for an address of a subnet only. -/
theorem createDhcpOffer_inside (h : request.createDhcpOffer nets g ip = .ok response) :
    (∃ sub, nets.mysubnet ip = some sub) ∧ response.yiaddr = ip.u_addr ∧
      response.getMessageType g = DHCP_OFFER.toNat := by
  rw [DHCP_Packet.createDhcpOffer] at h
  cases hsub : nets.mysubnet ip with
  | none =>
    rw [hsub] at h
    cases h
  | some sub =>
    rw [hsub] at h
    cases h
    exact ⟨⟨sub, rfl⟩, rfl, rfl⟩

theorem createDhcpAck_inside (h : request.createDhcpAck nets g ip = some response) :
    (∃ sub, nets.mysubnet ip = some sub) ∧ response.yiaddr = ip.u_addr ∧
      response.getMessageType g = DHCP_ACK.toNat := by
  rw [DHCP_Packet.createDhcpAck] at h
  cases hsub : nets.mysubnet ip with
  | none =>
    rw [hsub] at h
    cases h
  | some sub =>
    rw [hsub] at h
    cases h
    exact ⟨⟨sub, rfl⟩, rfl, rfl⟩

end Fields

end S3Dhcpd
