import S3Dhcpd.WireReplies

/-! What the replies reveal besides the configuration: two runs over different memory. -/
namespace S3Dhcpd
open ByteMemory

/-- The builders of the replies that list nameservers. -/
inductive Builder where
  | create_dhcp_offer
  | create_dhcp_ack
  | create_dhcp_ack2
deriving DecidableEq, Repr

namespace Builder

def create (nets : Subnets) (g : Garbage) (request : DHCP_Packet) (yiaddr : IPAddress) :
    Builder → Option DHCP_Packet
  | create_dhcp_offer => (request.createDhcpOffer nets g yiaddr).toOption
  | create_dhcp_ack => request.createDhcpAck nets g yiaddr
  | create_dhcp_ack2 => request.createDhcpAck2 nets g yiaddr

/-- The options in front of the nameservers, and the two addresses in the header. -/
def settings (nets : Subnets) (mysub : Subnet) : Builder → List DHCP_Option
  | create_dhcp_offer => [
      .ofByte DHO_DHCP_MESSAGE_TYPE DHCP_OFFER,
      .ofU32 DHO_DHCP_SERVER_IDENTIFIER nets.globalnet.addr.u_addr,
      .ofU32 DHO_DHCP_LEASE_TIME (htonl nets.globalnet.lease_time),
      .ofU32 DHO_DHCP_RENEWAL_TIME (htonl nets.globalnet.renew_time),
      .ofText DHO_DOMAIN_NAME nets.globalnet.domain_name,
      .ofU32 DHO_SUBNET mysub.netmask.u_addr,
      .ofU32 DHO_ROUTERS mysub.gateway.u_addr]
  | create_dhcp_ack => [
      .ofByte DHO_DHCP_MESSAGE_TYPE DHCP_ACK,
      .ofU32 DHO_DHCP_SERVER_IDENTIFIER nets.globalnet.addr.u_addr,
      .ofU32 DHO_DHCP_LEASE_TIME (htonl nets.globalnet.lease_time),
      .ofU32 DHO_DHCP_RENEWAL_TIME (htonl nets.globalnet.renew_time),
      .ofText DHO_DOMAIN_NAME nets.globalnet.domain_name,
      .ofU32 DHO_ROUTERS mysub.gateway.u_addr,
      .ofU32 DHO_SUBNET mysub.netmask.u_addr]
  | create_dhcp_ack2 => [
      .ofByte DHO_DHCP_MESSAGE_TYPE DHCP_ACK,
      .ofU32 DHO_DHCP_SERVER_IDENTIFIER nets.globalnet.addr.u_addr,
      .ofText DHO_DOMAIN_NAME nets.globalnet.domain_name,
      .ofU32 DHO_ROUTERS mysub.gateway.u_addr,
      .ofU32 DHO_SUBNET mysub.netmask.u_addr]

def addresses (request : DHCP_Packet) (yiaddr : IPAddress) : Builder → U32 × U32
  | create_dhcp_ack2 => (request.ciaddr, 0)
  | _ => (0, yiaddr.u_addr)

end Builder

/-- The bytes that `send_packet` gets of a reply. -/
def sentBytes (g : Garbage) (p : DHCP_Packet) (buffer : ℕ → Byte) : List Byte :=
  read (unmarshall g p buffer).1 0 (unmarshall g p buffer).2

/-- The nameservers of a subnet, as a client reads them. -/
def nameservers (sub : Subnet) : List Byte := bytesOf sub.nameserver1.u_addr ++
  if sub.nameserver2.u_addr ≠ INADDR_NONE then bytesOf sub.nameserver2.u_addr else []

/-- Whatever memory was found, the bytes sent are the same, and the nameservers among them are the
configured ones. -/
structure RevealsConfiguration (nets : Subnets) (request : DHCP_Packet) (yiaddr : IPAddress)
    (builder : Builder) : Prop where
  same : ∀ g g' p p' buffer buffer', builder.create nets g request yiaddr = some p →
    builder.create nets g' request yiaddr = some p' → sentBytes g p buffer = sentBytes g' p' buffer'
  dns : ∀ mysub g p, nets.mysubnet yiaddr = some mysub →
    builder.create nets g request yiaddr = some p →
      (p.sent g).optionValues DHO_DOMAIN_NAME_SERVERS = [nameservers mysub]

section Disclosure
variable {nets : Subnets} {g g' : Garbage} {request p : DHCP_Packet} {yiaddr : IPAddress}
  {builder : Builder} {mysub : Subnet}

/-- The three builders differ in their settings only. -/
theorem Builder.create_eq : builder.create nets g request yiaddr =
    (nets.mysubnet yiaddr).map fun mysub => request.respond (builder.addresses request yiaddr).1
      (builder.addresses request yiaddr).2 (builder.settings nets mysub ++ [.ofNameservers g mysub]) := by
  cases hsub : nets.mysubnet yiaddr <;> cases builder <;>
    simp [Builder.create, DHCP_Packet.createDhcpOffer, DHCP_Packet.createDhcpAck,
      DHCP_Packet.createDhcpAck2, Builder.settings, Builder.addresses, hsub, Except.toOption]

/-- A value of which at least as many bytes were written as are sent. -/
def DHCP_Option.Written (o : DHCP_Option) : Prop := o.length.toNat ≤ o.value.length

theorem DHCP_Option.Written.sent {o : DHCP_Option} (h : o.Written) : o.sent g = o.sent g' := by
  have hvalue : (List.range o.length.toNat).map (o.valueAt g) =
      (List.range o.length.toNat).map (o.valueAt g') := by
    apply List.map_congr_left
    intro i hi
    have hi : i < o.value.length := (List.mem_range.mp hi).trans_le h
    rw [DHCP_Option.valueAt, DHCP_Option.valueAt, List.getD_eq_getElem _ _ hi,
      List.getD_eq_getElem _ _ hi]
  rw [DHCP_Option.sent, DHCP_Option.sent, hvalue]

theorem written_ofText (code : Byte) (text : String) : (DHCP_Option.ofText code text).Written := by
  rw [DHCP_Option.Written, DHCP_Option.ofText, BitVec.toNat_ofNat, List.length_map]
  exact Nat.mod_le _ _

theorem written_ofNameservers : (DHCP_Option.ofNameservers g mysub).Written := by
  rw [DHCP_Option.Written, DHCP_Option.ofNameservers]
  split <;> exact Nat.le_refl 8

theorem Builder.settings_written : ∀ o ∈ builder.settings nets mysub, o.Written := by
  have hbyte (code p_val : Byte) : (DHCP_Option.ofByte code p_val).Written := Nat.le_refl 1
  have hword (code : Byte) (p_val : U32) : (DHCP_Option.ofU32 code p_val).Written := Nat.le_refl 4
  cases builder <;> simp [Builder.settings, hbyte, hword, written_ofText]

theorem Builder.settings_codes :
    ∀ o ∈ builder.settings nets mysub, o.code ≠ DHO_DOMAIN_NAME_SERVERS := by
  cases builder <;>
    simp [Builder.settings, DHCP_Option.ofByte, DHCP_Option.ofU32, DHCP_Option.ofText] <;> decide

theorem create_nameservers (hsub : nets.mysubnet yiaddr = some mysub)
    (h : builder.create nets g request yiaddr = some p) :
    (p.sent g).optionValues DHO_DOMAIN_NAME_SERVERS =
      [((DHCP_Option.ofNameservers g mysub).sent g).value] := by
  rw [Builder.create_eq, hsub] at h
  cases h
  have hnone : ((builder.settings nets mysub).map (·.sent g)).filter
      (·.code = DHO_DOMAIN_NAME_SERVERS) = [] := by
    rw [List.filter_eq_nil_iff]
    intro o' ho'
    obtain ⟨o, ho, rfl⟩ := List.mem_map.mp ho'
    have hcode : o.code ≠ DHO_DOMAIN_NAME_SERVERS := Builder.settings_codes o ho
    rw [decide_eq_true_eq]
    exact hcode
  simp only [DHCP_Packet.optionValues, DHCP_Packet.sent, DHCP_Packet.respond, List.map_append,
    List.filter_append, hnone]
  rfl

/-- With a second nameserver a reply does not depend on memory at all. -/
theorem create_same (hsub : nets.mysubnet yiaddr = some mysub)
    (hsecond : mysub.nameserver2.u_addr ≠ INADDR_NONE) :
    builder.create nets g request yiaddr = builder.create nets g' request yiaddr := by
  have hdns : DHCP_Option.ofNameservers g mysub = DHCP_Option.ofNameservers g' mysub := by
    rw [DHCP_Option.ofNameservers, DHCP_Option.ofNameservers, if_pos hsecond, if_pos hsecond]
  -- the settings take nothing from memory
  rw [Builder.create_eq, Builder.create_eq, hsub, Option.map_some, Option.map_some, hdns]

theorem sentBytes_eq (hp : p.Framed) (hwritten : ∀ o ∈ p.options, o.Written)
    (buffer buffer' : ℕ → Byte) : sentBytes g p buffer = sentBytes g' p buffer' := by
  have hsent : p.sent g = p.sent g' := by
    rw [DHCP_Packet.sent, DHCP_Packet.sent,
      List.map_congr_left fun o ho => (hwritten o ho).sent]
  rw [sentBytes, sentBytes, unmarshall_read hp, unmarshall_read hp, unmarshall_length,
    unmarshall_length, hsent]

/-- Where four bytes are configured eight are sent. -/
theorem RevealsConfiguration.second_nameserver
    (h : RevealsConfiguration nets request yiaddr builder)
    (hsub : nets.mysubnet yiaddr = some mysub) : mysub.nameserver2.u_addr ≠ INADDR_NONE := by
  intro hunset
  let g : Garbage := ⟨fun _ _ => 0, fun _ => 0⟩
  obtain ⟨p, hp⟩ : ∃ p, builder.create nets g request yiaddr = some p := by
    rw [Builder.create_eq, hsub]
    exact ⟨_, rfl⟩
  -- the length of the option does not depend on the setting, that of the configured list does
  have hvalue := (create_nameservers hsub hp).symm.trans (h.dns mysub g p hsub hp)
  have hlength := congrArg List.length (List.cons.inj hvalue).1
  have hsent : (DHCP_Option.ofNameservers g mysub).length.toNat = 8 := rfl
  rw [sent_value_length, hsent, nameservers, if_neg (not_not.mpr hunset), List.append_nil,
    length_bytesOf] at hlength
  exact absurd hlength (by decide)

/-- The replies reveal nothing but the configuration where a second nameserver is configured. -/
theorem reveals_configuration (hrequest : request.Framed) :
    RevealsConfiguration nets request yiaddr builder ↔
      ∀ mysub, nets.mysubnet yiaddr = some mysub → mysub.nameserver2.u_addr ≠ INADDR_NONE := by
  constructor
  · exact fun h mysub hsub => h.second_nameserver hsub
  · intro h
    have hwritten {g : Garbage} {p : DHCP_Packet} (hp : builder.create nets g request yiaddr = some p) :
        ∃ mysub, nets.mysubnet yiaddr = some mysub ∧ p.Framed ∧ ∀ o ∈ p.options, o.Written := by
      rw [Builder.create_eq] at hp
      obtain ⟨mysub, hsub, rfl⟩ := Option.map_eq_some_iff.mp hp
      refine ⟨mysub, hsub, ⟨hrequest.chaddr, rfl, rfl⟩, ?_⟩
      rw [DHCP_Packet.respond, List.forall_mem_append, List.forall_mem_singleton]
      exact ⟨Builder.settings_written, written_ofNameservers⟩
    refine ⟨fun g g' p p' buffer buffer' hp hp' => ?_, fun mysub g p hsub hp => ?_⟩
    · obtain ⟨mysub, hsub, hframed, hall⟩ := hwritten hp
      rw [create_same hsub (h mysub hsub), hp', Option.some.injEq] at hp
      rw [hp]
      exact sentBytes_eq (hp ▸ hframed) (hp ▸ hall) buffer buffer'
    · have hsecond := h mysub hsub
      have hvalue : (DHCP_Option.ofNameservers g mysub).WellFormed := by
        refine ⟨(by decide : DHO_DOMAIN_NAME_SERVERS ≠ DHO_PAD),
          (by decide : DHO_DOMAIN_NAME_SERVERS ≠ DHO_END), ?_⟩
        rw [DHCP_Option.ofNameservers, if_pos hsecond]
        rfl
      rw [create_nameservers hsub hp, hvalue.sent, DHCP_Option.ofNameservers, nameservers]
      simp only [if_pos hsecond]

/-- A request for an address of the example's subnet. -/
def exampleDiscover : DHCP_Packet := packetAt (exampleDatagram 1000 DHCP_DISCOVER 1 0).buffer []

/-- The example's subnet with a second nameserver. -/
def twoNameservers : Subnets where
  globalnet := exampleNets.globalnet
  subnets := [{ exampleSubnet with nameserver2 := .ofText "10.20.0.11" }]
  renew_le := exampleNets.renew_le
  ranges := by
    intro sub hsub
    rw [List.mem_singleton.mp hsub]
    intro _
    decide

theorem reveals_configuration_two : RevealsConfiguration twoNameservers exampleDiscover
    (.ofText "10.20.11.50") .create_dhcp_offer :=
  (reveals_configuration (packetAt_framed _ _)).mpr fun mysub hsub => by
    have hfound : twoNameservers.mysubnet (.ofText "10.20.11.50") =
        some { exampleSubnet with nameserver2 := .ofText "10.20.0.11" } := by
      decide +kernel
    rw [hfound] at hsub
    cases hsub
    decide

/-- In the example's subnet, without a second nameserver, four bytes of memory are sent. -/
theorem example_offer_reveals :
    ¬ RevealsConfiguration exampleNets exampleDiscover (.ofText "10.20.11.50") .create_dhcp_offer := by
  intro h
  have hsub : exampleNets.mysubnet (.ofText "10.20.11.50") = some exampleSubnet := by decide +kernel
  exact absurd (h.second_nameserver hsub) (by decide)

end Disclosure

end S3Dhcpd
