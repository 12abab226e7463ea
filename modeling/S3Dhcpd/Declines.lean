import S3Dhcpd.Replies
import S3Dhcpd.Withdrawal

/-! DECLINE: the handler reads the declined address from `ciaddr`. -/
namespace S3Dhcpd
open KeyedTable Runs

/-- The turn answers with an OFFER or an ACK for the address; the ACK to an INFORM is for none. -/
def Promises (e : Datagram × Turn) (a : U32) : Prop :=
  ∃ request response to_addr, e.1.request = some request ∧
    request.getMessageType e.1.garbage ≠ DHCP_INFORM.toNat ∧
    e.2.response = .ok (some (response, to_addr)) ∧ response.yiaddr = a ∧
    (response.getMessageType e.1.garbage = DHCP_OFFER.toNat ∨
      response.getMessageType e.1.garbage = DHCP_ACK.toNat)

/-- A continuation from the clock `t` whose clients have hardware addresses; if `a` is declined
again before its time is over, the new expiry stays in the range of `int`. -/
structure Continues (cfg : Config) (a t : U32) (ds : List Datagram) : Prop where
  later : ∀ d ∈ ds, t.toInt ≤ d.env.now.toInt
  ordered : ds.Pairwise fun d d' => d.env.now.toInt ≤ d'.env.now.toInt
  clients : ∀ d ∈ ds, ∀ request, d.request = some request → hwAddr request.mac.u_addr ≠ 0
  bounded : ∀ d ∈ ds, ∀ m, d.op = some (.ipInvalidate m a) →
    d.env.now.toInt ≤ t.toInt+cfg.nets.globalnet.lease_time.toNat →
      d.env.now.toInt+cfg.nets.globalnet.lease_time.toNat < 2^31

/-- In every continuation from `t` the address is promised to nobody for a lease time. -/
def Withheld (cfg : Config) (T : Leases) (a t : U32) : Prop :=
  ∀ ds, Continues cfg a t ds → ∀ pre d post, ds = pre ++ d :: post →
    d.env.now.toInt ≤ t.toInt+cfg.nets.globalnet.lease_time.toNat →
      ¬Promises (d, (mainLoop cfg (after (mainLoop cfg) T pre) d).2) a

theorem mysubnet_congr {nets : Subnets} {ip ip' : IPAddress} (h : ip.u_addr = ip'.u_addr) :
    nets.mysubnet ip = nets.mysubnet ip' := by
  simp only [Subnets.mysubnet, Subnet.myaddress, h]

section Promise
variable {cfg : Config} {T : Leases} {d : Datagram} {a : U32}

/-- Only a granted address of a subnet is promised, except that a REQUEST without an address may
be acknowledged for 255.255.255.255. -/
theorem promises_granted (h : Promises (d, (mainLoop cfg T d).2) a) :
    cfg.nets.mysubnet (.ofU32 a) ≠ none ∧ ∃ op, d.op = some op ∧
      (granted (⟨d.env, op⟩, (serveCall cfg T ⟨d.env, op⟩).2) = some a ∨ a = INADDR_NONE) := by
  obtain ⟨request, response, to_addr, hrequest, hinform, hresponse, hyiaddr, htype⟩ := h
  have hop (op : Op) (h : requestOp d.garbage request = some op) : d.op = some op := by
    rw [Datagram.op, hrequest, Option.bind_some, h]
  have hinside {ip : IPAddress} (hsub : ∃ sub, cfg.nets.mysubnet ip = some sub)
      (hip : ip.u_addr = a) : cfg.nets.mysubnet (.ofU32 a) ≠ none := by
    obtain ⟨sub, hsub⟩ := hsub
    have hsub' : cfg.nets.mysubnet (.ofU32 a) = some sub := (mysubnet_congr hip.symm).trans hsub
    rw [hsub']
    exact Option.some_ne_none _
  -- of the answers only an OFFER and an ACK carry an address; a NAK has another type
  obtain ⟨hanswer, _⟩ := mainLoop_answers hrequest hresponse
  cases hanswer with
  | @offered leases ip effects _ hdiscover halloc hoffer =>
    obtain ⟨hsub, hip, _⟩ := createDhcpOffer_inside hoffer
    refine ⟨hinside hsub (hip.symm.trans hyiaddr), .ipAlloc request.mac.u_addr,
      hop _ (requestOp_alloc.mpr ⟨hdiscover, rfl⟩), Or.inl ?_⟩
    have halloc : ipAlloc cfg d.env (.ofU64 request.mac.u_addr) T = .ok ⟨leases, some ip, effects⟩ :=
      halloc
    simp only [serveCall, halloc, answerAlloc, granted]
    rw [← hip, hyiaddr]
  | exhausted _ _ =>
    rw [createDhcpNak_type] at htype
    exact absurd htype (by decide)
  | @acknowledged leases _ hreq hcheck hack =>
    -- a REQUEST that names no address is checked for `IPAddress()`, and acknowledged as such
    obtain ⟨hsub, hip, _⟩ := createDhcpAck_inside hack
    refine ⟨hinside hsub (hip.symm.trans hyiaddr), .ipCheck request.mac.u_addr
      (request.requestedAddress d.garbage), hop _ (requestOp_check.mpr ⟨hreq, rfl, rfl⟩), ?_⟩
    rw [DHCP_Packet.getRequestedAddress] at hcheck hip
    cases hnamed : request.requestedAddress d.garbage with
    | none =>
      rw [hnamed] at hip
      exact Or.inr (hyiaddr.symm.trans hip)
    | some b =>
      rw [hnamed] at hcheck hip
      have hcheck : ipCheck cfg d.env (.ofU64 request.mac.u_addr) (requested (some b)) T =
          .ok (leases, true) := hcheck
      simp only [serveCall, hcheck, answerCheck, granted]
      exact Or.inl (congrArg some (hip.symm.trans hyiaddr))
  | declined _ _ =>
    rw [createDhcpNak_type] at htype
    exact absurd htype (by decide)
  | informed hinform' _ => exact absurd hinform' hinform

end Promise

section Decline
variable {cfg : Config} {T : Leases} {d : Datagram} {request : DHCP_Packet}

/-- A DECLINE without `ciaddr` invalidates 0.0.0.0. -/
theorem mainLoop_decline (hrequest : d.request = some request)
    (htype : request.getMessageType d.garbage = DHCP_DECLINE.toNat) (hciaddr : request.ciaddr = 0) :
    (mainLoop cfg T d).1 = ipInvalidate cfg d.env request.mac (.ofU32 0) T := by
  have hop : d.op = some (.ipInvalidate request.mac.u_addr 0) := by
    rw [Datagram.op, hrequest, Option.bind_some]
    exact requestOp_invalidate.mpr ⟨htype, rfl, hciaddr⟩
  rw [mainLoop_leases, hop]
  rfl

/-- A withdrawn address stays withdrawn in a continuation, and is not promised. -/
theorem withdrawn_withheld (hstatic : NoStatic cfg) {a t : U32} (hnone : a ≠ INADDR_NONE)
    (hT : Withdrawn a (t.toInt+cfg.nets.globalnet.lease_time.toNat) T) : Withheld cfg T a t := by
  intro ds hds pre d post hsplit hnow hpromise
  have hclient {d : Datagram} (hd : d ∈ ds) {op : Op} (hop : d.op = some op) :
      hwAddr op.mac ≠ 0 := by
    obtain ⟨request, hrequest, hmac⟩ := op_mac hop
    rw [hmac]
    exact hds.clients d hd request hrequest
  -- a DECLINE is the one packet of such a continuation that may write the row
  have hstep : ∀ (T : Leases) (d : Datagram),
      Withdrawn a (t.toInt+cfg.nets.globalnet.lease_time.toNat) T →
      d.env.now.toInt ≤ t.toInt+cfg.nets.globalnet.lease_time.toNat → d ∈ ds →
        Withdrawn a (t.toInt+cfg.nets.globalnet.lease_time.toNat) (mainLoop cfg T d).1 := by
    intro T d hT hnow hd
    rw [mainLoop_leases]
    cases hop : d.op with
    | none => exact hT
    | some op =>
      refine serveCall_withdrawn hstatic hT (Int.add_le_add_right (hds.later d hd) _) hnow ?_
      have hmac := hclient hd hop
      cases op with
      | ipAlloc m => exact hmac
      | ipCheck m ip => exact fun hzero => absurd hzero hmac
      | ipFree m ip => trivial
      | ipInvalidate m ip =>
        rintro rfl
        exact hds.bounded d hd m hop hnow
  have hwithdrawn := until_invariant (fun d : Datagram => d.env.now.toInt) hstep hT hds.ordered
    (fun _ hd _ => hd) hsplit hnow
  have hd : d ∈ ds := by
    rw [hsplit]
    exact List.mem_append_cons_self
  obtain ⟨_, op, hop, hgranted | hunset⟩ := promises_granted hpromise
  · have hzero : hwAddr op.mac = 0 :=
      withdrawn_granted (c := ⟨_, op⟩) hstatic hwithdrawn hnow hgranted
    exact hclient hd hop hzero
  · exact hnone hunset

/-- The owner of an address in a subnet is offered it by a query that meets its row first. -/
theorem discover_promises (hstatic : NoStatic cfg) (hrequest : d.request = some request)
    (htype : request.getMessageType d.garbage = DHCP_DISCOVER.toNat) {row : Lease}
    (hown : Owns T request.mac row) (hinside : cfg.nets.mysubnet (.ofU32 (ipS2u row.ip)) ≠ none)
    (hscan : d.env.scan = .favour row) : Promises (d, (mainLoop cfg T d).2) (ipS2u row.ip) := by
  have hfree : getStaticIp cfg request.mac = none := hstatic request.mac.u_addr
  have hleased : getLeasedIp d.env request.mac T = some (.ofText row.ip) := by
    rw [show d.env = ⟨d.env.now, .favour row⟩ by rw [← hscan]]
    exact getLeasedIp_favour hown d.env.now
  obtain ⟨sub, hsub⟩ := Option.ne_none_iff_exists'.mp hinside
  have hsub : cfg.nets.mysubnet (.ofText row.ip) = some sub := (mysubnet_congr rfl).trans hsub
  -- a builder fails for addresses outside the subnets only
  obtain ⟨offer, hoffer⟩ : ∃ offer,
      request.createDhcpOffer cfg.nets d.garbage (.ofText row.ip) = .ok offer := by
    rw [DHCP_Packet.createDhcpOffer, hsub]
    exact ⟨_, rfl⟩
  have hturn : (mainLoop cfg T d).2 = .respond [] request (some offer) := by
    rw [mainLoop_discover hrequest htype]
    rw [ipAlloc_leased hfree hleased]
    simp only [offerOrNak, hoffer]
  obtain ⟨_, hip, hkind⟩ := createDhcpOffer_inside hoffer
  refine ⟨request, offer, destination request offer, hrequest, ?_, ?_, hip, Or.inl hkind⟩
  · rw [htype]
    decide
  · rw [hturn]
    exact respond_some.mpr ⟨rfl, rfl⟩

theorem owner_not_withheld (hstatic : NoStatic cfg) {m : U64} (hm : hwAddr m ≠ 0) {row : Lease}
    (hown : Owns T (.ofU64 m) row) (hinside : cfg.nets.mysubnet (.ofU32 (ipS2u row.ip)) ≠ none)
    (t : U32) : ¬Withheld cfg T (ipS2u row.ip) t := by
  obtain ⟨request, hrequest, hmac, htype⟩ := exampleDatagram_request t DHCP_DISCOVER m 0
  rw [← Datagram.withScan_request _ (.favour row)] at hrequest
  intro h
  -- the continuation is a single DISCOVER of the owner, whose query meets the row first
  refine h [(exampleDatagram t DHCP_DISCOVER m 0).withScan (.favour row)] ?_ [] _ [] rfl
    (le_add_of_nonneg_right (Int.natCast_nonneg _))
    (discover_promises hstatic hrequest htype (hmac ▸ hown) hinside rfl)
  constructor
  · rw [List.forall_mem_singleton]
    exact le_rfl
  · exact List.pairwise_singleton _ _
  · rw [List.forall_mem_singleton]
    intro request' hrequest'
    obtain rfl := Option.some.inj (hrequest'.symm.trans hrequest)
    rw [hmac]
    exact hm
  · rw [List.forall_mem_singleton]
    intro m' hop
    rw [Datagram.op, hrequest, Option.bind_some, requestOp_invalidate] at hop
    have htype' : request.getMessageType (exampleDatagram t DHCP_DISCOVER m 0).garbage =
      DHCP_DECLINE.toNat := hop.1
    rw [htype] at htype'
    exact absurd htype' (by decide)

end Decline

/-- A client that declines its address by option 50 gets it withheld exactly when the address is
0.0.0.0 or in no subnet: the handler invalidates what `ciaddr` says. -/
theorem declined_withheld_iff {cfg : Config} (hstatic : NoStatic cfg) {T : Leases}
    (hT : Reachable cfg T) {d : Datagram} {request : DHCP_Packet}
    (hrequest : d.request = some request)
    (htype : request.getMessageType d.garbage = DHCP_DECLINE.toNat)
    (hclient : hwAddr request.mac.u_addr ≠ 0) {row : Lease} (hown : Owns T request.mac row)
    (hciaddr : request.ciaddr = 0)
    (_hnamed : request.requestedAddress d.garbage = some (ipS2u row.ip))
    (hbound : d.env.now.toInt+cfg.nets.globalnet.lease_time.toNat < 2^31) :
    Withheld cfg (mainLoop cfg T d).1 (ipS2u row.ip) d.env.now ↔
      ipS2u row.ip = 0 ∨ cfg.nets.mysubnet (.ofU32 (ipS2u row.ip)) = none := by
  have hcanonical := hT.canonical hstatic
  rw [mainLoop_decline hrequest htype hciaddr]
  constructor
  · intro h
    by_contra hneither
    obtain ⟨hzero, hinside⟩ := not_or.mp hneither
    -- the row of 0.0.0.0 is the one that is rewritten, so the client still owns its own
    refine owner_not_withheld hstatic hclient ⟨?_, hown.2⟩ hinside _ h
    refine mem_recordLease.mpr (Or.inr ⟨hown.1, fun hip => hzero ?_⟩)
    rw [hip]
    exact ipS2u_ipU2s 0
  · rintro (hzero | houtside)
    · have hwithdrawn := withdrawn_invalidate hcanonical hown.1 hbound request.mac
      rw [hzero] at hwithdrawn ⊢
      exact withdrawn_withheld hstatic (by decide) hwithdrawn
    · intro ds _ pre d' post _ _ hpromise
      exact (promises_granted hpromise).1 houtside

/-- A client of the example declines an address the way the standard says, in option 50. -/
def declineDatagram (now : U32) (mac : U64) (ip : U32) : Datagram where
  env := ⟨now, .rowid⟩
  garbage := ⟨fun _ _ => 0, fun _ => 0⟩
  buffer := fun i =>
    if 28 ≤ i ∧ i < 36 then byteOf mac (i-28)
    else if 245 ≤ i ∧ i < 249 then byteOf ip (i-245)
    else ([(236, 0x63), (237, 0x82), (238, 0x53), (239, 0x63), (240, DHO_DHCP_MESSAGE_TYPE), (241, 1),
      (242, DHCP_DECLINE), (243, DHO_DHCP_REQUESTED_ADDRESS), (244, 4), (249, DHO_END)].lookup
        i).getD 0
  message_length := 250

/-- Client 1 holds the first address of the example. -/
def heldTable : Leases := (mainLoop exampleCfg exampleTable (exampleDatagram 1000 DHCP_DISCOVER 1 0)).1

/-- What the client of the example declines. -/
def declinedDatagram : Datagram := declineDatagram 1001 1 (ipS2u "10.20.11.50")

theorem declinedDatagram_request : ∃ request, declinedDatagram.request = some request ∧
    request.getMessageType declinedDatagram.garbage = DHCP_DECLINE.toNat ∧
    hwAddr request.mac.u_addr ≠ 0 ∧
    Owns heldTable request.mac ⟨macU2s 1, "10.20.11.50", 1000, 1180, "new"⟩ ∧
    request.ciaddr = 0 ∧
    request.requestedAddress declinedDatagram.garbage = some (ipS2u "10.20.11.50") :=
  ⟨_, rfl, rfl, by decide, ⟨by decide, rfl, by decide⟩, rfl, rfl⟩

/-- A client that declines its address is offered it again at once. -/
theorem decline_ignores_option : ¬∀ (cfg : Config) (T : Leases) (d : Datagram)
    (request : DHCP_Packet) (row : Lease), NoStatic cfg → Reachable cfg T →
      d.request = some request → request.getMessageType d.garbage = DHCP_DECLINE.toNat →
      hwAddr request.mac.u_addr ≠ 0 → Owns T request.mac row → request.ciaddr = 0 →
      request.requestedAddress d.garbage = some (ipS2u row.ip) →
      d.env.now.toInt+cfg.nets.globalnet.lease_time.toNat < 2^31 →
        Withheld cfg (mainLoop cfg T d).1 (ipS2u row.ip) d.env.now := by
  intro h
  obtain ⟨request, hrequest, htype, hclient, hheld, hciaddr, hnamed⟩ := declinedDatagram_request
  have hwithheld := h exampleCfg heldTable declinedDatagram request _ exampleCfg_noStatic
    (.turn _ .start) hrequest htype hclient hheld hciaddr hnamed (by decide)
  have hown : Owns (mainLoop exampleCfg heldTable declinedDatagram).1 (.ofU64 1)
      ⟨macU2s 1, "10.20.11.50", 1000, 1180, "new"⟩ := ⟨by decide, rfl, by decide⟩
  exact owner_not_withheld exampleCfg_noStatic (by decide) hown (by decide) _ hwithheld

/-- The declined address of the example lies in its subnet. -/
theorem declined_withheld_example : ¬Withheld exampleCfg
    (mainLoop exampleCfg heldTable declinedDatagram).1 (ipS2u "10.20.11.50") 1001 := by
  obtain ⟨request, hrequest, htype, hclient, hheld, hciaddr, hnamed⟩ := declinedDatagram_request
  have hiff := declined_withheld_iff exampleCfg_noStatic (.turn _ .start) hrequest htype hclient
    hheld hciaddr hnamed (by decide)
  exact hiff.not.mpr (by decide)

end S3Dhcpd
