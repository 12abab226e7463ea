import S3Dhcpd.ServerFaults
import S3Dhcpd.Stations

/-! Leases as the stations see them: what the frames of a run announce, over restarts and whatever
else arrives. -/
namespace S3Dhcpd
open ByteMemory KeyedTable LeaseRegister Runs

section Exclusive
variable {cfg : Config} {net : DHCP_Net} {s : Server} {run : List Incident}

/-- An announcement is a grant of the run of calls behind the run of the process. -/
theorem announced_answered {x : Arrival} {v : Served}
    (he : (Incident.arrival x, some v) ∈ trace (Server.step cfg net) s run) {a : U32}
    {client : BitVec 48} (ha : a ≠ INADDR_NONE) (hannounce : v.Announces a client) :
    ∃ e, e ∈ ((some v).bind (Served.answered cfg)).toList ∧ Grants e a client ∧
      e.1.env = x.env := by
  obtain ⟨pre, post, -, hv⟩ := mem_trace he
  obtain ⟨y, copy, hxy, -, -, -, -, rfl⟩ := step_cases hv.symm
  obtain rfl := Incident.arrival.inj hxy
  obtain ⟨e, hanswered, hgrants⟩ := announces_grants ha hannounce
  refine ⟨e, Option.mem_toList.mpr hanswered, hgrants, ?_⟩
  obtain ⟨c, hc, rfl⟩ := Option.map_eq_some_iff.mp hanswered
  obtain ⟨op, -, rfl⟩ := Option.map_eq_some_iff.mp hc
  rfl

/-- When two turns announce an address to different clients, the second one comes later by more than
the lease time. -/
def Apart (cfg : Config) (e e' : Incident × Option Served) : Prop :=
  ∀ (x y : Arrival) v w, e = (.arrival x, some v) → e' = (.arrival y, some w) →
    ∀ a client client', a ≠ INADDR_NONE → v.Announces a client → w.Announces a client' →
      client ≠ client' → x.env.now.toInt+cfg.nets.globalnet.lease_time.toNat < y.env.now.toInt

/-- No two stations hear at once that an address is theirs, in every run of frames and restarts and
from every lease database. -/
theorem announcements_exclusive (hstatic : NoStatic cfg) {T : Leases} (hT : Canonical T)
    (message_buf : ℕ → Byte) (hreal : ∀ i ∈ run, i.FromClient) (hclock : OnTime cfg run) :
    (trace (Server.step cfg net) (.start cfg T message_buf) run).Pairwise (Apart cfg) := by
  have hkept : Kept cfg (.start cfg T message_buf) := .start hT message_buf
  have hexcl := trace_exclusive hstatic hkept.canonical
    (@calls_realClient cfg net (.start cfg T message_buf) run hreal) (calls_clocked hclock)
  rw [(run_calls hstatic hkept).2, List.pairwise_flatMap] at hexcl
  refine hexcl.2.imp_of_mem ?_
  rintro e e' he he' hpair x y v w rfl rfl a client client' ha hv hw hne
  obtain ⟨g, hg, hgrants, henv⟩ := announced_answered he ha hv
  obtain ⟨g', hg', hgrants', henv'⟩ := announced_answered he' ha hw
  have hlate := hpair g hg g' hg' a client client' hgrants hgrants' hne
  rwa [henv, henv'] at hlate

end Exclusive

theorem announcements_exclusive_example : (trace (Server.step exampleCfg exampleNet)
    (.start exampleCfg .empty fun _ => 0) exampleRun).Pairwise (Apart exampleCfg) :=
  announcements_exclusive exampleCfg_noStatic (fun _ hrow => absurd hrow List.not_mem_nil) _
    exampleRun_fromClient exampleRun_onTime

/-- A server that runs, over leases of its pool. -/
structure Serving (cfg : Config) (s : Server) : Prop extends Kept cfg s where
  pooled : Pooled cfg s.leases
  running : s.running = true

section Serving
variable {cfg : Config} {net : DHCP_Net} {s : Server} {T : Leases} {d : Datagram}
  {request : DHCP_Packet}

theorem Pooled.populate (hmask : PrefixNets cfg.nets) (h : Pooled cfg T) :
    Pooled cfg (populate cfg.nets T) := by
  intro row hrow
  rcases mem_populate_old.mp hrow with hold | ⟨⟨sub, hsub, hnew⟩, -⟩
  · exact h row hold
  · obtain ⟨hdyn, a, ha, rfl⟩ := (mem_rangeRows (hmask sub hsub) (cfg.nets.ranges sub hsub)).mp hnew
    rw [freshRow, IPAddress.ofU32, ipS2u_ipU2s]
    exact ⟨sub, hsub, hdyn, ha⟩

/-- Without static assignments an allocated address lies in a subnet. -/
theorem Pooled.allocates (hstatic : NoStatic cfg) (hmask : PrefixNets cfg.nets)
    (hdis : DisjointNets cfg.nets) (h : Pooled cfg T) {env : Env} {m : U64} {leases : Leases}
    {ip : IPAddress} (hspec : Allocates cfg env (.ofU64 m) T leases (some ip)) :
    ∃ sub, cfg.nets.mysubnet ip = some sub := by
  cases hspec with
  | static hassigned _ => exact (hstatic.not_assigned hassigned).elim
  | @leased row _ hown =>
    have hsame : (IPAddress.ofText row.ip).u_addr = ipS2u row.ip := rfl
    obtain ⟨sub, hsub, -⟩ := pool_mysubnet hmask hdis (h row hown.1) hsame
    exact ⟨sub, hsub⟩
  | @fresh row _ _ hfree =>
    have hsame : (IPAddress.ofText row.ip).u_addr = ipS2u row.ip := rfl
    obtain ⟨sub, hsub, -⟩ := pool_mysubnet hmask hdis (h row hfree.1) hsame
    exact ⟨sub, hsub⟩

theorem Pooled.finishes (hstatic : NoStatic cfg) (hmask : PrefixNets cfg.nets)
    (hdis : DisjointNets cfg.nets) (h : Pooled cfg T) : (mainLoop cfg T d).2.Finishes := by
  cases hcookie : checkMagicCookie d.buffer d.message_length with
  | false =>
    have hnone : d.request = none := by
      rw [Datagram.request, hcookie]
      rfl
    rw [mainLoop_request, hnone]
    exact ⟨_, rfl⟩
  | true =>
    apply (mainLoop_finishes hcookie).mpr
    intro m _ leases ip effects hr
    obtain ⟨leases', ip', effects', hr', hspec⟩ := ipAlloc_spec cfg d.env (.ofU64 m) T
    rw [hr, Except.ok.injEq, Allocation.mk.injEq] at hr'
    obtain ⟨-, rfl, -⟩ := hr'
    exact h.allocates hstatic hmask hdis hspec

theorem Serving.start (hmask : PrefixNets cfg.nets) (hT : Canonical T) (hpool : Pooled cfg T)
    (message_buf : ℕ → Byte) : Serving cfg (.start cfg T message_buf) where
  toKept := .start hT message_buf
  pooled := hpool.populate hmask
  running := rfl

theorem Serving.step (hstatic : NoStatic cfg) (hmask : PrefixNets cfg.nets)
    (hdis : DisjointNets cfg.nets) (h : Serving cfg s) {i : Incident} (hi : i.Fits) :
    Serving cfg (s.step cfg net i).1 := by
  have hkept : Kept cfg (s.step cfg net i).1 := h.toKept.step hstatic
  refine ⟨hkept, ?_, ?_⟩
  · rw [step_leases h.settled]
    cases (s.step cfg net i).2.bind Served.call with
    | none => exact h.pooled
    | some c => exact serveCall_pooled hstatic c h.pooled
  · cases i with
    | restart message_buf => rfl
    | arrival x =>
      rw [Server.step, h.running]
      cases hcopy : recvPacket DHCP_MAX_MTU x.frames with
      | none => exact h.running
      | some copy =>
        have hsize : ¬copy.size < 0 := not_lt.mpr (hi copy hcopy)
        obtain ⟨response, hresponse⟩ := @Pooled.finishes cfg s.leases (s.received x copy) hstatic
          hmask hdis h.pooled
        dsimp only
        rw [Bool.not_true, if_neg Bool.false_ne_true, if_neg hsize]
        rw [Server.turn, hresponse]
        rfl

theorem Serving.turn_eq (hs : Serving cfg s) {x : Arrival} {copy : Copy}
    (hcopy : recvPacket DHCP_MAX_MTU x.frames = some copy) (hsize : 0 ≤ copy.size) :
    (s.step cfg net (.arrival x)).2 = some (s.turn cfg net (s.received x copy)).2 := by
  rw [Server.step, hs.running, hcopy]
  dsimp only
  rw [Bool.not_true, if_neg Bool.false_ne_true, if_neg (not_lt.mpr hsize)]

theorem discover_responds (hstatic : NoStatic cfg) (hmask : PrefixNets cfg.nets)
    (hdis : DisjointNets cfg.nets) (h : Pooled cfg T) (hrequest : d.request = some request)
    (htype : request.getMessageType d.garbage = DHCP_DISCOVER.toNat) :
    ∃ r, (mainLoop cfg T d).2.response = .ok (some r) := by
  rw [mainLoop_discover hrequest htype]
  obtain ⟨leases, ip, effects, hr, hspec⟩ := ipAlloc_spec cfg d.env request.mac T
  rw [hr, offerOrNak]
  cases ip with
  | none => exact ⟨_, rfl⟩
  | some ip =>
    have hsub : ∃ sub, cfg.nets.mysubnet ip = some sub := h.allocates hstatic hmask hdis hspec
    obtain ⟨response, hoffer⟩ := (createDhcpOffer_ok cfg.nets d.garbage request ip).mpr hsub
    simp only [hoffer]
    exact ⟨_, rfl⟩

theorem requested_responds (hrequest : d.request = some request)
    (htype : request.getMessageType d.garbage = DHCP_REQUEST.toNat) :
    ∃ r, (mainLoop cfg T d).2.response = .ok (some r) := by
  have hack {ip : IPAddress} {sub : Subnet} (hsub : cfg.nets.mysubnet ip = some sub) :
      ∃ response, request.createDhcpAck cfg.nets d.garbage ip = some response := by
    rw [DHCP_Packet.createDhcpAck, hsub]
    exact ⟨_, rfl⟩
  rw [mainLoop_requested hrequest htype]
  obtain ⟨leases, granted, hr, hspec⟩ := ipCheck_spec cfg d.env request.mac
    (requested (request.requestedAddress d.garbage)) T
  rw [hr, ackOrNak]
  cases hspec with
  | declined _ => exact ⟨_, rfl⟩
  | static hsub _ _ _ =>
    obtain ⟨response, hresponse⟩ := hack hsub
    rw [if_pos rfl, hresponse]
    exact ⟨_, rfl⟩
  | leased hsub _ _ _ _ =>
    obtain ⟨response, hresponse⟩ := hack hsub
    rw [if_pos rfl, hresponse]
    exact ⟨_, rfl⟩

/-- A response to anything but an INFORM is broadcast. -/
theorem turn_broadcasts (hrequest : d.request = some request)
    (htype : request.getMessageType d.garbage ≠ DHCP_INFORM.toNat) {r : DHCP_Packet × Destination}
    (h : (mainLoop cfg s.leases d).2.response = .ok (some r)) :
    ∃ frame, (s.turn cfg net d).2.sent = some (.frame frame) := by
  obtain ⟨response, to_addr⟩ := r
  obtain ⟨hanswer, hto⟩ := mainLoop_answers hrequest h
  have hreplies := (answers_wireReply (request_framed hrequest) hanswer).2
  have hbroadcast : to_addr = .broadcast := by
    rw [hto, hreplies.to_addr, if_neg fun hinform => htype hinform.1]
  rw [hbroadcast] at h
  have hemitted : emitted cfg s.leases d = some ((unmarshall d.garbage response d.buffer).1,
      (unmarshall d.garbage response d.buffer).2, .broadcast) := by
    rw [emitted, h]
  rw [Server.turn, hemitted]
  exact ⟨_, rfl⟩

/-- Messages of other types are not answered. -/
theorem turn_silent (hrequest : d.request = some request)
    (hdiscover : request.getMessageType d.garbage ≠ DHCP_DISCOVER.toNat)
    (hreq : request.getMessageType d.garbage ≠ DHCP_REQUEST.toNat)
    (hinform : request.getMessageType d.garbage ≠ DHCP_INFORM.toNat) :
    (s.turn cfg net d).2.sent = none := by
  have hemitted : emitted cfg s.leases d = none := by
    cases h : emitted cfg s.leases d with
    | none => rfl
    | some r =>
      obtain ⟨response, hresponse, -, -⟩ := emitted_some h
      obtain ⟨hanswer, -⟩ := mainLoop_answers hrequest hresponse
      cases hanswer with
      | offered htype _ _ => exact absurd htype hdiscover
      | exhausted htype _ => exact absurd htype hdiscover
      | acknowledged htype _ _ => exact absurd htype hreq
      | declined htype _ => exact absurd htype hreq
      | informed htype _ => exact absurd htype hinform
  rw [Server.turn, hemitted]
  rfl

end Serving

section Run
variable {cfg : Config} {net : DHCP_Net} {run : List Incident} {T : Leases}

/-- The server keeps serving, whatever arrives. -/
theorem run_serving (hstatic : NoStatic cfg) (hmask : PrefixNets cfg.nets)
    (hdis : DisjointNets cfg.nets) {s : Server} (hs : Serving cfg s) (hfits : ∀ i ∈ run, i.Fits) :
    Serving cfg (after (Server.step cfg net) s run) :=
  after_invariant (C := fun _ i => i.Fits) (fun _ _ h hi => h.step hstatic hmask hdis hi) hs
    (meets_of_forall fun _ => hfits)

/-- In every run of frames and restarts each DISCOVER and each REQUEST that arrives is answered by a
frame which every station reads as one and the same reply, and that matches the request; a RELEASE,
a DECLINE or a message of an unknown type is not answered. -/
theorem requests_answered (hstatic : NoStatic cfg) (hmask : PrefixNets cfg.nets)
    (hdis : DisjointNets cfg.nets) (hT : Canonical T) (hpool : Pooled cfg T)
    (message_buf : ℕ → Byte) (hfits : ∀ i ∈ run, i.Fits) {x : Arrival} {r : Option Served}
    (he : (Incident.arrival x, r) ∈
      trace (Server.step cfg net) (.start cfg T message_buf) run) {copy : Copy}
    (hcopy : recvPacket DHCP_MAX_MTU x.frames = some copy) {request : DHCP_Packet}
    (hbrings : copy.Brings request) :
    ∃ v, r = some v ∧ v.datagram.request = some request ∧
      (request.getMessageType x.garbage = DHCP_DISCOVER.toNat ∨
        request.getMessageType x.garbage = DHCP_REQUEST.toNat →
          ∃ frame reply, v.sent = some (.frame frame) ∧ Carries frame reply ∧ Hears frame reply ∧
            RepliesTo cfg v.leases v.datagram request reply .broadcast) ∧
      (request.getMessageType x.garbage ∉ [(DHCP_DISCOVER.toNat : ℤ), DHCP_REQUEST.toNat,
        DHCP_INFORM.toNat] → v.sent = none) := by
  obtain ⟨pre, post, hrun, hr⟩ := mem_trace he
  have hpre : ∀ i ∈ pre, i.Fits := fun i hi => hfits i (hrun ▸ List.mem_append_left _ hi)
  have hs : Serving cfg (after (Server.step cfg net) (.start cfg T message_buf) pre) :=
    run_serving hstatic hmask hdis (.start hmask hT hpool message_buf) hpre
  have hsize : 0 ≤ copy.size := hfits (.arrival x) (hrun ▸ by simp) copy hcopy
  generalize after (Server.step cfg net) (.start cfg T message_buf) pre = s at hs hr
  dsimp only at hr
  rw [hs.turn_eq hcopy hsize] at hr
  have hrequest := brings_request hbrings s x
  refine ⟨_, hr, hrequest, fun htype => ?_, fun htype => ?_⟩
  · have hresponds : ∃ r, (mainLoop cfg s.leases (s.received x copy)).2.response = .ok (some r) :=
      htype.elim (discover_responds hstatic hmask hdis hs.pooled hrequest)
        (requested_responds hrequest)
    have hinform : request.getMessageType x.garbage ≠ DHCP_INFORM.toNat := by
      rcases htype with htype | htype <;> rw [htype] <;> decide
    obtain ⟨r, hresponse⟩ := hresponds
    obtain ⟨frame, hframe⟩ := @turn_broadcasts cfg net s _ request hrequest hinform _ hresponse
    obtain ⟨request', response, hrequest', -, hcarries, hheard, hreplies⟩ := turn_frame hframe
    obtain rfl := Option.some.inj (hrequest.symm.trans hrequest')
    exact ⟨frame, _, hframe, hcarries, hheard, hreplies⟩
  · simp only [List.mem_cons, List.not_mem_nil, or_false, not_or] at htype
    exact turn_silent hrequest htype.1 htype.2.1 htype.2.2

end Run

theorem requests_answered_example : ∃ v frame reply,
    ((Server.start exampleCfg .empty fun _ => 0).step exampleCfg exampleNet
      (.arrival (exampleArrival 1 DHCP_DISCOVER 1 0))).2 = some v ∧
    v.sent = some (.frame frame) ∧ Carries frame reply := by
  obtain ⟨v, hv, -, hanswered, -⟩ := @requests_answered exampleCfg exampleNet exampleRun .empty
    exampleCfg_noStatic exampleNets_prefix exampleNets_disjoint
    (fun _ hrow => absurd hrow List.not_mem_nil) (fun _ hrow => absurd hrow List.not_mem_nil)
    (fun _ => 0) exampleRun_fits _ _ List.mem_cons_self _ (exampleArrival_copy 1 DHCP_DISCOVER 1 0)
    _ (exampleMessage_brings DHCP_DISCOVER 1 0)
  obtain ⟨frame, reply, hsent, hcarries, -⟩ := hanswered (Or.inl (exampleMessage_type _ _ _ _))
  exact ⟨v, frame, reply, hv, hsent, hcarries⟩

section Offers
variable {cfg : Config} {net : DHCP_Net} {s : Server}

/-- An offer that is heard has been allocated. -/
theorem offered_grants {x : Arrival} {v : Served}
    (hv : (s.step cfg net (.arrival x)).2 = some v) {frame : List Byte} {offer : DHCP_Packet}
    (hsent : v.sent = some (.frame frame)) (hheard : Hears frame offer)
    (hoffer : offer.optionValues DHO_DHCP_MESSAGE_TYPE = [[DHCP_OFFER]]) :
    ∃ c, v.call = some c ∧ c.env = x.env ∧
      Grants (c, (serveCall cfg s.leases c).2) offer.yiaddr (hwAddr offer.mac.u_addr) := by
  obtain ⟨y, copy, hxy, -, -, -, -, rfl⟩ := step_cases hv
  obtain rfl := Incident.arrival.inj hxy
  obtain ⟨request, response, hrequest, -, hcarries, -, hreplies⟩ := turn_frame hsent
  obtain rfl := hcarries.unique hheard
  have hgranted := hreplies.granted (Or.inl hoffer)
  have hdiscover : request.getMessageType x.garbage = DHCP_DISCOVER.toNat := by
    rcases hreplies.type with ⟨htype, -⟩ | ⟨-, htype⟩ | ⟨-, htype⟩
    · exact htype
    · rw [hoffer] at htype
      exact absurd htype (by decide)
    · rw [hoffer] at htype
      exact absurd htype (by decide)
  obtain ⟨ip, effects, hip, hanswered⟩ := @discover_grants cfg net s _ request
    hrequest hdiscover _ hgranted
  obtain ⟨c, hc, heq⟩ := Option.map_eq_some_iff.mp hanswered
  obtain ⟨rfl, hanswer⟩ := Prod.mk.inj heq
  refine ⟨_, hc, rfl, ?_, congrArg _ (congrArg MACAddress.u_addr hreplies.mac.symm)⟩
  rw [show s.leases = (s.turn cfg net (s.received x copy)).2.leases from rfl, hanswer, ← hip]
  rfl

/-- The ACK to a REQUEST that the allocator confirms. -/
theorem confirmed_acks {d : Datagram} {request : DHCP_Packet} (hrequest : d.request = some request)
    (htype : request.getMessageType d.garbage = DHCP_REQUEST.toNat) {a : U32}
    (haddr : request.requestedAddress d.garbage = some a) {leases : Leases}
    (hcheck : ipCheck cfg d.env request.mac (.ofU32 a) s.leases = .ok (leases, true)) :
    ∃ frame ack, (s.turn cfg net d).2.sent = some (.frame frame) ∧ Carries frame ack ∧
      Hears frame ack ∧ ack.optionValues DHO_DHCP_MESSAGE_TYPE = [[DHCP_ACK]] ∧ ack.yiaddr = a ∧
        ack.xid = request.xid ∧ ack.chaddr = request.chaddr := by
  have hturn : (mainLoop cfg s.leases d).2.response = .ok ((request.createDhcpAck cfg.nets d.garbage
      (.ofU32 a)).map fun p => (p, destination request p)) := by
    rw [mainLoop_requested hrequest htype, haddr, requested, hcheck]
    rfl
  obtain ⟨r, hr⟩ := @requested_responds cfg s.leases d request hrequest htype
  have hinform : request.getMessageType d.garbage ≠ DHCP_INFORM.toNat := by
    rw [htype]
    decide
  obtain ⟨frame, hframe⟩ := @turn_broadcasts cfg net s d request hrequest hinform r hr
  obtain ⟨request', response, hrequest', hresponse, hcarries, hheard, hreplies⟩ := turn_frame hframe
  obtain rfl := Option.some.inj (hrequest.symm.trans hrequest')
  rw [hturn, Except.ok.injEq, Option.map_eq_some_iff] at hresponse
  obtain ⟨p, hack, heq⟩ := hresponse
  obtain ⟨rfl, -⟩ := Prod.mk.inj heq
  have hbuilt := createDhcpAck_built hack
  exact ⟨frame, _, hframe, hcarries, hheard, hbuilt.type,
    (congrArg DHCP_Packet.yiaddr hbuilt.respond :), hreplies.xid, hreplies.chaddr⟩

/-- The OFFER to a DISCOVER that the allocator serves. -/
theorem allocated_offers {d : Datagram} {request : DHCP_Packet}
    (hrequest : d.request = some request)
    (htype : request.getMessageType d.garbage = DHCP_DISCOVER.toNat) {result : Allocation}
    {ip : IPAddress} (halloc : ipAlloc cfg d.env request.mac s.leases = .ok result)
    (hip : result.ip = some ip) (hsub : ∃ sub, cfg.nets.mysubnet ip = some sub) :
    ∃ frame offer, (s.turn cfg net d).2.sent = some (.frame frame) ∧ Hears frame offer ∧
      offer.optionValues DHO_DHCP_MESSAGE_TYPE = [[DHCP_OFFER]] ∧ offer.yiaddr = ip.u_addr ∧
        offer.mac = request.mac := by
  obtain ⟨response, hoffer⟩ := (createDhcpOffer_ok cfg.nets d.garbage request ip).mpr hsub
  have hturn : (mainLoop cfg s.leases d).2.response =
      .ok (some (response, destination request response)) := by
    rw [mainLoop_discover hrequest htype, halloc, offerOrNak, hip]
    simp only [hoffer]
    rfl
  have hinform : request.getMessageType d.garbage ≠ DHCP_INFORM.toNat := by
    rw [htype]
    decide
  obtain ⟨frame, hframe⟩ := @turn_broadcasts cfg net s d request hrequest hinform _ hturn
  obtain ⟨request', response', hrequest', hresponse, -, hheard, hreplies⟩ := turn_frame hframe
  obtain rfl := Option.some.inj (hrequest.symm.trans hrequest')
  obtain ⟨rfl, -⟩ := Prod.mk.inj (Option.some.inj (Except.ok.inj (hturn.symm.trans hresponse)))
  have hbuilt := createDhcpOffer_built hoffer
  exact ⟨frame, _, hframe, hheard, hbuilt.type, (congrArg DHCP_Packet.yiaddr hbuilt.respond :),
    hreplies.mac⟩

/-- Frames that do not decline an address make no call that does. -/
theorem calls_undeclined {run : List Incident} {a : U32}
    (hvalid : ∀ e ∈ trace (Server.step cfg net) s run, ∀ v, e.2 = some v →
      ∀ m, v.datagram.op ≠ some (.ipInvalidate m a)) :
    ∀ c ∈ calls cfg net s run, c.op.invalidated ≠ some a := by
  intro c hc hinvalid
  obtain ⟨e, he, hce⟩ := List.mem_flatMap.mp hc
  obtain ⟨w, hw, hcall⟩ := Option.bind_eq_some_iff.mp (Option.mem_toList.mp hce)
  obtain ⟨op, hop, rfl⟩ := Option.map_eq_some_iff.mp hcall
  cases op with
  | ipInvalidate m ip =>
    obtain rfl := Option.some.inj hinvalid
    exact hvalid e he w hw m hop
  | _ => cases hinvalid

/-- What the grant of an address leaves to its client in a run of the process, by the run of calls
behind it: the row of the address, found as the client's own. -/
theorem served_address_kept (hstatic : NoStatic cfg) (hs : s = .start cfg .empty s.message_buf)
    {pre mid : List Incident} {i j : Incident} {c₁ c₂ : Call} {a : U32} {m : U64}
    (hreal : ∀ k ∈ pre ++ i :: (mid ++ [j]), k.FromClient)
    (hclock : OnTime cfg (pre ++ i :: (mid ++ [j])))
    (hc₁ : ((after (Server.step cfg net) s pre).step cfg net i).2.bind Served.call = some c₁)
    (hgrant : Grants (c₁, (serveCall cfg (after (Server.step cfg net) s pre).leases c₁).2) a
      (hwAddr m))
    (hundeclined : ∀ c ∈ calls cfg net (after (Server.step cfg net) s (pre ++ [i])) mid,
      c.op.invalidated ≠ some a)
    (hc₂ : ((after (Server.step cfg net) s (pre ++ i :: mid)).step cfg net j).2.bind Served.call =
      some c₂) (hm : hwAddr m ≠ 0)
    (ht : c₂.env.now.toInt ≤ c₁.env.now.toInt+cfg.nets.globalnet.lease_time.toNat) :
    (∃ row ∈ (after (Server.step cfg net) s (pre ++ i :: mid)).leases.rows, row.ip = ipU2s a) ∧
      getLeasedIp c₂.env (.ofU64 m) (after (Server.step cfg net) s (pre ++ i :: mid)).leases =
        some (.ofU32 a) := by
  have hleases : s.leases = populate cfg.nets .empty := congrArg Server.leases hs
  have hkept : Kept cfg s := by
    rw [hs]
    exact .start (fun _ hrow => absurd hrow List.not_mem_nil) _
  obtain ⟨hcalls, hcalls'⟩ := calls_split hc₁ hc₂
  have hreal' := @calls_realClient cfg net s _ hreal
  have hclocked := @calls_clocked cfg net s _ hclock
  rw [hcalls', hcalls] at hreal' hclocked
  rw [(run_calls hstatic hkept).1, hleases] at hgrant
  have hothers := grants_to_holder hstatic (populate_canonical cfg.nets) hreal' hclocked hgrant ht
  rw [List.forall_mem_append] at hreal'
  have hown := address_kept hstatic hreal'.1 hm hgrant hothers hundeclined c₂.env
  rwa [← hcalls, ← hleases, ← (run_calls hstatic hkept).1] at hown

section Requests
variable {x : Arrival} {copy : Copy} {request : DHCP_Packet} {a : U32}

/-- The call that a well-formed REQUEST of an address makes. -/
theorem Serving.request_call (hs : Serving cfg s)
    (hcopy : recvPacket DHCP_MAX_MTU x.frames = some copy) (hsize : 0 ≤ copy.size)
    (hbrings : copy.Brings request)
    (htype : request.getMessageType x.garbage = DHCP_REQUEST.toNat)
    (haddr : request.requestedAddress x.garbage = some a) :
    (s.step cfg net (.arrival x)).2.bind Served.call =
      some ⟨x.env, .ipCheck request.mac.u_addr (some a)⟩ := by
  have hop : (s.received x copy).op = some (.ipCheck request.mac.u_addr (some a)) := by
    rw [Datagram.op, brings_request hbrings s x]
    exact requestOp_check.mpr ⟨htype, rfl, haddr⟩
  rw [@Serving.turn_eq cfg net s hs x copy hcopy hsize]
  exact congrArg (Option.map _) hop

/-- Such a REQUEST is acknowledged when the client has the row of the address. -/
theorem Serving.acks (hstatic : NoStatic cfg) (hmask : PrefixNets cfg.nets)
    (hdis : DisjointNets cfg.nets) (hs : Serving cfg s)
    (hcopy : recvPacket DHCP_MAX_MTU x.frames = some copy) (hsize : 0 ≤ copy.size)
    (hbrings : copy.Brings request)
    (htype : request.getMessageType x.garbage = DHCP_REQUEST.toNat)
    (haddr : request.requestedAddress x.garbage = some a)
    (hrow : ∃ row ∈ s.leases.rows, row.ip = ipU2s a)
    (hleased : getLeasedIp x.env request.mac s.leases = some (.ofU32 a)) :
    ∃ v frame ack, (s.step cfg net (.arrival x)).2 = some v ∧ v.sent = some (.frame frame) ∧
      Carries frame ack ∧ Hears frame ack ∧
      ack.optionValues DHO_DHCP_MESSAGE_TYPE = [[DHCP_ACK]] ∧ ack.yiaddr = a ∧
        ack.xid = request.xid ∧ ack.chaddr = request.chaddr := by
  obtain ⟨row, hrow, htext⟩ := hrow
  -- the row is one of the pool, so the subnet it is found in has a dynamic range
  have hpool := hs.pooled row hrow
  rw [htext, ipS2u_ipU2s] at hpool
  obtain ⟨sub, hsub, hdyn⟩ := pool_mysubnet hmask hdis hpool
    (rfl : (IPAddress.ofU32 a).u_addr = _)
  have hcheck := ipCheck_leased hsub (hstatic request.mac.u_addr) hdyn hleased rfl
  obtain ⟨frame, ack, hsent, hack⟩ :=
    @confirmed_acks cfg net s _ _ (brings_request hbrings s x) htype a haddr _ hcheck
  exact ⟨_, frame, ack, @Serving.turn_eq cfg net s hs x copy hcopy hsize, hsent, hack⟩

end Requests

/-- An offer that a station has heard stands: when the client requests the address during the lease,
and nobody has declined it in between, its acknowledgement is sent as a frame that every station
reads, whatever else has arrived and however often the server was restarted. -/
theorem heard_offer_stands (hstatic : NoStatic cfg) (hmask : PrefixNets cfg.nets)
    (hdis : DisjointNets cfg.nets) (hs : s = .start cfg .empty s.message_buf)
    {pre mid : List Incident} {x₁ x₂ : Arrival}
    (hreal : ∀ i ∈ pre ++ .arrival x₁ :: (mid ++ [.arrival x₂]), i.FromClient)
    (hfits : ∀ i ∈ pre ++ .arrival x₁ :: (mid ++ [.arrival x₂]), i.Fits)
    (hclock : OnTime cfg (pre ++ .arrival x₁ :: (mid ++ [.arrival x₂]))) {v : Served}
    (hv : ((after (Server.step cfg net) s pre).step cfg net (.arrival x₁)).2 = some v)
    {frame : List Byte} {offer : DHCP_Packet} (hsent : v.sent = some (.frame frame))
    (hheard : Hears frame offer)
    (hoffer : offer.optionValues DHO_DHCP_MESSAGE_TYPE = [[DHCP_OFFER]])
    (hvalid : ∀ e ∈ trace (Server.step cfg net)
      (after (Server.step cfg net) s (pre ++ [.arrival x₁])) mid, ∀ v, e.2 = some v →
        ∀ m, v.datagram.op ≠ some (.ipInvalidate m offer.yiaddr)) {copy : Copy}
    (hcopy : recvPacket DHCP_MAX_MTU x₂.frames = some copy) {request : DHCP_Packet}
    (hbrings : copy.Brings request)
    (htype : request.getMessageType x₂.garbage = DHCP_REQUEST.toNat)
    (haddr : request.requestedAddress x₂.garbage = some offer.yiaddr)
    (hclient : hwAddr request.mac.u_addr = hwAddr offer.mac.u_addr)
    (ht : x₂.env.now.toInt ≤ x₁.env.now.toInt+cfg.nets.globalnet.lease_time.toNat) :
    ∃ v' frame' ack,
      ((after (Server.step cfg net) s (pre ++ .arrival x₁ :: mid)).step cfg net (.arrival x₂)).2 =
        some v' ∧ v'.sent = some (.frame frame') ∧ Carries frame' ack ∧ Hears frame' ack ∧
      ack.optionValues DHO_DHCP_MESSAGE_TYPE = [[DHCP_ACK]] ∧ ack.yiaddr = offer.yiaddr ∧
        ack.xid = request.xid ∧ ack.chaddr = request.chaddr := by
  obtain ⟨c₁, hc₁, henv₁, hgrant⟩ := offered_grants hv hsent hheard hoffer
  -- the server that the request arrives at
  have hserving : Serving cfg (after (Server.step cfg net) s (pre ++ .arrival x₁ :: mid)) := by
    have hstart : Serving cfg s := by
      rw [hs]
      exact .start hmask (fun _ hrow => absurd hrow List.not_mem_nil)
        (fun _ hrow => absurd hrow List.not_mem_nil) _
    refine run_serving hstatic hmask hdis hstart fun i hi => hfits i ?_
    rw [List.mem_append, List.mem_cons] at hi
    rw [List.mem_append, List.mem_cons, List.mem_append]
    exact hi.imp_right fun h => h.imp_right Or.inl
  have hsize : 0 ≤ copy.size := hfits (.arrival x₂) (by simp) copy hcopy
  have hc₂ := @Serving.request_call cfg net _ x₂ copy request _ hserving hcopy hsize hbrings htype
    haddr
  have hclient₂ : hwAddr request.mac.u_addr ≠ 0 := by
    rw [received_client (brings_request hbrings
      (after (Server.step cfg net) s (pre ++ .arrival x₁ :: mid)) x₂)]
    exact hreal (.arrival x₂) (by simp) copy hcopy
  rw [← hclient] at hgrant
  obtain ⟨hrow, hleased⟩ := served_address_kept hstatic hs hreal hclock
    (by rw [hv]; exact hc₁) hgrant (calls_undeclined hvalid) hc₂ hclient₂ (by rwa [henv₁])
  exact hserving.acks hstatic hmask hdis hcopy hsize hbrings htype haddr hrow hleased

end Offers

theorem exampleArrival_op {cfg : Config} {net : DHCP_Net} {s : Server} {v : Served} {now : U32}
    {type : Byte} {mac : U64} {ciaddr : U32}
    (hv : (s.step cfg net (.arrival (exampleArrival now type mac ciaddr))).2 = some v) :
    v.datagram.op = requestOp v.datagram.garbage (exampleMessage type mac ciaddr) := by
  obtain ⟨x, copy, hx, -, hcopy, -, -, rfl⟩ := step_cases hv
  obtain rfl := Incident.arrival.inj hx
  obtain rfl := Option.some.inj ((exampleArrival_copy now type mac ciaddr).symm.trans hcopy)
  have hrequest := brings_request (exampleMessage_brings type mac ciaddr) s
    (exampleArrival now type mac ciaddr)
  exact (congrArg (Option.bind · (requestOp _)) hrequest :)

/-- The first client requests its address at the end of its lease. -/
theorem heard_offer_stands_example : ∃ v frame ack,
    ((after (Server.step exampleCfg exampleNet) (.start exampleCfg .empty fun _ => 0)
      (exampleRun.take 3)).step exampleCfg exampleNet
        (.arrival (exampleArrival 181 DHCP_REQUEST 1 (ipS2u "10.20.11.50")))).2 = some v ∧
      v.sent = some (.frame frame) ∧ Carries frame ack ∧
      ack.optionValues DHO_DHCP_MESSAGE_TYPE = [[DHCP_ACK]] ∧
        ack.yiaddr = ipS2u "10.20.11.50" := by
  have hserving : Serving exampleCfg (.start exampleCfg .empty fun _ => 0) :=
    .start exampleNets_prefix (fun _ hrow => absurd hrow List.not_mem_nil)
      (fun _ hrow => absurd hrow List.not_mem_nil) _
  have hturn := @Serving.turn_eq exampleCfg exampleNet _ hserving _ _
    (exampleArrival_copy 1 DHCP_DISCOVER 1 0) (by decide)
  have hrequest := brings_request (exampleMessage_brings DHCP_DISCOVER 1 0)
    (.start exampleCfg .empty fun _ => 0) (exampleArrival 1 DHCP_DISCOVER 1 0)
  have halloc : ∃ leases effects, ipAlloc exampleCfg ⟨1, .rowid⟩ (.ofU64 1) exampleTable =
      .ok ⟨leases, some (.ofText "10.20.11.50"), effects⟩ := ⟨_, _, rfl⟩
  obtain ⟨leases, effects, halloc⟩ := halloc
  rw [← exampleMessage_mac DHCP_DISCOVER 1 0] at halloc
  obtain ⟨frame, offer, hsent, hheard, htype, hyiaddr, hmac⟩ := @allocated_offers exampleCfg
    exampleNet (.start exampleCfg .empty fun _ => 0) _ _ hrequest
    (exampleMessage_type DHCP_DISCOVER 1 0 _) _ _ halloc rfl
    (Option.isSome_iff_exists.mp (by decide))
  have hvalid : ∀ e ∈ trace (Server.step exampleCfg exampleNet)
      (after (Server.step exampleCfg exampleNet) (.start exampleCfg .empty fun _ => 0)
        (exampleRun.take 1)) ((exampleRun.drop 1).take 2), ∀ v, e.2 = some v →
          ∀ m, v.datagram.op ≠ some (.ipInvalidate m offer.yiaddr) := by
    intro e he v hv m hop
    obtain ⟨pre, post, hrun, he⟩ := mem_trace he
    rw [hv] at he
    have hmem : e.1 ∈ (exampleRun.drop 1).take 2 := hrun ▸ by simp
    rcases List.mem_pair.mp hmem with hrestart | harrival
    · rw [hrestart] at he
      cases he
    · rw [harrival] at he
      rw [exampleArrival_op he.symm, requestOp_invalidate] at hop
      exact absurd hop.1 (by rw [exampleMessage_type]; decide)
  obtain ⟨v', frame', ack, hv', hsent', hcarries, -, hack, hyiaddr', -⟩ := @heard_offer_stands
    exampleCfg exampleNet (.start exampleCfg .empty fun _ => 0) exampleCfg_noStatic
    exampleNets_prefix exampleNets_disjoint rfl [] ((exampleRun.drop 1).take 2) _ _
    exampleRun_fromClient exampleRun_fits exampleRun_onTime _ hturn frame offer hsent hheard htype
    hvalid _
    (exampleArrival_copy 181 DHCP_REQUEST 1 (ipS2u "10.20.11.50")) _
    (exampleMessage_brings DHCP_REQUEST 1 (ipS2u "10.20.11.50")) (exampleMessage_type _ _ _ _)
    (by rw [hyiaddr]; rfl) (by rw [hmac, exampleMessage_mac, exampleMessage_mac]) (by decide)
  rw [hyiaddr] at hyiaddr'
  exact ⟨v', frame', ack, hv', hsent', hcarries, hack, hyiaddr'⟩

end S3Dhcpd
