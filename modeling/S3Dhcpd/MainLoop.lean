import S3Dhcpd.Calls
import S3Dhcpd.Packet

/-! One turn of `main_loop`, and the allocator call that it makes. -/
namespace S3Dhcpd
open KeyedTable

/-- What a turn receives: the buffer holds the packet and, behind it, what earlier packets left. -/
structure Datagram where
  env : Env
  garbage : Garbage
  buffer : ℕ → Byte
  message_length : ℕ

inductive LoopException where
  | allocator (e : IPAllocatorException)
  | packet (e : DHCP_PacketException)
deriving DecidableEq, Repr

inductive Destination where
  | broadcast
  | address (to_addr : U32)
deriving DecidableEq, Repr

/-- What a turn does besides changing the table: a response, or an exception that leaves the loop. -/
structure Turn where
  effects : List Effect
  response : Except LoopException (Option (DHCP_Packet × Destination))
deriving DecidableEq, Repr

def destination (request response : DHCP_Packet) : Destination :=
  if response.ciaddr = 0 then .broadcast else .address request.ip.u_addr

def Turn.respond (effects : List Effect) (request : DHCP_Packet) (response : Option DHCP_Packet) :
    Turn :=
  ⟨effects, .ok (response.map fun p => (p, destination request p))⟩

/-- The answer to a DISCOVER: an offer needs a subnet for the allocated address. -/
def offerOrNak (cfg : Config) (T : Leases) (d : Datagram) (request : DHCP_Packet) :
    Except IPAllocatorException Allocation → Leases × Turn
  | .error e => (T, ⟨[], .error (.allocator e)⟩)
  | .ok r =>
    match r.ip with
    | some ip_addr =>
      match request.createDhcpOffer cfg.nets d.garbage ip_addr with
      -- the lease has been written by then
      | .error e => (r.leases, ⟨r.effects, .error (.packet e)⟩)
      | .ok response => (r.leases, .respond r.effects request (some response))
    | none => (r.leases, .respond r.effects request (some (request.createDhcpNak cfg.nets)))

/-- The answer to a REQUEST. -/
def ackOrNak (cfg : Config) (T : Leases) (d : Datagram) (request : DHCP_Packet) (ip : IPAddress) :
    Except IPAllocatorException (Leases × Bool) → Leases × Turn
  | .error e => (T, ⟨[], .error (.allocator e)⟩)
  | .ok (leases, granted) =>
    if granted then (leases, .respond [] request (request.createDhcpAck cfg.nets d.garbage ip))
    else (leases, .respond [] request (some (request.createDhcpNak cfg.nets)))

/-- The `switch` on the message type. -/
def dispatch (cfg : Config) (T : Leases) (d : Datagram) (request : DHCP_Packet) : Leases × Turn :=
  let dhcp_message_type := request.getMessageType d.garbage
  if dhcp_message_type = DHCP_DISCOVER.toNat then
    offerOrNak cfg T d request (ipAlloc cfg d.env request.mac T)
  else if dhcp_message_type = DHCP_RELEASE.toNat then
    (T, .respond (ipFree cfg request.mac request.ip) request none)
  else if dhcp_message_type = DHCP_INFORM.toNat then
    let ip := request.getRequestedAddress d.garbage
    (T, .respond [] request (request.createDhcpAck2 cfg.nets d.garbage ip))
  else if dhcp_message_type = DHCP_REQUEST.toNat then
    let ip := request.getRequestedAddress d.garbage
    ackOrNak cfg T d request ip (ipCheck cfg d.env request.mac ip T)
  else if dhcp_message_type = DHCP_DECLINE.toNat then
    (ipInvalidate cfg d.env request.mac request.ip T, .respond [] request none)
  else (T, .respond [] request none)

def mainLoop (cfg : Config) (T : Leases) (d : Datagram) : Leases × Turn :=
  if d.message_length < BOOTP_ABSOLUTE_MIN_LEN then (T, ⟨[], .ok none⟩)
  else if !checkMagicCookie d.buffer d.message_length then (T, ⟨[], .ok none⟩)
  else match marshall d.buffer d.message_length with
    | .error e => (T, ⟨[], .error (.packet e)⟩)
    | .ok request => dispatch cfg T d request

/-- The request that a turn handles, if the datagram is one. -/
def Datagram.request (d : Datagram) : Option DHCP_Packet :=
  if checkMagicCookie d.buffer d.message_length then (marshall d.buffer d.message_length).toOption
  else none

/-- The call that a request leads to. -/
def requestOp (g : Garbage) (request : DHCP_Packet) : Option Op :=
  let dhcp_message_type := request.getMessageType g
  if dhcp_message_type = DHCP_DISCOVER.toNat then some (.ipAlloc request.mac.u_addr)
  else if dhcp_message_type = DHCP_RELEASE.toNat then
    some (.ipFree request.mac.u_addr request.ciaddr)
  else if dhcp_message_type = DHCP_REQUEST.toNat then
    some (.ipCheck request.mac.u_addr (request.requestedAddress g))
  else if dhcp_message_type = DHCP_DECLINE.toNat then
    some (.ipInvalidate request.mac.u_addr request.ciaddr)
  else none

def Datagram.op (d : Datagram) : Option Op := d.request.bind (requestOp d.garbage)

/-- The cookie stands behind the fixed part of the packet. -/
theorem cookie_length {buffer : ℕ → Byte} {len : ℕ} (h : checkMagicCookie buffer len = true) :
    240 ≤ len := by
  simp only [checkMagicCookie, Bool.not_eq_true', Bool.or_eq_false_iff,
    decide_eq_false_iff_not] at h
  omega

theorem marshall_ok {buffer : ℕ → Byte} {len : ℕ} (h : checkMagicCookie buffer len = true) :
    ∃ request, marshall buffer len = .ok request := by
  simp only [marshall, h, Bool.not_true, Bool.false_eq_true, ↓reduceIte, Except.ok.injEq,
    exists_eq']

theorem request_of_cookie {d : Datagram} (h : checkMagicCookie d.buffer d.message_length = true) :
    ∃ request, d.request = some request := by
  obtain ⟨request, hrequest⟩ := marshall_ok h
  exact ⟨request, by rw [Datagram.request, if_pos h, hrequest]; rfl⟩

/-- A turn handles the request of its datagram, and ignores other datagrams. -/
theorem mainLoop_request (cfg : Config) (T : Leases) (d : Datagram) : mainLoop cfg T d =
    match d.request with
    | some request => dispatch cfg T d request
    | none => (T, ⟨[], .ok none⟩) := by
  cases h : checkMagicCookie d.buffer d.message_length with
  | false => simp [mainLoop, Datagram.request, h]
  | true =>
    obtain ⟨request, hrequest⟩ := marshall_ok h
    have hlen : ¬d.message_length < BOOTP_ABSOLUTE_MIN_LEN := by
      have hlen := cookie_length h
      rw [BOOTP_ABSOLUTE_MIN_LEN]
      omega
    simp [mainLoop, Datagram.request, h, hlen, hrequest, Except.toOption]

section Types
variable {g : Garbage} {request : DHCP_Packet} {m : U64}

theorem requestOp_alloc : requestOp g request = some (.ipAlloc m) ↔
    request.getMessageType g = DHCP_DISCOVER.toNat ∧ request.mac.u_addr = m := by
  simp only [requestOp]
  split_ifs with h₁ h₂ h₃ h₄ <;> simp [h₁]

theorem requestOp_check {ip : Option U32} : requestOp g request = some (.ipCheck m ip) ↔
    request.getMessageType g = DHCP_REQUEST.toNat ∧ request.mac.u_addr = m ∧
      request.requestedAddress g = ip := by
  simp only [requestOp]
  split_ifs with h₁ h₂ h₃ h₄
  · simp [h₁, DHCP_DISCOVER, DHCP_REQUEST]
  · simp [h₂, DHCP_RELEASE, DHCP_REQUEST]
  · simp [h₃]
  · simp [h₄, DHCP_DECLINE, DHCP_REQUEST]
  · simp [h₃]

theorem requestOp_invalidate {ip : U32} : requestOp g request = some (.ipInvalidate m ip) ↔
    request.getMessageType g = DHCP_DECLINE.toNat ∧ request.mac.u_addr = m ∧
      request.ciaddr = ip := by
  simp only [requestOp]
  split_ifs with h₁ h₂ h₃ h₄
  · simp [h₁, DHCP_DISCOVER, DHCP_DECLINE]
  · simp [h₂, DHCP_RELEASE, DHCP_DECLINE]
  · simp [h₃, DHCP_REQUEST, DHCP_DECLINE]
  · simp [h₄]
  · simp [h₄]

end Types

theorem op_mac {d : Datagram} {op : Op} (h : d.op = some op) :
    ∃ request, d.request = some request ∧ op.mac = request.mac.u_addr := by
  obtain ⟨request, hrequest, hop⟩ := Option.bind_eq_some_iff.mp h
  refine ⟨request, hrequest, ?_⟩
  simp only [requestOp] at hop
  split_ifs at hop <;> cases hop <;> rfl

theorem op_client {d : Datagram} {op : Op} (h : d.op = some op) {request : DHCP_Packet}
    (hrequest : d.request = some request) : request.mac.u_addr = op.mac := by
  obtain ⟨request', hrequest', hmac⟩ := op_mac h
  obtain rfl := Option.some.inj (hrequest.symm.trans hrequest')
  exact hmac.symm

theorem offerOrNak_leases (cfg : Config) (T : Leases) (d : Datagram) (request : DHCP_Packet)
    (result : Except IPAllocatorException Allocation) :
    (offerOrNak cfg T d request result).1 = (answerAlloc T result).1 := by
  cases result with
  | error e => rfl
  | ok r =>
    simp only [offerOrNak, answerAlloc]
    cases r.ip with
    | none => rfl
    | some ip =>
      simp only
      split <;> rfl

theorem ackOrNak_leases (cfg : Config) (T : Leases) (d : Datagram) (request : DHCP_Packet)
    (ip : IPAddress) (result : Except IPAllocatorException (Leases × Bool)) :
    (ackOrNak cfg T d request ip result).1 = (answerCheck T result).1 := by
  cases result with
  | error e => rfl
  | ok r =>
    obtain ⟨leases, granted⟩ := r
    cases granted <;> rfl

/-- A turn changes the table as its call does, and only then. -/
theorem mainLoop_leases (cfg : Config) (T : Leases) (d : Datagram) : (mainLoop cfg T d).1 =
    match d.op with
    | some op => (serveCall cfg T ⟨d.env, op⟩).1
    | none => T := by
  rw [mainLoop_request, Datagram.op]
  cases d.request with
  | none => rfl
  | some request =>
    simp only [dispatch, Option.bind_some, requestOp]
    -- in the order in which `main_loop` asks for the type
    split_ifs with h₁ h₂ h₃ h₄ h₅
    · exact offerOrNak_leases cfg T d request _
    · rfl
    · exact absurd (h₃.symm.trans h₄) (by decide)
    · exact absurd (h₃.symm.trans h₅) (by decide)
    · rfl
    · exact ackOrNak_leases cfg T d request _ _
    · rfl
    · rfl

section Messages
variable {cfg : Config} {T : Leases} {d : Datagram} {request : DHCP_Packet}

theorem mainLoop_discover (hrequest : d.request = some request)
    (htype : request.getMessageType d.garbage = DHCP_DISCOVER.toNat) :
    mainLoop cfg T d = offerOrNak cfg T d request (ipAlloc cfg d.env request.mac T) := by
  rw [mainLoop_request, hrequest]
  simp only [dispatch, if_pos htype]

theorem mainLoop_requested (hrequest : d.request = some request)
    (htype : request.getMessageType d.garbage = DHCP_REQUEST.toNat) :
    mainLoop cfg T d = ackOrNak cfg T d request (requested (request.requestedAddress d.garbage))
      (ipCheck cfg d.env request.mac (requested (request.requestedAddress d.garbage)) T) := by
  rw [mainLoop_request, hrequest]
  simp only [dispatch, htype]
  rfl

/-- The other message types but DECLINE do not reach the table. -/
theorem mainLoop_others (hrequest : d.request = some request)
    (hdiscover : request.getMessageType d.garbage ≠ DHCP_DISCOVER.toNat)
    (hreq : request.getMessageType d.garbage ≠ DHCP_REQUEST.toNat)
    (hdecline : request.getMessageType d.garbage ≠ DHCP_DECLINE.toNat) :
    (mainLoop cfg T d).1 = T := by
  rw [mainLoop_request, hrequest]
  simp only [dispatch, if_neg hdiscover, if_neg hreq, if_neg hdecline]
  split_ifs <;> rfl

end Messages

/-- The datagram under another order of the query results. -/
def Datagram.withScan (d : Datagram) (scan : Scan Lease) : Datagram :=
  { d with env := ⟨d.env.now, scan⟩ }

@[simp] theorem Datagram.withScan_request (d : Datagram) (scan : Scan Lease) :
    (d.withScan scan).request = d.request := rfl

@[simp] theorem Datagram.withScan_op (d : Datagram) (scan : Scan Lease) :
    (d.withScan scan).op = d.op := rfl

@[simp] theorem Datagram.withScan_env (d : Datagram) (scan : Scan Lease) :
    (d.withScan scan).env = ⟨d.env.now, scan⟩ := rfl

/-- A packet of a message type from a client, with nothing but `ciaddr` filled in. -/
def exampleDatagram (now : U32) (type : Byte) (mac : U64) (ciaddr : U32) : Datagram where
  env := ⟨now, .rowid⟩
  garbage := ⟨fun _ _ => 0, fun _ => 0⟩
  buffer := fun i =>
    if 12 ≤ i ∧ i < 16 then byteOf ciaddr (i-12)
    else if 28 ≤ i ∧ i < 36 then byteOf mac (i-28)
    else ([(236, 0x63), (237, 0x82), (238, 0x53), (239, 0x63), (240, DHO_DHCP_MESSAGE_TYPE), (241, 1),
      (242, type), (243, DHO_END)].lookup i).getD 0
  message_length := 244

theorem exampleDatagram_options (now : U32) (type : Byte) (mac : U64) (ciaddr : U32) :
    readOptions (exampleDatagram now type mac ciaddr).buffer 244 244 0 240 =
      [⟨DHO_DHCP_MESSAGE_TYPE, 1, [type]⟩] := by
  have h₀ : (exampleDatagram now type mac ciaddr).buffer 240 = DHO_DHCP_MESSAGE_TYPE := rfl
  have h₁ : (exampleDatagram now type mac ciaddr).buffer 241 = 1 := rfl
  have h₂ : (exampleDatagram now type mac ciaddr).buffer 242 = type := rfl
  have h₃ : (exampleDatagram now type mac ciaddr).buffer 243 = DHO_END := rfl
  simp [readOptions, h₀, h₁, h₂, h₃, bytesAt, DHO_PAD, DHO_END, DHO_DHCP_MESSAGE_TYPE,
    MAX_DHCP_OPTIONS]

theorem exampleDatagram_request (now : U32) (type : Byte) (mac : U64) (ciaddr : U32) :
    ∃ request, (exampleDatagram now type mac ciaddr).request = some request ∧
      request.mac = .ofU64 mac ∧
      request.getMessageType (exampleDatagram now type mac ciaddr).garbage = type.toNat := by
  refine ⟨_, rfl, congrArg MACAddress.ofU64 (uint64_bytes mac), ?_⟩
  rw [DHCP_Packet.getMessageType]
  have h := exampleDatagram_options now type mac ciaddr
  simp only [exampleDatagram] at h ⊢
  rw [h]
  rfl

/-- The example configuration with one row in the static database, for client 9. -/
def staticCfg (ip str_access : String) : Config :=
  { exampleCfg with
    static_db := some fun mac => if mac = macU2s 9 then [(ip, str_access)] else [] }

end S3Dhcpd
