import S3Dhcpd.Broadcasts
import S3Dhcpd.Restarts
import S3Dhcpd.Stability
import S3Dhcpd.WireReplies

/-! The server as a process on its network: frames come in, and frames and datagrams go out. -/
namespace S3Dhcpd
open ByteMemory KeyedTable Runs

def DHCP_MAX_MTU : ℕ := 4096

/-- What `DHCP_Net::initialize` keeps, and how the program was built. -/
structure DHCP_Net where
  flags : BuildFlags
  hw_header : s3_eth
  my_ip : U32

def DHCP_Net.initializeOn (flags : BuildFlags) (mac : List.Vector Byte 6) (src_ip_addr : String) :
    DHCP_Net :=
  ⟨flags, buildEthernetHeader mac, ipS2u src_ip_addr⟩

inductive Sent where
  | frame (pkt : List Byte)
  | datagram (to_addr : U32) (buf : List Byte)
deriving DecidableEq, Repr

/-- What `pcap_next` delivers until `recv_packet` returns, and what else a turn meets. -/
structure Arrival where
  env : Env
  garbage : Garbage
  current_verbosity : ℕ
  frames : List (Option Capture)

/-- A restart is a new process, with whatever its stack holds where the buffer is. -/
inductive Incident where
  | arrival (x : Arrival)
  | restart (message_buf : ℕ → Byte)

structure Server where
  leases : Leases
  message_buf : ℕ → Byte
  running : Bool

/-- A turn: the leases and the datagram that it met, and what it sent. -/
structure Served where
  leases : Leases
  datagram : Datagram
  sent : Option Sent

/-- `memcpy(buf, packet + pkt_header_size, udp_packet_size)` -/
def Copy.onto (copy : Copy) (buf : ℕ → Byte) : ℕ → Byte :=
  write buf 0 (read copy.frame.packet copy.offset copy.size.toNat)

/-- The hardware address in a packet. -/
def Copy.client (copy : Copy) : BitVec 48 :=
  let c := fun i => copy.frame.packet (copy.offset+28+i)
  hwAddr (uint64 (c 0) (c 1) (c 2) (c 3) (c 4) (c 5) (c 6) (c 7))

namespace Server

/-- The start of the program on a lease database. -/
def start (cfg : Config) (T : Leases) (message_buf : ℕ → Byte) : Server :=
  ⟨populate cfg.nets T, message_buf, true⟩

/-- What `main_loop` handles once `recv_packet` has returned. -/
def received (s : Server) (x : Arrival) (copy : Copy) : Datagram where
  env := x.env
  garbage := x.garbage
  buffer := copy.onto (if x.current_verbosity > 4 then write s.message_buf 0
    (List.replicate DHCP_MAX_MTU 0) else s.message_buf)
  message_length := copy.size.toNat

section Step
variable (cfg : Config) (net : DHCP_Net)

def turn (s : Server) (d : Datagram) : Server × Served :=
  let reply := emitted cfg s.leases d
  let sent := reply.map fun r =>
    match r.2.2 with
    | .broadcast =>
      .frame (sendBroadcastPacket net.flags net.hw_header net.my_ip (read r.1 0 r.2.1))
    | .address to_addr => .datagram to_addr (read r.1 0 r.2.1)
  ({ leases := (mainLoop cfg s.leases d).1
     message_buf := (reply.map Prod.fst).getD d.buffer
     -- an exception ends the program
     running := (mainLoop cfg s.leases d).2.response.toOption.isSome },
    ⟨s.leases, d, sent⟩)

/-- A copy of a negative size ends the program, too. -/
def step (s : Server) : Incident → Server × Option Served
  | .restart message_buf => (start cfg s.leases message_buf, none)
  | .arrival x =>
    if !s.running then (s, none)
    else match recvPacket DHCP_MAX_MTU x.frames with
      | none => (s, none)
      | some copy =>
        if copy.size < 0 then ({ s with running := false }, none)
        else ((s.turn cfg net (s.received x copy)).1, some (s.turn cfg net (s.received x copy)).2)

end Step

end Server

/-- Every address that the ranges span has its row. -/
def Settled (nets : Subnets) (T : Leases) : Prop :=
  ∀ sub ∈ nets.subnets, ∀ row ∈ rangeRows sub, T.row? row.ip ≠ none

/-- The call of a turn, and its answer. -/
def Served.call (v : Served) : Option Call := v.datagram.op.map fun op => ⟨v.datagram.env, op⟩

def Served.answered (cfg : Config) (v : Served) : Option (Call × Answer) :=
  v.call.map fun c => (c, (serveCall cfg v.leases c).2)

/-- The packets come from clients with a hardware address. -/
def Incident.FromClient : Incident → Prop
  | .arrival x => ∀ copy, recvPacket DHCP_MAX_MTU x.frames = some copy → copy.client ≠ 0
  | .restart _ => True

/-- No frame is so long that the size of its payload is negative as an `int`. -/
def Incident.Fits : Incident → Prop
  | .arrival x => ∀ copy, recvPacket DHCP_MAX_MTU x.frames = some copy → 0 ≤ copy.size
  | .restart _ => True

/-- The packet has arrived as a whole. -/
def Copy.Brings (copy : Copy) (request : DHCP_Packet) : Prop :=
  request.WellFormed ∧ request.wire <+: read copy.frame.packet copy.offset copy.size.toNat

/-- A non-decreasing clock under which no expiry leaves the range of `int`. -/
structure OnTime (cfg : Config) (run : List Incident) : Prop where
  ordered : run.Pairwise fun i j => ∀ x y, i = .arrival x → j = .arrival y →
    x.env.now.toInt ≤ y.env.now.toInt
  bounded : ∀ x : Arrival, .arrival x ∈ run →
    x.env.now.toInt+cfg.nets.globalnet.lease_time.toNat < 2^31

section Settled
variable {cfg : Config} {nets : Subnets} {T : Leases}

theorem Settled.populate (h : Settled nets T) : populate nets T = T := by
  rw [S3Dhcpd.populate, ← List.foldl_flatMap]
  apply Table.insertAll_taken
  intro row hrow
  obtain ⟨sub, hsub, hrow⟩ := List.mem_flatMap.mp hrow
  exact h sub hsub row hrow

theorem settled_populate (nets : Subnets) (T : Leases) : Settled nets (populate nets T) := by
  intro sub hsub row hrow hnone
  have hold : T.row? row.ip = none := by
    rw [Table.row?_eq_none] at hnone ⊢
    exact fun r hr => hnone r ((populate_append nets T).subset hr)
  have hmem : row ∈ (S3Dhcpd.populate nets T).rows :=
    mem_populate_old.mpr (Or.inr ⟨⟨sub, hsub, hrow⟩, hold⟩)
  exact Table.row?_eq_none.mp hnone row hmem rfl

theorem Canonical.populate (hT : Canonical T) : Canonical (populate nets T) := by
  intro row hrow
  rcases mem_populate_old.mp hrow with hold | ⟨⟨sub, -, hnew⟩, -⟩
  · exact hT row hold
  · obtain ⟨a, rfl⟩ := rangeRows_fresh hnew
    rw [canonicalQuad_iff, freshRow, IPAddress.ofU32, ipS2u_ipU2s]

theorem Settled.serveCall (hstatic : NoStatic cfg) (h : Settled nets T) (c : Call) :
    Settled nets (serveCall cfg T c).1 := by
  rcases serveCall_recorded hstatic T c with hsame | ⟨mac, ip, auth_info, hrec⟩
  · rwa [hsame]
  · intro sub hsub row hrow
    rw [hrec, row?_recordLease]
    have hold := h sub hsub row hrow
    split_ifs
    · simpa using hold
    · exact hold

end Settled

section Steps
variable {cfg : Config} {net : DHCP_Net} {s : Server} {x : Arrival} {i : Incident} {v : Served}

/-- What a turn of the process can be. -/
theorem step_cases (h : (s.step cfg net i).2 = some v) : ∃ x copy, i = .arrival x ∧
    s.running = true ∧ recvPacket DHCP_MAX_MTU x.frames = some copy ∧ 0 ≤ copy.size ∧
      s.step cfg net i = ((s.turn cfg net (s.received x copy)).1, some v) ∧
        v = (s.turn cfg net (s.received x copy)).2 := by
  cases i with
  | restart message_buf => cases h
  | arrival x =>
    rw [Server.step] at h ⊢
    split_ifs at h ⊢ with hrunning
    cases hcopy : recvPacket DHCP_MAX_MTU x.frames with
    | none =>
      rw [hcopy] at h
      cases h
    | some copy =>
      rw [hcopy] at h
      dsimp only at h ⊢
      split_ifs at h ⊢ with hsize
      obtain rfl := Option.some.inj h
      exact ⟨x, copy, rfl, by simpa using hrunning, hcopy, not_lt.mp hsize, rfl, rfl⟩

theorem turn_leases (d : Datagram) : (s.turn cfg net d).1.leases =
    after (serveCall cfg) s.leases (s.turn cfg net d).2.call.toList := by
  change (mainLoop cfg s.leases d).1 =
    after (serveCall cfg) s.leases (d.op.map fun op => (⟨d.env, op⟩ : Call)).toList
  rw [mainLoop_leases]
  cases d.op with
  | none => rfl
  | some op => rfl

/-- Between restarts the leases change by the calls of the turns, and a restart changes nothing. -/
theorem step_leases (hs : Settled cfg.nets s.leases) : (s.step cfg net i).1.leases =
    after (serveCall cfg) s.leases ((s.step cfg net i).2.bind Served.call).toList := by
  cases hv : (s.step cfg net i).2 with
  | some v =>
    obtain ⟨x, copy, rfl, -, -, -, hstep, rfl⟩ := step_cases hv
    rw [hstep]
    exact turn_leases _
  | none =>
    have hsame : (s.step cfg net i).1.leases = s.leases := by
      cases i with
      | restart message_buf => exact hs.populate
      | arrival x =>
        rw [Server.step] at hv ⊢
        split_ifs at hv ⊢ with hrunning
        · rfl
        · split at hv
          · rfl
          · split_ifs at hv ⊢
            rfl
    rw [hsame]
    rfl

/-- What holds of the leases from the start on. -/
structure Kept (cfg : Config) (s : Server) : Prop where
  canonical : Canonical s.leases
  settled : Settled cfg.nets s.leases

theorem Kept.start {T : Leases} (hT : Canonical T) (message_buf : ℕ → Byte) :
    Kept cfg (.start cfg T message_buf) :=
  ⟨hT.populate, settled_populate _ _⟩

theorem Kept.step (hstatic : NoStatic cfg) (h : Kept cfg s) : Kept cfg (s.step cfg net i).1 := by
  have hleases := @step_leases cfg net s i h.settled
  cases hcall : (s.step cfg net i).2.bind Served.call with
  | none =>
    rw [hcall] at hleases
    exact ⟨hleases ▸ h.canonical, hleases ▸ h.settled⟩
  | some c =>
    rw [hcall] at hleases
    exact ⟨hleases ▸ serveCall_canonical hstatic c h.canonical,
      hleases ▸ h.settled.serveCall hstatic c⟩

end Steps

section Run
variable {cfg : Config} {net : DHCP_Net} {s : Server} {run : List Incident}

/-- The calls that a run of the process makes. -/
def calls (cfg : Config) (net : DHCP_Net) (s : Server) (run : List Incident) : List Call :=
  (trace (Server.step cfg net) s run).flatMap fun e => (e.2.bind Served.call).toList

theorem calls_append (s : Server) (run run' : List Incident) : calls cfg net s (run ++ run') =
    calls cfg net s run ++ calls cfg net (after (Server.step cfg net) s run) run' := by
  rw [calls, trace_append, List.flatMap_append]
  rfl

theorem calls_cons (s : Server) (i : Incident) (run : List Incident) :
    calls cfg net s (i :: run) = ((s.step cfg net i).2.bind Served.call).toList ++
      calls cfg net (s.step cfg net i).1 run := rfl

/-- The calls of a run, cut where two of them are known. -/
theorem calls_split {pre mid : List Incident} {i j : Incident} {c c' : Call}
    (hc : ((after (Server.step cfg net) s pre).step cfg net i).2.bind Served.call = some c)
    (hc' : ((after (Server.step cfg net) s (pre ++ i :: mid)).step cfg net j).2.bind Served.call =
      some c') : calls cfg net s (pre ++ i :: mid) = calls cfg net s pre ++
        c :: calls cfg net (after (Server.step cfg net) s (pre ++ [i])) mid ∧
      calls cfg net s (pre ++ i :: (mid ++ [j])) = calls cfg net s (pre ++ i :: mid) ++ [c'] := by
  have hnext : ((after (Server.step cfg net) s pre).step cfg net i).1 =
      after (Server.step cfg net) s (pre ++ [i]) := by
    rw [after_append]
    rfl
  constructor
  · rw [calls_append, calls_cons, hc, hnext]
    rfl
  · rw [← List.cons_append, ← List.append_assoc, calls_append, calls_cons, hc']
    rfl

/-- A run of the process is a run of calls, each made where its turn begins. -/
theorem run_calls (hstatic : NoStatic cfg) (hs : Kept cfg s) :
    (after (Server.step cfg net) s run).leases =
      after (serveCall cfg) s.leases (calls cfg net s run) ∧
    trace (serveCall cfg) s.leases (calls cfg net s run) =
      (trace (Server.step cfg net) s run).flatMap fun e =>
        (e.2.bind (Served.answered cfg)).toList := by
  induction run generalizing s with
  | nil => exact ⟨rfl, rfl⟩
  | cons i run ih =>
    obtain ⟨hafter, htrace⟩ := ih (hs.step hstatic)
    have hleases := @step_leases cfg net s i hs.settled
    rw [calls_cons, after_append, trace_append, ← hleases, after_cons, trace_cons,
      List.flatMap_cons]
    refine ⟨hafter, ?_⟩
    rw [htrace]
    congr 1
    cases hv : (s.step cfg net i).2 with
    | none => rfl
    | some v =>
      obtain ⟨x, copy, -, -, -, -, -, rfl⟩ := step_cases hv
      rw [Option.bind_some, Option.bind_some, Served.answered]
      cases (s.turn cfg net (s.received x copy)).2.call with
      | none => rfl
      | some c => rfl

theorem onto_holds (copy : Copy) (buf : ℕ → Byte) :
    Holds (copy.onto buf) 0 (read copy.frame.packet copy.offset copy.size.toNat) := holds_write

/-- A packet in the buffer is the one that was copied there. -/
theorem onto_eq (copy : Copy) (buf : ℕ → Byte) {i : ℕ} (hi : i < copy.size.toNat) :
    copy.onto buf i = copy.frame.packet (copy.offset+i) := by
  have hread := (onto_holds copy buf).read
  rw [length_read] at hread
  have hi' : i < (read (copy.onto buf) 0 copy.size.toNat).length := by rwa [length_read]
  have hget := List.getElem_of_eq hread hi'
  simpa [ByteMemory.read] using hget

theorem brings_request {copy : Copy} {request : DHCP_Packet} (h : copy.Brings request)
    (s : Server) (x : Arrival) :
    (s.received x copy).request = some request := by
  obtain ⟨hwell, rest, hrest⟩ := h
  have hholds : Holds (s.received x copy).buffer 0
      (read copy.frame.packet copy.offset copy.size.toNat) := onto_holds copy _
  have hlength := congrArg List.length hrest
  rw [length_read, List.length_append] at hlength
  rw [← hrest] at hholds
  have hread : marshall (s.received x copy).buffer copy.size.toNat = .ok request :=
    marshall_wire hwell hholds (by omega)
  have hcookie : checkMagicCookie (s.received x copy).buffer copy.size.toNat = true := by
    by_contra hbad
    rw [marshall, Bool.eq_false_iff.mpr hbad] at hread
    cases hread
  rw [Datagram.request]
  have hlen : (s.received x copy).message_length = copy.size.toNat := rfl
  rw [hlen, if_pos hcookie, hread]
  rfl

theorem received_client {x : Arrival} {copy : Copy} {request : DHCP_Packet}
    (hrequest : (s.received x copy).request = some request) :
    hwAddr request.mac.u_addr = copy.client := by
  rw [Datagram.request] at hrequest
  split_ifs at hrequest with hcookie
  rw [marshall_packetAt hcookie] at hrequest
  obtain rfl := Option.some.inj hrequest
  have hlen : 240 ≤ copy.size.toNat := cookie_length hcookie
  have hbyte (i : ℕ) (hi : i < 8) : (s.received x copy).buffer (28+i) =
      copy.frame.packet (copy.offset+28+i) := by
    rw [Nat.add_assoc]
    exact onto_eq copy _ (by omega)
  have hchaddr (i : ℕ) (hi : i < 8) : (bytesAt (s.received x copy).buffer 28 16).getD i 0 =
      copy.frame.packet (copy.offset+28+i) := by
    rw [← hbyte i hi]
    simp [bytesAt, show i < 16 by omega]
  simp only [DHCP_Packet.mac, packetAt, MACAddress.ofU64, Copy.client]
  rw [hchaddr 0, hchaddr 1, hchaddr 2, hchaddr 3, hchaddr 4, hchaddr 5, hchaddr 6, hchaddr 7]
  all_goals decide

/-- The call of a turn is for the client in the packet that has arrived. -/
theorem call_mem {e : Incident × Option Served} {c : Call}
    (he : e ∈ trace (Server.step cfg net) s run) (hc : c ∈ (e.2.bind Served.call).toList) :
    ∃ x copy, e.1 = .arrival x ∧ e.1 ∈ run ∧ recvPacket DHCP_MAX_MTU x.frames = some copy ∧
      c.env = x.env ∧ hwAddr c.op.mac = copy.client := by
  obtain ⟨pre, post, hrun, he⟩ := mem_trace he
  obtain ⟨v, hv, hcall⟩ := Option.bind_eq_some_iff.mp (Option.mem_toList.mp hc)
  rw [he] at hv
  obtain ⟨x, copy, hx, -, hcopy, -, -, rfl⟩ := step_cases hv
  obtain ⟨op, hop, rfl⟩ := Option.map_eq_some_iff.mp hcall
  have hop : ((after (Server.step cfg net) s pre).received x copy).op = some op := hop
  obtain ⟨request, hrequest, hmac⟩ := op_mac hop
  refine ⟨x, copy, hx, hrun ▸ by simp, hcopy, rfl, ?_⟩
  rw [hmac]
  exact received_client hrequest

theorem calls_realClient (hreal : ∀ i ∈ run, i.FromClient) :
    ∀ c ∈ calls cfg net s run, RealClient c := by
  intro c hc
  obtain ⟨e, he, hce⟩ := List.mem_flatMap.mp hc
  obtain ⟨x, copy, hx, hmem, hcopy, -, hclient⟩ := call_mem he hce
  have hfrom := hreal e.1 hmem
  rw [hx] at hfrom
  rw [RealClient, hclient]
  exact hfrom copy hcopy

theorem calls_clocked (hclock : OnTime cfg run) : Clocked cfg (calls cfg net s run) := by
  constructor
  · rw [calls, List.pairwise_flatMap]
    constructor
    · intro e _
      cases e.2.bind Served.call with
      | none => exact List.Pairwise.nil
      | some c => exact List.pairwise_singleton _ _
    · have hord := hclock.ordered
      rw [← @trace_inputs _ _ _ (Server.step cfg net) s run, List.pairwise_map] at hord
      refine hord.imp_of_mem ?_
      intro e e' he he' hle c hc c' hc'
      obtain ⟨x, -, hx, -, -, henv, -⟩ := call_mem he hc
      obtain ⟨x', -, hx', -, -, henv', -⟩ := call_mem he' hc'
      rw [henv, henv']
      exact hle x x' hx hx'
  · intro c hc
    obtain ⟨e, he, hce⟩ := List.mem_flatMap.mp hc
    obtain ⟨x, -, hx, hmem, -, henv, -⟩ := call_mem he hce
    rw [henv]
    exact hclock.bounded x (hx ▸ hmem)

end Run

/-- A packet of a client, with nothing but `ciaddr` filled in. -/
def exampleMessage (type : Byte) (mac : U64) (ciaddr : U32) : DHCP_Packet where
  op := 0
  htype := 0
  hlen := 0
  hops := 0
  xid := 0
  secs := 0
  flags := 0
  ciaddr := ciaddr
  yiaddr := 0
  siaddr := 0
  giaddr := 0
  chaddr := (List.range 8).map (byteOf mac) ++ List.replicate 8 0
  sname := List.replicate 64 0
  file := List.replicate 128 0
  options := [⟨DHO_DHCP_MESSAGE_TYPE, 1, [type]⟩]

/-- Its frame; of the headers only the length of the IP header counts. -/
def exampleCapture (type : Byte) (mac : U64) (ciaddr : U32) : Capture where
  packet := write (fun _ => 0x45) 42 (exampleMessage type mac ciaddr).wire
  caplen := 286
  len := 286
  captured := by decide
  caplen_le := by decide

def exampleArrival (now : U32) (type : Byte) (mac : U64) (ciaddr : U32) : Arrival :=
  ⟨⟨now, .rowid⟩, ⟨fun _ _ => 0, fun _ => 0⟩, 0, [none, some (exampleCapture type mac ciaddr)]⟩

def exampleNet : DHCP_Net := .initializeOn ⟨false, true⟩ (List.Vector.replicate 6 2) "10.20.11.1"

section Example
variable (now : U32) (type : Byte) (mac : U64) (ciaddr : U32)

theorem exampleArrival_copy : recvPacket DHCP_MAX_MTU (exampleArrival now type mac ciaddr).frames =
    some ⟨exampleCapture type mac ciaddr, 42, 244⟩ := by
  have hversion : (exampleCapture type mac ciaddr).packet 14 = 0x45 := by
    change write (fun _ => (0x45 : Byte)) 42 (exampleMessage type mac ciaddr).wire 14 = 0x45
    exact write_before (by decide)
  have hlen : (exampleCapture type mac ciaddr).len = 286 := rfl
  have hheader : (exampleCapture type mac ciaddr).pktHeaderSize = 42 := by
    rw [Capture.pktHeaderSize, hversion]
    rfl
  have hsize : (exampleCapture type mac ciaddr).udpPacketSize = 244 := by
    rw [Capture.udpPacketSize, hheader, hlen]
    rfl
  rw [exampleArrival, recvPacket, recvPacket, hheader, hsize, hlen, if_neg (by decide),
    if_neg (by decide)]

theorem exampleMessage_framed : (exampleMessage type mac ciaddr).Framed := ⟨rfl, rfl, rfl⟩

theorem exampleCopy_client : (⟨exampleCapture type mac ciaddr, 42, 244⟩ : Copy).client =
    hwAddr mac := by
  exact congrArg hwAddr (uint64_bytes mac)

theorem exampleMessage_brings :
    (⟨exampleCapture type mac ciaddr, 42, 244⟩ : Copy).Brings (exampleMessage type mac ciaddr) := by
  have hframed := exampleMessage_framed type mac ciaddr
  have hlength : (exampleMessage type mac ciaddr).wire.length = 244 := length_wire hframed
  refine ⟨⟨hframed, ?_, ?_⟩, ?_⟩
  · exact Nat.lt_of_sub_eq_succ rfl
  · intro o ho
    rw [List.mem_singleton.mp ho]
    exact ⟨by simp [DHO_DHCP_MESSAGE_TYPE, DHO_PAD], by simp [DHO_DHCP_MESSAGE_TYPE, DHO_END], rfl⟩
  · have hholds : Holds (exampleCapture type mac ciaddr).packet 42
        (exampleMessage type mac ciaddr).wire := holds_write
    have hread := hholds.read
    rw [hlength] at hread
    exact hread ▸ List.prefix_rfl

theorem exampleArrival_fromClient (h : hwAddr mac ≠ 0) :
    (Incident.arrival (exampleArrival now type mac ciaddr)).FromClient := by
  intro copy hcopy
  obtain rfl := Option.some.inj ((exampleArrival_copy now type mac ciaddr).symm.trans hcopy)
  rwa [exampleCopy_client]

theorem exampleArrival_fits : (Incident.arrival (exampleArrival now type mac ciaddr)).Fits := by
  intro copy hcopy
  obtain rfl := Option.some.inj ((exampleArrival_copy now type mac ciaddr).symm.trans hcopy)
  exact (by decide : (0 : ℤ) ≤ 244)

theorem exampleMessage_mac : (exampleMessage type mac ciaddr).mac = .ofU64 mac :=
  congrArg MACAddress.ofU64 (uint64_bytes mac)

theorem exampleMessage_type (g : Garbage) :
    (exampleMessage type mac ciaddr).getMessageType g = type.toNat := rfl

end Example

/-- Two clients discover their addresses, with a restart in between; the first one requests its own
at the end of its lease, and a third one comes then. -/
def exampleRun : List Incident :=
  [.arrival (exampleArrival 1 DHCP_DISCOVER 1 0), .restart fun _ => 0,
    .arrival (exampleArrival 2 DHCP_DISCOVER 2 0),
    .arrival (exampleArrival 181 DHCP_REQUEST 1 (ipS2u "10.20.11.50"))]

theorem exampleRun_fromClient : ∀ i ∈ exampleRun, i.FromClient := by
  simp only [exampleRun, List.forall_mem_cons, List.not_mem_nil, false_implies, implies_true,
    and_true]
  exact ⟨exampleArrival_fromClient _ _ _ _ (by decide), trivial,
    exampleArrival_fromClient _ _ _ _ (by decide), exampleArrival_fromClient _ _ _ _ (by decide)⟩

theorem exampleRun_fits : ∀ i ∈ exampleRun, i.Fits := by
  simp only [exampleRun, List.forall_mem_cons, List.not_mem_nil, false_implies, implies_true,
    and_true]
  exact ⟨exampleArrival_fits _ _ _ _, trivial, exampleArrival_fits _ _ _ _,
    exampleArrival_fits _ _ _ _⟩

theorem exampleRun_onTime : OnTime exampleCfg exampleRun where
  ordered := by simp [exampleRun, exampleArrival]
  bounded := by simp [exampleRun, exampleArrival, exampleCfg, exampleNets]

end S3Dhcpd
