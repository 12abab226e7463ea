import S3Dhcpd.StoredTurns

/-! Which packets stop the server: an allocated address outside the configured subnets, and columns
and packets that lead it out of its memory. -/
namespace S3Dhcpd
open KeyedTable

/-- The turn ends without an exception. -/
def Turn.Finishes (turn : Turn) : Prop := ∃ response, turn.response = .ok response

theorem createDhcpOffer_ok (nets : Subnets) (g : Garbage) (request : DHCP_Packet) (ip : IPAddress) :
    (∃ response, request.createDhcpOffer nets g ip = .ok response) ↔
      ∃ sub, nets.mysubnet ip = some sub := by
  rw [DHCP_Packet.createDhcpOffer]
  cases nets.mysubnet ip <;> simp

section Dispatch
variable {cfg : Config} {T : Leases} {d : Datagram} {request : DHCP_Packet}

theorem offerOrNak_finishes (result : Allocation) :
    (offerOrNak cfg T d request (.ok result)).2.Finishes ↔
      ∀ ip, result.ip = some ip → ∃ sub, cfg.nets.mysubnet ip = some sub := by
  rw [offerOrNak]
  cases result.ip with
  | none => exact iff_of_true ⟨_, rfl⟩ fun _ h => absurd h.symm (Option.some_ne_none _)
  | some ip =>
    simp only [Option.some.injEq, forall_eq']
    rw [← createDhcpOffer_ok cfg.nets d.garbage request ip]
    cases request.createDhcpOffer cfg.nets d.garbage ip with
    | error e => simp [Turn.Finishes]
    | ok response => exact iff_of_true ⟨_, rfl⟩ ⟨_, rfl⟩

/-- Only a DISCOVER can fail. -/
theorem dispatch_finishes (htype : request.getMessageType d.garbage ≠ DHCP_DISCOVER.toNat) :
    (dispatch cfg T d request).2.Finishes := by
  simp only [dispatch, if_neg htype]
  split_ifs
  · exact ⟨_, rfl⟩
  · exact ⟨_, rfl⟩
  · obtain ⟨leases, granted, hr, _⟩ := ipCheck_spec cfg d.env request.mac
      (request.getRequestedAddress d.garbage) T
    rw [hr]
    cases granted <;> exact ⟨_, rfl⟩
  · exact ⟨_, rfl⟩
  · exact ⟨_, rfl⟩

end Dispatch

/-- A turn on a packet finishes unless the packet is a DISCOVER whose allocated address lies in no
subnet. -/
theorem mainLoop_finishes {cfg : Config} {T : Leases} {d : Datagram}
    (hcookie : checkMagicCookie d.buffer d.message_length = true) :
    (mainLoop cfg T d).2.Finishes ↔ ∀ m, d.op = some (.ipAlloc m) → ∀ leases ip effects,
      ipAlloc cfg d.env (.ofU64 m) T = .ok ⟨leases, some ip, effects⟩ →
        ∃ sub, cfg.nets.mysubnet ip = some sub := by
  obtain ⟨request, hrequest⟩ := request_of_cookie hcookie
  rw [mainLoop_request, Datagram.op, hrequest]
  simp only [Option.bind_some]
  by_cases htype : request.getMessageType d.garbage = DHCP_DISCOVER.toNat
  · -- a DISCOVER stops the server if no offer can be built
    obtain ⟨leases, ip, effects, hr, _⟩ := ipAlloc_spec cfg d.env request.mac T
    simp only [dispatch, if_pos htype, hr]
    rw [offerOrNak_finishes]
    constructor
    · intro h m hop leases' ip' effects' hr'
      obtain ⟨_, rfl⟩ := requestOp_alloc.mp hop
      rw [show MACAddress.ofU64 request.mac.u_addr = request.mac from rfl, hr, Except.ok.injEq,
        Allocation.mk.injEq] at hr'
      exact h ip' hr'.2.1
    · intro h ip' hip
      subst hip
      exact h _ (requestOp_alloc.mpr ⟨htype, rfl⟩) _ _ _ hr
  · -- no other type makes an allocation
    apply iff_of_true (dispatch_finishes htype)
    intro m hop
    exact absurd (requestOp_alloc.mp hop).1 htype

namespace Stored

/-- The turn keeps to its memory, and ends without an exception. -/
def Finishes (result : Except Fault (Rows × Turn)) : Prop :=
  ∃ T' turn, result = .ok (T', turn) ∧ turn.Finishes

/-- The rows that the queries of `ip_alloc` may find for a client, over their orders. -/
def MayOffer (T : Rows) (now : U32) (mac : MACAddress) (row : Row) : Prop :=
  Owns T mac row ∨ (∀ row', ¬Owns T mac row') ∧ NextFree T now row

/-- An address column that can be offered: it fits, and denotes an address of a subnet. -/
def Offerable (s : Setup) (column : Option String) : Prop :=
  ∃ p_saddr, column = some p_saddr ∧ IPAddress.Fits p_saddr ∧
    ∃ sub, s.nets.mysubnet (.ofText p_saddr) = some sub

/-- What `ip_alloc` reads for a client can be read and offered. -/
def AllocSound (s : Setup) (T : Rows) (now : U32) (mac : MACAddress) : Prop :=
  AssignmentFits s mac ∧
  (∀ ip inet_access, S3Dhcpd.getStaticIp s.text mac = some (ip, inet_access) →
    ∃ sub, s.nets.mysubnet ip = some sub) ∧
  (S3Dhcpd.getStaticIp s.text mac = none → ∀ row, MayOffer T now mac row → Offerable s row.ip)

/-- What `ip_check` reads for a client can be read: of an address in a subnet the assignment, and
with a dynamic range there the client's rows. -/
def CheckSound (s : Setup) (T : Rows) (mac : MACAddress) (ip : IPAddress) : Prop :=
  ∀ sub, s.nets.mysubnet ip = some sub → AssignmentFits s mac ∧
    (S3Dhcpd.getStaticIp s.text mac = none → sub.hasDynamicRange = true →
      ∀ row, Owns T mac row → ColumnFits row.ip)

def Sound (s : Setup) (T : Rows) (now : U32) : Op → Prop
  | .ipAlloc m => AllocSound s T now (.ofU64 m)
  | .ipCheck m ip => CheckSound s T (.ofU64 m) (requested ip)
  | _ => True

section Dispatch
variable {s : Setup} {T : Rows} {d : Datagram} {request : DHCP_Packet} {now : U32}
  {mac : MACAddress} {ip : IPAddress}

theorem not_finishes_fault (fault : Fault) : ¬Finishes (.error fault) := by
  rintro ⟨T', turn, hresult, _⟩
  cases hresult

theorem finishes_ok {r : Rows × Turn} : Finishes (.ok r) ↔ r.2.Finishes := by
  constructor
  · rintro ⟨T', turn, hresult, hturn⟩
    cases hresult
    exact hturn
  · exact fun h => ⟨r.1, r.2, rfl, h⟩

theorem offer_finishes {rows : Rows} {effects : List Effect} :
    (offerOrNak s T d request (.ok ⟨rows, some ip, effects⟩)).2.Finishes ↔
      ∃ sub, s.nets.mysubnet ip = some sub := by
  rw [← createDhcpOffer_ok s.nets d.garbage request ip]
  simp only [offerOrNak]
  cases request.createDhcpOffer s.nets d.garbage ip with
  | error e => simp [Turn.Finishes]
  | ok response => exact iff_of_true ⟨_, rfl⟩ ⟨_, rfl⟩

/-- The result is an allocation of the address in a column. -/
def OffersColumn (r : Except Fault (Except IPAllocatorException Allocation))
    (column : Option String) : Prop :=
  ∃ (rows : IPAddress → Rows) (effects : IPAddress → List Effect),
    r = (ipColumn column).map fun ip => .ok ⟨rows ip, some ip, effects ip⟩

theorem OffersColumn.finishes {r : Except Fault (Except IPAllocatorException Allocation)}
    {column : Option String} (h : OffersColumn r column) :
    Finishes (offerOrNak s T d request <$> r) ↔ Offerable s column := by
  obtain ⟨rows, effects, rfl⟩ := h
  constructor
  · intro h
    cases hip : ipColumn column with
    | error fault =>
      rw [hip] at h
      exact absurd h (not_finishes_fault fault)
    | ok ip =>
      obtain ⟨p_saddr, hcolumn, hfits, rfl⟩ := ipColumn_ok hip
      rw [hip] at h
      exact ⟨p_saddr, hcolumn, hfits, offer_finishes.mp (finishes_ok.mp h)⟩
  · rintro ⟨p_saddr, hcolumn, hfits, hsub⟩
    rw [ipColumn_fits hcolumn hfits]
    exact finishes_ok.mpr (offer_finishes.mpr hsub)

section Unassigned
variable {scan : Scan Row} {column : Option String} (hs : getStaticIp s mac = .ok none)
include hs

theorem leased_offers (hread : getLeasedIp scan mac T = some <$> ipColumn column) :
    OffersColumn (ipAlloc s scan now mac T) column := by
  simp only [OffersColumn, ipAlloc, hs, hread]
  cases ipColumn column with
  | error fault => exact ⟨fun _ => T, fun _ => [], rfl⟩
  | ok ip => exact ⟨fun _ => _, fun _ => _, rfl⟩

theorem fresh_offers (hnone : getLeasedIp scan mac T = .ok none)
    (hread : getNewIp scan now T = some <$> ipColumn column) :
    OffersColumn (ipAlloc s scan now mac T) column := by
  simp only [OffersColumn, ipAlloc, hs, hnone, hread]
  cases ipColumn column with
  | error fault => exact ⟨fun _ => T, fun _ => [], rfl⟩
  | ok ip => exact ⟨fun _ => _, fun _ => _, rfl⟩

/-- Under every order of its queries `ip_alloc` reads a row that it may offer, or finds none. -/
theorem ipAlloc_cases (scan : Scan Row) :
    (∃ row, MayOffer T now mac row ∧ OffersColumn (ipAlloc s scan now mac T) row.ip) ∨
      ipAlloc s scan now mac T = .ok (.ok ⟨T, none, []⟩) := by
  rcases getLeasedIp_cases scan mac T with ⟨row, hown, hread⟩ | ⟨hnone, hread⟩
  · exact Or.inl ⟨row, Or.inl hown, leased_offers hs hread⟩
  · rcases getNewIp_cases scan now T with ⟨row, hfree, hread'⟩ | ⟨_, hread'⟩
    · exact Or.inl ⟨row, Or.inr ⟨hnone, hfree⟩, fresh_offers hs hread hread'⟩
    · refine Or.inr ?_
      simp only [ipAlloc, hs, hread, hread']
      rfl

/-- Each of these rows is read under some order. -/
theorem ipAlloc_favour {row : Row} (h : MayOffer T now mac row) :
    OffersColumn (ipAlloc s (.favour row) now mac T) row.ip := by
  rcases h with hown | ⟨hnone, hfree⟩
  · exact leased_offers hs (getLeasedIp_favour hown)
  · exact fresh_offers hs (getLeasedIp_none hnone _) (getNewIp_favour hfree)

/-- Without an assignment every row that may be read has to be one that can be offered. -/
theorem unassigned_offers :
    (∀ scan, Finishes (offerOrNak s T d request <$> ipAlloc s scan now mac T)) ↔
      ∀ row, MayOffer T now mac row → Offerable s row.ip := by
  constructor
  · exact fun h row hrow => (ipAlloc_favour hs hrow).finishes.mp (h (.favour row))
  · intro h scan
    rcases ipAlloc_cases hs scan with ⟨row, hrow, hread⟩ | hrefused
    · exact hread.finishes.mpr (h row hrow)
    · -- without an address the answer is a NAK
      rw [hrefused]
      exact finishes_ok.mpr ⟨_, rfl⟩

end Unassigned

/-- An assigned address is offered under every order, without a look at the rows. -/
theorem assigned_offers {inet_access : Bool}
    (hs : getStaticIp s mac = .ok (some (ip, inet_access))) (scan : Scan Row) :
    Finishes (offerOrNak s T d request <$> ipAlloc s scan now mac T) ↔
      ∃ sub, s.nets.mysubnet ip = some sub := by
  obtain ⟨T', hrecorded⟩ := recordStaticLease_ok s now mac ip
    (if inet_access then "static" else "internal") T
  simp only [ipAlloc, hs]
  change Finishes
    (.ok (offerOrNak s T d request ((recordStaticLease s now mac ip _ T).map _))) ↔ _
  rw [hrecorded]
  exact finishes_ok.trans offer_finishes

theorem unread_faults (h : ¬AssignmentFits s mac) (scan : Scan Row) :
    ¬Finishes (offerOrNak s T d request <$> ipAlloc s scan now mac T) := by
  intro hfinishes
  cases hs : getStaticIp s mac with
  | error fault =>
    rw [ipAlloc, hs] at hfinishes
    exact not_finishes_fault fault hfinishes
  | ok found => exact h (assignmentFits_of_ok hs)

/-- A DISCOVER is answered under every order of the queries if all that may be read for it is
sound. -/
theorem alloc_finishes (s : Setup) (T : Rows) (d : Datagram) (request : DHCP_Packet) (now : U32)
    (mac : MACAddress) :
    (∀ scan, Finishes (offerOrNak s T d request <$> ipAlloc s scan now mac T)) ↔
      AllocSound s T now mac := by
  by_cases hfits : AssignmentFits s mac
  · have hs := getStaticIp_fits hfits
    cases hassigned : S3Dhcpd.getStaticIp s.text mac with
    | some found =>
      obtain ⟨ip, inet_access⟩ := found
      rw [hassigned] at hs
      have hsound : AllocSound s T now mac ↔ ∃ sub, s.nets.mysubnet ip = some sub := by
        simp [AllocSound, hfits, hassigned]
      simp only [assigned_offers hs]
      rw [hsound]
      exact ⟨fun h => h .rowid, fun h _ => h⟩
    | none =>
      rw [hassigned] at hs
      have hsound : AllocSound s T now mac ↔
          ∀ row, MayOffer T now mac row → Offerable s row.ip := by
        simp [AllocSound, hfits, hassigned]
      rw [hsound]
      exact unassigned_offers hs
  · -- the assignment is read first, under every order
    exact iff_of_false (fun h => unread_faults hfits .rowid (h .rowid)) fun h => hfits h.1

theorem check_ok {r : Except IPAllocatorException (Rows × Bool)} :
    Finishes (.ok (ackOrNak s T d request ip r)) ↔ ∃ checked, r = .ok checked := by
  cases r with
  | error e => simp [ackOrNak, finishes_ok, Turn.Finishes]
  | ok checked =>
    obtain ⟨rows, granted⟩ := checked
    refine iff_of_true (finishes_ok.mpr ?_) ⟨_, rfl⟩
    cases granted <;> exact ⟨_, rfl⟩

/-- The rows of a client are read without a fault under every order exactly when all of them fit. -/
theorem leased_reads : (∀ scan, ∃ found, getLeasedIp scan mac T = .ok found) ↔
    ∀ row, Owns T mac row → ColumnFits row.ip := by
  constructor
  · intro h row hown
    obtain ⟨found, hfound⟩ := h (.favour row)
    rw [getLeasedIp_favour hown] at hfound
    cases hip : ipColumn row.ip with
    | error fault =>
      rw [hip] at hfound
      cases hfound
    | ok ip =>
      obtain ⟨p_saddr, hcolumn, hfits, _⟩ := ipColumn_ok hip
      exact ⟨p_saddr, hcolumn, hfits⟩
  · intro h scan
    rcases getLeasedIp_cases scan mac T with ⟨row, hown, hread⟩ | ⟨_, hread⟩
    · obtain ⟨p_saddr, hcolumn, hfits⟩ := h row hown
      exact ⟨_, hread.trans (by rw [ipColumn_fits hcolumn hfits]; rfl)⟩
    · exact ⟨none, hread⟩

section Checked
variable {sub : Subnet} (hsub : s.nets.mysubnet ip = some sub)
include hsub

/-- With an assignment the answer does not depend on the rows. -/
theorem assigned_finishes {found : IPAddress × Bool} (hs : getStaticIp s mac = .ok (some found))
    (scan : Scan Row) :
    Finishes (ackOrNak s T d request ip <$> ipCheck s scan now mac ip T) := by
  obtain ⟨newip, inet_access⟩ := found
  obtain ⟨T', hrecorded⟩ := recordStaticLease_ok s now mac ip "static" T
  simp only [ipCheck, hsub, hs]
  change Finishes (ackOrNak s T d request ip <$> if _ then _ else _)
  split_ifs
  · exact check_ok.mpr ⟨_, rfl⟩
  · rw [hrecorded]
    exact check_ok.mpr ⟨_, rfl⟩

/-- Without one the rows are read in a subnet with a dynamic range. -/
theorem unassigned_finishes (hs : getStaticIp s mac = .ok none) (scan : Scan Row) :
    Finishes (ackOrNak s T d request ip <$> ipCheck s scan now mac ip T) ↔
      (sub.hasDynamicRange = true → ∃ found, getLeasedIp scan mac T = .ok found) := by
  simp only [ipCheck, hsub, hs]
  change Finishes (ackOrNak s T d request ip <$> if _ then _ else _) ↔ _
  cases hdyn : sub.hasDynamicRange with
  | false => exact iff_of_true (check_ok.mpr ⟨_, rfl⟩) fun h => absurd h.symm (by decide)
  | true =>
    rw [if_neg (by decide), forall_prop_of_true rfl]
    cases getLeasedIp scan mac T with
    | error fault =>
      apply iff_of_false (not_finishes_fault fault)
      rintro ⟨found, hfound⟩
      cases hfound
    | ok found =>
      apply iff_of_true _ ⟨found, rfl⟩
      cases found with
      | none => exact check_ok.mpr ⟨_, rfl⟩
      | some newip =>
        change Finishes (ackOrNak s T d request ip <$> if _ then _ else _)
        split_ifs <;> exact check_ok.mpr ⟨_, rfl⟩

end Checked

/-- The same of a REQUEST. -/
theorem check_finishes (s : Setup) (T : Rows) (d : Datagram) (request : DHCP_Packet) (now : U32)
    (mac : MACAddress) (ip : IPAddress) :
    (∀ scan, Finishes (ackOrNak s T d request ip <$> ipCheck s scan now mac ip T)) ↔
      CheckSound s T mac ip := by
  cases hsub : s.nets.mysubnet ip with
  | none =>
    apply iff_of_true
    · intro scan
      simp only [ipCheck, hsub]
      exact check_ok.mpr ⟨_, rfl⟩
    · intro sub hsub'
      rw [hsub] at hsub'
      cases hsub'
  | some sub =>
    have hsound : CheckSound s T mac ip ↔ AssignmentFits s mac ∧
        (S3Dhcpd.getStaticIp s.text mac = none → sub.hasDynamicRange = true →
          ∀ row, Owns T mac row → ColumnFits row.ip) := by
      simp only [CheckSound, hsub, Option.some.injEq, forall_eq']
    rw [hsound]
    by_cases hfits : AssignmentFits s mac
    · have hs := getStaticIp_fits hfits
      rw [and_iff_right hfits]
      cases hassigned : S3Dhcpd.getStaticIp s.text mac with
      | some found =>
        rw [hassigned] at hs
        apply iff_of_true (assigned_finishes hsub hs)
        intro hfree
        cases hfree
      | none =>
        rw [hassigned] at hs
        simp only [unassigned_finishes hsub hs, forall_const, ← leased_reads]
        exact forall_comm
    · apply iff_of_false
      · intro h
        cases hs : getStaticIp s mac with
        | error fault =>
          have hfault := h .rowid
          simp only [ipCheck, hsub, hs] at hfault
          exact not_finishes_fault fault hfault
        | ok found => exact hfits (assignmentFits_of_ok hs)
      · exact fun h => hfits h.1

/-- Of the calls those that read columns decide. -/
theorem dispatch_sound (request : DHCP_Packet) :
    (∀ scan, Finishes (dispatch s scan T d request)) ↔
      ∀ op, requestOp d.garbage request = some op → Sound s T d.env.now op := by
  by_cases hdiscover : request.getMessageType d.garbage = DHCP_DISCOVER.toNat
  · simp only [dispatch, requestOp, if_pos hdiscover, Option.some.injEq, forall_eq']
    exact alloc_finishes s T d request d.env.now request.mac
  by_cases hreq : request.getMessageType d.garbage = DHCP_REQUEST.toNat
  · have hrelease : request.getMessageType d.garbage ≠ DHCP_RELEASE.toNat := by
      rw [hreq]
      decide
    have hinform : request.getMessageType d.garbage ≠ DHCP_INFORM.toNat := by
      rw [hreq]
      decide
    simp only [dispatch, requestOp, if_neg hdiscover, if_neg hrelease, if_neg hinform, if_pos hreq,
      Option.some.injEq, forall_eq']
    exact check_finishes s T d request d.env.now request.mac _
  -- the other messages read no column
  apply iff_of_true
  · intro scan
    simp only [dispatch, if_neg hdiscover, if_neg hreq]
    split_ifs <;> exact finishes_ok.mpr ⟨_, rfl⟩
  · intro op hop
    simp only [requestOp, if_neg hdiscover, if_neg hreq] at hop
    split_ifs at hop <;> cases hop <;> trivial

end Dispatch
end Stored

/-- Under every order of its queries a packet does not stop the server exactly when its options
leave room for their end mark, and all that the call of a DISCOVER or a REQUEST reads is sound. -/
theorem packet_finishes_iff {s : Stored.Setup} {T : Stored.Rows} {d : Datagram}
    (hcookie : checkMagicCookie d.buffer d.message_length = true) :
    (∀ scan, Stored.Finishes (Stored.mainLoop s scan T d)) ↔
      (optionArea d.buffer d.message_length).length < MAX_DHCP_OPTIONS ∧
        ∀ op, d.op = some op → Stored.Sound s T d.env.now op := by
  obtain ⟨request, hrequest⟩ := request_of_cookie hcookie
  simp only [Stored.mainLoop_handled hrequest, ← Stored.marksInside_iff, Datagram.op, hrequest,
    Option.bind_some]
  by_cases hmarks : Stored.MarksInside d
  · simp only [if_pos hmarks, and_iff_right hmarks]
    exact Stored.dispatch_sound request
  · simp only [if_neg hmarks]
    exact iff_of_false (fun h => Stored.not_finishes_fault _ (h .rowid)) fun h => hmarks h.1

/-- A REQUEST of a static host whose `inet_access` is NULL. -/
example : Stored.mainLoop ⟨exampleNets, exampleRc,
    some fun _ => [(some "10.20.11.33", none)], false, false⟩ .rowid ⟨[], List.nodup_nil⟩
      (exampleDatagram 1000 DHCP_REQUEST 9 (ipS2u "10.20.11.33")) = .error .nullPointer := by rfl

/-- The table of `prepare_databases` over a lease that is left over from a range which is no longer
configured. -/
def Stored.staleRows : Stored.Rows where
  rows := [⟨some (macU2s 1), some "10.20.99.5", some 100, some 280, some "leased"⟩,
    ⟨some "", some "10.20.11.50", some 0, some 0, some "-"⟩,
    ⟨some "", some "10.20.11.51", some 0, some 0, some "-"⟩]
  unique := by decide

example : Stored.staleRows.text = populate exampleNets
    ⟨[⟨macU2s 1, "10.20.99.5", 100, 280, "leased"⟩], List.nodup_singleton _⟩ := by rfl

/-- The example configuration, without a static database. -/
def Stored.exampleSetup : Stored.Setup := ⟨exampleNets, exampleRc, none, false, false⟩

/-- The owner of the stale lease stops the server, although the load accepted the configuration. -/
theorem packet_stops_server : ¬∀ (s : Stored.Setup) (T : Stored.Rows) (scan : Scan Stored.Row)
    (d : Datagram), Subnets.load s.rc = .ok s.nets →
      checkMagicCookie d.buffer d.message_length = true →
        Stored.Finishes (Stored.mainLoop s scan T d) := by
  intro h
  obtain ⟨T', turn, hturn, response, hresponse⟩ := h Stored.exampleSetup Stored.staleRows .rowid
    (exampleDatagram 1000 DHCP_DISCOVER 1 0) load_exampleRc (by rfl)
  have hthrown : (Stored.mainLoop Stored.exampleSetup .rowid Stored.staleRows
      (exampleDatagram 1000 DHCP_DISCOVER 1 0)).map (fun r => r.2.response) =
        .ok (.error (.packet (.notAllowed "10.20.99.5"))) := by rfl
  rw [hturn] at hthrown
  simp only [Except.map, Except.ok.injEq] at hthrown
  rw [hresponse] at hthrown
  cases hthrown

/-- The populated example table, and a row of NULLs. -/
def Stored.nullRows : Stored.Rows where
  rows := [⟨some "", some "10.20.11.50", some 0, some 0, some "-"⟩,
    ⟨some "", some "10.20.11.51", some 0, some 0, some "-"⟩, ⟨none, none, none, none, none⟩]
  unique := by decide

/-- A client without a lease is answered, and the NULLs are not looked at. -/
theorem packet_finishes_example : Stored.Finishes (Stored.mainLoop Stored.exampleSetup .rowid
    Stored.nullRows (exampleDatagram 1000 DHCP_DISCOVER 1 0)) := by
  have hop : (exampleDatagram 1000 DHCP_DISCOVER 1 0).op = some (.ipAlloc 1) := by rfl
  have hrc : Stored.exampleSetup.rc.seek ("host-" ++ (MACAddress.ofU64 1).s_addr) = none := by
    decide
  have hrows : ∀ row ∈ Stored.nullRows.rows, row.usable = true →
      ∃ p_saddr ∈ row.ip, IPAddress.Fits p_saddr ∧
        (exampleNets.mysubnet (.ofText p_saddr)).isSome = true := by decide
  have hoffer (row : Stored.Row) (hrow : row ∈ Stored.nullRows.rows) (husable : row.usable = true) :
      Stored.Offerable Stored.exampleSetup row.ip := by
    obtain ⟨p_saddr, hip, hfits, hsub⟩ := hrows row hrow husable
    exact ⟨p_saddr, hip, hfits, Option.isSome_iff_exists.mp hsub⟩
  have hsound : Stored.AllocSound Stored.exampleSetup Stored.nullRows 1000 (.ofU64 1) := by
    refine ⟨?_, ?_, ?_⟩
    · simp only [Stored.AssignmentFits, hrc]
      intro query hdb
      cases hdb
    · intro ip inet_access hassigned
      exact (exampleCfg_noStatic.not_assigned hassigned).elim
    · rintro _ row (hown | ⟨_, hfree⟩)
      · exact hoffer row hown.1 hown.2.2
      · exact hoffer row hfree.1 hfree.2.2.1
  have hall : ∀ scan, Stored.Finishes (Stored.mainLoop Stored.exampleSetup scan Stored.nullRows
      (exampleDatagram 1000 DHCP_DISCOVER 1 0)) := by
    apply (packet_finishes_iff rfl).mpr
    refine ⟨by decide, ?_⟩
    rw [hop]
    intro op hop
    cases hop
    exact hsound
  exact hall .rowid

end S3Dhcpd
