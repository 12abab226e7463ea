import S3Dhcpd.MainLoop

/-! Commit or nothing: what the server promises in a reply is what the lease table then says. -/
namespace S3Dhcpd
open KeyedTable

/-- `T'` is `T` with the lease of `a` for the client written now, and no other change. -/
structure Committed (cfg : Config) (T T' : Leases) (mac : MACAddress) (now a : U32) : Prop where
  held : ∃ row ∈ T'.rows, ipS2u row.ip = a ∧ row.mac = mac.s_addr ∧ row.ts = now.toInt ∧
    row.expire = now.toInt+cfg.nets.globalnet.lease_time.toNat
  single : ∀ row ∈ T'.rows, ∀ row' ∈ T'.rows, ipS2u row.ip = a → ipS2u row'.ip = a → row = row'
  others : ∀ row, ipS2u row.ip ≠ a → (row ∈ T'.rows ↔ row ∈ T.rows)

/-- NAK and an unchanged table, or OFFER or ACK of an address whose lease is committed. -/
def CommitOrNothing (cfg : Config) (g : Garbage) (mac : MACAddress) (now : U32) (T : Leases)
    (out : Leases × Turn) : Prop :=
  ∃ response to_addr, out.2.response = .ok (some (response, to_addr)) ∧
    ((response.getMessageType g = DHCP_NAK.toNat ∧ out.1 = T) ∨
      ((response.getMessageType g = DHCP_OFFER.toNat ∨
        response.getMessageType g = DHCP_ACK.toNat) ∧
          Committed cfg T out.1 mac now response.yiaddr))

/-- The law of one turn: DISCOVER and REQUEST commit or do nothing, and the types that ask for no
address leave the table alone. -/
def TurnCommits (cfg : Config) (T : Leases) (d : Datagram) : Prop :=
  ∀ request, d.request = some request →
    let dhcp_message_type := request.getMessageType d.garbage
    (dhcp_message_type = DHCP_DISCOVER.toNat ∨ dhcp_message_type = DHCP_REQUEST.toNat →
      CommitOrNothing cfg d.garbage request.mac d.env.now T (mainLoop cfg T d)) ∧
    (dhcp_message_type ≠ DHCP_DISCOVER.toNat → dhcp_message_type ≠ DHCP_REQUEST.toNat →
      dhcp_message_type ≠ DHCP_DECLINE.toNat → (mainLoop cfg T d).1 = T)

section Replies
variable {cfg : Config} {g : Garbage} {mac : MACAddress} {now : U32} {T leases : Leases}
  {d : Datagram} {request response : DHCP_Packet} {effects : List Effect}

theorem commit_grant (htype : response.getMessageType g = DHCP_OFFER.toNat ∨
    response.getMessageType g = DHCP_ACK.toNat) :
    CommitOrNothing cfg g mac now T (leases, .respond effects request (some response)) ↔
      Committed cfg T leases mac now response.yiaddr := by
  constructor
  · rintro ⟨_, _, hresponse, hcase⟩
    obtain ⟨rfl, rfl⟩ := Prod.mk.inj (Option.some.inj (Except.ok.inj hresponse))
    rcases hcase with ⟨hnak, _⟩ | ⟨_, hcommit⟩
    · rw [hnak] at htype
      exact absurd htype (by decide)
    · exact hcommit
  · exact fun h => ⟨response, _, rfl, Or.inr ⟨htype, h⟩⟩

theorem commit_nak : CommitOrNothing cfg g mac now T
    (leases, .respond effects request (some (request.createDhcpNak cfg.nets))) ↔ leases = T := by
  have htype : (request.createDhcpNak cfg.nets).getMessageType g = DHCP_NAK.toNat := rfl
  constructor
  · rintro ⟨_, _, hresponse, hcase⟩
    obtain ⟨rfl, rfl⟩ := Prod.mk.inj (Option.some.inj (Except.ok.inj hresponse))
    rcases hcase with ⟨_, hsame⟩ | ⟨hgrant, _⟩
    · exact hsame
    · rw [htype] at hgrant
      exact absurd hgrant (by decide)
  · exact fun h => ⟨_, _, rfl, Or.inl ⟨htype, h⟩⟩

theorem offerOrNak_commit {ip_addr : IPAddress} {sub : Subnet}
    (hsub : cfg.nets.mysubnet ip_addr = some sub) :
    CommitOrNothing cfg d.garbage mac now T
      (offerOrNak cfg T d request (.ok ⟨leases, some ip_addr, effects⟩)) ↔
        Committed cfg T leases mac now ip_addr.u_addr := by
  simp only [offerOrNak, DHCP_Packet.createDhcpOffer, hsub]
  exact commit_grant (Or.inl rfl)

theorem ackOrNak_commit {ip : IPAddress} {sub : Subnet} (hsub : cfg.nets.mysubnet ip = some sub) :
    CommitOrNothing cfg d.garbage mac now T
      (ackOrNak cfg T d request ip (.ok (leases, true))) ↔
        Committed cfg T leases mac now ip.u_addr := by
  simp only [ackOrNak, DHCP_Packet.createDhcpAck, hsub, ↓reduceIte]
  exact commit_grant (Or.inr rfl)

end Replies

section Tables
variable {cfg : Config} {env : Env} {mac : MACAddress} {T T' : Leases} {a : U32}

/-- Writing one row under the canonical text of an address commits the address. -/
theorem committed_of_row (hT : Canonical T) (row : Lease) (hip : row.ip = ipU2s a)
    (hmac : row.mac = mac.s_addr) (hts : row.ts = env.now.toInt)
    (hexpire : row.expire = env.now.toInt+cfg.nets.globalnet.lease_time.toNat)
    (hrows : ∀ k, T'.row? k = if k = ipU2s a then some row else T.row? k) :
    Committed cfg T T' mac env.now a := by
  have hold {r : Lease} (hne : r.ip ≠ ipU2s a) : r ∈ T'.rows ↔ r ∈ T.rows :=
    Table.mem_write_ne hrows hne
  refine ⟨⟨row, (Table.mem_write hip hrows).mpr (Or.inl rfl), ?_, hmac, hts, hexpire⟩, ?_, ?_⟩
  · rw [hip, ipS2u_ipU2s]
  · -- every row for the address is under its canonical text
    have hnew (r : Lease) (hr : r ∈ T'.rows) (hra : ipS2u r.ip = a) : r.ip = ipU2s a := by
      by_contra hne
      exact hne ((hT.row_text ((hold hne).mp hr)).symm.trans (congrArg ipU2s hra))
    intro r hr r' hr' hra hra'
    exact T'.row_unique hr hr' ((hnew r hr hra).trans (hnew r' hr' hra').symm)
  · intro r hra
    apply hold
    intro h
    apply hra
    rw [h, ipS2u_ipU2s]

theorem committed_recordLease (hT : Canonical T)
    (hclock : env.now.toInt+cfg.nets.globalnet.lease_time.toNat < 2^31) {ip : IPAddress}
    {auth_info : Option String} {row : Lease} (hip : ip.s_addr = ipU2s a)
    (hrow : T.row? (ipU2s a) = some row) :
    Committed cfg T (recordLease cfg env mac ip auth_info T) mac env.now a := by
  refine committed_of_row hT (updated cfg env mac auth_info row)
    (Table.row?_eq_some.mp hrow).2 rfl rfl (expireAt_eq hclock) ?_
  intro k
  rw [row?_recordLease, hip]
  split_ifs with hk
  · rw [hk, hrow, Option.map_some]
  · rfl

theorem committed_static (hT : Canonical T)
    (hclock : env.now.toInt+cfg.nets.globalnet.lease_time.toNat < 2^31) {ip : IPAddress}
    {auth_info : String} (hip : ip.s_addr = ipU2s a)
    (hrows : ∀ k, T'.row? k =
      if k = ip.s_addr then some (staticRow cfg env mac ip auth_info) else T.row? k) :
    Committed cfg T T' mac env.now a := by
  rw [hip] at hrows
  exact committed_of_row hT (staticRow cfg env mac ip auth_info) hip rfl rfl (expireAt_eq hclock) hrows

end Tables

/-- Rows and static assignments are canonical and inside the configured subnets. -/
structure Tidy (cfg : Config) (T : Leases) : Prop where
  canonical : Canonical T
  inside : ∀ row ∈ T.rows, ∃ sub, cfg.nets.mysubnet (.ofText row.ip) = some sub
  staticCanonical : ∀ m ip inet_access,
    getStaticIp cfg (.ofU64 m) = some (ip, inet_access) → CanonicalQuad ip.s_addr
  staticInside : ∀ m ip inet_access,
    getStaticIp cfg (.ofU64 m) = some (ip, inet_access) → ∃ sub, cfg.nets.mysubnet ip = some sub

/-- The REQUEST without an address of a client is harmless: nothing that `ip_check` compares with
is 255.255.255.255, the number of `IPAddress()`, except a lease that is up to date anyway. -/
def NamelessHarmless (cfg : Config) (T : Leases) (now : U32) (m : U64) : Prop :=
  ∀ sub, cfg.nets.mysubnet .unset = some sub →
    (∀ ip inet_access, getStaticIp cfg (.ofU64 m) = some (ip, inet_access) →
      ip.u_addr ≠ INADDR_NONE) ∧
    (getStaticIp cfg (.ofU64 m) = none → sub.hasDynamicRange = true →
      ∀ row, Owns T (.ofU64 m) row → ipS2u row.ip = INADDR_NONE →
        row.ts = now.toInt ∧ row.expire = now.toInt+cfg.nets.globalnet.lease_time.toNat)

section Turns
variable {cfg : Config} {T : Leases} {d : Datagram} {request : DHCP_Packet}

theorem Tidy.static_text (h : Tidy cfg T) {m : U64} {ip : IPAddress} {inet_access : Bool}
    (hassigned : getStaticIp cfg (.ofU64 m) = some (ip, inet_access)) :
    ip.s_addr = ipU2s ip.u_addr := by
  have hcanon := (canonicalQuad_iff _).mp (h.staticCanonical m ip inet_access hassigned)
  rw [getStaticIp_text hassigned]
  exact hcanon

theorem Tidy.row_of (h : Tidy cfg T) {row : Lease} (hrow : row ∈ T.rows) :
    T.row? (ipU2s (ipS2u row.ip)) = some row := by
  rw [h.canonical.row_text hrow]
  exact Table.row?_mem hrow

theorem discover_commits (h : Tidy cfg T)
    (hclock : d.env.now.toInt+cfg.nets.globalnet.lease_time.toNat < 2^31) :
    CommitOrNothing cfg d.garbage request.mac d.env.now T
      (offerOrNak cfg T d request (ipAlloc cfg d.env request.mac T)) := by
  obtain ⟨leases, ip, effects, hr, hspec⟩ := ipAlloc_spec cfg d.env request.mac T
  rw [hr]
  cases hspec with
  | static hassigned hrows =>
    obtain ⟨sub, hsub⟩ := h.staticInside _ _ _ hassigned
    exact (offerOrNak_commit hsub).mpr
      (committed_static h.canonical hclock (h.static_text hassigned) hrows)
  | leased _ hown =>
    -- the lease is written under the text of the row, which is canonical
    obtain ⟨sub, hsub⟩ := h.inside _ hown.1
    exact (offerOrNak_commit hsub).mpr (committed_recordLease h.canonical hclock
      (h.canonical.row_text hown.1).symm (h.row_of hown.1))
  | fresh _ _ hfree =>
    obtain ⟨sub, hsub⟩ := h.inside _ hfree.1
    exact (offerOrNak_commit hsub).mpr (committed_recordLease h.canonical hclock
      (h.canonical.row_text hfree.1).symm (h.row_of hfree.1))
  | refused _ _ _ => exact commit_nak.mpr rfl

theorem request_commits (h : Tidy cfg T)
    (hclock : d.env.now.toInt+cfg.nets.globalnet.lease_time.toNat < 2^31) {ip : Option U32}
    (hnameless : ip = none → NamelessHarmless cfg T d.env.now request.mac.u_addr) :
    CommitOrNothing cfg d.garbage request.mac d.env.now T
      (ackOrNak cfg T d request (requested ip) (ipCheck cfg d.env request.mac (requested ip) T)) := by
  obtain ⟨leases, granted, hr, hspec⟩ := ipCheck_spec cfg d.env request.mac (requested ip) T
  rw [hr]
  cases hspec with
  | declined _ => exact commit_nak.mpr rfl
  | static hsub hassigned hsame hrows =>
    apply (ackOrNak_commit hsub).mpr
    cases ip with
    | none => exact absurd hsame.symm ((hnameless rfl _ hsub).1 _ _ hassigned)
    | some a => exact committed_static h.canonical hclock rfl hrows
  | @leased sub row hsub hfree hdyn hown hsame =>
    apply (ackOrNak_commit hsub).mpr
    cases ip with
    | none =>
      -- the update finds no row, and the lease has to be the promised one already
      obtain ⟨hts, hexpire⟩ := (hnameless rfl _ hsub).2 hfree hdyn row hown hsame.symm
      rw [show recordLease cfg d.env request.mac (requested none) none T = T from
        recordLease_absent h.canonical.row?_unset]
      refine ⟨⟨row, hown.1, hsame.symm, hown.2.1, hts, hexpire⟩, ?_, fun _ _ => Iff.rfl⟩
      intro r hr r' hr' hra hra'
      apply T.row_unique hr hr'
      rw [← h.canonical.row_text hr, ← h.canonical.row_text hr', hra, hra']
    | some a =>
      have ha : a = ipS2u row.ip := hsame
      subst ha
      exact committed_recordLease h.canonical hclock rfl (h.row_of hown.1)

/-- If every scan commits a REQUEST without an address, the request is harmless. -/
theorem nameless_harmless (h : Tidy cfg T)
    (hall : ∀ scan, CommitOrNothing cfg d.garbage request.mac d.env.now T
      (ackOrNak cfg T (d.withScan scan) request .unset
        (ipCheck cfg ⟨d.env.now, scan⟩ request.mac .unset T))) :
    NamelessHarmless cfg T d.env.now request.mac.u_addr := by
  intro sub hsub
  constructor
  · intro ip inet_access hassigned hnone
    have hassigned : getStaticIp cfg request.mac = some (ip, inet_access) := hassigned
    obtain ⟨T', hT', hrows⟩ := recordStaticLease_ok cfg ⟨d.env.now, .rowid⟩ request.mac .unset
      "static" T
    have hcommit := hall .rowid
    rw [ipCheck_static hsub hassigned hnone.symm hT'] at hcommit
    have hcommit := (ackOrNak_commit (d := d.withScan .rowid) hsub).mp hcommit
    -- a row without an address has been written
    have hnew := Table.row?_eq_some.mp (hrows IPAddress.unset.s_addr)
    have hzero : ipS2u (staticRow cfg ⟨d.env.now, .rowid⟩ request.mac .unset "static").ip ≠
        IPAddress.unset.u_addr := by
      simp only [staticRow]
      decide
    have hold := (hcommit.others _ hzero).mp hnew.1
    exact Table.row?_eq_none.mp h.canonical.row?_unset _ hold hnew.2
  · intro hfree hdyn row hown hrow
    have hfree : getStaticIp cfg request.mac = none := hfree
    have hown : Owns T request.mac row := hown
    have hcheck : ipCheck cfg ⟨d.env.now, .favour row⟩ request.mac .unset T = .ok (T, true) := by
      rw [ipCheck_leased hsub hfree hdyn (getLeasedIp_favour hown _) hrow.symm,
        recordLease_absent h.canonical.row?_unset]
    have hcommit := hall (.favour row)
    rw [hcheck] at hcommit
    obtain ⟨row', hmem, hip, _, hts, hexpire⟩ :=
      ((ackOrNak_commit (d := d.withScan (.favour row)) hsub).mp hcommit).held
    have hsame : row' = row := by
      apply T.row_unique hmem hown.1
      rw [← h.canonical.row_text hmem, ← h.canonical.row_text hown.1, hip, hrow]
      rfl
    rw [← hsame]
    exact ⟨hts, hexpire⟩

end Turns

theorem harmless_of_commits {cfg : Config} {T : Leases} {d : Datagram} (h : Tidy cfg T)
    (hall : ∀ scan, TurnCommits cfg T (d.withScan scan)) {m : U64}
    (hop : d.op = some (.ipCheck m none)) : NamelessHarmless cfg T d.env.now m := by
  obtain ⟨request, hrequest, hop⟩ := Option.bind_eq_some_iff.mp hop
  obtain ⟨htype, rfl, hnone⟩ := requestOp_check.mp hop
  apply nameless_harmless h
  intro scan
  have hcommit := (hall scan request hrequest).1 (Or.inr htype)
  rw [mainLoop_requested (d := d.withScan scan) hrequest htype] at hcommit
  rw [show request.requestedAddress (d.withScan scan).garbage = none from hnone] at hcommit
  exact hcommit

/-- A turn commits or does nothing, whatever the scan, exactly when its packet is not a REQUEST
that names no address, or is a harmless one. -/
theorem turn_commits_iff {cfg : Config} {T : Leases} {d : Datagram} (h : Tidy cfg T)
    (hclock : d.env.now.toInt+cfg.nets.globalnet.lease_time.toNat < 2^31) :
    (∀ scan, TurnCommits cfg T (d.withScan scan)) ↔
      ∀ m, d.op = some (.ipCheck m none) → NamelessHarmless cfg T d.env.now m := by
  refine ⟨fun hall m => harmless_of_commits h hall, ?_⟩
  intro hharmless scan request hrequest
  refine ⟨?_, mainLoop_others (d := d.withScan scan) hrequest⟩
  rintro (htype | htype)
  · rw [mainLoop_discover (d := d.withScan scan) hrequest htype]
    exact discover_commits (d := d.withScan scan) h hclock
  · rw [mainLoop_requested (d := d.withScan scan) hrequest htype]
    refine request_commits (d := d.withScan scan) h hclock fun hnone => hharmless _ ?_
    exact Option.bind_eq_some_iff.mpr ⟨request, hrequest, requestOp_check.mpr ⟨htype, rfl, hnone⟩⟩

/-- A configuration whose only subnet spans every address. -/
def catchAllRc : Apprc where
  items := {
    rows := [
      ("global-server-addr", "10.20.0.10"), ("global-server-netmask", "255.255.255.0"),
      ("global-domain-name", "hotrixit.com"), ("global-nameserver1", "10.20.0.10"),
      ("global-lease-time", "180"), ("global-renew-time", "60"), ("subnet-all-addr", "0.0.0.0"),
      ("subnet-all-netmask", "0.0.0.0"), ("subnet-all-gateway", "10.20.0.10")]
    unique := by decide }
  keyst := none

def catchAllNets : Subnets where
  globalnet := exampleNets.globalnet
  subnets := [{
    name := "all"
    addr := .ofText "0.0.0.0"
    netmask := .ofText "0.0.0.0"
    gateway := .ofText "10.20.0.10"
    nameserver1 := .ofText "10.20.0.10"
    broadcast := .ofText "255.255.255.255" }]
  renew_le := exampleNets.renew_le
  ranges := by
    intro sub hsub hdyn
    rw [List.mem_singleton.mp hsub] at hdyn
    exact absurd hdyn (by decide)

theorem load_catchAllRc : Subnets.load catchAllRc = .ok catchAllNets := by
  rfl

/-- The static database assigns 255.255.255.255. -/
def catchAllCfg : Config :=
  ⟨catchAllNets, catchAllRc, some fun _ => [("255.255.255.255", "N")], false, false⟩

theorem catchAllCfg_static (m : U64) :
    getStaticIp catchAllCfg (.ofU64 m) = some (.ofText "255.255.255.255", false) := by
  have hrc : rcStaticIp catchAllCfg.rc (.ofU64 m) = none := rcStaticIp_none (by decide) m
  unfold getStaticIp
  rw [hrc]
  rfl

theorem catchAllCfg_tidy : Tidy catchAllCfg .empty where
  canonical := fun _ h => absurd h List.not_mem_nil
  inside := fun _ h => absurd h List.not_mem_nil
  staticCanonical := by
    intro m ip inet_access h
    rw [catchAllCfg_static m] at h
    cases h
    exact (canonicalQuad_iff _).mpr (by decide)
  staticInside := by
    intro m ip inet_access h
    rw [catchAllCfg_static m] at h
    cases h
    exact ⟨_, rfl⟩

/-- A REQUEST that names no address is acknowledged to the host of 255.255.255.255, and what is
written is a row without an address. -/
theorem nameless_request_breaks_commit : ¬∀ (cfg : Config) (T : Leases) (d : Datagram),
    Subnets.load cfg.rc = .ok cfg.nets → Tidy cfg T →
      d.env.now.toInt+cfg.nets.globalnet.lease_time.toNat < 2^31 → TurnCommits cfg T d := by
  intro h
  have hall : ∀ scan, TurnCommits catchAllCfg .empty
      ((exampleDatagram 1000 DHCP_REQUEST 1 0).withScan scan) := by
    intro scan
    have hclock : (1000 : U32).toInt+catchAllNets.globalnet.lease_time.toNat < 2^31 := by decide
    exact h catchAllCfg .empty _ load_catchAllRc catchAllCfg_tidy hclock
  have hop : (exampleDatagram 1000 DHCP_REQUEST 1 0).op = some (.ipCheck 1 none) := by rfl
  obtain ⟨sub, hsub⟩ : ∃ sub, catchAllNets.mysubnet .unset = some sub :=
    Option.isSome_iff_exists.mp (by decide)
  exact (harmless_of_commits catchAllCfg_tidy hall hop _ hsub).1 _ _ (catchAllCfg_static 1)
    (by decide)

theorem exampleCfg_tidy : Tidy exampleCfg exampleTable where
  canonical := populate_canonical exampleNets
  inside := by
    have hrows : ∀ row ∈ exampleTable.rows,
        (exampleNets.mysubnet (.ofText row.ip)).isSome = true := by decide
    exact fun row hrow => Option.isSome_iff_exists.mp (hrows row hrow)
  staticCanonical := by simp [exampleCfg_noStatic _]
  staticInside := by simp [exampleCfg_noStatic _]

/-- A REQUEST that names an address commits or does nothing. -/
theorem turn_commits_example : TurnCommits exampleCfg exampleTable
    (exampleDatagram 1000 DHCP_REQUEST 1 (ipS2u "10.20.11.50")) := by
  have hall : ∀ scan, TurnCommits exampleCfg exampleTable
      ((exampleDatagram 1000 DHCP_REQUEST 1 (ipS2u "10.20.11.50")).withScan scan) := by
    apply (turn_commits_iff exampleCfg_tidy (by decide)).mpr
    intro m hop
    have hnamed : (exampleDatagram 1000 DHCP_REQUEST 1 (ipS2u "10.20.11.50")).op =
        some (.ipCheck 1 (some (ipS2u "10.20.11.50"))) := by rfl
    rw [hnamed] at hop
    cases hop
  exact hall .rowid

end S3Dhcpd
