import S3Dhcpd.MainLoop

/-! Which packets of one client rewrite the lease of another. -/
namespace S3Dhcpd
open KeyedTable Runs

/-- The row's address is still leased to the same client, as long and with the same authorisation. -/
def RowKept (T' : Leases) (row : Lease) : Prop :=
  ∃ row', T'.row? row.ip = some row' ∧ row'.mac = row.mac ∧ row'.expire = row.expire ∧
    row'.auth_info = row.auth_info

/-- The call may rewrite a row of another client: an invalidation names its text, or a check of its
text is confirmed by a row of the caller whose own text is another one for the same number. -/
def Rewrites (cfg : Config) (T : Leases) (row : Lease) : Op → Prop
  | .ipInvalidate _ a => ipU2s a = row.ip
  | .ipCheck m ip => (requested ip).s_addr = row.ip ∧ ∃ sub,
      cfg.nets.mysubnet (requested ip) = some sub ∧ sub.hasDynamicRange = true ∧
        ∃ r, Owns T (.ofU64 m) r ∧ ipS2u r.ip = (requested ip).u_addr
  | _ => False

section Step
variable {cfg : Config} {env : Env} {T : Leases} {row : Lease} {op : Op}

theorem rowKept_same (hrow : row ∈ T.rows) : RowKept T row :=
  ⟨row, Table.row?_mem hrow, rfl, rfl, rfl⟩

theorem rowKept_recordLease (hrow : row ∈ T.rows) {mac : MACAddress} {ip : IPAddress}
    {auth_info : Option String} (hne : row.ip ≠ ip.s_addr) :
    RowKept (recordLease cfg env mac ip auth_info T) row :=
  ⟨row, by rw [row?_recordLease, if_neg hne, Table.row?_mem hrow], rfl, rfl, rfl⟩

theorem not_rowKept_recordLease (hrow : row ∈ T.rows) {mac : MACAddress} {ip : IPAddress}
    {auth_info : Option String} (hip : ip.s_addr = row.ip) (hmac : mac.s_addr ≠ row.mac) :
    ¬RowKept (recordLease cfg env mac ip auth_info T) row := by
  rintro ⟨row', hrow', hkept, _⟩
  rw [row?_recordLease, hip, if_pos rfl, Table.row?_mem hrow, Option.map_some,
    Option.some.injEq] at hrow'
  rw [← hrow'] at hkept
  exact hmac hkept

theorem serveCall_rowKept (hrow : row ∈ T.rows) (hother : macU2s op.mac ≠ row.mac)
    (hunassigned : getStaticIp cfg (.ofU64 op.mac) = none) (hlive : env.now.toInt ≤ row.expire)
    (hquiet : ¬Rewrites cfg T row op) : RowKept (serveCall cfg T ⟨env, op⟩).1 row := by
  cases op with
  | ipAlloc m =>
    obtain ⟨leases, ip, effects, hr, hspec⟩ := serveCall_alloc cfg env m T
    simp only [hr]
    cases hspec with
    | static hassigned _ => exact (assigned_absurd hunassigned hassigned).elim
    | @leased r _ hown =>
      apply rowKept_recordLease hrow
      intro hip
      apply hother
      rw [T.row_unique hrow hown.1 hip]
      exact hown.2.1.symm
    | @fresh r _ _ hfree =>
      -- the row that is taken has expired, the other one has not
      apply rowKept_recordLease hrow
      intro hip
      rw [T.row_unique hrow hfree.1 hip] at hlive
      have hexpired := hfree.2.1
      omega
    | refused _ _ _ => exact rowKept_same hrow
  | ipCheck m ip =>
    obtain ⟨leases, granted, hr, hspec⟩ := serveCall_check cfg env m ip T
    simp only [hr]
    cases hspec with
    | declined _ => exact rowKept_same hrow
    | static _ hassigned _ _ => exact (assigned_absurd hunassigned hassigned).elim
    | @leased sub r hsub _ hdyn hown hsame =>
      apply rowKept_recordLease hrow
      intro hip
      apply hquiet
      exact ⟨hip.symm, sub, hsub, hdyn, r, hown, hsame.symm⟩
  | ipFree m ip => exact rowKept_same hrow
  | ipInvalidate m ip => exact rowKept_recordLease hrow fun hip => hquiet hip.symm

/-- A call that rewrites a row does so under some scan. -/
theorem serveCall_rewrites (hrow : row ∈ T.rows) (hother : macU2s op.mac ≠ row.mac)
    (hzero : macU2s 0 ≠ row.mac) (hunassigned : getStaticIp cfg (.ofU64 op.mac) = none) (now : U32)
    (hrewrites : Rewrites cfg T row op) :
    ∃ scan, ¬RowKept (serveCall cfg T ⟨⟨now, scan⟩, op⟩).1 row := by
  cases op with
  | ipAlloc m => exact hrewrites.elim
  | ipCheck m ip =>
    obtain ⟨hip, sub, hsub, hdyn, r, hown, hsame⟩ := hrewrites
    -- the scan meets the sender's row first
    refine ⟨.favour r, ?_⟩
    have hunassigned : getStaticIp cfg (.ofU64 m) = none := hunassigned
    have hcheck : ipCheck cfg ⟨now, .favour r⟩ (.ofU64 m) (requested ip) T =
        .ok (recordLease cfg ⟨now, .favour r⟩ (.ofU64 m) (requested ip) none T, true) :=
      ipCheck_leased hsub hunassigned hdyn (getLeasedIp_favour hown now) hsame.symm
    simp only [serveCall, hcheck, answerCheck]
    exact not_rowKept_recordLease hrow hip hother
  | ipFree m ip => exact hrewrites.elim
  | ipInvalidate m a => exact ⟨.rowid, not_rowKept_recordLease hrow hrewrites hzero⟩

end Step

/-- A packet of another client without a static assignment keeps an unexpired lease, whatever the
scan, exactly when it is not a DECLINE of the leased address, nor a REQUEST of it that is confirmed
by a row of the sender under another text. -/
theorem lease_undisturbed_iff {cfg : Config} {T : Leases} {d : Datagram} {row : Lease} {m' : U64}
    (hrow : row ∈ T.rows) (hmac : row.mac = macU2s m') (hm' : hwAddr m' ≠ 0)
    (hlive : d.env.now.toInt ≤ row.expire)
    (hclient : ∀ request, d.request = some request →
      hwAddr request.mac.u_addr ≠ hwAddr m' ∧ getStaticIp cfg request.mac = none) :
    (∀ scan, RowKept (mainLoop cfg T (d.withScan scan)).1 row) ↔
      ∀ op, d.op = some op → ¬Rewrites cfg T row op := by
  have hop {op : Op} (h : d.op = some op) :
      macU2s op.mac ≠ row.mac ∧ getStaticIp cfg (.ofU64 op.mac) = none := by
    obtain ⟨request, hrequest, hopmac⟩ := op_mac h
    obtain ⟨hother, hunassigned⟩ := hclient request hrequest
    rw [hopmac, hmac, ne_eq, macU2s_inj]
    exact ⟨hother, hunassigned⟩
  have hzero : macU2s 0 ≠ row.mac := by
    rw [hmac, ne_eq, macU2s_inj]
    exact fun h => hm' h.symm
  constructor
  · -- a packet that rewrites the row does so under some scan, and all of them are in question
    intro h op hd hrewrites
    obtain ⟨scan, hscan⟩ := serveCall_rewrites hrow (hop hd).1 hzero (hop hd).2 d.env.now hrewrites
    have hkept := h scan
    rw [mainLoop_leases, Datagram.withScan_op, hd] at hkept
    exact hscan hkept
  · intro h scan
    rw [mainLoop_leases, Datagram.withScan_op]
    cases hd : d.op with
    | none => exact rowKept_same hrow
    | some op => exact serveCall_rowKept hrow (hop hd).1 (hop hd).2 hlive (h op hd)

/-- The lease that the first client of the example is given. -/
def leasedRow : Lease := ⟨macU2s 1, "10.20.11.50", 1000, 1180, "new"⟩

/-- A second client declines the address that the first one was just given. -/
theorem decline_disturbs_lease : ¬∀ (cfg : Config) (ds : List Datagram) (d : Datagram) (row : Lease)
    (m' : U64), row ∈ (after (mainLoop cfg) (populate cfg.nets .empty) ds).rows →
      row.mac = macU2s m' → hwAddr m' ≠ 0 → d.env.now.toInt ≤ row.expire →
      (∀ request, d.request = some request →
        hwAddr request.mac.u_addr ≠ hwAddr m' ∧ getStaticIp cfg request.mac = none) →
      RowKept (mainLoop cfg (after (mainLoop cfg) (populate cfg.nets .empty) ds) d).1 row := by
  intro h
  have hop : (exampleDatagram 1001 DHCP_DECLINE 2 (ipS2u "10.20.11.50")).op =
      some (.ipInvalidate 2 (ipS2u "10.20.11.50")) := by rfl
  have hclient : ∀ request, (exampleDatagram 1001 DHCP_DECLINE 2 (ipS2u "10.20.11.50")).request =
      some request → hwAddr request.mac.u_addr ≠ hwAddr 1 ∧
        getStaticIp exampleCfg request.mac = none := by
    intro request hrequest
    refine ⟨?_, exampleCfg_noStatic _⟩
    rw [op_client hop hrequest]
    decide
  have hrow : leasedRow ∈ (after (mainLoop exampleCfg) exampleTable
      [exampleDatagram 1000 DHCP_DISCOVER 1 0]).rows := by decide
  obtain ⟨row', hrow', hmac, _⟩ := h exampleCfg [exampleDatagram 1000 DHCP_DISCOVER 1 0]
    (exampleDatagram 1001 DHCP_DECLINE 2 (ipS2u "10.20.11.50")) leasedRow 1 hrow rfl (by decide)
    (by decide) hclient
  -- after the DECLINE the row belongs to nobody
  have hdeclined : ((mainLoop exampleCfg (after (mainLoop exampleCfg) exampleTable
      [exampleDatagram 1000 DHCP_DISCOVER 1 0])
      (exampleDatagram 1001 DHCP_DECLINE 2 (ipS2u "10.20.11.50"))).1.row? "10.20.11.50").map
        Lease.mac = some (macU2s 0) := by decide
  rw [show (mainLoop exampleCfg (after (mainLoop exampleCfg) exampleTable
      [exampleDatagram 1000 DHCP_DISCOVER 1 0])
      (exampleDatagram 1001 DHCP_DECLINE 2 (ipS2u "10.20.11.50"))).1.row? "10.20.11.50" =
        some row' from hrow', Option.map_some, hmac] at hdeclined
  exact absurd hdeclined (by decide)

/-- A REQUEST of a second client for the leased address keeps the lease. -/
theorem lease_undisturbed_example : RowKept (mainLoop exampleCfg
    (after (mainLoop exampleCfg) exampleTable [exampleDatagram 1000 DHCP_DISCOVER 1 0])
      (exampleDatagram 1001 DHCP_REQUEST 2 (ipS2u "10.20.11.50"))).1 leasedRow := by
  have hop : (exampleDatagram 1001 DHCP_REQUEST 2 (ipS2u "10.20.11.50")).op =
      some (.ipCheck 2 (some (ipS2u "10.20.11.50"))) := by rfl
  have hall : ∀ scan, RowKept (mainLoop exampleCfg
      (after (mainLoop exampleCfg) exampleTable [exampleDatagram 1000 DHCP_DISCOVER 1 0])
        ((exampleDatagram 1001 DHCP_REQUEST 2 (ipS2u "10.20.11.50")).withScan scan)).1 leasedRow := by
    refine (lease_undisturbed_iff (by decide) (rfl : leasedRow.mac = macU2s 1) (by decide)
      (by decide) ?_).mpr ?_
    · intro request hrequest
      refine ⟨?_, exampleCfg_noStatic _⟩
      rw [op_client hop hrequest]
      decide
    · intro op hop'
      obtain rfl := Option.some.inj (hop'.symm.trans hop)
      rintro ⟨_, _, _, _, r, hown, _⟩
      have hnone : ∀ r ∈ (after (mainLoop exampleCfg) exampleTable
          [exampleDatagram 1000 DHCP_DISCOVER 1 0]).rows, r.mac ≠ macU2s 2 := by decide
      exact hnone r hown.1 hown.2.1
  exact hall .rowid

end S3Dhcpd
