import S3Dhcpd.MainLoop

/-! What clients without a static assignment are given while static leases share the table. -/
namespace S3Dhcpd
open KeyedTable Runs

/-- The address is statically assigned to a client. -/
def Assigned (cfg : Config) (a : U32) : Prop := ∃ (m : U64) (ip : IPAddress) (inet_access : Bool),
  getStaticIp cfg (.ofU64 m) = some (ip, inet_access) ∧ ip.u_addr = a

/-- The address lies in a dynamic range, and is assigned to nobody. -/
def Dynamic (cfg : Config) (a : U32) : Prop := Pool cfg.nets a ∧ ¬Assigned cfg a

/-- What an allocation needs so as to stay in the pool: no row that is next for a client without
assignment and address is under an assigned address, or under the empty text, which the loop reads
as 0.0.0.0, unless that is in a range. -/
def SparesAssigned (cfg : Config) (T : Leases) (now : U32) : Op → Prop
  | .ipAlloc m => getStaticIp cfg (.ofU64 m) = none → (∀ row, ¬Owns T (.ofU64 m) row) →
      ∀ row, NextFree T now row → ¬Assigned cfg (ipS2u row.ip) ∧ (row.ip = "" → Pool cfg.nets 0)
  | _ => True

/-- Every row comes from a range or a static assignment, and clients without assignment own
dynamic addresses only. -/
structure Stocked (cfg : Config) (T : Leases) : Prop where
  rows : ∀ row ∈ T.rows, row.ip = "" ∨ Pool cfg.nets (ipS2u row.ip) ∨ Assigned cfg (ipS2u row.ip)
  owned : ∀ m row, getStaticIp cfg (.ofU64 m) = none → Owns T (.ofU64 m) row →
    Dynamic cfg (ipS2u row.ip)

theorem getStaticIp_congr {cfg : Config} {m m' : U64} (h : macU2s m = macU2s m') :
    getStaticIp cfg (.ofU64 m) = getStaticIp cfg (.ofU64 m') := by
  unfold getStaticIp rcStaticIp MACAddress.ofU64
  rw [h]

/-- A range ends before 255.255.255.255. -/
theorem not_pool_none (nets : Subnets) : ¬Pool nets INADDR_NONE := by
  rintro ⟨sub, _, _, _, hhi⟩
  have hend := (ipSwapInt sub.range_end.u_addr).isLt
  have hnone : hostOrder INADDR_NONE = 2^32-1 := by decide
  simp only [hostOrder] at *
  omega

section Step
variable {cfg : Config} {env : Env} {T T' : Leases} {m : U64}

theorem populate_stocked (hmask : PrefixNets cfg.nets) : Stocked cfg (populate cfg.nets .empty) := by
  constructor
  · intro row hrow
    obtain ⟨a, ha, rfl⟩ := (mem_populate_pool hmask).mp hrow
    refine Or.inr (Or.inl ?_)
    rwa [freshRow, IPAddress.ofU32, ipS2u_ipU2s]
  · intro m row _ hown
    obtain ⟨a, rfl⟩ := populate_fresh hown.1
    exact absurd hown.2.1.symm (macU2s_ne_empty m)

/-- A row may be rewritten for a client that is assigned, or under a dynamic address. -/
theorem Stocked.recordLease (hT : Stocked cfg T) {ip : IPAddress} {auth_info : Option String}
    (hrow : ∀ row, T.row? ip.s_addr = some row → Dynamic cfg (ipS2u row.ip)) :
    Stocked cfg (recordLease cfg env (.ofU64 m) ip auth_info T) := by
  constructor
  · intro row' hrow'
    rcases mem_recordLease.mp hrow' with ⟨row, hfound, rfl⟩ | ⟨hmem, _⟩
    · exact hT.rows row (Table.row?_eq_some.mp hfound).1
    · exact hT.rows row' hmem
  · intro m' row' hunassigned hown
    rcases mem_recordLease.mp hown.1 with ⟨row, hfound, rfl⟩ | ⟨hmem, _⟩
    · exact hrow row hfound
    · exact hT.owned m' row' hunassigned ⟨hmem, hown.2⟩

theorem Stocked.static (hT : Stocked cfg T) {ip : IPAddress} {auth_info : String}
    {found : IPAddress × Bool} (hassigned : getStaticIp cfg (.ofU64 m) = some found)
    (hip : ip.s_addr = "" ∨ Assigned cfg (ipS2u ip.s_addr))
    (hrows : ∀ k, T'.row? k =
      if k = ip.s_addr then some (staticRow cfg env (.ofU64 m) ip auth_info) else T.row? k) :
    Stocked cfg T' := by
  have hmem {row : Lease} : row ∈ T'.rows ↔ row = staticRow cfg env (.ofU64 m) ip auth_info ∨
      (row ∈ T.rows ∧ row.ip ≠ ip.s_addr) := Table.mem_write rfl hrows
  constructor
  · intro row hrow
    rcases hmem.mp hrow with rfl | ⟨hold, _⟩
    · exact hip.imp_right Or.inr
    · exact hT.rows row hold
  · intro m' row hunassigned hown
    rcases hmem.mp hown.1 with rfl | ⟨hold, _⟩
    · -- the new row's client is assigned, so it owns nothing that the invariant speaks of
      have hsame : getStaticIp cfg (.ofU64 m) = getStaticIp cfg (.ofU64 m') :=
        getStaticIp_congr hown.2.1
      exact (assigned_absurd (hsame.trans hunassigned) hassigned).elim
    · exact hT.owned m' row hunassigned ⟨hold, hown.2⟩

theorem Stocked.next (hT : Stocked cfg T) {row : Lease} (hmem : row ∈ T.rows)
    (hspared : ¬Assigned cfg (ipS2u row.ip) ∧ (row.ip = "" → Pool cfg.nets 0)) :
    Dynamic cfg (ipS2u row.ip) := by
  refine ⟨?_, hspared.1⟩
  rcases hT.rows row hmem with hempty | hpool | hassigned
  · rw [hempty, ipS2u_empty]
    exact hspared.2 hempty
  · exact hpool
  · exact absurd hassigned hspared.1

/-- The row that a confirmed check writes is under the number of the client's row. -/
theorem Stocked.checked (hT : Stocked cfg T) (hunassigned : getStaticIp cfg (.ofU64 m) = none)
    {row : Lease} (hown : Owns T (.ofU64 m) row) {ip : Option U32}
    (hsame : (requested ip).u_addr = ipS2u row.ip) :
    Dynamic cfg (ipS2u (requested ip).s_addr) := by
  have hdyn := hT.owned m row hunassigned hown
  rw [← hsame] at hdyn
  cases ip with
  | none => exact absurd hdyn.1 (not_pool_none cfg.nets)
  | some a =>
    rw [requested, IPAddress.ofU32, ipS2u_ipU2s]
    exact hdyn

/-- One DISCOVER or REQUEST keeps the table stocked, and gives clients without assignment dynamic
addresses. -/
theorem serveCall_stocked (hT : Stocked cfg T) {op : Op} (hop : op.invalidated = none)
    (hspared : SparesAssigned cfg T env.now op) : Stocked cfg (serveCall cfg T ⟨env, op⟩).1 := by
  cases op with
  | ipAlloc m =>
    obtain ⟨leases, ip, effects, hr, hspec⟩ := serveCall_alloc cfg env m T
    simp only [hr]
    cases hspec with
    | @static ip _ _ hassigned hrows =>
      refine hT.static hassigned (Or.inr ⟨m, ip, _, hassigned, ?_⟩) hrows
      exact congrArg IPAddress.u_addr (getStaticIp_text hassigned)
    | leased hunassigned hown =>
      apply hT.recordLease
      intro row hrow
      rw [(Table.row?_eq_some.mp hrow).2]
      exact hT.owned m _ hunassigned hown
    | fresh hunassigned hnone hfree =>
      -- here the condition is used: the next free row is not an assigned one
      apply hT.recordLease
      intro row hrow
      rw [(Table.row?_eq_some.mp hrow).2]
      exact hT.next hfree.1 (hspared hunassigned hnone _ hfree)
    | refused _ _ _ => exact hT
  | ipCheck m ip =>
    obtain ⟨leases, granted, hr, hspec⟩ := serveCall_check cfg env m ip T
    simp only [hr]
    cases hspec with
    | declined _ => exact hT
    | @static sub newip _ _ _ hassigned hsame hrows =>
      refine hT.static hassigned ?_ hrows
      cases ip with
      | none => exact Or.inl rfl
      | some a =>
        refine Or.inr ⟨m, newip, _, hassigned, ?_⟩
        rw [requested, IPAddress.ofU32, ipS2u_ipU2s]
        exact hsame.symm
    | leased _ hunassigned _ hown hsame =>
      apply hT.recordLease
      intro row hrow
      rw [(Table.row?_eq_some.mp hrow).2]
      exact hT.checked hunassigned hown hsame
  | ipFree m ip => exact hT
  | ipInvalidate m ip => cases hop

theorem serveCall_dynamic (hT : Stocked cfg T) (hunassigned : getStaticIp cfg (.ofU64 m) = none)
    (hspared : SparesAssigned cfg T env.now (.ipAlloc m)) {a : U32}
    (hg : granted (⟨env, .ipAlloc m⟩, (serveCall cfg T ⟨env, .ipAlloc m⟩).2) = some a) :
    Dynamic cfg a := by
  obtain ⟨leases, ip, effects, hr, hspec⟩ := serveCall_alloc cfg env m T
  simp only [hr] at hg
  cases hspec with
  | static hassigned _ => exact (assigned_absurd hunassigned hassigned).elim
  | leased _ hown =>
    cases hg
    exact hT.owned m _ hunassigned hown
  | fresh _ hnone hfree =>
    cases hg
    exact hT.next hfree.1 (hspared hunassigned hnone _ hfree)
  | refused _ _ _ => cases hg

/-- The allocator may return any row that is next. -/
theorem granted_favour (hunassigned : getStaticIp cfg (.ofU64 m) = none)
    (hnone : ∀ row, ¬Owns T (.ofU64 m) row) {row : Lease} {now : U32} (hfree : NextFree T now row) :
    granted (⟨⟨now, Scan.favour row⟩, .ipAlloc m⟩,
      (serveCall cfg T ⟨⟨now, Scan.favour row⟩, .ipAlloc m⟩).2) = some (ipS2u row.ip) := by
  obtain ⟨effects, halloc⟩ := ipAlloc_fresh hunassigned (getLeasedIp_none.mpr hnone)
    (getNewIp_favour hfree)
  simp only [serveCall, halloc, answerAlloc]
  rfl

end Step

/-- The datagram is a DISCOVER or a REQUEST. -/
def Negotiates (d : Datagram) : Prop := ∃ request, d.request = some request ∧
  (request.getMessageType d.garbage = DHCP_DISCOVER.toNat ∨
    request.getMessageType d.garbage = DHCP_REQUEST.toNat)

theorem Negotiates.op {d : Datagram} (h : Negotiates d) {op : Op} (hop : d.op = some op) :
    op.invalidated = none := by
  obtain ⟨request, hrequest, htype⟩ := h
  rw [Datagram.op, hrequest, Option.bind_some] at hop
  cases op with
  | ipInvalidate m ip =>
    have hdecline := (requestOp_invalidate.mp hop).1
    rw [hdecline] at htype
    exact absurd htype (by decide)
  | _ => rfl

/-- The same datagrams, whatever the order in which the queries meet their rows. -/
def SameTraffic : List Datagram → List Datagram → Prop :=
  List.Forall₂ fun d d' => ∃ scan, d' = d.withScan scan

/-- In the run over an empty database `ip_alloc` gives clients without a static assignment
dynamic addresses only. -/
def PoolGrants (cfg : Config) (ds : List Datagram) : Prop :=
  ∀ pre d post, ds = pre ++ d :: post → ∀ m, d.op = some (.ipAlloc m) →
    getStaticIp cfg (.ofU64 m) = none → ∀ a, granted (⟨d.env, .ipAlloc m⟩,
      (serveCall cfg (after (mainLoop cfg) (populate cfg.nets .empty) pre)
        ⟨d.env, .ipAlloc m⟩).2) = some a → Dynamic cfg a

section Run
variable {cfg : Config} {ds ds' : List Datagram}

theorem SameTraffic.negotiates (h : SameTraffic ds ds') (hds : ∀ d ∈ ds, Negotiates d) :
    ∀ d ∈ ds', Negotiates d := by
  induction h with
  | nil => exact fun d hd => absurd hd List.not_mem_nil
  | @cons d d' _ _ hd _ ih =>
    obtain ⟨scan, rfl⟩ := hd
    rw [List.forall_mem_cons] at hds ⊢
    exact ⟨hds.1, ih hds.2⟩

/-- The order of one query may be chosen anew. -/
theorem SameTraffic.rescan {pre post : List Datagram} {d : Datagram} (scan : Scan Lease)
    (h : SameTraffic ds (pre ++ d :: post)) : SameTraffic ds (pre ++ d.withScan scan :: post) := by
  induction pre generalizing ds with
  | nil =>
    cases h with
    | cons hd hrest =>
      obtain ⟨scan', rfl⟩ := hd
      exact .cons ⟨scan, rfl⟩ hrest
  | cons e pre ih =>
    cases h with
    | cons he hrest => exact .cons he (ih hrest)

theorem mainLoop_stocked {T : Leases} {d : Datagram} (hT : Stocked cfg T) (hd : Negotiates d)
    (hspared : ∀ op, d.op = some op → SparesAssigned cfg T d.env.now op) :
    Stocked cfg (mainLoop cfg T d).1 := by
  rw [mainLoop_leases]
  cases hop : d.op with
  | none => exact hT
  | some op => exact serveCall_stocked hT (hd.op hop) (hspared op hop)

/-- A run in which no assigned address comes next for a client without assignment gives such
clients dynamic addresses. -/
theorem poolGrants_of_spared (hmask : PrefixNets cfg.nets) (hds : ∀ d ∈ ds, Negotiates d)
    (hmeets : Meets (mainLoop cfg) (fun T d => ∀ op, d.op = some op →
      SparesAssigned cfg T d.env.now op) (populate cfg.nets .empty) ds) : PoolGrants cfg ds := by
  intro pre d post hsplit m hop hunassigned a hg
  obtain ⟨hT, _, hspared⟩ := (hmeets.and_forall hds).at_split
    (fun _ _ hT hC => mainLoop_stocked hT hC.1 hC.2) (populate_stocked hmask) hsplit
  exact serveCall_dynamic hT hunassigned (hspared _ hop) hg

/-- Clients without a static assignment are given addresses of the pool that are assigned to
nobody, in all runs of DISCOVER and REQUEST handling over the same datagrams, exactly when none of
these runs has an assigned address come next for such a client. -/
theorem pool_grants_iff (hmask : PrefixNets cfg.nets) (hds : ∀ d ∈ ds, Negotiates d) :
    (∀ ds', SameTraffic ds ds' → PoolGrants cfg ds') ↔
      ∀ ds', SameTraffic ds ds' → Meets (mainLoop cfg) (fun T d => ∀ op, d.op = some op →
        SparesAssigned cfg T d.env.now op) (populate cfg.nets .empty) ds' := by
  constructor
  · intro h ds' hsame
    rw [meets_iff_split]
    rintro pre d post rfl op hop
    cases op with
    | ipAlloc m =>
      -- under some order of the query's rows the one in question is handed out
      intro hunassigned hnone row hfree
      have hdyn := h _ (hsame.rescan (Scan.favour row)) pre _ post rfl m hop hunassigned _
        (granted_favour hunassigned hnone hfree)
      refine ⟨hdyn.2, fun hempty => ?_⟩
      rw [← ipS2u_empty, ← hempty]
      exact hdyn.1
    | _ => trivial
  · intro h ds' hsame
    exact poolGrants_of_spared hmask (hsame.negotiates hds) (h ds' hsame)

end Run

/-- The static assignment of the shipped example configuration, outside the range. -/
def assignedCfg : Config :=
  { exampleCfg with
    static_db := some fun mac => if mac = macU2s 9 then [("10.20.11.33", "Y")] else [] }

/-- An expired static lease goes to a dynamic client when the pool is used up. -/
theorem static_lease_joins_pool : ¬∀ (cfg : Config) (ds : List Datagram), PrefixNets cfg.nets →
    DisjointNets cfg.nets → (∀ d ∈ ds, Negotiates d) → PoolGrants cfg ds := by
  intro h
  have hdyn := h assignedCfg [exampleDatagram 1000 DHCP_DISCOVER 9 0,
      exampleDatagram 2000 DHCP_DISCOVER 1 0, exampleDatagram 2001 DHCP_DISCOVER 2 0,
      exampleDatagram 2002 DHCP_DISCOVER 3 0] exampleNets_prefix exampleNets_disjoint (by
    simp only [List.forall_mem_cons, List.not_mem_nil, false_imp_iff, implies_true, and_true]
    exact ⟨⟨_, rfl, Or.inl rfl⟩, ⟨_, rfl, Or.inl rfl⟩, ⟨_, rfl, Or.inl rfl⟩, ⟨_, rfl, Or.inl rfl⟩⟩)
    [exampleDatagram 1000 DHCP_DISCOVER 9 0, exampleDatagram 2000 DHCP_DISCOVER 1 0,
      exampleDatagram 2001 DHCP_DISCOVER 2 0] (exampleDatagram 2002 DHCP_DISCOVER 3 0) [] rfl 3
    (by rfl) (by rfl) (ipS2u "10.20.11.33") (by decide)
  exact hdyn.2 ⟨9, .ofText "10.20.11.33", true, by rfl, rfl⟩

theorem assignedCfg_assigned {a : U32} (h : Assigned assignedCfg a) : a = ipS2u "10.20.11.33" := by
  obtain ⟨m, ip, inet_access, hassigned, rfl⟩ := h
  have hrc : rcStaticIp assignedCfg.rc (.ofU64 m) = none := rcStaticIp_none exampleRc_noHosts m
  unfold getStaticIp at hassigned
  rw [hrc] at hassigned
  dsimp only [assignedCfg] at hassigned
  by_cases hm : (MACAddress.ofU64 m).s_addr = macU2s 9
  · rw [if_pos hm] at hassigned
    cases hassigned
    rfl
  · rw [if_neg hm] at hassigned
    cases hassigned

/-- The first client is given an address of the pool. -/
theorem pool_grants_example : PoolGrants assignedCfg [exampleDatagram 1000 DHCP_DISCOVER 1 0] := by
  have hds : ∀ d ∈ [exampleDatagram 1000 DHCP_DISCOVER 1 0], Negotiates d := by
    rw [List.forall_mem_singleton]
    exact ⟨_, rfl, Or.inl rfl⟩
  refine (pool_grants_iff exampleNets_prefix hds).mpr ?_ _ (.cons ⟨.rowid, rfl⟩ .nil)
  intro ds' hsame
  have hrows : ∀ row ∈ exampleTable.rows, ipS2u row.ip ≠ ipS2u "10.20.11.33" ∧ row.ip ≠ "" := by
    decide
  cases hsame with
  | cons _ hnil =>
    cases hnil
    refine (meets_cons _ _ _).mpr ⟨fun op _ => ?_, meets_nil _⟩
    cases op with
    | ipAlloc m =>
      intro _ _ row hfree
      obtain ⟨haddr, htext⟩ := hrows row hfree.1
      exact ⟨fun h => haddr (assignedCfg_assigned h), fun h => absurd h htext⟩
    | _ => trivial

end S3Dhcpd
