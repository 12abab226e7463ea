import S3Dhcpd.MainLoop

/-! What a client's own packets do to the authorisation that its row was given. -/
namespace S3Dhcpd
open KeyedTable Runs

/-- The row of the address belongs to the client. -/
def OwnedBy (a : U32) (m : U64) (T : Leases) : Prop :=
  ∃ row, T.row? (ipU2s a) = some row ∧ row.mac = macU2s m

def AuthIs (a : U32) (x : String) (T : Leases) : Prop :=
  ∃ row, T.row? (ipU2s a) = some row ∧ row.auth_info = x

/-- If the packet makes the allocator grant `a`, it is to the client `m`. -/
def GrantsOnlyTo (cfg : Config) (a : U32) (m : U64) (T : Leases) (d : Datagram) : Prop :=
  ∀ op, d.op = some op →
    granted (⟨d.env, op⟩, (serveCall cfg T ⟨d.env, op⟩).2) = some a → hwAddr op.mac = hwAddr m

/-- A DISCOVER of the client `m` for which `get_leased_ip` finds the row of `a`. -/
def Rediscovers (a : U32) (m : U64) (T : Leases) (d : Datagram) : Prop :=
  ∃ m', d.op = some (.ipAlloc m') ∧ hwAddr m' = hwAddr m ∧
    getLeasedIp d.env (.ofU64 m') T = some (.ofU32 a)

theorem ofU32_text (a : U32) : IPAddress.ofU32 a = .ofText (ipU2s a) := by
  rw [IPAddress.ofU32, IPAddress.ofText, ipS2u_ipU2s]

section Record
variable {cfg : Config} {env : Env} {T : Leases} {a : U32} {m : U64} {x : String}
  {mac : MACAddress} {ip : IPAddress} {auth_info : Option String}

theorem OwnedBy.recordLease (h : OwnedBy a m T) (hmac : ip.s_addr = ipU2s a → mac.s_addr = macU2s m) :
    OwnedBy a m (recordLease cfg env mac ip auth_info T) := by
  obtain ⟨row, hrow, howner⟩ := h
  rw [OwnedBy, row?_recordLease]
  split_ifs with hk
  · exact ⟨_, by rw [hrow, Option.map_some], hmac hk.symm⟩
  · exact ⟨row, hrow, howner⟩

theorem authIs_recordLease (h : AuthIs a x T) :
    AuthIs a x (recordLease cfg env mac ip auth_info T) ↔
      (ip.s_addr = ipU2s a → auth_info.getD x = x) := by
  obtain ⟨row, hrow, rfl⟩ := h
  rw [AuthIs, row?_recordLease, hrow]
  split_ifs with hk
  · simp only [Option.map_some, Option.some.injEq, exists_eq_left', updated, hk, true_imp_iff]
  · simp only [Option.some.injEq, exists_eq_left', true_iff]
    exact fun hk' => absurd hk'.symm hk

end Record

section Step
variable {cfg : Config} {T : Leases} {a : U32} {m : U64} {x : String} {env : Env} {op : Op}

/-- A row that changes hands is granted to its new client. -/
theorem serveCall_ownedBy (hstatic : NoStatic cfg) (hop : op.invalidated = none)
    (hown : OwnedBy a m T)
    (honly : granted (⟨env, op⟩, (serveCall cfg T ⟨env, op⟩).2) = some a → hwAddr op.mac = hwAddr m) :
    OwnedBy a m (serveCall cfg T ⟨env, op⟩).1 := by
  have hgranted {row : Lease} (hip : row.ip = ipU2s a) :
      some (IPAddress.ofText row.ip).u_addr = some a := by
    rw [hip, IPAddress.ofText, ipS2u_ipU2s]
  cases op with
  | ipAlloc m' =>
    obtain ⟨leases, ip, effects, hr, hspec⟩ := serveCall_alloc cfg env m' T
    simp only [hr] at honly ⊢
    cases hspec with
    | static hassigned _ => exact (hstatic.not_assigned hassigned).elim
    | leased _ _ => exact hown.recordLease fun hip => macU2s_inj.mpr (honly (hgranted hip))
    | fresh _ _ _ => exact hown.recordLease fun hip => macU2s_inj.mpr (honly (hgranted hip))
    | refused _ _ _ => exact hown
  | ipCheck m' ip =>
    obtain ⟨leases, granted, hr, hspec⟩ := serveCall_check cfg env m' ip T
    simp only [hr] at honly ⊢
    cases hspec with
    | declined _ => exact hown
    | static _ hassigned _ _ => exact (hstatic.not_assigned hassigned).elim
    | leased _ _ _ _ _ =>
      cases ip with
      -- the text of the unset address is the text of no address
      | none => exact hown.recordLease fun hip => absurd hip.symm (ipU2s_ne_empty a)
      | some b =>
        refine hown.recordLease fun hip => macU2s_inj.mpr (honly ?_)
        exact congrArg some (ipU2s_injective hip)
  | ipFree m' ip => exact hown
  | ipInvalidate m' ip => cases hop

/-- The leased branch of an allocation writes `auth_info`. -/
theorem leased_authIs (hstatic : NoStatic cfg) {m' : U64} {ip : IPAddress} (hauth : AuthIs a x T)
    (hleased : getLeasedIp env (.ofU64 m') T = some ip) :
    AuthIs a x (serveCall cfg T ⟨env, .ipAlloc m'⟩).1 ↔ x = "leased" ∨ ip ≠ .ofU32 a := by
  obtain ⟨row, hrow, rfl⟩ := getLeasedIp_some hleased
  simp only [serveCall, ipAlloc_leased (hstatic m') hleased, answerAlloc]
  rw [authIs_recordLease hauth, ofU32_text]
  have htext : IPAddress.ofText row.ip = .ofText (ipU2s a) ↔ row.ip = ipU2s a :=
    ⟨fun h => congrArg IPAddress.s_addr h, fun h => by rw [h]⟩
  rw [ne_eq, htext, imp_iff_not_or, or_comm]
  exact or_congr eq_comm Iff.rfl

/-- A fresh lease is not the row of a client that has one. -/
theorem fresh_authIs (hstatic : NoStatic cfg) (hx : x ≠ "excluded") {m' : U64}
    (hown : OwnedBy a m T) (hauth : AuthIs a x T)
    (honly : granted (⟨env, .ipAlloc m'⟩, (serveCall cfg T ⟨env, .ipAlloc m'⟩).2) = some a →
      hwAddr m' = hwAddr m) (hleased : getLeasedIp env (.ofU64 m') T = none) :
    AuthIs a x (serveCall cfg T ⟨env, .ipAlloc m'⟩).1 := by
  obtain ⟨leases, ip, effects, hr, hspec⟩ := serveCall_alloc cfg env m' T
  simp only [hr] at honly ⊢
  cases hspec with
  | static hassigned _ => exact (hstatic.not_assigned hassigned).elim
  | leased _ howner => exact absurd howner (getLeasedIp_none.mp hleased _)
  | @fresh row _ hnone _ =>
    rw [authIs_recordLease hauth]
    intro hip
    -- granted the row, the client would be `m`, which has a lease already
    have hmac : hwAddr m' = hwAddr m := by
      apply honly
      change some (ipS2u row.ip) = some a
      rw [show row.ip = ipU2s a from hip, ipS2u_ipU2s]
    obtain ⟨row', hrow', howner⟩ := hown
    obtain ⟨row'', hrow'', hauth'⟩ := hauth
    obtain rfl := Option.some.inj (hrow'.symm.trans hrow'')
    refine absurd ⟨(Table.row?_eq_some.mp hrow').1, ?_, ?_⟩ (hnone row')
    · exact howner.trans (macU2s_inj.mpr hmac).symm
    · rwa [hauth']
  | refused _ _ _ => exact hauth

theorem check_authIs (hstatic : NoStatic cfg) (hauth : AuthIs a x T) (m' : U64) (ip : Option U32) :
    AuthIs a x (serveCall cfg T ⟨env, .ipCheck m' ip⟩).1 := by
  obtain ⟨leases, granted, hr, hspec⟩ := serveCall_check cfg env m' ip T
  simp only [hr]
  cases hspec with
  | declined _ => exact hauth
  | static _ hassigned _ _ => exact (hstatic.not_assigned hassigned).elim
  | leased _ _ _ _ _ => exact (authIs_recordLease hauth).mpr fun _ => rfl

/-- Of the calls that do not grant the row to others only the leased branch of an allocation writes
its `auth_info`. -/
theorem serveCall_authIs (hstatic : NoStatic cfg) (hx : x ≠ "excluded") (hop : op.invalidated = none)
    (hown : OwnedBy a m T) (hauth : AuthIs a x T)
    (honly : granted (⟨env, op⟩, (serveCall cfg T ⟨env, op⟩).2) = some a → hwAddr op.mac = hwAddr m) :
    AuthIs a x (serveCall cfg T ⟨env, op⟩).1 ↔ x = "leased" ∨
      ¬∃ m', op = .ipAlloc m' ∧ getLeasedIp env (.ofU64 m') T = some (.ofU32 a) := by
  cases op with
  | ipAlloc m' =>
    simp only [Op.ipAlloc.injEq, exists_eq_left']
    cases hleased : getLeasedIp env (.ofU64 m') T with
    | some ip =>
      rw [leased_authIs hstatic hauth hleased, Option.some.injEq]
    | none =>
      refine iff_of_true (fresh_authIs hstatic hx hown hauth honly hleased) (Or.inr ?_)
      exact (Option.some_ne_none _).symm
  | ipCheck m' ip =>
    refine iff_of_true (check_authIs hstatic hauth m' ip) (Or.inr ?_)
    rintro ⟨_, h, _⟩
    cases h
  | ipFree m' ip =>
    refine iff_of_true hauth (Or.inr ?_)
    rintro ⟨_, h, _⟩
    cases h
  | ipInvalidate m' ip => cases hop

end Step

/-- Until `a` is granted to a client other than `m`, its row says `x`. -/
def KeepsAuth (cfg : Config) (a : U32) (m : U64) (x : String) (T : Leases) (ds : List Datagram) :
    Prop :=
  ∀ pre, pre <+: ds → Meets (mainLoop cfg) (GrantsOnlyTo cfg a m) T pre →
    AuthIs a x (after (mainLoop cfg) T pre)

/-- The packet is no DECLINE. -/
def NoDecline (d : Datagram) : Prop := ∀ op, d.op = some op → op.invalidated = none

section Turn
variable {cfg : Config} {T : Leases} {d : Datagram} {a : U32} {m : U64} {x : String}

theorem mainLoop_ownedBy (hstatic : NoStatic cfg) (hdecline : NoDecline d) (hown : OwnedBy a m T)
    (honly : GrantsOnlyTo cfg a m T d) : OwnedBy a m (mainLoop cfg T d).1 := by
  rw [mainLoop_leases]
  cases hop : d.op with
  | none => exact hown
  | some op => exact serveCall_ownedBy hstatic (hdecline op hop) hown (honly op hop)

theorem mainLoop_authIs (hstatic : NoStatic cfg) (hx : x ≠ "excluded") (hdecline : NoDecline d)
    (hown : OwnedBy a m T) (hauth : AuthIs a x T) (honly : GrantsOnlyTo cfg a m T d) :
    AuthIs a x (mainLoop cfg T d).1 ↔ x = "leased" ∨ ¬Rediscovers a m T d := by
  rw [mainLoop_leases]
  cases hop : d.op with
  | none =>
    refine iff_of_true hauth (Or.inr ?_)
    rintro ⟨m', hop', _⟩
    rw [hop] at hop'
    cases hop'
  | some op =>
    rw [serveCall_authIs hstatic hx (hdecline op hop) hown hauth (honly op hop)]
    refine or_congr Iff.rfl (not_congr ⟨?_, ?_⟩)
    · rintro ⟨m', rfl, hleased⟩
      -- what is allocated from the row is granted
      refine ⟨m', hop, honly _ hop ?_, hleased⟩
      simp only [serveCall, ipAlloc_leased (hstatic m') hleased, answerAlloc, granted]
      rfl
    · rintro ⟨m', hop', _, hleased⟩
      rw [hop, Option.some.injEq] at hop'
      exact ⟨m', hop', hleased⟩

theorem not_rediscovers (h : ¬GrantsOnlyTo cfg a m T d) : ¬Rediscovers a m T d := by
  rintro ⟨m', hop, hmac, hleased⟩
  apply h
  intro op hop' _
  obtain rfl := Option.some.inj (hop'.symm.trans hop)
  exact hmac

end Turn

/-- The authorisation of a row outlasts the renewals of its client exactly when the client sends no
DISCOVER that finds the row, or when the row says `leased` anyway. -/
theorem renewal_keeps_auth {cfg : Config} (hstatic : NoStatic cfg) {T : Leases} {a : U32} {m : U64}
    {row : Lease} (hrow : T.row? (ipU2s a) = some row) (hmac : row.mac = macU2s m)
    (hx : row.auth_info ≠ "excluded") {ds : List Datagram} (hdecline : ∀ d ∈ ds, NoDecline d) :
    KeepsAuth cfg a m row.auth_info T ds ↔ row.auth_info = "leased" ∨
      ∀ pre d post, ds = pre ++ d :: post → Meets (mainLoop cfg) (GrantsOnlyTo cfg a m) T pre →
        ¬Rediscovers a m (after (mainLoop cfg) T pre) d := by
  have hown : OwnedBy a m T := ⟨row, hrow, hmac⟩
  have hauth : AuthIs a row.auth_info T := ⟨row, hrow, rfl⟩
  -- up to a grant to somebody else the row stays the client's
  have hkept {pre : List Datagram} (hpre : pre <+: ds)
      (h : Meets (mainLoop cfg) (GrantsOnlyTo cfg a m) T pre) :
      OwnedBy a m (after (mainLoop cfg) T pre) :=
    after_invariant (fun T d hown hC => mainLoop_ownedBy hstatic hC.1 hown hC.2) hown
      (h.and_forall fun d hd => hdecline d (hpre.subset hd))
  calc KeepsAuth cfg a m row.auth_info T ds
      ↔ ∀ pre, pre <+: ds → Meets (mainLoop cfg) (GrantsOnlyTo cfg a m) T pre →
          OwnedBy a m (after (mainLoop cfg) T pre) ∧
            AuthIs a row.auth_info (after (mainLoop cfg) T pre) :=
        forall_congr' fun pre => forall_congr' fun hpre => forall_congr' fun h =>
          (and_iff_right (hkept hpre h)).symm
    _ ↔ ∀ pre d post, ds = pre ++ d :: post →
          Meets (mainLoop cfg) (GrantsOnlyTo cfg a m) T pre →
            row.auth_info = "leased" ∨ ¬Rediscovers a m (after (mainLoop cfg) T pre) d := by
        refine @while_iff_invariant _ _ _ (mainLoop cfg)
          (fun T d => row.auth_info = "leased" ∨ ¬Rediscovers a m T d)
          (fun T => OwnedBy a m T ∧ AuthIs a row.auth_info T) (GrantsOnlyTo cfg a m) NoDecline
          ?_ ?_ _ ⟨hown, hauth⟩ _ hdecline
        · intro T d hd hT honly
          rw [← mainLoop_authIs hstatic hx hd hT.1 hT.2 honly,
            and_iff_right (mainLoop_ownedBy hstatic hd hT.1 honly)]
        · exact fun T d _ _ honly => Or.inr (not_rediscovers honly)
    _ ↔ _ := by
        by_cases hleased : row.auth_info = "leased"
        · simp only [hleased, true_or, implies_true]
        · simp only [hleased, false_or]

/-- The first address of the example's range is leased to client 1, which somebody has authorised. -/
def authorisedTable : Leases := ⟨[⟨macU2s 1, "10.20.11.50", 0, 0, "authorised"⟩], by decide⟩

/-- The client's next DISCOVER takes its authorisation away. -/
theorem discover_drops_auth : ¬∀ (cfg : Config), NoStatic cfg → ∀ (T : Leases) (a : U32) (m : U64)
    (row : Lease), T.row? (ipU2s a) = some row → row.mac = macU2s m → hwAddr m ≠ 0 →
      row.auth_info ≠ "excluded" → ∀ ds : List Datagram, (∀ d ∈ ds, NoDecline d) →
        KeepsAuth cfg a m row.auth_info T ds := by
  intro h
  have hop : (exampleDatagram 1000 DHCP_DISCOVER 1 0).op = some (.ipAlloc 1) := by rfl
  have hkept := h exampleCfg exampleCfg_noStatic authorisedTable (ipS2u "10.20.11.50") 1
    ⟨macU2s 1, "10.20.11.50", 0, 0, "authorised"⟩ (by decide) rfl (by decide) (by decide)
    [exampleDatagram 1000 DHCP_DISCOVER 1 0] ?_ _ List.prefix_rfl ?_
  · obtain ⟨row, hrow, hauth⟩ := hkept
    have hafter : (after (mainLoop exampleCfg) authorisedTable
        [exampleDatagram 1000 DHCP_DISCOVER 1 0]).row? (ipU2s (ipS2u "10.20.11.50")) =
        some ⟨macU2s 1, "10.20.11.50", 1000, 1180, "leased"⟩ := by decide
    obtain rfl := Option.some.inj (hrow.symm.trans hafter)
    exact absurd hauth (by decide)
  · intro d hd op hop'
    obtain rfl := List.mem_singleton.mp hd
    obtain rfl := Option.some.inj (hop'.symm.trans hop)
    rfl
  · refine ⟨fun op hop' _ => ?_, trivial⟩
    obtain rfl := Option.some.inj (hop'.symm.trans hop)
    rfl

/-- A REQUEST of the client renews its lease and leaves its authorisation alone. -/
theorem renewal_keeps_auth_example :
    KeepsAuth exampleCfg (ipS2u "10.20.11.50") 1 "authorised" authorisedTable
      [exampleDatagram 1000 DHCP_REQUEST 1 (ipS2u "10.20.11.50")] ∧
    (after (mainLoop exampleCfg) authorisedTable
      [exampleDatagram 1000 DHCP_REQUEST 1 (ipS2u "10.20.11.50")]).row? "10.20.11.50" =
        some ⟨macU2s 1, "10.20.11.50", 1000, 1180, "authorised"⟩ := by
  have hop : (exampleDatagram 1000 DHCP_REQUEST 1 (ipS2u "10.20.11.50")).op =
      some (.ipCheck 1 (some (ipS2u "10.20.11.50"))) := by rfl
  have hrow : authorisedTable.row? (ipU2s (ipS2u "10.20.11.50")) =
      some ⟨macU2s 1, "10.20.11.50", 0, 0, "authorised"⟩ := by decide
  refine ⟨(renewal_keeps_auth exampleCfg_noStatic hrow rfl (by decide) ?_).mpr (Or.inr ?_),
    by decide⟩
  · intro d hd op hop'
    obtain rfl := List.mem_singleton.mp hd
    obtain rfl := Option.some.inj (hop'.symm.trans hop)
    rfl
  · rintro pre d post hsplit _ ⟨m', hop', _⟩
    have hd : d ∈ [exampleDatagram 1000 DHCP_REQUEST 1 (ipS2u "10.20.11.50")] := by
      rw [hsplit]
      simp
    obtain rfl := List.mem_singleton.mp hd
    rw [hop] at hop'
    cases hop'

end S3Dhcpd
