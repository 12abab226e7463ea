import S3Dhcpd.MainLoop

/-! Editing the static assignments while the server runs, and how many addresses a client then
holds. -/
namespace S3Dhcpd
open KeyedTable Runs

/-- A turn under the static database as it stands at that moment. -/
def liveLoop (cfg : Config) (T : Leases) (e : (String → List (String × String)) × Datagram) :
    Leases × Turn := mainLoop { cfg with static_db := some e.1 } T e.2

/-- Every client with a hardware address owns one row at most. -/
def OneLease (T : Leases) : Prop :=
  ∀ m : U64, hwAddr m ≠ 0 → ∀ row row', Owns T (.ofU64 m) row → Owns T (.ofU64 m) row' → row = row'

/-- What a call needs so as not to give a client a second row: what the client owns already is
under the text that the call writes. -/
def KeepsOneLease (cfg : Config) (T : Leases) : Op → Prop
  | .ipAlloc m => hwAddr m ≠ 0 → ∀ ip inet_access,
      getStaticIp cfg (.ofU64 m) = some (ip, inet_access) →
        ∀ row, Owns T (.ofU64 m) row → row.ip = ip.s_addr
  | .ipCheck m ip => hwAddr m ≠ 0 → ∀ sub, cfg.nets.mysubnet (requested ip) = some sub →
      ∀ row, Owns T (.ofU64 m) row →
        (∀ newip inet_access, getStaticIp cfg (.ofU64 m) = some (newip, inet_access) →
          (requested ip).u_addr = newip.u_addr → row.ip = (requested ip).s_addr) ∧
        (getStaticIp cfg (.ofU64 m) = none → sub.hasDynamicRange = true →
          (requested ip).u_addr = ipS2u row.ip → ∀ r, T.row? (requested ip).s_addr = some r →
            r.auth_info ≠ "excluded" → row.ip = (requested ip).s_addr)
  | _ => True

section Writes
variable {cfg : Config} {env : Env} {T T' : Leases} {m : U64}

/-- Writing one row for a client keeps the invariant exactly when the row is excluded or all that
the client owns is under its key. -/
theorem oneLease_write (hT : OneLease T) (new : Lease) {k : String} (hip : new.ip = k)
    (hmac : new.mac = macU2s m) (hrows : ∀ k', T'.row? k' = if k' = k then some new else T.row? k') :
    OneLease T' ↔ (new.auth_info ≠ "excluded" → hwAddr m ≠ 0 →
      ∀ row, Owns T (.ofU64 m) row → row.ip = k) := by
  have hnew : new ∈ T'.rows := (Table.mem_write hip hrows).mpr (Or.inl rfl)
  have hold {r : Lease} (hne : r.ip ≠ k) : r ∈ T'.rows ↔ r ∈ T.rows := Table.mem_write_ne hrows hne
  constructor
  · intro h hx hm row hown
    by_contra hne
    have hsame := h m hm row new ⟨(hold hne).mpr hown.1, hown.2⟩ ⟨hnew, hmac, hx⟩
    exact hne (hsame ▸ hip)
  · -- an owned row under the key is the new one, and then nothing else is owned
    intro h m' hm' row row' hown hown'
    have hkey {r r' : Lease} (hr : Owns T' (.ofU64 m') r) (hr' : Owns T' (.ofU64 m') r')
        (hk : r.ip = k) : r'.ip = k := by
      by_contra hne
      have hrnew : r = new := T'.row_unique hr.1 hnew (hk.trans hip.symm)
      have hmm : hwAddr m = hwAddr m' := macU2s_inj.mp (hmac.symm.trans (hrnew ▸ hr.2.1))
      refine hne (h (hrnew ▸ hr.2.2) (hmm ▸ hm') r' ⟨(hold hne).mp hr'.1, ?_, hr'.2.2⟩)
      exact hr'.2.1.trans (macU2s_inj.mpr hmm.symm)
    by_cases hk : row.ip = k
    · exact T'.row_unique hown.1 hown'.1 (hk.trans (hkey hown hown' hk).symm)
    · have hk' : row'.ip ≠ k := fun hk' => hk (hkey hown' hown hk')
      exact hT m' hm' row row' ⟨(hold hk).mp hown.1, hown.2⟩ ⟨(hold hk').mp hown'.1, hown'.2⟩

theorem oneLease_recordLease (hT : OneLease T) {ip : IPAddress} {auth_info : Option String} :
    OneLease (recordLease cfg env (.ofU64 m) ip auth_info T) ↔
      ∀ r, T.row? ip.s_addr = some r → auth_info.getD r.auth_info ≠ "excluded" → hwAddr m ≠ 0 →
        ∀ row, Owns T (.ofU64 m) row → row.ip = ip.s_addr := by
  cases hr : T.row? ip.s_addr with
  | none =>
    rw [recordLease_absent hr]
    exact iff_of_true hT fun _ h => absurd h.symm (Option.some_ne_none _)
  | some r =>
    rw [oneLease_write hT (updated cfg env (.ofU64 m) auth_info r) (Table.row?_eq_some.mp hr).2 rfl]
    · simp only [Option.some.injEq, forall_eq']
      rfl
    · intro k
      rw [row?_recordLease]
      split_ifs with hk
      · rw [hk, hr, Option.map_some]
      · rfl

theorem oneLease_static (hT : OneLease T) {ip : IPAddress} {auth_info : String}
    (hx : auth_info ≠ "excluded") (hrows : ∀ k, T'.row? k =
      if k = ip.s_addr then some (staticRow cfg env (.ofU64 m) ip auth_info) else T.row? k) :
    OneLease T' ↔ (hwAddr m ≠ 0 → ∀ row, Owns T (.ofU64 m) row → row.ip = ip.s_addr) := by
  rw [oneLease_write hT (staticRow cfg env (.ofU64 m) ip auth_info) rfl rfl hrows]
  exact ⟨fun h => h hx, fun h _ => h⟩

end Writes

section Calls
variable {cfg : Config} {env : Env} {T : Leases} {m : U64}

theorem oneLease_alloc (hT : OneLease T) : OneLease (serveCall cfg T ⟨env, .ipAlloc m⟩).1 ↔
    KeepsOneLease cfg T (.ipAlloc m) := by
  obtain ⟨leases, ip, effects, hr, hspec⟩ := serveCall_alloc cfg env m T
  simp only [hr, KeepsOneLease]
  cases hspec with
  | @static _ inet_access _ hassigned hrows =>
    have hx : (if inet_access then "static" else "internal") ≠ "excluded" := by
      cases inet_access <;> decide
    rw [oneLease_static hT hx hrows]
    constructor
    · intro h hm ip' inet_access' hassigned' row hown
      cases hassigned.symm.trans hassigned'
      exact h hm row hown
    · exact fun h hm row hown => h hm _ _ hassigned row hown
  | leased hfree hown =>
    -- the written row is the one row that the client owns
    refine iff_of_true ?_ fun _ _ _ h => (assigned_absurd hfree h).elim
    rw [oneLease_recordLease hT]
    intro _ _ _ hm row' hown'
    rw [hT m hm row' _ hown' hown]
    rfl
  | fresh hfree hnone _ =>
    refine iff_of_true ?_ fun _ _ _ h => (assigned_absurd hfree h).elim
    rw [oneLease_recordLease hT]
    exact fun _ _ _ _ row' hown' => absurd hown' (hnone row')
  | refused hfree _ _ => exact iff_of_true hT fun _ _ _ h => (assigned_absurd hfree h).elim

theorem oneLease_check (hT : OneLease T) {ip : Option U32} :
    OneLease (serveCall cfg T ⟨env, .ipCheck m ip⟩).1 ↔ KeepsOneLease cfg T (.ipCheck m ip) := by
  obtain ⟨leases, granted, hr, hspec⟩ := serveCall_check cfg env m ip T
  simp only [hr, KeepsOneLease]
  cases hspec with
  | declined reason =>
    -- the reason for which a REQUEST is declined is one that the condition excludes
    apply iff_of_true hT
    intro hm sub hsub row hown
    cases reason with
    | foreign hout => exact absurd (hsub.symm.trans hout) (Option.some_ne_none _)
    | assigned hassigned hdiffers =>
      refine ⟨?_, fun hfree => (assigned_absurd hfree hassigned).elim⟩
      intro newip inet_access hassigned' hsame
      cases hassigned.symm.trans hassigned'
      exact absurd hsame hdiffers
    | unknown hsub' hfree hfixed =>
      refine ⟨fun _ _ h => (assigned_absurd hfree h).elim, ?_⟩
      intro _ hdyn
      cases hsub'.symm.trans hsub
      rw [hfixed] at hdyn
      cases hdyn
    | unleased _ hnone => exact absurd hown (hnone row)
    | leased hfree hown' hdiffers =>
      refine ⟨fun _ _ h => (assigned_absurd hfree h).elim, ?_⟩
      intro _ _ hsame
      rw [hT m hm row _ hown hown'] at hsame
      exact absurd hsame hdiffers
  | static hsub hassigned hsame hrows =>
    rw [oneLease_static hT (by decide) hrows]
    constructor
    · intro h hm sub' hsub' row hown
      exact ⟨fun _ _ _ _ => h hm row hown, fun hfree => (assigned_absurd hfree hassigned).elim⟩
    · intro h hm row hown
      exact (h hm _ hsub row hown).1 _ _ hassigned hsame
  | @leased sub row₀ hsub hfree hdyn hown₀ hsame =>
    -- whatever else the client owns is the row that `get_leased_ip` found
    rw [oneLease_recordLease hT]
    constructor
    · intro h hm sub' hsub' row hown
      exact ⟨fun _ _ h => (assigned_absurd hfree h).elim,
        fun _ _ _ r hr hx => h r hr hx hm row hown⟩
    · intro h r hr hx hm row hown
      rw [hT m hm row row₀ hown hown₀]
      exact (h hm sub hsub row₀ hown₀).2 hfree hdyn hsame r hr hx

theorem serveCall_oneLease (hT : OneLease T) (op : Op) :
    OneLease (serveCall cfg T ⟨env, op⟩).1 ↔ KeepsOneLease cfg T op := by
  cases op with
  | ipAlloc m => exact oneLease_alloc hT
  | ipCheck m ip => exact oneLease_check hT
  | ipFree m ip => exact iff_of_true hT trivial
  | ipInvalidate m ip =>
    refine iff_of_true ?_ trivial
    simp only [serveCall, ipInvalidate]
    rw [oneLease_recordLease hT]
    exact fun _ _ _ hzero => absurd rfl hzero

end Calls

theorem populate_oneLease (nets : Subnets) : OneLease (populate nets .empty) := by
  intro m hm row row' hown _
  obtain ⟨a, rfl⟩ := populate_fresh hown.1
  exact absurd hown.2.1.symm (macU2s_ne_empty m)

/-- Under live edits every client owns one row at most in all states of a run exactly when no
packet of the run gives a client a row beside one that it owns. -/
theorem one_lease_iff (cfg : Config) (run : List ((String → List (String × String)) × Datagram)) :
    (∀ pre, pre <+: run → OneLease (after (liveLoop cfg) (populate cfg.nets .empty) pre)) ↔
      Meets (liveLoop cfg) (fun T e => ∀ op, e.2.op = some op →
        KeepsOneLease { cfg with static_db := some e.1 } T op) (populate cfg.nets .empty) run := by
  refine meets_iff_invariant ?_ (populate_oneLease cfg.nets) run
  intro T e hT
  rw [liveLoop, mainLoop_leases]
  cases hop : e.2.op with
  | none => exact iff_of_true hT fun _ h => absurd h.symm (Option.some_ne_none _)
  | some op =>
    simp only [Option.some.injEq, forall_eq']
    exact serveCall_oneLease hT op

/-- The static assignment that is added for a client while it holds a dynamic address. -/
def editedAssignments (mac : String) : List (String × String) :=
  if mac = macU2s 1 then [("10.20.11.33", "Y")] else []

/-- A client that is given a static assignment while it holds a dynamic lease owns two rows. -/
theorem live_edit_gives_two_leases : ¬∀ (cfg : Config)
    (run : List ((String → List (String × String)) × Datagram)),
      OneLease (after (liveLoop cfg) (populate cfg.nets .empty) run) := by
  intro h
  have hone := h exampleCfg [(fun _ => [], exampleDatagram 1000 DHCP_DISCOVER 1 0),
    (editedAssignments, exampleDatagram 1100 DHCP_DISCOVER 1 0)] 1 (by decide)
    ⟨macU2s 1, "10.20.11.50", 1000, 1180, "new"⟩ ⟨macU2s 1, "10.20.11.33", 1100, 1280, "static"⟩
    ⟨by decide, rfl, by decide⟩ ⟨by decide, rfl, by decide⟩
  exact absurd (congrArg Lease.ip hone) (by decide)

end S3Dhcpd
