import S3Dhcpd.PoolGrants
import S3Dhcpd.Restarts

/-! The word in `auth_info` that the next start reads as internet access. -/
namespace S3Dhcpd
open KeyedTable Runs

/-- The text names a client whose static entry grants internet access. -/
def InetHost (cfg : Config) (mac : String) : Prop := ∃ (m : U64) (ip : IPAddress),
  getStaticIp cfg (.ofU64 m) = some (ip, true) ∧ mac = macU2s m

/-- The address of a static entry that grants internet access. -/
def InetAddress (cfg : Config) (a : U32) : Prop := ∃ (m : U64) (ip : IPAddress),
  getStaticIp cfg (.ofU64 m) = some (ip, true) ∧ ip.u_addr = a

/-- Static rows belong to hosts with internet access, and the next start tells the packet filter
to admit addresses of such hosts only. -/
def Admitted (cfg : Config) (T : Leases) : Prop :=
  (∀ row ∈ T.rows, row.auth_info = "static" → InetHost cfg row.mac) ∧
    ∀ scan a, Effect.pfAdd a ∈ (prepareDatabases cfg scan T).2 → InetAddress cfg a

def RowAdmitted (cfg : Config) (row : Lease) : Prop := row.auth_info = "static" →
  InetHost cfg row.mac ∧ (cfg.pf_enabled = true → InetAddress cfg (ipS2u row.ip))

/-- In a subnet with a dynamic range a client confirms the address of its own lease. -/
def Renews (cfg : Config) (env : Env) (mac : MACAddress) (ip : IPAddress) (T : Leases) : Prop :=
  ∃ sub newip, cfg.nets.mysubnet ip = some sub ∧ sub.hasDynamicRange = true ∧
    getLeasedIp env mac T = some newip ∧ ip.u_addr = newip.u_addr

/-- What a REQUEST needs so as not to admit a host: a static host that confirms its address has
internet access, and no lease is renewed under the text of a static row. Without a text the
row is under the empty one, which denotes 0.0.0.0. -/
def KeepsAdmitted (cfg : Config) (env : Env) (T : Leases) : Op → Prop
  | .ipCheck m ip =>
    (∀ newip inet_access, getStaticIp cfg (.ofU64 m) = some (newip, inet_access) →
      cfg.nets.mysubnet (requested ip) ≠ none → (requested ip).u_addr = newip.u_addr →
        inet_access = true ∧ (ip = none → cfg.pf_enabled = true → InetAddress cfg 0)) ∧
    (getStaticIp cfg (.ofU64 m) = none → Renews cfg env (.ofU64 m) (requested ip) T →
      ∀ row, T.row? (requested ip).s_addr = some row → row.auth_info ≠ "static")
  | _ => True

section Start
variable {cfg : Config} {T : Leases}

theorem mem_populate_static {nets : Subnets} {row : Lease} (hstatic : row.auth_info = "static") :
    row ∈ (populate nets T).rows ↔ row ∈ T.rows := by
  rw [mem_populate_old]
  apply or_iff_left
  rintro ⟨⟨sub, _, hrow⟩, _⟩
  obtain ⟨a, rfl⟩ := rangeRows_fresh hrow
  exact absurd hstatic (by simp [freshRow])

theorem pfAdd_prepare {scan : Scan Lease} {a : U32} :
    Effect.pfAdd a ∈ (prepareDatabases cfg scan T).2 ↔ cfg.pf_enabled = true ∧
      ∃ row ∈ T.rows, row.auth_info = "static" ∧ ipS2u row.ip = a := by
  cases hpf : cfg.pf_enabled with
  | false => simp [prepareDatabases, hpf]
  | true =>
    simp only [prepareDatabases, hpf, ↓reduceIte, List.mem_map, Scan.mem_visit, List.mem_filter,
      decide_eq_true_eq, Effect.pfAdd.injEq, true_and]
    apply exists_congr
    intro row
    rw [and_assoc]
    by_cases hstatic : row.auth_info = "static"
    · rw [mem_populate_static hstatic]
    · simp [hstatic]

theorem admitted_iff : Admitted cfg T ↔ ∀ row ∈ T.rows, RowAdmitted cfg row := by
  constructor
  · intro h row hrow hstatic
    exact ⟨h.1 row hrow hstatic,
      fun hpf => h.2 .rowid _ (pfAdd_prepare.mpr ⟨hpf, row, hrow, hstatic, rfl⟩)⟩
  · intro h
    refine ⟨fun row hrow hstatic => (h row hrow hstatic).1, ?_⟩
    intro scan a ha
    obtain ⟨hpf, row, hrow, hstatic, rfl⟩ := pfAdd_prepare.mp ha
    exact (h row hrow hstatic).2 hpf

theorem populate_admitted (cfg : Config) : Admitted cfg (populate cfg.nets .empty) := by
  rw [admitted_iff]
  intro row hrow hstatic
  exact absurd ((mem_populate_static hstatic).mp hrow) List.not_mem_nil

end Start

section Entries
variable {cfg : Config} {m : U64}

theorem inetHost_unassigned (h : getStaticIp cfg (.ofU64 m) = none) : ¬InetHost cfg (macU2s m) := by
  rintro ⟨m', ip, hassigned, hmac⟩
  exact assigned_absurd ((getStaticIp_congr hmac).symm.trans h) hassigned

theorem inetHost_assigned {ip : IPAddress} {inet_access : Bool}
    (h : getStaticIp cfg (.ofU64 m) = some (ip, inet_access)) :
    InetHost cfg (macU2s m) ↔ inet_access = true := by
  constructor
  · rintro ⟨m', ip', hassigned, hmac⟩
    rw [← getStaticIp_congr hmac, h] at hassigned
    exact (Prod.mk.inj (Option.some.inj hassigned)).2
  · rintro rfl
    exact ⟨m, ip, h, rfl⟩

theorem inetAddress_text {ip : IPAddress} (h : getStaticIp cfg (.ofU64 m) = some (ip, true)) :
    InetAddress cfg (ipS2u ip.s_addr) :=
  ⟨m, ip, h, congrArg IPAddress.u_addr (getStaticIp_text h)⟩

end Entries

section Writes
variable {cfg : Config} {env : Env} {T T' : Leases}

theorem admitted_static (hT : Admitted cfg T) {mac : MACAddress} {ip : IPAddress}
    {auth_info : String} (hrows : ∀ k, T'.row? k =
      if k = ip.s_addr then some (staticRow cfg env mac ip auth_info) else T.row? k) :
    Admitted cfg T' ↔ RowAdmitted cfg (staticRow cfg env mac ip auth_info) := by
  rw [admitted_iff] at hT ⊢
  have hmem {r : Lease} : r ∈ T'.rows ↔ r = staticRow cfg env mac ip auth_info ∨
      (r ∈ T.rows ∧ r.ip ≠ ip.s_addr) := Table.mem_write rfl hrows
  constructor
  · exact fun h => h _ (hmem.mpr (Or.inl rfl))
  · intro h r hr
    rcases hmem.mp hr with rfl | ⟨hold, _⟩
    · exact h
    · exact hT r hold

theorem admitted_recordLease (hT : Admitted cfg T) {mac : MACAddress} {ip : IPAddress}
    {auth_info : Option String} : Admitted cfg (recordLease cfg env mac ip auth_info T) ↔
      ∀ row, T.row? ip.s_addr = some row → RowAdmitted cfg (updated cfg env mac auth_info row) := by
  rw [admitted_iff] at hT ⊢
  constructor
  · exact fun h row hrow => h _ (mem_recordLease.mpr (Or.inl ⟨row, hrow, rfl⟩))
  · intro h r hr
    rcases mem_recordLease.mp hr with ⟨row, hrow, rfl⟩ | ⟨hold, _⟩
    · exact h row hrow
    · exact hT r hold

theorem Admitted.recordLease (hT : Admitted cfg T) {mac : MACAddress} {ip : IPAddress}
    {auth_info : String} (hword : auth_info ≠ "static") :
    Admitted cfg (recordLease cfg env mac ip (some auth_info) T) :=
  (admitted_recordLease hT).mpr fun _ _ hstatic => absurd hstatic hword

end Writes

section Calls
variable {cfg : Config} {env : Env} {T : Leases} {m : U64}

/-- `ip_alloc` writes `static` for hosts with internet access only. -/
theorem alloc_admitted (hT : Admitted cfg T) :
    Admitted cfg (serveCall cfg T ⟨env, .ipAlloc m⟩).1 := by
  obtain ⟨leases, ip, effects, hr, hspec⟩ := serveCall_alloc cfg env m T
  simp only [hr]
  cases hspec with
  | @static ip inet_access _ hassigned hrows =>
    rw [admitted_static hT hrows]
    cases inet_access with
    | false => exact fun hstatic => absurd hstatic (by simp [staticRow])
    | true => exact fun _ => ⟨⟨m, ip, hassigned, rfl⟩, fun _ => inetAddress_text hassigned⟩
  | leased _ _ => exact hT.recordLease (by decide)
  | fresh _ _ _ => exact hT.recordLease (by decide)
  | refused _ _ _ => exact hT

/-- A confirmed REQUEST of a static host writes `static`, whatever its entry grants. -/
theorem check_admitted_assigned (hT : Admitted cfg T) {ip : Option U32} {newip : IPAddress}
    {inet_access : Bool} (hassigned : getStaticIp cfg (.ofU64 m) = some (newip, inet_access)) :
    Admitted cfg (serveCall cfg T ⟨env, .ipCheck m ip⟩).1 ↔
      (cfg.nets.mysubnet (requested ip) ≠ none → (requested ip).u_addr = newip.u_addr →
        inet_access = true ∧ (ip = none → cfg.pf_enabled = true → InetAddress cfg 0)) := by
  obtain ⟨leases, granted, hr, hspec⟩ := serveCall_check cfg env m ip T
  simp only [hr]
  cases hspec with
  | declined reason =>
    apply iff_of_true hT
    intro hinside hsame
    -- the other reasons are those of clients without an assignment
    cases reason with
    | foreign hout => exact absurd hout hinside
    | assigned hassigned' hdiffers =>
      cases hassigned.symm.trans hassigned'
      exact absurd hsame hdiffers
    | unknown _ hfree _ => exact (assigned_absurd hfree hassigned).elim
    | unleased hfree _ => exact (assigned_absurd hfree hassigned).elim
    | leased hfree _ _ => exact (assigned_absurd hfree hassigned).elim
  | static hsub hassigned' hsame hrows =>
    cases hassigned.symm.trans hassigned'
    have hinside : cfg.nets.mysubnet (requested ip) ≠ none := by
      rw [hsub]
      exact Option.some_ne_none _
    rw [admitted_static hT hrows]
    constructor
    · intro h _ _
      obtain ⟨hhost, haddress⟩ := h rfl
      refine ⟨(inetHost_assigned hassigned).mp hhost, ?_⟩
      -- without an address the row is under the empty text, which is read as 0.0.0.0
      rintro rfl hpf
      have hunset := haddress hpf
      rwa [staticRow, requested, IPAddress.unset, ipS2u_empty] at hunset
    · intro h _
      obtain ⟨rfl, hnone⟩ := h hinside hsame
      refine ⟨(inetHost_assigned hassigned).mpr rfl, fun hpf => ?_⟩
      cases ip with
      | none =>
        rw [staticRow, requested, IPAddress.unset, ipS2u_empty]
        exact hnone rfl hpf
      | some a =>
        refine ⟨m, newip, hassigned, hsame.symm.trans ?_⟩
        exact (ipS2u_ipU2s a).symm
  | leased _ hfree _ _ _ => exact (assigned_absurd hfree hassigned).elim

theorem ipCheck_renews {mac : MACAddress} {ip : IPAddress} (hfree : getStaticIp cfg mac = none)
    (h : Renews cfg env mac ip T) :
    ipCheck cfg env mac ip T = .ok (recordLease cfg env mac ip none T, true) := by
  obtain ⟨sub, newip, hsub, hdyn, hleased, hsame⟩ := h
  exact ipCheck_leased hsub hfree hdyn hleased hsame

theorem ipCheck_renews_not {mac : MACAddress} {ip : IPAddress} (hfree : getStaticIp cfg mac = none)
    (h : ¬Renews cfg env mac ip T) : ipCheck cfg env mac ip T = .ok (T, false) := by
  unfold ipCheck
  cases hsub : cfg.nets.mysubnet ip with
  | none => rfl
  | some sub =>
    simp only [hfree]
    split_ifs with hdyn
    · rfl
    · cases hleased : getLeasedIp env mac T with
      | none => rfl
      | some newip =>
        refine if_pos fun hsame => h ⟨sub, newip, hsub, ?_, hleased, hsame⟩
        simpa using hdyn

/-- A renewal keeps the word of the row, under the new owner. -/
theorem check_admitted_unassigned (hT : Admitted cfg T) {ip : Option U32}
    (hfree : getStaticIp cfg (.ofU64 m) = none) :
    Admitted cfg (serveCall cfg T ⟨env, .ipCheck m ip⟩).1 ↔
      (Renews cfg env (.ofU64 m) (requested ip) T →
        ∀ row, T.row? (requested ip).s_addr = some row → row.auth_info ≠ "static") := by
  by_cases h : Renews cfg env (.ofU64 m) (requested ip) T
  · simp only [serveCall, ipCheck_renews hfree h, answerCheck, h, forall_const]
    rw [admitted_recordLease hT]
    apply forall₂_congr
    intro row _
    constructor
    · exact fun hrow hstatic => inetHost_unassigned hfree (hrow hstatic).1
    · exact fun hword hstatic => absurd hstatic hword
  · simp only [serveCall, ipCheck_renews_not hfree h, answerCheck]
    exact iff_of_true hT fun hrenews => absurd hrenews h

theorem serveCall_admitted (hT : Admitted cfg T) (op : Op) :
    Admitted cfg (serveCall cfg T ⟨env, op⟩).1 ↔ KeepsAdmitted cfg env T op := by
  cases op with
  | ipAlloc m => exact iff_of_true (alloc_admitted hT) trivial
  | ipCheck m ip =>
    simp only [KeepsAdmitted]
    cases hstatic : getStaticIp cfg (.ofU64 m) with
    | none =>
      rw [check_admitted_unassigned hT hstatic]
      simp
    | some found =>
      obtain ⟨newip, inet_access⟩ := found
      rw [check_admitted_assigned hT hstatic]
      simp
  | ipFree m ip => exact iff_of_true hT trivial
  | ipInvalidate m ip => exact iff_of_true (hT.recordLease (by decide)) trivial

end Calls

theorem mainLoop_admitted {cfg : Config} {T : Leases} (d : Datagram) (hT : Admitted cfg T) :
    Admitted cfg (mainLoop cfg T d).1 ↔ ∀ op, d.op = some op → KeepsAdmitted cfg d.env T op := by
  rw [mainLoop_leases]
  cases d.op with
  | none => exact iff_of_true hT fun _ h => absurd h.symm (Option.some_ne_none _)
  | some op =>
    simp only [Option.some.injEq, forall_eq']
    exact serveCall_admitted hT op

/-- A run over an empty database admits hosts with internet access only exactly when every static
host that confirms its address in it has internet access, and no lease is renewed in it under
the text of a static row. -/
theorem admitted_iff_requests (cfg : Config) (ds : List Datagram) :
    (∀ pre, pre <+: ds → Admitted cfg (after (mainLoop cfg) (populate cfg.nets .empty) pre)) ↔
    Meets (mainLoop cfg) (fun T d => ∀ op, d.op = some op → KeepsAdmitted cfg d.env T op)
      (populate cfg.nets .empty) ds :=
  meets_iff_invariant (fun _ d hT => mainLoop_admitted d hT) (populate_admitted cfg) ds

/-- A host without internet access confirms its static address. -/
theorem request_admits_internal_host : ¬∀ (cfg : Config) (ds : List Datagram),
    (∀ d ∈ ds, Negotiates d) → Admitted cfg (after (mainLoop cfg) (populate cfg.nets .empty) ds) := by
  intro h
  have hstatic := (h (staticCfg "10.20.11.33" "N")
    [exampleDatagram 1000 DHCP_DISCOVER 9 0,
      exampleDatagram 1001 DHCP_REQUEST 9 (ipS2u "10.20.11.33")] (by
    simp only [List.forall_mem_cons, List.not_mem_nil, false_imp_iff, implies_true, and_true]
    exact ⟨⟨_, rfl, Or.inl rfl⟩, ⟨_, rfl, Or.inr rfl⟩⟩)).1
  have hhost : InetHost (staticCfg "10.20.11.33" "N") (macU2s 9) :=
    hstatic ⟨macU2s 9, "10.20.11.33", 1001, 1181, "static"⟩ (by decide) rfl
  have hassigned : getStaticIp (staticCfg "10.20.11.33" "N") (.ofU64 9) =
      some (.ofText "10.20.11.33", false) := by rfl
  exact absurd ((inetHost_assigned hassigned).mp hhost) (by decide)

end S3Dhcpd
