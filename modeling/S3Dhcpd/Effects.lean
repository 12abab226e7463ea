import S3Dhcpd.MainLoop

/-! What a turn of `main_loop` tells the packet filter and the accounting server. -/
namespace S3Dhcpd
open KeyedTable

/-- What an answered call has told them. -/
def told : Answer → List Effect
  | .alloc _ effects | .freed effects => effects
  | _ => []

/-- `RAD_SESSION_DHCP_START`, when accounting is enabled. -/
def startMessage (cfg : Config) (mac : MACAddress) (ip : IPAddress) : List Effect :=
  if cfg.rad_enabled then [.acct .RAD_SESSION_DHCP_START mac.s_addr ip.s_addr] else []

/-- What `ip_alloc` may do, with what it tells: the filter learns of hosts with internet access and
of addresses that are leased anew, and the accounting server of both and of other static hosts. -/
inductive Tells (cfg : Config) (env : Env) (mac : MACAddress) (T : Leases) :
    Leases → Option IPAddress → List Effect → Prop where
  | static {ip : IPAddress} {inet_access : Bool} {T' : Leases}
      (assigned : getStaticIp cfg mac = some (ip, inet_access))
      (recorded : ∀ k, T'.row? k = if k = ip.s_addr then
        some (staticRow cfg env mac ip (if inet_access then "static" else "internal"))
        else T.row? k) :
      Tells cfg env mac T T' (some ip)
        ((if inet_access && cfg.pf_enabled then [.pfAdd ip.u_addr] else []) ++ startMessage cfg mac ip)
  | leased {row : Lease} (unassigned : getStaticIp cfg mac = none) (owned : Owns T mac row) :
      Tells cfg env mac T (recordLease cfg env mac (.ofText row.ip) (some "leased") T)
        (some (.ofText row.ip)) []
  | fresh {row : Lease} (unassigned : getStaticIp cfg mac = none)
      (ownsNone : ∀ row, ¬Owns T mac row) (free : NextFree T env.now row) :
      Tells cfg env mac T (recordLease cfg env mac (.ofText row.ip) (some "new") T)
        (some (.ofText row.ip))
        ((if cfg.pf_enabled then [.pfDel (ipS2u row.ip)] else []) ++
          startMessage cfg mac (.ofText row.ip))
  | refused (unassigned : getStaticIp cfg mac = none) : Tells cfg env mac T T none []

theorem ipAlloc_tells (cfg : Config) (env : Env) (mac : MACAddress) (T : Leases) :
    ∃ leases ip effects, ipAlloc cfg env mac T = .ok ⟨leases, ip, effects⟩ ∧
      Tells cfg env mac T leases ip effects := by
  unfold ipAlloc
  -- the three lookups in the order of the source
  cases hs : getStaticIp cfg mac with
  | some found =>
    obtain ⟨ip, inet_access⟩ := found
    obtain ⟨T', hT', hrow⟩ := recordStaticLease_ok cfg env mac ip
      (if inet_access then "static" else "internal") T
    simp only [hT']
    exact ⟨_, _, _, rfl, .static hs hrow⟩
  | none =>
    cases hl : getLeasedIp env mac T with
    | some ip =>
      obtain ⟨row, hown, rfl⟩ := getLeasedIp_some hl
      exact ⟨_, _, _, rfl, .leased hs hown⟩
    | none =>
      have hnone := getLeasedIp_none.mp hl
      cases hn : getNewIp env T with
      | some ip =>
        obtain ⟨row, hfree, rfl⟩ := getNewIp_some hn
        exact ⟨_, _, _, rfl, .fresh hs hnone hfree⟩
      | none => exact ⟨_, _, _, rfl, .refused hs⟩

theorem serveCall_tells (cfg : Config) (env : Env) (m : U64) (T : Leases) :
    ∃ leases ip effects, serveCall cfg T ⟨env, .ipAlloc m⟩ = (leases, .alloc ip effects) ∧
      Tells cfg env (.ofU64 m) T leases ip effects := by
  obtain ⟨leases, ip, effects, hr, hspec⟩ := ipAlloc_tells cfg env (.ofU64 m) T
  refine ⟨leases, ip, effects, ?_, hspec⟩
  simp only [serveCall, hr, answerAlloc]

section Turn
variable (cfg : Config) (T : Leases) (d : Datagram)

theorem offerOrNak_effects (request : DHCP_Packet) (result : Except IPAllocatorException Allocation) :
    (offerOrNak cfg T d request result).2.effects = told (answerAlloc T result).2 := by
  cases result with
  | error e => rfl
  | ok r =>
    simp only [offerOrNak, answerAlloc]
    cases r.ip with
    | none => rfl
    | some ip =>
      simp only
      split <;> rfl

theorem ackOrNak_effects (request : DHCP_Packet) (ip : IPAddress)
    (result : Except IPAllocatorException (Leases × Bool)) :
    (ackOrNak cfg T d request ip result).2.effects = [] := by
  cases result with
  | error e => rfl
  | ok r =>
    obtain ⟨leases, granted⟩ := r
    cases granted <;> rfl

theorem answerCheck_told (result : Except IPAllocatorException (Leases × Bool)) :
    told (answerCheck T result).2 = [] := by
  cases result with
  | error e => rfl
  | ok r => rfl

/-- A turn tells what its call tells, also when no response can be built. -/
theorem mainLoop_effects : (mainLoop cfg T d).2.effects =
    match d.op with
    | some op => told (serveCall cfg T ⟨d.env, op⟩).2
    | none => [] := by
  rw [mainLoop_request, Datagram.op]
  cases d.request with
  | none => rfl
  | some request =>
    simp only [dispatch, Option.bind_some, requestOp]
    -- in the order in which `main_loop` asks for the type
    split_ifs with h₁ h₂ h₃ h₄ h₅
    · exact offerOrNak_effects cfg T d request _
    · rfl
    · exact absurd (h₃.symm.trans h₄) (by decide)
    · exact absurd (h₃.symm.trans h₅) (by decide)
    · rfl
    · rw [ackOrNak_effects]
      exact (answerCheck_told T _).symm
    · rfl
    · rfl

end Turn

end S3Dhcpd
