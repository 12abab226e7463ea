import S3Dhcpd.Allocator

/-! What each operation of the allocator can do to the lease table, stated once. -/
namespace S3Dhcpd
open KeyedTable

/-- A row that `get_leased_ip` may return for a client. -/
def Owns (T : Leases) (mac : MACAddress) (row : Lease) : Prop :=
  row ∈ T.rows ∧ row.mac = mac.s_addr ∧ row.auth_info ≠ "excluded"

/-- A row that `get_new_ip` may return: expired, and no expired row expires earlier. -/
def NextFree (T : Leases) (now : U32) (row : Lease) : Prop :=
  row ∈ T.rows ∧ row.expire < now.toInt ∧ row.auth_info ≠ "excluded" ∧
    ∀ row' ∈ T.rows, row'.expire < now.toInt → row'.auth_info ≠ "excluded" →
      row.expire ≤ row'.expire

section Queries
variable {env : Env} {mac : MACAddress} {T : Leases}

theorem getLeasedIp_some {ip : IPAddress} (h : getLeasedIp env mac T = some ip) :
    ∃ row, Owns T mac row ∧ ip = .ofText row.ip := by
  obtain ⟨row, hrow, rfl⟩ := Option.map_eq_some_iff.mp h
  obtain ⟨hmem, hp⟩ := Scan.first_some hrow
  rw [Bool.and_eq_true, decide_eq_true_eq, decide_eq_true_eq] at hp
  exact ⟨row, ⟨hmem, hp⟩, rfl⟩

theorem getLeasedIp_none : getLeasedIp env mac T = none ↔ ∀ row, ¬Owns T mac row := by
  rw [getLeasedIp, Option.map_eq_none_iff, Scan.first_none]
  simp only [Owns, Bool.and_eq_false_imp, decide_eq_true_eq, decide_eq_false_iff_not, not_and]

theorem getLeasedIp_unique {row : Lease} (hown : Owns T mac row)
    (hunique : ∀ row', Owns T mac row' → row' = row) :
    getLeasedIp env mac T = some (.ofText row.ip) := by
  cases h : getLeasedIp env mac T with
  | none => exact absurd hown (getLeasedIp_none.mp h row)
  | some ip =>
    obtain ⟨row', hown', rfl⟩ := getLeasedIp_some h
    rw [hunique row' hown']

theorem getNewIp_some {ip : IPAddress} (h : getNewIp env T = some ip) :
    ∃ row, NextFree T env.now row ∧ ip = .ofText row.ip := by
  obtain ⟨row, hrow, rfl⟩ := Option.map_eq_some_iff.mp h
  obtain ⟨hmem, hp, hmin⟩ := Scan.least_some hrow
  simp only [Bool.and_eq_true, decide_eq_true_eq] at hp hmin
  exact ⟨row, ⟨hmem, hp.1, hp.2, fun row' hr he hx => hmin row' hr ⟨he, hx⟩⟩, rfl⟩

theorem getNewIp_none : getNewIp env T = none ↔
    ∀ row ∈ T.rows, row.expire < env.now.toInt → row.auth_info = "excluded" := by
  rw [getNewIp, Option.map_eq_none_iff, Scan.least_none]
  simp only [Bool.and_eq_false_imp, decide_eq_true_eq, decide_eq_false_iff_not, not_not]

/-- Every row that the queries may return is what they return under some scan. -/
theorem getLeasedIp_favour {row : Lease} (h : Owns T mac row) (now : U32) :
    getLeasedIp ⟨now, Scan.favour row⟩ mac T = some (.ofText row.ip) := by
  have hp : (decide (row.mac = mac.s_addr) && decide (row.auth_info ≠ "excluded")) = true := by
    rw [Bool.and_eq_true, decide_eq_true_eq, decide_eq_true_eq]
    exact h.2
  rw [getLeasedIp, Scan.favour_first h.1 hp]
  rfl

theorem getNewIp_favour {row : Lease} {now : U32} (h : NextFree T now row) :
    getNewIp ⟨now, Scan.favour row⟩ T = some (.ofText row.ip) := by
  have hp : (decide (row.expire < now.toInt) && decide (row.auth_info ≠ "excluded")) = true := by
    rw [Bool.and_eq_true, decide_eq_true_eq, decide_eq_true_eq]
    exact ⟨h.2.1, h.2.2.1⟩
  rw [getNewIp, Scan.favour_least h.1 hp ?_]
  · rfl
  · intro row' hr hp
    simp only [Bool.and_eq_true, decide_eq_true_eq] at hp
    exact h.2.2.2 row' hr hp.1 hp.2

end Queries

theorem assigned_absurd {cfg : Config} {mac : MACAddress} {found : IPAddress × Bool}
    (hunassigned : getStaticIp cfg mac = none) (hassigned : getStaticIp cfg mac = some found) :
    False := by
  rw [hunassigned] at hassigned
  cases hassigned

/-- A static assignment is a text, and what it denotes. -/
theorem getStaticIp_text {cfg : Config} {mac : MACAddress} {ip : IPAddress} {inet_access : Bool}
    (h : getStaticIp cfg mac = some (ip, inet_access)) : ip = .ofText ip.s_addr := by
  unfold getStaticIp rcStaticIp at h
  dsimp only at h
  split at h
  · rename_i found hfound
    split at hfound
    · cases hfound
      cases h
      rfl
    · cases hfound
  · split at h
    · cases h
    · split at h
      · cases h
      · cases h
        rfl

section Statements
variable {cfg : Config} {env : Env} {mac : MACAddress} {ip : IPAddress} {T : Leases}

theorem row?_recordLease (auth_info : Option String) (k : String) :
    (recordLease cfg env mac ip auth_info T).row? k =
      if k = ip.s_addr then (T.row? k).map (updated cfg env mac auth_info) else T.row? k := by
  rw [recordLease, doUpdateLease, Table.row?_update]
  split_ifs with hk
  · rw [hk]
  · rfl

theorem mem_recordLease {auth_info : Option String} {row' : Lease} :
    row' ∈ (recordLease cfg env mac ip auth_info T).rows ↔
      (∃ row, T.row? ip.s_addr = some row ∧ row' = updated cfg env mac auth_info row) ∨
        (row' ∈ T.rows ∧ row'.ip ≠ ip.s_addr) := by
  rw [recordLease, doUpdateLease, Table.mem_update]

theorem recordLease_absent {auth_info : Option String} (h : T.row? ip.s_addr = none) :
    recordLease cfg env mac ip auth_info T = T :=
  Table.update_absent _ (updated_ip cfg env mac auth_info) h

/-- The row that `record_static_lease` leaves under the address. -/
def staticRow (cfg : Config) (env : Env) (mac : MACAddress) (ip : IPAddress) (auth_info : String) :
    Lease where
  mac := mac.s_addr
  ip := ip.s_addr
  ts := env.now.toInt
  expire := expireAt cfg env.now
  auth_info := auth_info

/-- `record_static_lease` cannot violate the unique index: it inserts only what the update did
not find. -/
theorem recordStaticLease_ok (cfg : Config) (env : Env) (mac : MACAddress) (ip : IPAddress)
    (auth_info : String) (T : Leases) :
    ∃ T', recordStaticLease cfg env mac ip auth_info T = .ok T' ∧ ∀ k, T'.row? k =
      if k = ip.s_addr then some (staticRow cfg env mac ip auth_info) else T.row? k := by
  cases h : T.row? ip.s_addr with
  | some row =>
    -- one row was updated, and the insert is not reached
    have hone : T.changes ip.s_addr = 1 := Table.changes_eq_one.mpr ⟨row, h⟩
    refine ⟨(doUpdateLease cfg env mac ip (some auth_info) T).1, ?_, ?_⟩
    · simp [recordStaticLease, doUpdateLease, hone]
    · intro k
      have hrow : (recordLease cfg env mac ip (some auth_info) T).row? k =
          if k = ip.s_addr then (T.row? k).map (updated cfg env mac (some auth_info))
          else T.row? k := row?_recordLease _ k
      rw [recordLease] at hrow
      rw [hrow]
      split_ifs with hk
      · have hkey : row.ip = ip.s_addr := (Table.row?_eq_some.mp h).2
        rw [hk, h, Option.map_some, updated, staticRow, hkey]
        rfl
      · rfl
  | none =>
    -- nothing was updated, so the insert cannot find the key
    have hone : T.changes ip.s_addr ≠ 1 := by
      intro hc
      obtain ⟨row, hrow⟩ := Table.changes_eq_one.mp hc
      rw [h] at hrow
      cases hrow
    have hsame : (doUpdateLease cfg env mac ip (some auth_info) T).1 = T :=
      recordLease_absent h
    obtain ⟨T', hT', hrows⟩ := Table.insert_absent (r := staticRow cfg env mac ip auth_info) h
    refine ⟨T', ?_, Table.row?_append_new hrows⟩
    have hins : doCreateLease cfg env mac ip auth_info T = .ok (T', 1) := by
      rw [staticRow] at hT'
      simp only [doCreateLease, hT']
    have hne : (doUpdateLease cfg env mac ip (some auth_info) T).2 ≠ 1 := hone
    simp only [recordStaticLease, hne, ne_eq, not_false_eq_true, ↓reduceIte, hsame, hins]
    rfl

end Statements

/-- The rows are under canonical dotted quads. -/
def Canonical (T : Leases) : Prop := ∀ row ∈ T.rows, CanonicalQuad row.ip

theorem Canonical.row_text {T : Leases} (hT : Canonical T) {row : Lease} (hrow : row ∈ T.rows) :
    ipU2s (ipS2u row.ip) = row.ip := ((canonicalQuad_iff row.ip).mp (hT row hrow)).symm

theorem ipU2s_ne_empty (a : U32) : ipU2s a ≠ "" := by
  intro h
  have hl := congrArg (fun s : String => s.toList.length) h
  simp [ipU2s] at hl

theorem Canonical.row?_unset {T : Leases} (hT : Canonical T) :
    T.row? IPAddress.unset.s_addr = none := by
  rw [Table.row?_eq_none]
  intro row hrow hempty
  exact ipU2s_ne_empty _ ((hT.row_text hrow).trans hempty)

theorem Canonical.recordLease {cfg : Config} {env : Env} {mac : MACAddress} {ip : IPAddress}
    {auth_info : Option String} {T : Leases} (hT : Canonical T) :
    Canonical (recordLease cfg env mac ip auth_info T) := by
  intro row' hrow'
  rcases mem_recordLease.mp hrow' with ⟨row, hrow, rfl⟩ | ⟨hmem, _⟩
  · exact hT row (Table.row?_eq_some.mp hrow).1
  · exact hT row' hmem

/-- What `ip_alloc` may do: the table it leaves and the address it grants. -/
inductive Allocates (cfg : Config) (env : Env) (mac : MACAddress) (T : Leases) :
    Leases → Option IPAddress → Prop where
  | static {ip : IPAddress} {inet_access : Bool} {T' : Leases}
      (assigned : getStaticIp cfg mac = some (ip, inet_access))
      (recorded : ∀ k, T'.row? k = if k = ip.s_addr then
        some (staticRow cfg env mac ip (if inet_access then "static" else "internal"))
        else T.row? k) : Allocates cfg env mac T T' (some ip)
  | leased {row : Lease} (unassigned : getStaticIp cfg mac = none) (owned : Owns T mac row) :
      Allocates cfg env mac T (recordLease cfg env mac (.ofText row.ip) (some "leased") T)
        (some (.ofText row.ip))
  | fresh {row : Lease} (unassigned : getStaticIp cfg mac = none)
      (ownsNone : ∀ row, ¬Owns T mac row) (free : NextFree T env.now row) :
      Allocates cfg env mac T (recordLease cfg env mac (.ofText row.ip) (some "new") T)
        (some (.ofText row.ip))
  | refused (unassigned : getStaticIp cfg mac = none) (ownsNone : ∀ row, ¬Owns T mac row)
      (full : ∀ row ∈ T.rows, row.expire < env.now.toInt → row.auth_info = "excluded") :
      Allocates cfg env mac T T none

theorem ipAlloc_spec (cfg : Config) (env : Env) (mac : MACAddress) (T : Leases) :
    ∃ leases ip effects, ipAlloc cfg env mac T = .ok ⟨leases, ip, effects⟩ ∧
      Allocates cfg env mac T leases ip := by
  unfold ipAlloc
  -- the three lookups in the order of the source
  cases hs : getStaticIp cfg mac with
  | some found =>
    obtain ⟨ip, inet_access⟩ := found
    obtain ⟨T', hT', hrow⟩ := recordStaticLease_ok cfg env mac ip
      (if inet_access then "static" else "internal") T
    simp only [hT']
    exact ⟨_, _, _, rfl, .static hs hrow⟩
  | none =>
    cases hl : getLeasedIp env mac T with
    | some ip =>
      obtain ⟨row, hown, rfl⟩ := getLeasedIp_some hl
      exact ⟨_, _, _, rfl, .leased hs hown⟩
    | none =>
      have hnone := getLeasedIp_none.mp hl
      cases hn : getNewIp env T with
      | some ip =>
        obtain ⟨row, hfree, rfl⟩ := getNewIp_some hn
        exact ⟨_, _, _, rfl, .fresh hs hnone hfree⟩
      | none => exact ⟨_, _, _, rfl, .refused hs hnone (getNewIp_none.mp hn)⟩

section Branches
variable {cfg : Config} {env : Env} {mac : MACAddress} {T T' : Leases} {ip newip : IPAddress}
  {inet_access : Bool} {sub : Subnet}

theorem ipAlloc_static (hassigned : getStaticIp cfg mac = some (ip, inet_access))
    (hrecord : recordStaticLease cfg env mac ip (if inet_access then "static" else "internal") T =
      .ok T') : ∃ effects, ipAlloc cfg env mac T = .ok ⟨T', some ip, effects⟩ := by
  unfold ipAlloc
  rw [hassigned]
  dsimp only
  rw [hrecord]
  exact ⟨_, rfl⟩

theorem ipAlloc_leased (hfree : getStaticIp cfg mac = none)
    (hleased : getLeasedIp env mac T = some ip) :
    ipAlloc cfg env mac T = .ok ⟨recordLease cfg env mac ip (some "leased") T, some ip, []⟩ := by
  unfold ipAlloc
  rw [hfree, hleased]

theorem ipAlloc_fresh (hfree : getStaticIp cfg mac = none) (hnone : getLeasedIp env mac T = none)
    (hnew : getNewIp env T = some ip) : ∃ effects,
      ipAlloc cfg env mac T = .ok ⟨recordLease cfg env mac ip (some "new") T, some ip, effects⟩ := by
  unfold ipAlloc
  rw [hfree, hnone, hnew]
  exact ⟨_, rfl⟩

theorem ipCheck_static (hsub : cfg.nets.mysubnet ip = some sub)
    (hassigned : getStaticIp cfg mac = some (newip, inet_access)) (hsame : ip.u_addr = newip.u_addr)
    (hrecord : recordStaticLease cfg env mac ip "static" T = .ok T') :
    ipCheck cfg env mac ip T = .ok (T', true) := by
  unfold ipCheck
  rw [hsub, hassigned]
  dsimp only
  rw [if_neg (not_not.mpr hsame), hrecord]
  rfl

/-- A client in a subnet with a dynamic range confirms the address that it holds. -/
theorem ipCheck_leased (hsub : cfg.nets.mysubnet ip = some sub) (hfree : getStaticIp cfg mac = none)
    (hdyn : sub.hasDynamicRange = true) (hleased : getLeasedIp env mac T = some newip)
    (hsame : ip.u_addr = newip.u_addr) :
    ipCheck cfg env mac ip T = .ok (recordLease cfg env mac ip none T, true) := by
  unfold ipCheck
  rw [hsub, hfree, hleased]
  dsimp only
  rw [if_neg (by rw [hdyn]; decide), if_neg (not_not.mpr hsame)]

end Branches

/-- The addresses that `ip_alloc` may return, over the scans of its queries. -/
inductive MayAllocate (cfg : Config) (T : Leases) (now : U32) (mac : MACAddress) :
    IPAddress → Prop where
  | static {ip : IPAddress} {inet_access : Bool}
      (assigned : getStaticIp cfg mac = some (ip, inet_access)) : MayAllocate cfg T now mac ip
  | leased {row : Lease} (unassigned : getStaticIp cfg mac = none) (owned : Owns T mac row) :
      MayAllocate cfg T now mac (.ofText row.ip)
  | fresh {row : Lease} (unassigned : getStaticIp cfg mac = none)
      (ownsNone : ∀ row, ¬Owns T mac row) (free : NextFree T now row) :
      MayAllocate cfg T now mac (.ofText row.ip)

theorem Allocates.mayAllocate {cfg : Config} {env : Env} {mac : MACAddress} {T T' : Leases}
    {ip : IPAddress} (h : Allocates cfg env mac T T' (some ip)) :
    MayAllocate cfg T env.now mac ip := by
  cases h with
  | static hassigned _ => exact .static hassigned
  | leased hfree hown => exact .leased hfree hown
  | fresh hfree hnone hnext => exact .fresh hfree hnone hnext

/-- Each of them is returned under some scan. -/
theorem mayAllocate_iff {cfg : Config} {T : Leases} {now : U32} {mac : MACAddress}
    {ip : IPAddress} : MayAllocate cfg T now mac ip ↔
      ∃ scan leases effects, ipAlloc cfg ⟨now, scan⟩ mac T = .ok ⟨leases, some ip, effects⟩ := by
  constructor
  · intro h
    cases h with
    | @static _ inet_access hassigned =>
      obtain ⟨T', hT', _⟩ := recordStaticLease_ok cfg ⟨now, .rowid⟩ mac ip
        (if inet_access then "static" else "internal") T
      exact ⟨.rowid, T', ipAlloc_static hassigned hT'⟩
    | @leased row hfree hown =>
      -- the scan meets the row in question first
      exact ⟨.favour row, _, _, ipAlloc_leased hfree (getLeasedIp_favour hown now)⟩
    | @fresh row hfree hnone hnext =>
      exact ⟨.favour row, _, ipAlloc_fresh hfree (getLeasedIp_none.mpr hnone)
        (getNewIp_favour hnext)⟩
  · rintro ⟨scan, leases, effects, h⟩
    obtain ⟨leases', ip', effects', h', hspec⟩ := ipAlloc_spec cfg ⟨now, scan⟩ mac T
    rw [h', Except.ok.injEq, Allocation.mk.injEq] at h
    obtain ⟨rfl, rfl, _⟩ := h
    exact hspec.mayAllocate

/-- Why `ip_check` declines an address. -/
inductive Declines (cfg : Config) (mac : MACAddress) (ip : IPAddress) (T : Leases) : Prop where
  | foreign (outside : cfg.nets.mysubnet ip = none)
  | assigned {newip : IPAddress} {inet_access : Bool}
      (assigned : getStaticIp cfg mac = some (newip, inet_access)) (differs : ip.u_addr ≠ newip.u_addr)
  | unknown {sub : Subnet} (inside : cfg.nets.mysubnet ip = some sub)
      (unassigned : getStaticIp cfg mac = none) (fixed : sub.hasDynamicRange = false)
  | unleased (unassigned : getStaticIp cfg mac = none) (ownsNone : ∀ row, ¬Owns T mac row)
  | leased {row : Lease} (unassigned : getStaticIp cfg mac = none) (owned : Owns T mac row)
      (differs : ip.u_addr ≠ ipS2u row.ip)

/-- What `ip_check` may do. -/
inductive Checks (cfg : Config) (env : Env) (mac : MACAddress) (ip : IPAddress) (T : Leases) :
    Leases → Bool → Prop where
  | declined (reason : Declines cfg mac ip T) : Checks cfg env mac ip T T false
  | static {sub : Subnet} {newip : IPAddress} {inet_access : Bool} {T' : Leases}
      (inside : cfg.nets.mysubnet ip = some sub)
      (assigned : getStaticIp cfg mac = some (newip, inet_access))
      (same : ip.u_addr = newip.u_addr)
      (recorded : ∀ k, T'.row? k = if k = ip.s_addr then some (staticRow cfg env mac ip "static")
        else T.row? k) : Checks cfg env mac ip T T' true
  | leased {sub : Subnet} {row : Lease} (inside : cfg.nets.mysubnet ip = some sub)
      (unassigned : getStaticIp cfg mac = none) (dynamic : sub.hasDynamicRange = true)
      (owned : Owns T mac row) (same : ip.u_addr = ipS2u row.ip) :
      Checks cfg env mac ip T (recordLease cfg env mac ip none T) true

theorem ipCheck_spec (cfg : Config) (env : Env) (mac : MACAddress) (ip : IPAddress) (T : Leases) :
    ∃ leases granted, ipCheck cfg env mac ip T = .ok (leases, granted) ∧
      Checks cfg env mac ip T leases granted := by
  unfold ipCheck
  -- the checks in the order of the source, each with its own refusal
  cases hsub : cfg.nets.mysubnet ip with
  | none => exact ⟨_, _, rfl, .declined (.foreign hsub)⟩
  | some sub =>
    cases hs : getStaticIp cfg mac with
    | some found =>
      obtain ⟨newip, inet_access⟩ := found
      simp only
      split_ifs with hne
      · exact ⟨_, _, rfl, .declined (.assigned hs hne)⟩
      · obtain ⟨T', hT', hrow⟩ := recordStaticLease_ok cfg env mac ip "static" T
        rw [hT']
        exact ⟨_, _, rfl, .static hsub hs (not_not.mp hne) hrow⟩
    | none =>
      simp only
      split_ifs with hdyn
      · exact ⟨_, _, rfl, .declined (.unknown hsub hs (by simpa using hdyn))⟩
      · cases hl : getLeasedIp env mac T with
        | none => exact ⟨_, _, rfl, .declined (.unleased hs (getLeasedIp_none.mp hl))⟩
        | some newip =>
          obtain ⟨row, hown, rfl⟩ := getLeasedIp_some hl
          simp only
          split_ifs with hne
          · exact ⟨_, _, rfl, .declined (.leased hs hown hne)⟩
          · exact ⟨_, _, rfl, .leased hsub hs (by simpa using hdyn) hown (not_not.mp hne)⟩

end S3Dhcpd
