import S3Dhcpd.Subnets

/-! `IPAllocator` over its SQL backend. Statements on `dhcp_leases` are those of the source; the
order in which a query without `order by` meets its rows is left to a scan. -/
namespace S3Dhcpd
open KeyedTable

/-- A row of `dhcp_leases`; its rowid alias is never read. -/
structure Lease where
  mac : String
  ip : String
  ts : ℤ
  expire : ℤ
  auth_info : String
deriving DecidableEq, Repr

/-- `dhcp_leases` under its unique index on `ip`. -/
abbrev Leases := Table Lease Lease.ip

/-- What stays fixed while the daemon runs. `static_db` gives the rows of the user's static query
for a bound mac, when a static database is configured. -/
structure Config where
  nets : Subnets
  rc : Apprc
  static_db : Option (String → List (String × String))
  pf_enabled : Bool
  rad_enabled : Bool

/-- The example configuration, without firewall, accounting and static database. -/
def exampleCfg : Config := ⟨exampleNets, exampleRc, none, false, false⟩

/-- What one call depends on besides its arguments: the clock, and the order of its scans. -/
structure Env where
  now : U32
  scan : Scan Lease

inductive IPAllocatorException where
  | cantUpdateLease (ip : String)
deriving DecidableEq, Repr

def IPAllocatorException.msg : IPAllocatorException → String
  | .cantUpdateLease ip =>
    "Can't update lease for " ++ ip ++ " - UNIQUE constraint failed: dhcp_leases.ip"

inductive AcctStatus where
  | RAD_SESSION_DHCP_START
  | RAD_SESSION_DHCP_END
deriving DecidableEq, Repr

/-- What an operation tells the packet filter and the accounting server. -/
inductive Effect where
  | pfAdd (addr : U32)
  | pfDel (addr : U32)
  | acct (status : AcctStatus) (auth_info ipaddr : String)
deriving DecidableEq, Repr

/-- The result of `ip_alloc`: `ip` is the address it hands back when it returns true. -/
structure Allocation where
  leases : Leases
  ip : Option IPAddress
  effects : List Effect

/-- The outcome of `get_static_ip`: the address, and whether the host may reach the internet. -/
def rcStaticIp (rc : Apprc) (mac : MACAddress) : Option (IPAddress × Bool) :=
  let new_name := "host-" ++ mac.s_addr
  match rc.seek new_name with
  | some str_ip => some (.ofText str_ip, rc.getbool (new_name ++ "-inet") false)
  | none => none

/-- The rc file comes first; of the rows of the static query the first is used. -/
def getStaticIp (cfg : Config) (mac : MACAddress) : Option (IPAddress × Bool) :=
  match rcStaticIp cfg.rc mac with
  | some found => some found
  | none =>
    match cfg.static_db with
    | none => none
    | some query =>
      match query mac.s_addr with
      | [] => none
      | (ip, str_access) :: _ =>
        some (.ofText ip,
          str_access.toList.head? == some 'Y' || str_access.toList.head? == some 'y')

def getLeasedIp (env : Env) (mac : MACAddress) (T : Leases) : Option IPAddress :=
  (env.scan.first (fun row => row.mac = mac.s_addr && row.auth_info ≠ "excluded") T.rows).map
    fun row => .ofText row.ip

def getNewIp (env : Env) (T : Leases) : Option IPAddress :=
  (env.scan.least (fun row => row.expire < env.now.toInt && row.auth_info ≠ "excluded")
    Lease.expire T.rows).map fun row => .ofText row.ip

/-- `int expire = now_ts + lease_time`: the sum is unsigned and narrowed back to `int`. -/
def expireAt (cfg : Config) (now : U32) : ℤ := (now+cfg.nets.globalnet.lease_time).toInt

/-- `set mac = ?, ts = ?, expire = ?`, and `auth_info = ?` when it is given. -/
def updated (cfg : Config) (env : Env) (mac : MACAddress) (auth_info : Option String)
    (row : Lease) : Lease := { row with
  mac := mac.s_addr
  ts := env.now.toInt
  expire := expireAt cfg env.now
  auth_info := auth_info.getD row.auth_info }

theorem updated_ip (cfg : Config) (env : Env) (mac : MACAddress) (auth_info : Option String)
    (row : Lease) : (updated cfg env mac auth_info row).ip = row.ip := rfl

/-- The table after `do_update_lease`, and the number of changed rows. -/
def doUpdateLease (cfg : Config) (env : Env) (mac : MACAddress) (ip : IPAddress)
    (auth_info : Option String) (T : Leases) : Leases × ℕ :=
  (T.update ip.s_addr (updated cfg env mac auth_info) (updated_ip cfg env mac auth_info),
    T.changes ip.s_addr)

def doCreateLease (cfg : Config) (env : Env) (mac : MACAddress) (ip : IPAddress)
    (auth_info : String) (T : Leases) : Except IPAllocatorException (Leases × ℕ) :=
  match T.insert {
      mac := mac.s_addr
      ip := ip.s_addr
      ts := env.now.toInt
      expire := expireAt cfg env.now
      auth_info } with
  | some T' => .ok (T', 1)
  | none => .error (.cantUpdateLease ip.s_addr)

/-- That no row was updated is only logged. -/
def recordLease (cfg : Config) (env : Env) (mac : MACAddress) (ip : IPAddress)
    (auth_info : Option String) (T : Leases) : Leases :=
  (doUpdateLease cfg env mac ip auth_info T).1

/-- Update the row of the address, or insert one. -/
def recordStaticLease (cfg : Config) (env : Env) (mac : MACAddress) (ip : IPAddress)
    (auth_info : String) (T : Leases) : Except IPAllocatorException Leases :=
  let (T', changes) := doUpdateLease cfg env mac ip (some auth_info) T
  if changes ≠ 1 then Prod.fst <$> doCreateLease cfg env mac ip auth_info T' else .ok T'

def ipAlloc (cfg : Config) (env : Env) (mac : MACAddress) (T : Leases) :
    Except IPAllocatorException Allocation :=
  -- 1. Check static database
  match getStaticIp cfg mac with
  | some (ip, inet_access) => do
    let T' ← recordStaticLease cfg env mac ip (if inet_access then "static" else "internal") T
    return {
      leases := T'
      ip := some ip
      effects := (if inet_access && cfg.pf_enabled then [.pfAdd ip.u_addr] else []) ++
        if cfg.rad_enabled then [.acct .RAD_SESSION_DHCP_START mac.s_addr ip.s_addr] else [] }
  | none =>
    -- 2. Check leased database
    match getLeasedIp env mac T with
    | some ip => .ok ⟨recordLease cfg env mac ip (some "leased") T, some ip, []⟩
    | none =>
      -- 3. Allocate new IP
      match getNewIp env T with
      | some ip => .ok {
          leases := recordLease cfg env mac ip (some "new") T
          ip := some ip
          effects := (if cfg.pf_enabled then [.pfDel ip.u_addr] else []) ++
            if cfg.rad_enabled then [.acct .RAD_SESSION_DHCP_START mac.s_addr ip.s_addr] else [] }
      | none => .ok ⟨T, none, []⟩

def ipCheck (cfg : Config) (env : Env) (mac : MACAddress) (ip : IPAddress) (T : Leases) :
    Except IPAllocatorException (Leases × Bool) :=
  -- 0. Defend from foreign leases
  match cfg.nets.mysubnet ip with
  | none => .ok (T, false)
  | some sub =>
    match getStaticIp cfg mac with
    | some (newip, _) =>
      if ip.u_addr ≠ newip.u_addr then .ok (T, false)
      else do
        let T' ← recordStaticLease cfg env mac ip "static" T
        return (T', true)
    | none =>
      -- an unknown mac in a subnet without dynamic range
      if !sub.hasDynamicRange then .ok (T, false)
      else match getLeasedIp env mac T with
        | some newip =>
          if ip.u_addr ≠ newip.u_addr then .ok (T, false)
          -- a null `auth_info` keeps what the row says
          else .ok (recordLease cfg env mac ip none T, true)
        | none => .ok (T, false)

/-- The lease table is not touched. -/
def ipFree (cfg : Config) (mac : MACAddress) (ip : IPAddress) : List Effect :=
  if cfg.rad_enabled then [.acct .RAD_SESSION_DHCP_END mac.s_addr ip.s_addr] else []

/-- The caller's own address is ignored: the row is recorded for the zero address. -/
def ipInvalidate (cfg : Config) (env : Env) (_mac : MACAddress) (ip : IPAddress) (T : Leases) :
    Leases :=
  recordLease cfg env (.ofU64 0) ip (some "invalidated") T

end S3Dhcpd
