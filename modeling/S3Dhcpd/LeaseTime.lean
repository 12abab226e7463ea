import S3Dhcpd.Calls
import S3Dhcpd.WireReplies

/-! The expiry that is stored for a lease, against the clock and the time that the client is told. -/
namespace S3Dhcpd
open KeyedTable

/-- A number in network byte order. -/
def bigEndian (value : List Byte) : ℕ := value.foldl (fun n b => 256*n+b.toNat) 0

/-- A call that records leases has stored the row in the table it leaves. -/
inductive Stores (cfg : Config) (env : Env) : Leases → Lease → Prop
  | update (mac : MACAddress) (ip : IPAddress) (auth_info : Option String) (T : Leases) (row : Lease)
      (hrow : row ∈ (doUpdateLease cfg env mac ip auth_info T).1.rows) (hip : row.ip = ip.s_addr) :
      Stores cfg env (doUpdateLease cfg env mac ip auth_info T).1 row
  | create (mac : MACAddress) (ip : IPAddress) (auth_info : String) (T T' : Leases) (changes : ℕ)
      (row : Lease) (hcreate : doCreateLease cfg env mac ip auth_info T = .ok (T', changes))
      (hrow : row ∈ T'.rows) (hip : row.ip = ip.s_addr) : Stores cfg env T' row

/-- The reply that tells a client its lease time. -/
def Advertises (cfg : Config) (response : DHCP_Packet) : Prop := ∃ g request ip,
  DHCP_Packet.createDhcpOffer cfg.nets g request ip = .ok response ∨
    DHCP_Packet.createDhcpAck cfg.nets g request ip = some response

/-- A lease that has not expired at the clock value of the call that stored it, that no allocation
at this clock value gives away, and that lasts as long as its client is told. -/
structure FreshLease (cfg : Config) (now : U32) (T : Leases) (row : Lease) : Prop where
  current : now.toInt ≤ row.expire
  kept : ¬ NextFree T now row
  advertised : ∀ response, Advertises cfg response →
    ∀ value ∈ response.optionValues DHO_DHCP_LEASE_TIME,
      (bigEndian value : ℤ) ≤ row.expire-now.toInt

/-- Every lease that is stored at a clock value is fresh. -/
def LeasesFresh (cfg : Config) (now : U32) : Prop :=
  ∀ scan T row, Stores cfg ⟨now, scan⟩ T row → FreshLease cfg now T row

section Expiry
variable {cfg : Config} {env : Env} {T : Leases} {row : Lease} {now : U32}

theorem doCreateLease_ok {mac : MACAddress} {ip : IPAddress} {auth_info : String} {T' : Leases}
    {changes : ℕ} (h : doCreateLease cfg env mac ip auth_info T = .ok (T', changes)) :
    T'.rows = T.rows ++ [staticRow cfg env mac ip auth_info] ∧ ∀ row ∈ T.rows, row.ip ≠ ip.s_addr := by
  rw [doCreateLease] at h
  split at h
  · next hinsert =>
    cases h
    exact Table.insert_some hinsert
  · cases h

/-- Both statements write the same expiry. -/
theorem Stores.expire (h : Stores cfg env T row) : row.expire = expireAt cfg env.now := by
  cases h with
  | update mac ip auth_info T row hrow hip =>
    rw [doUpdateLease, Table.mem_update] at hrow
    rcases hrow with ⟨row', -, rfl⟩ | ⟨-, hne⟩
    · rfl
    · exact absurd hip hne
  | create mac ip auth_info T T' changes row hcreate hrow hip =>
    obtain ⟨hrows, habsent⟩ := doCreateLease_ok hcreate
    rw [hrows, List.mem_append, List.mem_singleton] at hrow
    rcases hrow with hrow | rfl
    · exact absurd hip (habsent row hrow)
    · rfl

theorem bigEndian_htonl (n : U32) : bigEndian (bytesOf (htonl n)) = n.toNat := by
  have hbytes : bytesOf (htonl n) = [byteOf n 3, byteOf n 2, byteOf n 1, byteOf n 0] := by
    simp [bytesOf, htonl, ipSwapInt, uint32]
  -- each byte is a digit to the base 256
  have hn := n.isLt
  simp only [hbytes, bigEndian, List.foldl_cons, List.foldl_nil, byteOf, BitVec.extractLsb'_toNat,
    Nat.shiftRight_eq_div_pow]
  omega

theorem Advertises.lease_time {response : DHCP_Packet} (h : Advertises cfg response) :
    response.optionValues DHO_DHCP_LEASE_TIME =
      [bytesOf (htonl cfg.nets.globalnet.lease_time)] := by
  obtain ⟨g, request, ip, h | h⟩ := h
  · rw [DHCP_Packet.createDhcpOffer] at h
    cases hsub : cfg.nets.mysubnet ip with
    | none =>
      rw [hsub] at h
      cases h
    | some mysub =>
      rw [hsub] at h
      cases h
      rfl
  · rw [DHCP_Packet.createDhcpAck] at h
    cases hsub : cfg.nets.mysubnet ip with
    | none =>
      rw [hsub] at h
      cases h
    | some mysub =>
      rw [hsub] at h
      cases h
      rfl

/-- The narrowed sum is not in the past unless it left the range of `int`. -/
theorem now_le_expireAt (hnow : 0 ≤ now.toInt) : now.toInt ≤ expireAt cfg now ↔
    now.toInt+cfg.nets.globalnet.lease_time.toNat < 2^31 := by
  constructor
  · intro h
    have hlo := BitVec.le_toInt now
    rw [expireAt, BitVec.toInt_eq_toNat_cond, BitVec.toInt_eq_toNat_cond, BitVec.toNat_add] at h
    rw [BitVec.toInt_eq_toNat_cond] at hnow ⊢
    have hn := now.isLt
    have hl := cfg.nets.globalnet.lease_time.isLt
    -- a sum from `2^31` on wraps to a number below the clock value
    split_ifs at * <;> omega
  · intro h
    rw [expireAt_eq h]
    omega

/-- A call can store a row that is then alone in its table. -/
theorem exists_stored (cfg : Config) (env : Env) :
    ∃ T row, Stores cfg env T row ∧ T.rows = [row] ∧ row.auth_info ≠ "excluded" := by
  obtain ⟨T, hinsert, hrows⟩ := @Table.insert_absent _ _ Lease.ip _ Table.empty
    (staticRow cfg env (.ofU64 0) (.ofU32 0) "static") rfl
  have hcreate : doCreateLease cfg env (.ofU64 0) (.ofU32 0) "static" Table.empty = .ok (T, 1) := by
    rw [staticRow] at hinsert
    rw [doCreateLease, hinsert]
  have hrow : staticRow cfg env (.ofU64 0) (.ofU32 0) "static" ∈ T.rows := by
    rw [hrows]
    exact List.mem_append_right _ (List.mem_singleton_self _)
  exact ⟨T, _, .create _ _ _ _ _ _ _ hcreate hrow rfl, hrows, by simp [staticRow]⟩

theorem LeasesFresh.current (h : LeasesFresh cfg now) : now.toInt ≤ expireAt cfg now := by
  obtain ⟨T, row, hstored, -, -⟩ := exists_stored cfg ⟨now, .rowid⟩
  have hexpire : row.expire = expireAt cfg now := hstored.expire
  rw [← hexpire]
  exact (h .rowid T row hstored).current

/-- What is stored is fresh where the clock and the lease time add up to an `int`. -/
theorem lease_fresh (cfg : Config) (hnow : 0 ≤ now.toInt) :
    LeasesFresh cfg now ↔ now.toInt+cfg.nets.globalnet.lease_time.toNat < 2^31 := by
  constructor
  · intro h
    exact (now_le_expireAt hnow).mp h.current
  · intro h scan T row hstored
    have hexpire : row.expire = expireAt cfg now := hstored.expire
    rw [expireAt_eq h] at hexpire
    have hcurrent : now.toInt ≤ row.expire := by omega
    refine ⟨hcurrent, fun hfree => absurd hfree.2.1 (not_lt.mpr hcurrent), ?_⟩
    intro response hresponse value hvalue
    rw [hresponse.lease_time, List.mem_singleton] at hvalue
    rw [hvalue, bigEndian_htonl, hexpire]
    omega

theorem lease_fresh_example : LeasesFresh exampleCfg 1700000000 :=
  (lease_fresh exampleCfg (by decide)).mpr (by decide)

end Expiry

/-- Leases without an end, as the time is written for them. -/
def endlessRc : Apprc where
  items := {
    rows := [
      ("global-server-addr", "10.20.0.10"), ("global-server-netmask", "255.255.255.0"),
      ("global-domain-name", "hotrixit.com"), ("global-lease-time", "-1"),
      ("global-renew-time", "60")]
    unique := by decide }
  keyst := none

def endlessNets : Subnets where
  globalnet := {
    domain_name := "hotrixit.com"
    addr := .ofText "10.20.0.10"
    netmask := .ofText "255.255.255.0"
    broadcast := .ofText "10.20.0.255"
    lease_time := 0xFFFFFFFF
    renew_time := 60 }
  subnets := []
  renew_le := by decide
  ranges := fun _ hsub => absurd hsub List.not_mem_nil

/-- An endless lease is stored as one that has expired already. -/
theorem endless_lease_expired : Subnets.load endlessRc = .ok endlessNets ∧
    ¬ LeasesFresh ⟨endlessNets, endlessRc, none, false, false⟩ 1700000000 := by
  refine ⟨rfl, fun h => ?_⟩
  have hfits := (now_le_expireAt (by decide)).mp h.current
  exact absurd hfits (by decide)

end S3Dhcpd
