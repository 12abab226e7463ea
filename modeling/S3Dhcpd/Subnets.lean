import S3Dhcpd.AddressRanges
import S3Dhcpd.Apprc

/-! Addresses with their texts, and the network configuration that `Subnets::load` accepts. -/
namespace S3Dhcpd

structure MACAddress where
  u_addr : U64
  s_addr : String
deriving DecidableEq, Repr

/-- `MACAddress(uint64_t)` -/
def MACAddress.ofU64 (p_uaddr : U64) : MACAddress := ⟨p_uaddr, macU2s p_uaddr⟩

def INADDR_NONE : U32 := 0xFFFFFFFF

structure IPAddress where
  s_addr : String
  u_addr : U32
deriving DecidableEq, Repr

namespace IPAddress

/-- `IPAddress(const char *)`. The source copies the text into `char s_addr[20]`: this is what it
does with a text that `Fits`. The results on the network, its leases and its replies are about such
texts; those on stored columns, on one row for an address and on accounting messages, where the
texts are any, have it as a condition. -/
def ofText (p_saddr : String) : IPAddress := ⟨p_saddr, ipS2u p_saddr⟩

/-- The text and its end fit `char s_addr[20]`, and its number `char t[4]`. -/
def Fits (p_saddr : String) : Prop :=
  p_saddr.length < 20 ∧ ipS2uInside p_saddr.toList 0 = true

instance (p_saddr : String) : Decidable (Fits p_saddr) := inferInstanceAs (Decidable (_ ∧ _))

theorem fits_ipU2s (a : U32) : Fits (ipU2s a) :=
  ⟨(length_ipU2s a).trans_lt (by decide), ipS2uInside_ipU2s a⟩

theorem fits_empty : Fits "" := ⟨by decide, rfl⟩

/-- `IPAddress(uint32_t)` -/
def ofU32 (p_uaddr : U32) : IPAddress := ⟨ipU2s p_uaddr, p_uaddr⟩

/-- `IPAddress()`: no text, and the number of 255.255.255.255. -/
def unset : IPAddress := ⟨"", INADDR_NONE⟩

end IPAddress

/-- The object that `get_requested_address` returns; without an address it is `IPAddress()`. -/
def requested : Option U32 → IPAddress
  | some a => .ofU32 a
  | none => .unset

theorem fits_requested (ip : Option U32) : IPAddress.Fits (requested ip).s_addr := by
  cases ip with
  | none => exact IPAddress.fits_empty
  | some a => exact IPAddress.fits_ipU2s a

/-- The fields that the constructor leaves unset, and nothing reads before it sets them, have
arbitrary defaults here. -/
structure Subnet where
  name : String := ""
  domain_name : String := ""
  addr : IPAddress := .unset
  netmask : IPAddress := .unset
  gateway : IPAddress := .unset
  nameserver1 : IPAddress := .unset
  nameserver2 : IPAddress := .unset
  range_start : IPAddress := .unset
  range_end : IPAddress := .unset
  lease_time : U32 := 0
  renew_time : U32 := 0
  broadcast : IPAddress := .unset
deriving DecidableEq, Repr

namespace Subnet

def myaddress (sub : Subnet) (ip : IPAddress) : Bool :=
  ipInSubnet sub.addr.u_addr sub.netmask.u_addr ip.u_addr

def composeIp (sub : Subnet) (new_ip : U32) : IPAddress :=
  .ofU32 (ipComposeIp sub.addr.u_addr new_ip)

def hasDynamicRange (sub : Subnet) : Bool := sub.range_start.u_addr != INADDR_NONE

/-- Both ends of the range, if there is one, lie in the subnet. -/
def RangeInside (sub : Subnet) : Prop :=
  sub.hasDynamicRange = true →
    sub.myaddress sub.range_start = true ∧ sub.myaddress sub.range_end = true

end Subnet

/-- A network configuration that passed the checks of `Subnets::load`. -/
structure Subnets where
  globalnet : Subnet
  subnets : List Subnet
  renew_le : ¬globalnet.renew_time > globalnet.lease_time
  ranges : ∀ sub ∈ subnets, sub.RangeInside

inductive LoadException where
  | key (e : KeyException)
  | renewTime (renew_time lease_time : U32)
  | rangeOutside
deriving DecidableEq, Repr

def LoadException.msg : LoadException → String
  | .key e => e.msg
  | .renewTime renew_time lease_time => "Renew time " ++ toString renew_time.toInt ++
      " should be less or equal than lease_time " ++ toString lease_time.toInt
  | .rangeOutside => "IP addresses range is out of subnet"

namespace Subnets

def liftKey {α : Type} : Except KeyException α → Except LoadException α
  | .ok a => .ok a
  | .error e => .error (.key e)

def address (rc : Apprc) (key : String) : Except LoadException IPAddress :=
  IPAddress.ofText <$> liftKey (rc.getstring key)

/-- The name in a key of the form `subnet-name-addr`. -/
def subnetName (key : String) : Option String :=
  if "subnet-".toList.isPrefixOf key.toList && "-addr".toList.isSuffixOf key.toList then
    some (String.ofList ((key.toList.drop 7).take (key.toList.length-7-5)))
  else none

/-- The default is evaluated first, so a global first nameserver is always required. -/
def nameserver1 (rc : Apprc) : Except LoadException IPAddress := do
  let defval ← liftKey (rc.getstring "global-nameserver1")
  return .ofText ((rc.seek "-nameserver1").getD defval)

def nameserver2 (rc : Apprc) : Except LoadException IPAddress :=
  if rc.hasKey "-nameserver2" then address rc "-nameserver2"
  else if rc.hasKey "global-nameserver2" then address rc "global-nameserver2"
  else .ok .unset

/-- One subnet, read with its name pushed on the key stack. -/
def loadSubnet (rc : Apprc) (name : String) :
    Except LoadException {sub : Subnet // sub.RangeInside} := do
  let addr ← address rc "-addr"
  let netmask ← address rc "-netmask"
  let gateway ← address rc "-gateway"
  let nameserver1 ← nameserver1 rc
  let nameserver2 ← nameserver2 rc
  let sub : Subnet := {
    name, addr, netmask, gateway, nameserver1, nameserver2
    broadcast := .ofU32 (getIpBroadcast addr.u_addr netmask.u_addr) }
  if rc.hasKey "-range-start" then
    let range_start ← address rc "-range-start"
    let range_end ← address rc "-range-end"
    let ranged := { sub with range_start, range_end }
    if h : !ranged.myaddress range_start || !ranged.myaddress range_end then throw .rangeOutside
    else return ⟨ranged, fun _ => by simpa [ranged] using h⟩
  else return ⟨sub, fun h => by simp [Subnet.hasDynamicRange, sub, IPAddress.unset] at h⟩

/-- The walk over the keys. `pop` need not give back the stack that `push` was applied to, so the
stack is threaded through. -/
def loadKeys : List String → Apprc →
    Except LoadException (Apprc × List {sub : Subnet // sub.RangeInside})
  | [], rc => .ok (rc, [])
  | key :: keys, rc =>
    match subnetName key with
    | none => loadKeys keys rc
    | some name => do
      let sub ← loadSubnet (rc.push name) name
      let rc ← liftKey (rc.push name).pop
      let (rc, subs) ← loadKeys keys rc
      return (rc, sub :: subs)

def load (rc : Apprc) : Except LoadException Subnets := do
  let domain_name ← liftKey (rc.getstring "global-domain-name")
  let addr ← address rc "global-server-addr"
  let netmask ← address rc "global-server-netmask"
  let lease_time := BitVec.ofInt 32 (← liftKey (rc.getint "global-lease-time"))
  let renew_time := BitVec.ofInt 32 (← liftKey (rc.getint "global-renew-time"))
  let globalnet : Subnet := {
    domain_name, addr, netmask, lease_time, renew_time
    broadcast := .ofU32 (getIpBroadcast addr.u_addr netmask.u_addr) }
  if h : globalnet.renew_time > globalnet.lease_time then throw (.renewTime renew_time lease_time)
  else
    let (rc, subs) ← loadKeys rc.keys (rc.push "subnet")
    let _ ← liftKey rc.pop
    return {
      globalnet
      subnets := subs.map Subtype.val
      renew_le := h
      ranges := by
        intro sub hsub
        obtain ⟨s, _, rfl⟩ := List.mem_map.mp hsub
        exact s.property }

/-- The first subnet that an address lies in. -/
def mysubnet (nets : Subnets) (ip : IPAddress) : Option Subnet :=
  nets.subnets.find? (·.myaddress ip)

end Subnets

/-- The dynamic subnet of the shipped example configuration, with a range of two addresses. -/
def exampleRc : Apprc where
  items := {
    rows := [
      ("global-server-addr", "10.20.0.10"), ("global-server-netmask", "255.255.255.0"),
      ("global-domain-name", "hotrixit.com"), ("global-nameserver1", "10.20.0.10"),
      ("global-lease-time", "180"), ("global-renew-time", "60"),
      ("subnet-mysubnet1-addr", "10.20.11.0"), ("subnet-mysubnet1-netmask", "255.255.255.0"),
      ("subnet-mysubnet1-gateway", "10.20.11.10"), ("subnet-mysubnet1-range-start", "10.20.11.50"),
      ("subnet-mysubnet1-range-end", "10.20.11.52")]
    unique := by decide }
  keyst := none

def exampleSubnet : Subnet where
  name := "mysubnet1"
  addr := .ofText "10.20.11.0"
  netmask := .ofText "255.255.255.0"
  gateway := .ofText "10.20.11.10"
  nameserver1 := .ofText "10.20.0.10"
  nameserver2 := .unset
  range_start := .ofText "10.20.11.50"
  range_end := .ofText "10.20.11.52"
  broadcast := .ofText "10.20.11.255"

def exampleNets : Subnets where
  globalnet := {
    domain_name := "hotrixit.com"
    addr := .ofText "10.20.0.10"
    netmask := .ofText "255.255.255.0"
    lease_time := 180
    renew_time := 60
    broadcast := .ofText "10.20.0.255" }
  subnets := [exampleSubnet]
  renew_le := by decide
  ranges := by
    intro sub hsub
    rw [List.mem_singleton.mp hsub]
    intro _
    decide

theorem load_exampleRc : Subnets.load exampleRc = .ok exampleNets := by
  rfl

end S3Dhcpd
