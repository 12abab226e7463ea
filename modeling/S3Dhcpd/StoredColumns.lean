import S3Dhcpd.OptionSlots

/-! The turns of `main_loop` on the columns that SQLite hands out: each of them may be NULL, and a
text may be longer than the array that it is copied into. -/
namespace S3Dhcpd.Stored
open KeyedTable

/-- What a turn does to memory that is not its own. -/
inductive Fault where
  | nullPointer
  | overrun
deriving DecidableEq, Repr

/-- A row of `dhcp_leases` with the columns that the schema allows. -/
structure Row where
  mac : Option String
  ip : Option String
  ts : Option ℤ
  expire : Option ℤ
  auth_info : Option String
deriving DecidableEq, Repr

/-- `dhcp_leases`: to the unique index no two NULLs are equal. -/
structure Rows where
  rows : List Row
  unique : (rows.filterMap Row.ip).Nodup

namespace Rows

@[ext] theorem ext {T T' : Rows} (h : T.rows = T'.rows) : T = T' := by
  cases T
  cases T'
  cases h
  rfl

/-- How many rows `where ip = k` finds; a NULL is equal to no text. -/
def changes (T : Rows) (k : String) : ℕ := T.rows.countP fun row => row.ip = some k

/-- `update … where ip = k`. -/
def update (T : Rows) (k : String) (f : Row → Row) (hf : ∀ row, (f row).ip = row.ip) : Rows where
  rows := T.rows.map fun row => if row.ip = some k then f row else row
  unique := by
    have hip : Row.ip ∘ (fun row => if row.ip = some k then f row else row) = Row.ip := by
      funext row
      rw [Function.comp_apply]
      split_ifs
      · exact hf row
      · rfl
    rw [List.filterMap_map, hip]
    exact T.unique

/-- `insert` of a row with an address, refused when a row has it. -/
def insert (T : Rows) (row : Row) (k : String) (hk : row.ip = some k) : Option Rows :=
  if h : k ∈ T.rows.filterMap Row.ip then none
  else some ⟨T.rows ++ [row], by
    rw [List.filterMap_append, List.filterMap_cons, hk, List.filterMap_nil]
    exact List.Nodup.append T.unique (List.nodup_singleton _) (List.disjoint_singleton.mpr h)⟩

end Rows

/-- What stays fixed while the daemon runs; the columns of the user's query may be NULL, too. -/
structure Setup where
  nets : Subnets
  rc : Apprc
  static_db : Option (String → List (Option String × Option String))
  pf_enabled : Bool
  rad_enabled : Bool

/-- The configuration when a NULL is read as an empty text. -/
def Setup.text (s : Setup) : Config where
  nets := s.nets
  rc := s.rc
  static_db := s.static_db.map fun query mac =>
    (query mac).map fun columns => (columns.1.getD "", columns.2.getD "")
  pf_enabled := s.pf_enabled
  rad_enabled := s.rad_enabled

/-- `IPAddress((char*)sqlite3_column_text(statement, 0))` -/
def ipColumn : Option String → Except Fault IPAddress
  | none => .error .nullPointer
  | some p_saddr => if IPAddress.Fits p_saddr then .ok (.ofText p_saddr) else .error .overrun

/-- `*str_access == 'Y' || *str_access == 'y'` -/
def accessColumn : Option String → Except Fault Bool
  | none => .error .nullPointer
  | some str_access =>
    .ok (str_access.toList.head? == some 'Y' || str_access.toList.head? == some 'y')

/-- The rc file comes first, then the first row of the static query. -/
def getStaticIp (s : Setup) (mac : MACAddress) : Except Fault (Option (IPAddress × Bool)) :=
  let new_name := "host-" ++ mac.s_addr
  match s.rc.seek new_name with
  | some str_ip => do
    let ip ← ipColumn (some str_ip)
    return some (ip, s.rc.getbool (new_name ++ "-inet") false)
  | none =>
    match s.static_db with
    | none => .ok none
    | some query =>
      match query mac.s_addr with
      | [] => .ok none
      | (column, str_access) :: _ => do
        let ip ← ipColumn column
        let inet_access ← accessColumn str_access
        return some (ip, inet_access)

/-- `auth_info <> 'excluded'`, which no NULL meets. -/
def Row.usable (row : Row) : Bool := row.auth_info.any (· ≠ "excluded")

/-- `expire < ?`, which no NULL meets. -/
def Row.expired (now : U32) (row : Row) : Bool := row.expire.any (· < now.toInt)

/-- A query that returns a row or none, and the address in its column. -/
def ipOf : Option Row → Except Fault (Option IPAddress)
  | none => .ok none
  | some row => some <$> ipColumn row.ip

def getLeasedIp (scan : Scan Row) (mac : MACAddress) (T : Rows) :
    Except Fault (Option IPAddress) :=
  ipOf (scan.first (fun row => row.mac = some mac.s_addr && row.usable) T.rows)

/-- The rows that are ordered have no NULL in `expire`. -/
def getNewIp (scan : Scan Row) (now : U32) (T : Rows) : Except Fault (Option IPAddress) :=
  ipOf (scan.least (fun row => row.expired now && row.usable) (fun row => row.expire.getD 0) T.rows)

section Statements
variable (s : Setup) (now : U32) (mac : MACAddress)

def updated (auth_info : Option String) (row : Row) : Row := { row with
  mac := some mac.s_addr
  ts := some now.toInt
  expire := some (expireAt s.text now)
  auth_info := auth_info.or row.auth_info }

theorem updated_ip (auth_info : Option String) (row : Row) :
    (updated s now mac auth_info row).ip = row.ip := rfl

def doUpdateLease (ip : IPAddress) (auth_info : Option String) (T : Rows) : Rows × ℕ :=
  (T.update ip.s_addr (updated s now mac auth_info) (updated_ip s now mac auth_info),
    T.changes ip.s_addr)

/-- `values (?, ?, ?, ?, ?)` -/
def created (ip : IPAddress) (auth_info : String) : Row where
  mac := some mac.s_addr
  ip := some ip.s_addr
  ts := some now.toInt
  expire := some (expireAt s.text now)
  auth_info := some auth_info

def doCreateLease (ip : IPAddress) (auth_info : String) (T : Rows) :
    Except IPAllocatorException (Rows × ℕ) :=
  match T.insert (created s now mac ip auth_info) ip.s_addr rfl with
  | some T' => .ok (T', 1)
  | none => .error (.cantUpdateLease ip.s_addr)

def recordLease (ip : IPAddress) (auth_info : Option String) (T : Rows) : Rows :=
  (doUpdateLease s now mac ip auth_info T).1

def recordStaticLease (ip : IPAddress) (auth_info : String) (T : Rows) :
    Except IPAllocatorException Rows :=
  let (T', changes) := doUpdateLease s now mac ip (some auth_info) T
  if changes ≠ 1 then Prod.fst <$> doCreateLease s now mac ip auth_info T' else .ok T'

end Statements

structure Allocation where
  rows : Rows
  ip : Option IPAddress
  effects : List Effect

/-- `ip_alloc`. A column is read before anything is recorded. -/
def ipAlloc (s : Setup) (scan : Scan Row) (now : U32) (mac : MACAddress) (T : Rows) :
    Except Fault (Except IPAllocatorException Allocation) := do
  -- 1. Check static database
  match ← getStaticIp s mac with
  | some (ip, inet_access) =>
    let recorded :=
      recordStaticLease s now mac ip (if inet_access then "static" else "internal") T
    return recorded.map fun T' => {
      rows := T'
      ip := some ip
      effects := (if inet_access && s.pf_enabled then [.pfAdd ip.u_addr] else []) ++
        if s.rad_enabled then [.acct .RAD_SESSION_DHCP_START mac.s_addr ip.s_addr] else [] }
  | none =>
    -- 2. Check leased database
    match ← getLeasedIp scan mac T with
    | some ip => return .ok ⟨recordLease s now mac ip (some "leased") T, some ip, []⟩
    | none =>
      -- 3. Allocate new IP
      match ← getNewIp scan now T with
      | some ip => return .ok {
          rows := recordLease s now mac ip (some "new") T
          ip := some ip
          effects := (if s.pf_enabled then [.pfDel ip.u_addr] else []) ++
            if s.rad_enabled then [.acct .RAD_SESSION_DHCP_START mac.s_addr ip.s_addr] else [] }
      | none => return .ok ⟨T, none, []⟩

def ipCheck (s : Setup) (scan : Scan Row) (now : U32) (mac : MACAddress) (ip : IPAddress)
    (T : Rows) : Except Fault (Except IPAllocatorException (Rows × Bool)) :=
  -- 0. Defend from foreign leases
  match s.nets.mysubnet ip with
  | none => .ok (.ok (T, false))
  | some sub => do
    match ← getStaticIp s mac with
    | some (newip, _) =>
      if ip.u_addr ≠ newip.u_addr then return .ok (T, false)
      else return (recordStaticLease s now mac ip "static" T).map fun T' => (T', true)
    | none =>
      if !sub.hasDynamicRange then return .ok (T, false)
      else match ← getLeasedIp scan mac T with
        | some newip =>
          if ip.u_addr ≠ newip.u_addr then return .ok (T, false)
          else return .ok (recordLease s now mac ip none T, true)
        | none => return .ok (T, false)

def ipInvalidate (s : Setup) (now : U32) (_mac : MACAddress) (ip : IPAddress) (T : Rows) : Rows :=
  recordLease s now (.ofU64 0) ip (some "invalidated") T

def offerOrNak (s : Setup) (T : Rows) (d : Datagram) (request : DHCP_Packet) :
    Except IPAllocatorException Allocation → Rows × Turn
  | .error e => (T, ⟨[], .error (.allocator e)⟩)
  | .ok r =>
    match r.ip with
    | some ip_addr =>
      match request.createDhcpOffer s.nets d.garbage ip_addr with
      | .error e => (r.rows, ⟨r.effects, .error (.packet e)⟩)
      | .ok response => (r.rows, .respond r.effects request (some response))
    | none => (r.rows, .respond r.effects request (some (request.createDhcpNak s.nets)))

def ackOrNak (s : Setup) (T : Rows) (d : Datagram) (request : DHCP_Packet) (ip : IPAddress) :
    Except IPAllocatorException (Rows × Bool) → Rows × Turn
  | .error e => (T, ⟨[], .error (.allocator e)⟩)
  | .ok (rows, granted) =>
    if granted then (rows, .respond [] request (request.createDhcpAck s.nets d.garbage ip))
    else (rows, .respond [] request (some (request.createDhcpNak s.nets)))

/-- The `switch` on the message type. -/
def dispatch (s : Setup) (scan : Scan Row) (T : Rows) (d : Datagram) (request : DHCP_Packet) :
    Except Fault (Rows × Turn) :=
  let dhcp_message_type := request.getMessageType d.garbage
  if dhcp_message_type = DHCP_DISCOVER.toNat then
    offerOrNak s T d request <$> ipAlloc s scan d.env.now request.mac T
  else if dhcp_message_type = DHCP_RELEASE.toNat then
    .ok (T, .respond (ipFree s.text request.mac request.ip) request none)
  else if dhcp_message_type = DHCP_INFORM.toNat then
    let ip := request.getRequestedAddress d.garbage
    .ok (T, .respond [] request (request.createDhcpAck2 s.nets d.garbage ip))
  else if dhcp_message_type = DHCP_REQUEST.toNat then
    let ip := request.getRequestedAddress d.garbage
    ackOrNak s T d request ip <$> ipCheck s scan d.env.now request.mac ip T
  else if dhcp_message_type = DHCP_DECLINE.toNat then
    .ok (ipInvalidate s d.env.now request.mac request.ip T, .respond [] request none)
  else .ok (T, .respond [] request none)

/-- All that `marshall` writes to options goes into the array `_options`. -/
def MarksInside (d : Datagram) : Prop :=
  ∀ i ∈ (marshallSlots d.buffer d.message_length).written, i < MAX_DHCP_OPTIONS

instance (d : Datagram) : Decidable (MarksInside d) :=
  inferInstanceAs (Decidable (∀ i ∈ (marshallSlots d.buffer d.message_length).written, _))

/-- One turn. The queries visit the stored rows as `scan` says, not as the datagram's scan does. -/
def mainLoop (s : Setup) (scan : Scan Row) (T : Rows) (d : Datagram) :
    Except Fault (Rows × Turn) :=
  if d.message_length < BOOTP_ABSOLUTE_MIN_LEN then .ok (T, ⟨[], .ok none⟩)
  else if !checkMagicCookie d.buffer d.message_length then .ok (T, ⟨[], .ok none⟩)
  else match marshall d.buffer d.message_length with
    | .error e => .ok (T, ⟨[], .error (.packet e)⟩)
    | .ok request =>
      -- the end mark of the options may go behind the array
      if MarksInside d then dispatch s scan T d request else .error .overrun

end S3Dhcpd.Stored
