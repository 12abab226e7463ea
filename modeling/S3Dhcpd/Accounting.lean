import S3Dhcpd.Effects
import S3Dhcpd.RadiusNet

/-! What an accounting server learns from the messages of a run: who was given each address. -/
namespace S3Dhcpd
open ByteMemory KeyedTable Runs

def AcctStatus.value : AcctStatus → U32
  | .RAD_SESSION_DHCP_START => S3Dhcpd.RAD_SESSION_DHCP_START
  | .RAD_SESSION_DHCP_END => S3Dhcpd.RAD_SESSION_DHCP_END

/-- The client that the last START named for each address. -/
abbrev Ledger := String → Option String

def announce (L : Ledger) : Effect → Ledger
  | .acct .RAD_SESSION_DHCP_START mac ip => Function.update L ip (some mac)
  | _ => L

def ledger (effects : List Effect) : Ledger := effects.foldl announce fun _ => none

/-- What the turns of a run have told. -/
def runEffects (cfg : Config) (T : Leases) (ds : List Datagram) : List Effect :=
  (trace (mainLoop cfg) T ds).flatMap fun e => e.2.effects

/-- The client that the row under a text names. -/
def rowMac (T : Leases) (ip : String) : Option String := (T.row? ip).map Lease.mac

/-- The ledger knows every client of a row, unless its address has been withdrawn. -/
structure Follows (T : Leases) (L : Ledger) : Prop where
  canonical : Canonical T
  named : ∀ ip mac, rowMac T ip = some mac → mac = "" ∨ mac = nobody ∨ L ip = some mac
  known : ∀ ip mac, L ip = some mac → rowMac T ip = some mac ∨ rowMac T ip = some nobody

section Ledger
variable {cfg : Config} {env : Env} {T : Leases} {L : Ledger}

theorem rowMac_recordLease {mac : MACAddress} {ip : IPAddress} {auth_info : Option String}
    (k : String) : rowMac (recordLease cfg env mac ip auth_info T) k =
      if k = ip.s_addr then (rowMac T k).map fun _ => mac.s_addr else rowMac T k := by
  rw [rowMac, row?_recordLease, rowMac]
  split_ifs
  · rw [Option.map_map, Option.map_map]
    rfl
  · rfl

theorem ledger_startMessage (hrad : cfg.rad_enabled = true) (mac : MACAddress) (ip : IPAddress) :
    (startMessage cfg mac ip).foldl announce L = Function.update L ip.s_addr (some mac.s_addr) := by
  rw [startMessage, if_pos hrad]
  rfl

theorem ledger_free (mac : MACAddress) (ip : IPAddress) :
    (ipFree cfg mac ip).foldl announce L = L := by
  rw [ipFree]
  split_ifs <;> rfl

/-- Nothing changes hands when a row is recorded for the client that it names. -/
theorem Follows.renewed {mac : MACAddress} {ip : IPAddress} {auth_info : Option String}
    (h : Follows T L) (hsame : ∀ c, rowMac T ip.s_addr = some c → c = mac.s_addr) :
    Follows (recordLease cfg env mac ip auth_info T) L := by
  have hmac (k : String) : rowMac (recordLease cfg env mac ip auth_info T) k = rowMac T k := by
    rw [rowMac_recordLease]
    split_ifs with hk
    · subst hk
      cases hrow : rowMac T ip.s_addr with
      | none => rfl
      | some c => rw [hsame c hrow, Option.map_some]
    · rfl
  refine ⟨h.canonical.recordLease, fun k c hc => ?_, fun k c hc => ?_⟩
  · exact h.named k c ((hmac k).symm.trans hc)
  · rw [hmac]
    exact h.known k c hc

/-- A row that changes hands is announced. -/
theorem Follows.granted {mac : MACAddress} {ip : IPAddress} {auth_info : Option String} {c : String}
    (h : Follows T L) (hrow : rowMac T ip.s_addr = some c) :
    Follows (recordLease cfg env mac ip auth_info T)
      (Function.update L ip.s_addr (some mac.s_addr)) := by
  refine ⟨h.canonical.recordLease, fun k c' hc => ?_, fun k c' hc => ?_⟩
  · rw [rowMac_recordLease] at hc
    split_ifs at hc with hk
    · subst hk
      rw [hrow, Option.map_some] at hc
      exact Or.inr (Or.inr (by rw [Function.update_self, hc]))
    · rw [Function.update_of_ne hk]
      exact h.named k c' hc
  · rw [rowMac_recordLease]
    split_ifs with hk
    · subst hk
      rw [Function.update_self] at hc
      exact Or.inl (by rw [hrow, Option.map_some, hc])
    · rw [Function.update_of_ne hk] at hc
      exact h.known k c' hc

theorem Follows.withdrawn {ip : IPAddress} {auth_info : Option String} (h : Follows T L) :
    Follows (recordLease cfg env (.ofU64 0) ip auth_info T) L := by
  refine ⟨h.canonical.recordLease, fun k c hc => ?_, fun k c hc => ?_⟩
  · rw [rowMac_recordLease] at hc
    split_ifs at hc with hk
    · obtain ⟨_, _, hzero⟩ := Option.map_eq_some_iff.mp hc
      exact Or.inr (Or.inl hzero.symm)
    · exact h.named k c hc
  · rw [rowMac_recordLease]
    split_ifs with hk
    · rcases h.known k c hc with hrow | hrow <;> exact Or.inr (by rw [hrow]; rfl)
    · exact h.known k c hc

theorem owns_rowMac {mac : MACAddress} {row : Lease} (hown : Owns T mac row) {c : String}
    (hc : rowMac T row.ip = some c) : c = mac.s_addr := by
  rw [rowMac, Table.row?_mem hown.1, Option.map_some, Option.some.injEq] at hc
  exact hc.symm.trans hown.2.1

/-- One call, by its kind: only a fresh allocation hands a row to another client. -/
theorem serveCall_follows (hrad : cfg.rad_enabled = true) (hstatic : NoStatic cfg)
    (h : Follows T L) (op : Op) : Follows (serveCall cfg T ⟨env, op⟩).1
      ((told (serveCall cfg T ⟨env, op⟩).2).foldl announce L) := by
  cases op with
  | ipAlloc m =>
    obtain ⟨leases, ip, effects, hr, hspec⟩ := serveCall_tells cfg env m T
    simp only [hr, told]
    cases hspec with
    | static hassigned _ => exact (hstatic.not_assigned hassigned).elim
    | leased _ hown => exact h.renewed fun c hc => owns_rowMac hown hc
    | @fresh row _ _ hfree =>
      have hfilter : (if cfg.pf_enabled then [Effect.pfDel (ipS2u row.ip)] else []).foldl announce L =
          L := by
        split_ifs <;> rfl
      rw [List.foldl_append, hfilter, ledger_startMessage hrad]
      refine h.granted (c := row.mac) ?_
      rw [IPAddress.ofText, rowMac, Table.row?_mem hfree.1, Option.map_some]
    | refused _ => exact h
  | ipCheck m ip =>
    obtain ⟨leases, granted, hr, hspec⟩ := serveCall_check cfg env m ip T
    simp only [hr, told]
    cases hspec with
    | declined _ => exact h
    | static _ hassigned _ _ => exact (hstatic.not_assigned hassigned).elim
    | @leased _ row _ _ _ hown hsame =>
      refine h.renewed fun c hc => ?_
      cases ip with
      | none =>
        have hnone : rowMac T (requested none).s_addr = none := by
          rw [rowMac, requested, h.canonical.row?_unset, Option.map_none]
        rw [hnone] at hc
        cases hc
      | some b =>
        -- under canonical texts the row that is found is the row that is written
        have htext : (requested (some b)).s_addr = row.ip := by
          rw [← h.canonical.row_text hown.1, ← hsame]
          rfl
        rw [htext] at hc
        exact owns_rowMac hown hc
  | ipFree m ip =>
    simp only [serveCall, told, ledger_free]
    exact h
  | ipInvalidate m ip => exact h.withdrawn

theorem mainLoop_follows (hrad : cfg.rad_enabled = true) (hstatic : NoStatic cfg)
    (h : Follows T L) (d : Datagram) :
    Follows (mainLoop cfg T d).1 ((mainLoop cfg T d).2.effects.foldl announce L) := by
  rw [mainLoop_leases, mainLoop_effects]
  cases d.op with
  | none => exact h
  | some op => exact serveCall_follows hrad hstatic h op

theorem follows_run (hrad : cfg.rad_enabled = true) (hstatic : NoStatic cfg) (h : Follows T L)
    (ds : List Datagram) :
    Follows (after (mainLoop cfg) T ds) ((runEffects cfg T ds).foldl announce L) := by
  induction ds generalizing T L with
  | nil => exact h
  | cons d ds ih =>
    rw [runEffects, trace_cons, List.flatMap_cons, List.foldl_append]
    exact ih (mainLoop_follows hrad hstatic h d)

theorem follows_populate (cfg : Config) : Follows (populate cfg.nets .empty) fun _ => none where
  canonical := populate_canonical cfg.nets
  named := by
    intro ip mac hmac
    obtain ⟨row, hrow, rfl⟩ := Option.map_eq_some_iff.mp hmac
    obtain ⟨a, rfl⟩ := populate_fresh (Table.row?_eq_some.mp hrow).1
    exact Or.inl rfl
  known := fun _ _ h => absurd h.symm (Option.some_ne_none _)

/-- The START messages of a run tell whose every address is: the client of a row is the one that was
announced last, and the one that was announced last has the row until it is withdrawn. -/
theorem announced_owner (hrad : cfg.rad_enabled = true) (hstatic : NoStatic cfg)
    (ds : List Datagram) (ip mac : String) :
    (rowMac (after (mainLoop cfg) (populate cfg.nets .empty) ds) ip = some mac →
      mac = "" ∨ mac = nobody ∨
        ledger (runEffects cfg (populate cfg.nets .empty) ds) ip = some mac) ∧
    (ledger (runEffects cfg (populate cfg.nets .empty) ds) ip = some mac →
      rowMac (after (mainLoop cfg) (populate cfg.nets .empty) ds) ip = some mac ∨
        rowMac (after (mainLoop cfg) (populate cfg.nets .empty) ds) ip = some nobody) :=
  have h := follows_run hrad hstatic (follows_populate cfg) ds
  ⟨h.named ip mac, h.known ip mac⟩

/-- The example configuration with accounting. -/
def accountingCfg : Config := { exampleCfg with rad_enabled := true }

/-- A client that is leased an address is announced as its owner. -/
theorem announced_owner_example :
    (rowMac (after (mainLoop accountingCfg) (populate accountingCfg.nets .empty)
        [exampleDatagram 1000 DHCP_DISCOVER 1 0]) "10.20.11.50" = some (macU2s 1) →
      macU2s 1 = "" ∨ macU2s 1 = nobody ∨
        ledger (runEffects accountingCfg (populate accountingCfg.nets .empty)
          [exampleDatagram 1000 DHCP_DISCOVER 1 0]) "10.20.11.50" = some (macU2s 1)) ∧
    (ledger (runEffects accountingCfg (populate accountingCfg.nets .empty)
        [exampleDatagram 1000 DHCP_DISCOVER 1 0]) "10.20.11.50" = some (macU2s 1) →
      rowMac (after (mainLoop accountingCfg) (populate accountingCfg.nets .empty)
          [exampleDatagram 1000 DHCP_DISCOVER 1 0]) "10.20.11.50" = some (macU2s 1) ∨
        rowMac (after (mainLoop accountingCfg) (populate accountingCfg.nets .empty)
          [exampleDatagram 1000 DHCP_DISCOVER 1 0]) "10.20.11.50" = some nobody) := by
  have hrad : accountingCfg.rad_enabled = true := rfl
  have hstatic : NoStatic accountingCfg := exampleCfg_noStatic
  exact announced_owner hrad hstatic [exampleDatagram 1000 DHCP_DISCOVER 1 0] "10.20.11.50"
    (macU2s 1)

end Ledger

section Messages
variable {cfg : Config} {env : Env} {T : Leases}

/-- The texts of static addresses fit the arrays of an address. -/
def StaticTexts (cfg : Config) : Prop := ∀ m ip inet_access,
  getStaticIp cfg (.ofU64 m) = some (ip, inet_access) → IPAddress.Fits ip.s_addr

/-- The texts that a message of the server carries. -/
def Speakable : Effect → Prop
  | .acct _ auth_info ipaddr => auth_info.length = 17 ∧ ipaddr.length < 20
  | _ => True

theorem startMessage_speakable {m : U64} {ip : IPAddress} (hip : ip.s_addr.length < 20)
    {e : Effect} (he : e ∈ startMessage cfg (.ofU64 m) ip) : Speakable e := by
  rw [startMessage] at he
  split_ifs at he with hrad
  · rw [List.mem_singleton.mp he]
    exact ⟨length_macU2s m, hip⟩
  · cases he

theorem alloc_speakable (hT : RowTexts IPAddress.Fits T) (htexts : StaticTexts cfg) {m : U64}
    {leases : Leases} {ip : Option IPAddress} {effects : List Effect}
    (h : Tells cfg env (.ofU64 m) T leases ip effects) {e : Effect} (he : e ∈ effects) :
    Speakable e := by
  cases h with
  | @static ip inet_access _ hassigned _ =>
    rcases List.mem_append.mp he with hpf | hstart
    · split_ifs at hpf
      · rw [List.mem_singleton.mp hpf]
        trivial
      · cases hpf
    · exact startMessage_speakable (htexts _ _ _ hassigned).1 hstart
  | leased _ _ => cases he
  | @fresh row _ _ hfree =>
    rcases List.mem_append.mp he with hpf | hstart
    · split_ifs at hpf
      · rw [List.mem_singleton.mp hpf]
        trivial
      · cases hpf
    · refine startMessage_speakable ?_ hstart
      exact (hT row hfree.1).1
  | refused _ => cases he

theorem serveCall_speakable (hT : RowTexts IPAddress.Fits T) (htexts : StaticTexts cfg) {c : Call}
    {e : Effect} (he : e ∈ told (serveCall cfg T c).2) : Speakable e := by
  obtain ⟨env, op⟩ := c
  cases op with
  | ipAlloc m =>
    obtain ⟨leases, ip, effects, hr, hspec⟩ := serveCall_tells cfg env m T
    rw [hr] at he
    exact alloc_speakable hT htexts hspec he
  | ipCheck m ip =>
    obtain ⟨leases, granted, hr, _⟩ := serveCall_check cfg env m ip T
    rw [hr] at he
    cases he
  | ipFree m ip =>
    simp only [serveCall, told, ipFree] at he
    split_ifs at he
    · rw [List.mem_singleton.mp he]
      exact ⟨length_macU2s m, (length_ipU2s ip).trans_lt (by decide)⟩
    · cases he
  | ipInvalidate m ip => cases he

theorem run_speakable (hT : RowTexts IPAddress.Fits T) (htexts : StaticTexts cfg)
    {ds : List Datagram} {e : Effect} (he : e ∈ runEffects cfg T ds) : Speakable e := by
  induction ds generalizing T with
  | nil => cases he
  | cons d ds ih =>
    rw [runEffects, trace_cons, List.flatMap_cons, List.mem_append, mainLoop_effects] at he
    rcases he with he | he
    · cases hop : d.op with
      | none =>
        rw [hop] at he
        cases he
      | some op =>
        rw [hop] at he
        exact serveCall_speakable hT htexts he
    · refine ih ?_ he
      rw [mainLoop_leases]
      cases d.op with
      | none => exact hT
      | some op => exact serveCall_rowTexts hT fits_requested op fun m _ => htexts m

/-- Every accounting message of a run over a table whose addresses fit their arrays fits the buffer
that it is built in, and a server that shares the salt receives the status, the client and the
address that the allocator has told. -/
theorem run_messages_received (hT : RowTexts IPAddress.Fits T) (htexts : StaticTexts cfg)
    (ds : List Datagram) {status : AcctStatus} {auth_info ipaddr : String}
    (htold : .acct status auth_info ipaddr ∈ runEffects cfg T ds)
    (garbage message_buf garbage' : ℕ → Byte) {auth_salt : List Byte}
    (hsalt : Md5.Countable auth_salt) :
    ∃ datagram, RADIUS_Net.sendAcctMessage garbage message_buf auth_salt status.value auth_info
        ipaddr = some datagram ∧ datagram.length ≤ RADIUS_Net.MESSAGE_BUF ∧
      ∀ buffer, Holds buffer 0 datagram → RADIUS_Net.received garbage' auth_salt buffer =
        some (bytesOf (htonl status.value), textBytes auth_info, textBytes ipaddr) := by
  obtain ⟨hauth, hip⟩ := run_speakable hT htexts htold
  have hlong : auth_info.length ≤ 253 := by omega
  have hshort : ipaddr.length ≤ 253 := by omega
  obtain ⟨datagram, hsent, -, hfits, hreceived⟩ := RADIUS_Net.acct_message_received garbage
    message_buf garbage' hsalt status.value hlong hshort
  exact ⟨datagram, hsent, hfits, hreceived⟩

/-- The START of the first lease, built in and received in blank memory. -/
theorem run_messages_received_example : ∃ datagram,
    RADIUS_Net.sendAcctMessage (fun _ => 0) (fun _ => 0) (textBytes "salt")
        AcctStatus.RAD_SESSION_DHCP_START.value (macU2s 1) "10.20.11.50" = some datagram ∧
      datagram.length ≤ RADIUS_Net.MESSAGE_BUF ∧
      ∀ buffer, Holds buffer 0 datagram →
        RADIUS_Net.received (fun _ => 0) (textBytes "salt") buffer =
          some (bytesOf (htonl AcctStatus.RAD_SESSION_DHCP_START.value), textBytes (macU2s 1),
            textBytes "10.20.11.50") := by
  have htexts : StaticTexts accountingCfg := by
    intro m ip inet_access hassigned
    have hfree : getStaticIp accountingCfg (.ofU64 m) = none := exampleCfg_noStatic m
    exact (assigned_absurd hfree hassigned).elim
  have hsalt : Md5.Countable (textBytes "salt") := by
    rw [Md5.Countable]
    decide
  have htold : Effect.acct .RAD_SESSION_DHCP_START (macU2s 1) "10.20.11.50" ∈
      runEffects accountingCfg (populate accountingCfg.nets .empty)
        [exampleDatagram 1000 DHCP_DISCOVER 1 0] := by decide
  exact run_messages_received (populate_fits _) htexts [exampleDatagram 1000 DHCP_DISCOVER 1 0]
    htold (fun _ => 0) (fun _ => 0) (fun _ => 0) hsalt

end Messages

end S3Dhcpd
