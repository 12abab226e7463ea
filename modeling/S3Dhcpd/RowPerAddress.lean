import S3Dhcpd.MainLoop

/-! The unique index is on the text of an address: when two rows come to denote one address. -/
namespace S3Dhcpd
open KeyedTable Runs

/-- No two rows denote the same address. -/
def RowPerAddress (T : Leases) : Prop :=
  ∀ row ∈ T.rows, ∀ row' ∈ T.rows, ipS2u row.ip = ipS2u row'.ip → row = row'

/-- What a call needs so as not to give an address a second row: when it records an address for a
static host, the table has that address under the recorded text or not at all. -/
def RecordsText (cfg : Config) (T : Leases) : Op → Prop
  | .ipAlloc m => ∀ ip inet_access, getStaticIp cfg (.ofU64 m) = some (ip, inet_access) →
      ∀ row ∈ T.rows, ipS2u row.ip = ip.u_addr → row.ip = ip.s_addr
  | .ipCheck m ip => cfg.nets.mysubnet (requested ip) ≠ none → ∀ newip inet_access,
      getStaticIp cfg (.ofU64 m) = some (newip, inet_access) → (requested ip).u_addr = newip.u_addr →
        ∀ row ∈ T.rows, ipS2u row.ip = ipS2u (requested ip).s_addr → row.ip = (requested ip).s_addr
  | _ => True

/-- The assignment that a call reads, if its client has one, is under a text that fits the arrays of
an address. -/
def AssignedFits (cfg : Config) : Op → Prop
  | .ipAlloc m => ∀ ip inet_access, getStaticIp cfg (.ofU64 m) = some (ip, inet_access) →
      IPAddress.Fits ip.s_addr
  | .ipCheck m ip => cfg.nets.mysubnet (requested ip) ≠ none → ∀ newip inet_access,
      getStaticIp cfg (.ofU64 m) = some (newip, inet_access) → IPAddress.Fits newip.s_addr
  | _ => True

/-- All the texts that a call may read, of assignments and of rows, fit: it keeps to its arrays. -/
def ReadsInside (cfg : Config) (T : Leases) (op : Op) : Prop :=
  AssignedFits cfg op ∧ RowTexts IPAddress.Fits T

theorem Canonical.rowPerAddress {T : Leases} (hT : Canonical T) : RowPerAddress T := by
  intro row hrow row' hrow' h
  apply T.row_unique hrow hrow'
  rw [← hT.row_text hrow, ← hT.row_text hrow', h]

section Writes
variable {cfg : Config} {env : Env} {T T' : Leases}

/-- Writing one row keeps the invariant exactly when its address is under no other text. -/
theorem rowPerAddress_write (hT : RowPerAddress T) (new : Lease) {k : String} (hip : new.ip = k)
    (hrows : ∀ k', T'.row? k' = if k' = k then some new else T.row? k') :
    RowPerAddress T' ↔ ∀ row ∈ T.rows, ipS2u row.ip = ipS2u k → row.ip = k := by
  have hmem {r : Lease} : r ∈ T'.rows ↔ r = new ∨ (r ∈ T.rows ∧ r.ip ≠ k) :=
    Table.mem_write hip hrows
  constructor
  · intro h row hrow hnum
    -- else the table would hold two rows of one number
    by_contra hne
    have hsame := h row (hmem.mpr (Or.inr ⟨hrow, hne⟩)) new (hmem.mpr (Or.inl rfl)) (by rw [hip, hnum])
    exact hne (hsame ▸ hip)
  · intro h row hrow row' hrow' hnum
    rcases hmem.mp hrow with rfl | ⟨hold, hne⟩
    · rcases hmem.mp hrow' with rfl | ⟨hold', hne'⟩
      · rfl
      · exact absurd (h row' hold' (by rw [← hnum, hip])) hne'
    · rcases hmem.mp hrow' with rfl | ⟨hold', _⟩
      · exact absurd (h row hold (by rw [hnum, hip])) hne
      · exact hT row hold row' hold' hnum

theorem rowPerAddress_static (hT : RowPerAddress T) {mac : MACAddress} {ip : IPAddress}
    {auth_info : String} (hrows : ∀ k, T'.row? k =
      if k = ip.s_addr then some (staticRow cfg env mac ip auth_info) else T.row? k) :
    RowPerAddress T' ↔ ∀ row ∈ T.rows, ipS2u row.ip = ipS2u ip.s_addr → row.ip = ip.s_addr :=
  rowPerAddress_write hT (staticRow cfg env mac ip auth_info) rfl hrows

theorem RowPerAddress.recordLease (hT : RowPerAddress T) {mac : MACAddress} {ip : IPAddress}
    {auth_info : Option String} : RowPerAddress (recordLease cfg env mac ip auth_info T) := by
  have hold {r' : Lease} (hr' : r' ∈ (S3Dhcpd.recordLease cfg env mac ip auth_info T).rows) :
      ∃ r ∈ T.rows, r.ip = r'.ip := by
    rcases mem_recordLease.mp hr' with ⟨r, hr, rfl⟩ | ⟨hmem, _⟩
    · exact ⟨r, (Table.row?_eq_some.mp hr).1, rfl⟩
    · exact ⟨r', hmem, rfl⟩
  intro row hrow row' hrow' hnum
  obtain ⟨r, hr, hip⟩ := hold hrow
  obtain ⟨r', hr', hip'⟩ := hold hrow'
  apply Table.row_unique _ hrow hrow'
  rw [← hip, ← hip'] at hnum ⊢
  rw [hT r hr r' hr' hnum]

end Writes

section Calls
variable {cfg : Config} {env : Env} {T : Leases} {m : U64}

theorem rowPerAddress_alloc (hT : RowPerAddress T) :
    RowPerAddress (serveCall cfg T ⟨env, .ipAlloc m⟩).1 ↔ RecordsText cfg T (.ipAlloc m) := by
  obtain ⟨leases, ip, effects, hr, hspec⟩ := serveCall_alloc cfg env m T
  simp only [hr, RecordsText]
  cases hspec with
  | @static ip inet_access _ hassigned hrows =>
    have htext : ip.u_addr = ipS2u ip.s_addr :=
      congrArg IPAddress.u_addr (getStaticIp_text hassigned)
    rw [rowPerAddress_static hT hrows]
    constructor
    · intro h ip' inet_access' hassigned' row hrow hnum
      cases hassigned.symm.trans hassigned'
      exact h row hrow (hnum.trans htext)
    · exact fun h row hrow hnum => h ip inet_access hassigned row hrow (hnum.trans htext.symm)
  | leased hfree _ => exact iff_of_true hT.recordLease fun _ _ h => (assigned_absurd hfree h).elim
  | fresh hfree _ _ => exact iff_of_true hT.recordLease fun _ _ h => (assigned_absurd hfree h).elim
  | refused hfree _ _ => exact iff_of_true hT fun _ _ h => (assigned_absurd hfree h).elim

theorem rowPerAddress_check (hT : RowPerAddress T) {ip : Option U32} :
    RowPerAddress (serveCall cfg T ⟨env, .ipCheck m ip⟩).1 ↔ RecordsText cfg T (.ipCheck m ip) := by
  obtain ⟨leases, granted, hr, hspec⟩ := serveCall_check cfg env m ip T
  simp only [hr, RecordsText]
  cases hspec with
  | declined reason =>
    apply iff_of_true hT
    intro hinside newip inet_access hassigned hsame
    -- a declined REQUEST records nothing, and no reason lets it be one that would
    cases reason with
    | foreign hout => exact absurd hout hinside
    | assigned hassigned' hdiffers =>
      cases hassigned.symm.trans hassigned'
      exact absurd hsame hdiffers
    | unknown _ hfree _ => exact (assigned_absurd hfree hassigned).elim
    | unleased hfree _ => exact (assigned_absurd hfree hassigned).elim
    | leased hfree _ _ => exact (assigned_absurd hfree hassigned).elim
  | static hsub hassigned hsame hrows =>
    rw [rowPerAddress_static hT hrows]
    constructor
    · exact fun h _ _ _ _ _ => h
    · refine fun h => h ?_ _ _ hassigned hsame
      rw [hsub]
      exact Option.some_ne_none _
  | leased _ hfree _ _ _ =>
    exact iff_of_true hT.recordLease fun _ _ _ h => (assigned_absurd hfree h).elim

theorem serveCall_rowPerAddress (hT : RowPerAddress T) (op : Op) :
    RowPerAddress (serveCall cfg T ⟨env, op⟩).1 ↔ RecordsText cfg T op := by
  cases op with
  | ipAlloc m => exact rowPerAddress_alloc hT
  | ipCheck m ip => exact rowPerAddress_check hT
  | ipFree m ip => exact iff_of_true hT trivial
  | ipInvalidate m ip => exact iff_of_true hT.recordLease trivial

end Calls

theorem mainLoop_rowPerAddress {cfg : Config} {T : Leases} (d : Datagram) (hT : RowPerAddress T) :
    RowPerAddress (mainLoop cfg T d).1 ↔ ∀ op, d.op = some op → RecordsText cfg T op := by
  rw [mainLoop_leases]
  cases d.op with
  | none => exact iff_of_true hT fun _ h => absurd h.symm (Option.some_ne_none _)
  | some op =>
    simp only [Option.some.injEq, forall_eq']
    exact serveCall_rowPerAddress hT op

theorem mainLoop_rowTexts {cfg : Config} {T : Leases} (d : Datagram)
    (hT : RowTexts IPAddress.Fits T) (hfits : ∀ op, d.op = some op → AssignedFits cfg op) :
    RowTexts IPAddress.Fits (mainLoop cfg T d).1 := by
  rw [mainLoop_leases]
  cases hop : d.op with
  | none => exact hT
  | some op =>
    apply serveCall_rowTexts hT fits_requested
    rintro m rfl
    exact hfits _ hop

/-- Over an empty database the calls of a run keep to their arrays and the table to one row for each
address exactly when the assignments that they read fit, and every address that is recorded for a
static host is in the table under the recorded text or not at all. -/
theorem row_per_address_iff (cfg : Config) (ds : List Datagram) :
    (Meets (mainLoop cfg) (fun T d => ∀ op, d.op = some op → ReadsInside cfg T op)
        (populate cfg.nets .empty) ds ∧
      ∀ pre, pre <+: ds →
        RowPerAddress (after (mainLoop cfg) (populate cfg.nets .empty) pre)) ↔
    Meets (mainLoop cfg)
      (fun T d => (∀ op, d.op = some op → AssignedFits cfg op) ∧
        ∀ op, d.op = some op → RecordsText cfg T op) (populate cfg.nets .empty) ds := by
  have hone : (∀ pre, pre <+: ds →
      RowPerAddress (after (mainLoop cfg) (populate cfg.nets .empty) pre)) ↔
        Meets (mainLoop cfg) (fun T d => ∀ op, d.op = some op → RecordsText cfg T op)
          (populate cfg.nets .empty) ds :=
    meets_iff_invariant (fun _ d hT => mainLoop_rowPerAddress d hT)
      (populate_canonical cfg.nets).rowPerAddress ds
  have hinside : Meets (mainLoop cfg) (fun T d => ∀ op, d.op = some op → ReadsInside cfg T op)
      (populate cfg.nets .empty) ds ↔
        Meets (mainLoop cfg) (fun _ d => ∀ op, d.op = some op → AssignedFits cfg op)
          (populate cfg.nets .empty) ds := by
    constructor
    · exact Meets.of_invariant (fun _ _ (_ : True) _ => trivial)
        (fun _ _ _ h op hop => (h op hop).1) trivial
    · -- the rows then stay under texts that fit
      exact Meets.of_invariant (fun _ d hT h => mainLoop_rowTexts d hT h)
        (fun _ _ hT h op hop => ⟨h op hop, hT⟩) (populate_fits cfg.nets)
  rw [hone, hinside, meets_and]

/-- A static address written with a leading zero gets a row beside that of the pool. -/
theorem leading_zero_splits_address : ¬∀ (cfg : Config) (ds : List Datagram),
    RowPerAddress (after (mainLoop cfg) (populate cfg.nets .empty) ds) := by
  intro h
  have hsame := h (staticCfg "10.20.11.050" "Y") [exampleDatagram 1000 DHCP_DISCOVER 9 0]
    ⟨"", "10.20.11.50", 0, 0, "-"⟩ (by decide)
    ⟨macU2s 9, "10.20.11.050", 1000, 1180, "static"⟩ (by decide) (by decide)
  exact absurd hsame (by decide)

end S3Dhcpd
