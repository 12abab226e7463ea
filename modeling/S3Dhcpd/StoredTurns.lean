import S3Dhcpd.StoredColumns

/-! What a turn does with the stored columns, if it keeps to its memory, is what it does with the
texts: `mainLoop` on the rows that have an address is simulated. -/
namespace S3Dhcpd.Stored
open KeyedTable

/-- A row as a lease, when it has an address. A NULL elsewhere becomes what no query matches: a row
without a mac is owned by nobody, one without an expiry never expires, and one without a word on its
authorisation is not handed out. -/
def Row.text (row : Row) : Option Lease := row.ip.map fun ip => {
  mac := row.mac.getD ""
  ip := ip
  ts := row.ts.getD 0
  expire := row.expire.getD (2^31)
  auth_info := row.auth_info.getD "excluded" }

theorem Row.text_ip (row : Row) : row.text.map Lease.ip = row.ip := by
  rw [Row.text, Option.map_map]
  exact congrFun Option.map_id row.ip

theorem Row.ip_of_text {row : Row} {lease : Lease} (h : row.text = some lease) :
    row.ip = some lease.ip := by
  rw [← row.text_ip, h, Option.map_some]

theorem Row.text_of_ip {row : Row} {p_saddr : String} (h : row.ip = some p_saddr) :
    ∃ lease, row.text = some lease ∧ lease.ip = p_saddr := by
  rw [Row.text, h, Option.map_some]
  exact ⟨_, rfl, rfl⟩

def Rows.text (T : Rows) : Leases where
  rows := T.rows.filterMap Row.text
  unique := by
    have hip : (T.rows.filterMap Row.text).map Lease.ip = T.rows.filterMap Row.ip := by
      rw [List.map_filterMap]
      exact congrArg (List.filterMap · T.rows) (funext Row.text_ip)
    rw [hip]
    exact T.unique

section Statements
variable {s : Setup} {now : U32} {scan' : Scan Lease} {mac : MACAddress} {ip : IPAddress} {T : Rows}

theorem Rows.mem_text {lease : Lease} :
    lease ∈ T.text.rows ↔ ∃ row ∈ T.rows, row.text = some lease := List.mem_filterMap

theorem Rows.text_changes (k : String) : T.text.changes k = T.changes k := by
  rw [Table.changes, Rows.text, List.countP_filterMap, Rows.changes]
  congr 1
  funext row
  cases h : row.text with
  | none =>
    have hip : row.ip = none := by rw [← row.text_ip, h, Option.map_none]
    simp [hip]
  | some lease => simp [Row.ip_of_text h]

theorem Rows.text_update {k : String} {f : Row → Row} (hf : ∀ row, (f row).ip = row.ip)
    {g : Lease → Lease} (hg : ∀ lease, (g lease).ip = lease.ip)
    (hfg : ∀ row, (f row).text = row.text.map g) :
    (T.update k f hf).text = T.text.update k g hg := by
  apply Table.ext
  change (T.rows.map _).filterMap Row.text = (T.rows.filterMap Row.text).map _
  rw [List.filterMap_map, List.map_filterMap]
  congr 1
  funext row
  rw [Function.comp_apply]
  -- the row is the one to change exactly if its lease is
  cases h : row.text with
  | none =>
    split_ifs
    · rw [hfg, h]
      rfl
    · rw [h]
      rfl
  | some lease =>
    rw [Option.map_some]
    by_cases hk : lease.ip = k
    · rw [if_pos ((Row.ip_of_text h).trans (congrArg some hk)), if_pos hk, hfg, h, Option.map_some]
    · have hip : ¬row.ip = some k := fun hip =>
        hk (Option.some.inj ((Row.ip_of_text h).symm.trans hip))
      rw [if_neg hip, if_neg hk, h]

theorem updated_text (auth_info : Option String) (row : Row) :
    (updated s now mac auth_info row).text =
      row.text.map (S3Dhcpd.updated s.text ⟨now, scan'⟩ mac auth_info) := by
  rw [Row.text, Row.text, Option.map_map]
  change row.ip.map _ = row.ip.map _
  congr 1
  funext p_saddr
  cases auth_info <;> rfl

theorem recordLease_text (auth_info : Option String) :
    (recordLease s now mac ip auth_info T).text =
      S3Dhcpd.recordLease s.text ⟨now, scan'⟩ mac ip auth_info T.text :=
  Rows.text_update (updated_ip s now mac auth_info) (S3Dhcpd.updated_ip s.text _ mac auth_info)
    (updated_text auth_info)

theorem Rows.text_insert {row : Row} {k : String} {hk : row.ip = some k} {lease : Lease}
    (h : row.text = some lease) : (T.insert row k hk).map Rows.text = T.text.insert lease := by
  have hkey : lease.ip = k := Option.some.inj ((Row.ip_of_text h).symm.trans hk)
  have hkeys : T.text.rows.map Lease.ip = T.rows.filterMap Row.ip := by
    rw [Rows.text, List.map_filterMap]
    exact congrArg (List.filterMap · T.rows) (funext Row.text_ip)
  rw [Rows.insert, Table.insert]
  by_cases hmem : k ∈ T.rows.filterMap Row.ip
  · rw [dif_pos hmem, dif_pos (by rwa [hkeys, hkey])]
    rfl
  · rw [dif_neg hmem, dif_neg (by rwa [hkeys, hkey]), Option.map_some, Option.some.injEq]
    apply Table.ext
    simp [Rows.text, h]

theorem doCreateLease_text (auth_info : String) :
    (Prod.fst <$> doCreateLease s now mac ip auth_info T).map Rows.text =
      Prod.fst <$> S3Dhcpd.doCreateLease s.text ⟨now, scan'⟩ mac ip auth_info T.text := by
  have hinsert : (T.insert (created s now mac ip auth_info) ip.s_addr rfl).map Rows.text =
      T.text.insert ⟨mac.s_addr, ip.s_addr, now.toInt, expireAt s.text now, auth_info⟩ :=
    Rows.text_insert rfl
  simp only [doCreateLease, S3Dhcpd.doCreateLease, ← hinsert]
  cases T.insert (created s now mac ip auth_info) ip.s_addr rfl <;> rfl

theorem recordStaticLease_text (auth_info : String) :
    (recordStaticLease s now mac ip auth_info T).map Rows.text =
      S3Dhcpd.recordStaticLease s.text ⟨now, scan'⟩ mac ip auth_info T.text := by
  have hupdate : (doUpdateLease s now mac ip (some auth_info) T).1.text =
      (S3Dhcpd.doUpdateLease s.text ⟨now, scan'⟩ mac ip (some auth_info) T.text).1 :=
    recordLease_text (some auth_info)
  have hchanges : (S3Dhcpd.doUpdateLease s.text ⟨now, scan'⟩ mac ip (some auth_info) T.text).2 =
      (doUpdateLease s now mac ip (some auth_info) T).2 := Rows.text_changes ip.s_addr
  rw [recordStaticLease, S3Dhcpd.recordStaticLease]
  simp only [hchanges]
  split_ifs
  · -- nothing was updated: the row of the assignment is inserted on both sides
    rw [← hupdate]
    exact doCreateLease_text auth_info
  · rw [← hupdate]
    rfl

/-- Recording a static lease cannot violate the unique index. -/
theorem recordStaticLease_ok (s : Setup) (now : U32) (mac : MACAddress) (ip : IPAddress)
    (auth_info : String) (T : Rows) :
    ∃ T', recordStaticLease s now mac ip auth_info T = .ok T' := by
  obtain ⟨leases, hleases, _⟩ := S3Dhcpd.recordStaticLease_ok s.text ⟨now, .rowid⟩ mac ip
    auth_info T.text
  rw [← recordStaticLease_text] at hleases
  cases h : recordStaticLease s now mac ip auth_info T with
  | ok T' => exact ⟨T', rfl⟩
  | error e =>
    rw [h] at hleases
    cases hleases

end Statements

/-- The address of a column is a text that fits. -/
def ColumnFits (column : Option String) : Prop :=
  ∃ p_saddr, column = some p_saddr ∧ IPAddress.Fits p_saddr

/-- The static assignment of a client, if it has one, is read without a fault. -/
def AssignmentFits (s : Setup) (mac : MACAddress) : Prop :=
  match s.rc.seek ("host-" ++ mac.s_addr) with
  | some str_ip => IPAddress.Fits str_ip
  | none => ∀ query, s.static_db = some query → ∀ column str_access,
      (query mac.s_addr).head? = some (column, str_access) →
        ColumnFits column ∧ str_access ≠ none

theorem ipColumn_fits {column : Option String} {p_saddr : String} (h : column = some p_saddr)
    (hfits : IPAddress.Fits p_saddr) : ipColumn column = .ok (.ofText p_saddr) := by
  rw [h, ipColumn, if_pos hfits]

theorem ipColumn_ok {column : Option String} {ip : IPAddress} (h : ipColumn column = .ok ip) :
    ∃ p_saddr, column = some p_saddr ∧ IPAddress.Fits p_saddr ∧ ip = .ofText p_saddr := by
  cases column with
  | none => cases h
  | some p_saddr =>
    rw [ipColumn] at h
    split_ifs at h with hfits
    cases h
    exact ⟨p_saddr, rfl, hfits, rfl⟩

section Assignments
variable {s : Setup} {mac : MACAddress}

/-- An assignment that is read without a fault is the one that the texts give. -/
theorem getStaticIp_fits (h : AssignmentFits s mac) :
    getStaticIp s mac = .ok (S3Dhcpd.getStaticIp s.text mac) := by
  cases hrc : s.rc.seek ("host-" ++ mac.s_addr) with
  | some str_ip =>
    simp only [AssignmentFits, hrc] at h
    simp only [getStaticIp, hrc, ipColumn_fits rfl h, S3Dhcpd.getStaticIp, rcStaticIp, Setup.text]
    rfl
  | none =>
    simp only [AssignmentFits, hrc] at h
    simp only [getStaticIp, hrc, S3Dhcpd.getStaticIp, rcStaticIp, Setup.text]
    cases hdb : s.static_db with
    | none => rfl
    | some query =>
      simp only [Option.map_some]
      cases hrows : query mac.s_addr with
      | nil => rfl
      | cons columns rest =>
        -- the first row of the query, with its columns
        obtain ⟨column, str_access⟩ := columns
        obtain ⟨⟨p_saddr, rfl, hfits⟩, haccess⟩ :=
          h query hdb column str_access (by rw [hrows, List.head?_cons])
        obtain ⟨access, rfl⟩ := Option.ne_none_iff_exists'.mp haccess
        simp only [ipColumn_fits rfl hfits]
        rfl

/-- Otherwise reading it is a fault. -/
theorem assignmentFits_of_ok {found : Option (IPAddress × Bool)}
    (h : getStaticIp s mac = .ok found) : AssignmentFits s mac := by
  cases hrc : s.rc.seek ("host-" ++ mac.s_addr) with
  | some str_ip =>
    simp only [getStaticIp, hrc] at h
    simp only [AssignmentFits, hrc]
    by_contra hlong
    rw [ipColumn, if_neg hlong] at h
    cases h
  | none =>
    simp only [getStaticIp, hrc] at h
    simp only [AssignmentFits, hrc]
    intro query hdb column str_access hhead
    simp only [hdb] at h
    cases hrows : query mac.s_addr with
    | nil =>
      rw [hrows] at hhead
      cases hhead
    | cons columns rest =>
      rw [hrows, List.head?_cons, Option.some.injEq] at hhead
      subst hhead
      simp only [hrows] at h
      cases hip : ipColumn column with
      | error fault =>
        rw [hip] at h
        cases h
      | ok ip =>
        obtain ⟨p_saddr, hcolumn, hfits, _⟩ := ipColumn_ok hip
        refine ⟨⟨p_saddr, hcolumn, hfits⟩, ?_⟩
        rintro rfl
        rw [hip] at h
        cases h

theorem getStaticIp_text {found : Option (IPAddress × Bool)} (h : getStaticIp s mac = .ok found) :
    S3Dhcpd.getStaticIp s.text mac = found :=
  Except.ok.inj ((getStaticIp_fits (assignmentFits_of_ok h)).symm.trans h)

end Assignments
/-- A row that `get_leased_ip` may return for a client. -/
def Owns (T : Rows) (mac : MACAddress) (row : Row) : Prop :=
  row ∈ T.rows ∧ row.mac = some mac.s_addr ∧ row.usable = true

/-- A row that `get_new_ip` may return. -/
def NextFree (T : Rows) (now : U32) (row : Row) : Prop :=
  row ∈ T.rows ∧ row.expired now = true ∧ row.usable = true ∧
    ∀ row' ∈ T.rows, row'.expired now = true → row'.usable = true →
      row.expire.getD 0 ≤ row'.expire.getD 0

section Queries
variable {scan : Scan Row} {mac : MACAddress} {now : U32} {T : Rows}

/-- The query finds a row of the client, whose address is then read, or the client has none. -/
theorem getLeasedIp_cases (scan : Scan Row) (mac : MACAddress) (T : Rows) :
    (∃ row, Owns T mac row ∧ getLeasedIp scan mac T = some <$> ipColumn row.ip) ∨
      (∀ row, ¬Owns T mac row) ∧ getLeasedIp scan mac T = .ok none := by
  rw [getLeasedIp]
  cases h : scan.first (fun row => row.mac = some mac.s_addr && row.usable) T.rows with
  | some row =>
    obtain ⟨hmem, hp⟩ := Scan.first_some h
    rw [Bool.and_eq_true, decide_eq_true_eq] at hp
    exact Or.inl ⟨row, ⟨hmem, hp⟩, rfl⟩
  | none =>
    refine Or.inr ⟨?_, rfl⟩
    rintro row ⟨hmem, hmac, husable⟩
    have hp := Scan.first_none.mp h row hmem
    simp [hmac, husable] at hp

theorem getLeasedIp_favour {row : Row} (h : Owns T mac row) :
    getLeasedIp (.favour row) mac T = some <$> ipColumn row.ip := by
  have hp : (decide (row.mac = some mac.s_addr) && row.usable) = true := by
    rw [Bool.and_eq_true, decide_eq_true_eq]
    exact h.2
  rw [getLeasedIp, Scan.favour_first h.1 hp]
  rfl

theorem getLeasedIp_none (h : ∀ row, ¬Owns T mac row) (scan : Scan Row) :
    getLeasedIp scan mac T = .ok none := by
  rcases getLeasedIp_cases scan mac T with ⟨row, hown, _⟩ | ⟨_, hnone⟩
  · exact absurd hown (h row)
  · exact hnone

theorem getNewIp_cases (scan : Scan Row) (now : U32) (T : Rows) :
    (∃ row, NextFree T now row ∧ getNewIp scan now T = some <$> ipColumn row.ip) ∨
      (∀ row ∈ T.rows, row.expired now = true → row.usable = false) ∧
        getNewIp scan now T = .ok none := by
  rw [getNewIp]
  cases h : scan.least (fun row => row.expired now && row.usable) (fun row => row.expire.getD 0)
      T.rows with
  | some row =>
    obtain ⟨hmem, hp, hmin⟩ := Scan.least_some h
    simp only [Bool.and_eq_true] at hp hmin
    exact Or.inl ⟨row, ⟨hmem, hp.1, hp.2, fun row' hr he hu => hmin row' hr ⟨he, hu⟩⟩, rfl⟩
  | none =>
    refine Or.inr ⟨?_, rfl⟩
    intro row hmem hexpired
    have hp := Scan.least_none.mp h row hmem
    rwa [hexpired, Bool.true_and] at hp

theorem getNewIp_favour {row : Row} (h : NextFree T now row) :
    getNewIp (.favour row) now T = some <$> ipColumn row.ip := by
  have hp : (row.expired now && row.usable) = true := by
    rw [Bool.and_eq_true]
    exact ⟨h.2.1, h.2.2.1⟩
  rw [getNewIp, Scan.favour_least h.1 hp ?_]
  · rfl
  · intro row' hr hp
    rw [Bool.and_eq_true] at hp
    exact h.2.2.2 row' hr hp.1 hp.2

end Queries

section Texts
variable {mac : MACAddress} {now : U32} {T : Rows} {row : Row} {lease : Lease}

theorem usable_text (h : row.text = some lease) :
    row.usable = true ↔ lease.auth_info ≠ "excluded" := by
  obtain ⟨ip, _, rfl⟩ := Option.map_eq_some_iff.mp h
  rw [Row.usable]
  cases row.auth_info <;> simp

theorem expired_text (h : row.text = some lease) :
    row.expired now = true ↔ lease.expire < now.toInt := by
  obtain ⟨ip, _, rfl⟩ := Option.map_eq_some_iff.mp h
  rw [Row.expired]
  cases row.expire with
  | none =>
    have hnow := BitVec.toInt_lt (x := now)
    simp only [Option.any_none, Option.getD_none, Bool.false_eq_true, false_iff]
    omega
  | some e => simp

theorem expire_text (h : row.text = some lease) (hexpired : row.expired now = true) :
    row.expire.getD 0 = lease.expire := by
  obtain ⟨ip, _, rfl⟩ := Option.map_eq_some_iff.mp h
  rw [Row.expired] at hexpired
  cases hexpire : row.expire with
  | none => simp [hexpire] at hexpired
  | some e => rfl

theorem mac_text (hmac : mac.s_addr ≠ "") (h : row.text = some lease) :
    row.mac = some mac.s_addr ↔ lease.mac = mac.s_addr := by
  obtain ⟨ip, _, rfl⟩ := Option.map_eq_some_iff.mp h
  cases row.mac with
  | none => simpa using hmac.symm
  | some p_saddr => simp

theorem owns_text (hmac : mac.s_addr ≠ "") (h : Owns T mac row) (htext : row.text = some lease) :
    S3Dhcpd.Owns T.text mac lease :=
  ⟨Rows.mem_text.mpr ⟨row, h.1, htext⟩, (mac_text hmac htext).mp h.2.1,
    (usable_text htext).mp h.2.2⟩

theorem ownsNone_text (hmac : mac.s_addr ≠ "") (h : ∀ row, ¬Owns T mac row) (lease : Lease) :
    ¬S3Dhcpd.Owns T.text mac lease := by
  rintro ⟨hmem, hlease, hx⟩
  obtain ⟨row, hrow, htext⟩ := Rows.mem_text.mp hmem
  exact h row ⟨hrow, (mac_text hmac htext).mpr hlease, (usable_text htext).mpr hx⟩

theorem nextFree_text (h : NextFree T now row) (htext : row.text = some lease) :
    S3Dhcpd.NextFree T.text now lease := by
  obtain ⟨hmem, hexpired, husable, hleast⟩ := h
  refine ⟨Rows.mem_text.mpr ⟨row, hmem, htext⟩, (expired_text htext).mp hexpired,
    (usable_text htext).mp husable, ?_⟩
  intro lease' hlease' hexpired' hx'
  obtain ⟨row', hrow', htext'⟩ := Rows.mem_text.mp hlease'
  have hrow'_expired : row'.expired now = true := (expired_text htext').mpr hexpired'
  rw [← expire_text htext hexpired, ← expire_text htext' hrow'_expired]
  exact hleast row' hrow' hrow'_expired ((usable_text htext').mpr hx')

theorem freeNone_text (h : ∀ row ∈ T.rows, row.expired now = true → row.usable = false)
    (lease : Lease) (hlease : lease ∈ T.text.rows) (hexpired : lease.expire < now.toInt) :
    lease.auth_info = "excluded" := by
  obtain ⟨row, hrow, htext⟩ := Rows.mem_text.mp hlease
  by_contra hx
  have husable : row.usable = true := (usable_text htext).mpr hx
  rw [h row hrow ((expired_text htext).mpr hexpired)] at husable
  cases husable

end Texts

section Simulation
variable {s : Setup} {scan : Scan Row} {now : U32} {mac : MACAddress} {ip : IPAddress} {T : Rows}

/-- A column that is read without a fault has the address of the row's lease. -/
theorem read_text {row : Row} {found : Option IPAddress}
    (h : some <$> ipColumn row.ip = .ok found) :
    ∃ lease, row.text = some lease ∧ found = some (.ofText lease.ip) := by
  cases hip : ipColumn row.ip with
  | error fault =>
    rw [hip] at h
    cases h
  | ok ip =>
    rw [hip] at h
    cases h
    obtain ⟨p_saddr, hcolumn, _, rfl⟩ := ipColumn_ok hip
    obtain ⟨lease, htext, rfl⟩ := Row.text_of_ip hcolumn
    exact ⟨lease, htext, rfl⟩

/-- A query on the stored columns that ends without a fault is one on the texts, in some order. -/
theorem getLeasedIp_simulated (hmac : mac.s_addr ≠ "") {found : Option IPAddress}
    (h : getLeasedIp scan mac T = .ok found) :
    ∃ scan', S3Dhcpd.getLeasedIp ⟨now, scan'⟩ mac T.text = found := by
  rcases getLeasedIp_cases scan mac T with ⟨row, hown, hread⟩ | ⟨hnone, hread⟩
  · obtain ⟨lease, htext, rfl⟩ := read_text (hread ▸ h)
    exact ⟨.favour lease, S3Dhcpd.getLeasedIp_favour (owns_text hmac hown htext) now⟩
  · rw [hread] at h
    cases h
    exact ⟨.rowid, S3Dhcpd.getLeasedIp_none.mpr (ownsNone_text hmac hnone)⟩

theorem getNewIp_simulated {found : Option IPAddress} (h : getNewIp scan now T = .ok found) :
    ∃ scan', S3Dhcpd.getNewIp ⟨now, scan'⟩ T.text = found := by
  rcases getNewIp_cases scan now T with ⟨row, hfree, hread⟩ | ⟨hnone, hread⟩
  · obtain ⟨lease, htext, rfl⟩ := read_text (hread ▸ h)
    exact ⟨.favour lease, S3Dhcpd.getNewIp_favour (nextFree_text hfree htext)⟩
  · rw [hread] at h
    cases h
    exact ⟨.rowid, S3Dhcpd.getNewIp_none.mpr (freeNone_text hnone)⟩

/-- That a client owns no row does not depend on the order. -/
theorem getLeasedIp_unowned (hmac : mac.s_addr ≠ "") (h : getLeasedIp scan mac T = .ok none)
    (env : Env) : S3Dhcpd.getLeasedIp env mac T.text = none := by
  rcases getLeasedIp_cases scan mac T with ⟨row, _, hread⟩ | ⟨hnone, _⟩
  · obtain ⟨lease, _, hfound⟩ := read_text (hread ▸ h)
    cases hfound
  · exact S3Dhcpd.getLeasedIp_none.mpr (ownsNone_text hmac hnone)

def Allocation.text (r : Allocation) : S3Dhcpd.Allocation := ⟨r.rows.text, r.ip, r.effects⟩

/-- A static assignment that is read without a fault is recorded as its texts are. -/
theorem ipAlloc_static {found : IPAddress × Bool} {r : Except IPAllocatorException Allocation}
    (hs : getStaticIp s mac = .ok (some found)) (h : ipAlloc s scan now mac T = .ok r)
    (scan' : Scan Lease) :
    S3Dhcpd.ipAlloc s.text ⟨now, scan'⟩ mac T.text = r.map Allocation.text := by
  have hassigned : S3Dhcpd.getStaticIp s.text mac = some found := getStaticIp_text hs
  obtain ⟨ip, inet_access⟩ := found
  rw [ipAlloc, hs] at h
  cases h
  unfold S3Dhcpd.ipAlloc
  rw [hassigned]
  dsimp only
  rw [← recordStaticLease_text]
  cases recordStaticLease s now mac ip (if inet_access then "static" else "internal") T <;> rfl

/-- A client without an assignment and a lease gets what the second query returns. -/
theorem ipAlloc_fresh (hmac : mac.s_addr ≠ "") {r : Except IPAllocatorException Allocation}
    (hs : getStaticIp s mac = .ok none) (hl : getLeasedIp scan mac T = .ok none)
    (h : ipAlloc s scan now mac T = .ok r) :
    ∃ scan', S3Dhcpd.ipAlloc s.text ⟨now, scan'⟩ mac T.text = r.map Allocation.text := by
  cases hn : getNewIp scan now T with
  | error fault =>
    simp only [ipAlloc, hs, hl, hn] at h
    cases h
  | ok found =>
    obtain ⟨scan', hnew⟩ := getNewIp_simulated hn
    have hunowned := getLeasedIp_unowned hmac hl ⟨now, scan'⟩
    refine ⟨scan', ?_⟩
    simp only [ipAlloc, hs, hl, hn] at h
    unfold S3Dhcpd.ipAlloc
    rw [getStaticIp_text hs, hunowned, hnew]
    cases found with
    | some ip =>
      cases h
      dsimp only
      rw [← recordLease_text]
      rfl
    | none =>
      cases h
      rfl

/-- An allocation that ends without a fault is one on the texts, in some order of the queries. -/
theorem ipAlloc_simulated (hmac : mac.s_addr ≠ "") {r : Except IPAllocatorException Allocation}
    (h : ipAlloc s scan now mac T = .ok r) :
    ∃ scan', S3Dhcpd.ipAlloc s.text ⟨now, scan'⟩ mac T.text = r.map Allocation.text := by
  cases hs : getStaticIp s mac with
  | error fault =>
    rw [ipAlloc, hs] at h
    cases h
  | ok found =>
    cases found with
    | some found => exact ⟨.rowid, ipAlloc_static hs h .rowid⟩
    | none =>
      cases hl : getLeasedIp scan mac T with
      | error fault =>
        simp only [ipAlloc, hs, hl] at h
        cases h
      | ok leased =>
        cases leased with
        | none => exact ipAlloc_fresh hmac hs hl h
        | some ip =>
          have hquery : ∃ scan', S3Dhcpd.getLeasedIp ⟨now, scan'⟩ mac T.text = some ip :=
            getLeasedIp_simulated hmac hl
          obtain ⟨scan', hleased⟩ := hquery
          simp only [ipAlloc, hs, hl] at h
          cases h
          refine ⟨scan', (ipAlloc_leased (getStaticIp_text hs) hleased).trans ?_⟩
          rw [← recordLease_text]
          rfl

def checkText (r : Rows × Bool) : Leases × Bool := (r.1.text, r.2)

/-- A client with a static assignment is checked as its texts are. -/
theorem ipCheck_static {sub : Subnet} {found : IPAddress × Bool}
    {r : Except IPAllocatorException (Rows × Bool)} (hsub : s.nets.mysubnet ip = some sub)
    (hs : getStaticIp s mac = .ok (some found)) (h : ipCheck s scan now mac ip T = .ok r)
    (scan' : Scan Lease) :
    S3Dhcpd.ipCheck s.text ⟨now, scan'⟩ mac ip T.text = r.map checkText := by
  obtain ⟨newip, inet_access⟩ := found
  simp only [ipCheck, hsub, hs] at h
  unfold S3Dhcpd.ipCheck
  rw [show s.text.nets.mysubnet ip = some sub from hsub, getStaticIp_text hs]
  dsimp only
  by_cases hdiffers : ip.u_addr ≠ newip.u_addr
  · rw [if_pos hdiffers]
    change (if _ then _ else _) = _ at h
    rw [if_pos hdiffers] at h
    cases h
    rfl
  · rw [if_neg hdiffers, ← recordStaticLease_text]
    change (if _ then _ else _) = _ at h
    rw [if_neg hdiffers] at h
    cases h
    cases recordStaticLease s now mac ip "static" T <;> rfl

/-- A client without an assignment is checked against the row that the query returns. -/
theorem ipCheck_leased (hmac : mac.s_addr ≠ "") {sub : Subnet}
    {r : Except IPAllocatorException (Rows × Bool)} (hsub : s.nets.mysubnet ip = some sub)
    (hs : getStaticIp s mac = .ok none) (hdyn : (!sub.hasDynamicRange) = false)
    (h : ipCheck s scan now mac ip T = .ok r) :
    ∃ scan', S3Dhcpd.ipCheck s.text ⟨now, scan'⟩ mac ip T.text = r.map checkText := by
  cases hl : getLeasedIp scan mac T with
  | error fault =>
    simp only [ipCheck, hsub, hs] at h
    change (if _ then _ else _) = _ at h
    rw [if_neg (by rw [hdyn]; decide), hl] at h
    cases h
  | ok leased =>
    have hquery : ∃ scan', S3Dhcpd.getLeasedIp ⟨now, scan'⟩ mac T.text = leased :=
      getLeasedIp_simulated hmac hl
    obtain ⟨scan', hleased⟩ := hquery
    refine ⟨scan', ?_⟩
    simp only [ipCheck, hsub, hs] at h
    change (if _ then _ else _) = _ at h
    rw [if_neg (by rw [hdyn]; decide), hl] at h
    unfold S3Dhcpd.ipCheck
    rw [show s.text.nets.mysubnet ip = some sub from hsub, getStaticIp_text hs, hleased]
    dsimp only
    rw [if_neg (by rw [hdyn]; decide)]
    cases leased with
    | none =>
      cases h
      rfl
    | some newip =>
      by_cases hdiffers : ip.u_addr ≠ newip.u_addr
      · change (if _ then _ else _) = _ at h
        rw [if_pos hdiffers] at h
        cases h
        dsimp only
        rw [if_pos hdiffers]
        rfl
      · change (if _ then _ else _) = _ at h
        rw [if_neg hdiffers] at h
        cases h
        dsimp only
        rw [if_neg hdiffers, ← recordLease_text]
        rfl

/-- A check that ends without a fault is one on the texts, in some order of the query. -/
theorem ipCheck_simulated (hmac : mac.s_addr ≠ "") {r : Except IPAllocatorException (Rows × Bool)}
    (h : ipCheck s scan now mac ip T = .ok r) :
    ∃ scan', S3Dhcpd.ipCheck s.text ⟨now, scan'⟩ mac ip T.text = r.map checkText := by
  cases hsub : s.nets.mysubnet ip with
  | none =>
    simp only [ipCheck, hsub] at h
    cases h
    refine ⟨.rowid, ?_⟩
    unfold S3Dhcpd.ipCheck
    rw [show s.text.nets.mysubnet ip = none from hsub]
    rfl
  | some sub =>
    cases hs : getStaticIp s mac with
    | error fault =>
      simp only [ipCheck, hsub, hs] at h
      cases h
    | ok found =>
      cases found with
      | some found => exact ⟨.rowid, ipCheck_static hsub hs h .rowid⟩
      | none =>
        cases hdyn : !sub.hasDynamicRange with
        | false => exact ipCheck_leased hmac hsub hs hdyn h
        | true =>
          -- no lease is looked up in a subnet without a dynamic range
          simp only [ipCheck, hsub, hs] at h
          change (if _ then _ else _) = _ at h
          rw [if_pos hdyn] at h
          cases h
          refine ⟨.rowid, ?_⟩
          unfold S3Dhcpd.ipCheck
          rw [show s.text.nets.mysubnet ip = some sub from hsub, getStaticIp_text hs]
          dsimp only
          rw [if_pos hdyn]
          rfl

end Simulation

def turnText (r : Rows × Turn) : Leases × Turn := (r.1.text, r.2)

section Turns
variable {s : Setup} {scan : Scan Row} {T : Rows} {d : Datagram} {request : DHCP_Packet}

theorem offerOrNak_text (r : Except IPAllocatorException Allocation) (scan' : Scan Lease) :
    turnText (offerOrNak s T d request r) =
      S3Dhcpd.offerOrNak s.text T.text (d.withScan scan') request (r.map Allocation.text) := by
  cases r with
  | error e => rfl
  | ok r =>
    obtain ⟨rows, ip, effects⟩ := r
    cases ip with
    | none => rfl
    | some ip_addr =>
      have hoffer : request.createDhcpOffer s.text.nets (d.withScan scan').garbage ip_addr =
          request.createDhcpOffer s.nets d.garbage ip_addr := rfl
      simp only [offerOrNak, Except.map, S3Dhcpd.offerOrNak, Allocation.text, hoffer]
      cases request.createDhcpOffer s.nets d.garbage ip_addr <;> rfl

theorem ackOrNak_text (ip : IPAddress) (r : Except IPAllocatorException (Rows × Bool))
    (scan' : Scan Lease) : turnText (ackOrNak s T d request ip r) =
      S3Dhcpd.ackOrNak s.text T.text (d.withScan scan') request ip (r.map checkText) := by
  cases r with
  | error e => rfl
  | ok r =>
    obtain ⟨rows, granted⟩ := r
    cases granted <;> rfl

theorem dispatch_simulated (hmac : request.mac.s_addr ≠ "") {r : Rows × Turn}
    (h : dispatch s scan T d request = .ok r) :
    ∃ scan', S3Dhcpd.dispatch s.text T.text (d.withScan scan') request = turnText r := by
  have hgarbage (scan' : Scan Lease) : (d.withScan scan').garbage = d.garbage := rfl
  simp only [dispatch] at h
  simp only [S3Dhcpd.dispatch, hgarbage]
  split_ifs at h with h₁ h₂ h₃ h₄ h₅
  · cases hr : ipAlloc s scan d.env.now request.mac T with
    | error fault =>
      rw [hr] at h
      cases h
    | ok allocation =>
      rw [hr] at h
      cases h
      obtain ⟨scan', halloc⟩ := ipAlloc_simulated hmac hr
      refine ⟨scan', ?_⟩
      rw [if_pos h₁, offerOrNak_text, ← halloc]
      rfl
  · cases h
    refine ⟨.rowid, ?_⟩
    simp only [if_neg h₁, if_pos h₂]
    rfl
  · cases h
    refine ⟨.rowid, ?_⟩
    simp only [if_neg h₁, if_neg h₂, if_pos h₃]
    rfl
  · cases hr : ipCheck s scan d.env.now request.mac (request.getRequestedAddress d.garbage) T with
    | error fault =>
      rw [hr] at h
      cases h
    | ok checked =>
      rw [hr] at h
      cases h
      obtain ⟨scan', hcheck⟩ := ipCheck_simulated hmac hr
      refine ⟨scan', ?_⟩
      simp only [if_neg h₁, if_neg h₂, if_neg h₃, if_pos h₄]
      rw [ackOrNak_text, ← hcheck]
      rfl
  · cases h
    refine ⟨.rowid, ?_⟩
    simp only [if_neg h₁, if_neg h₂, if_neg h₃, if_neg h₄, if_pos h₅]
    rw [turnText, ipInvalidate, recordLease_text]
    rfl
  · cases h
    refine ⟨.rowid, ?_⟩
    simp only [if_neg h₁, if_neg h₂, if_neg h₃, if_neg h₄, if_neg h₅]
    rfl

theorem marksInside_iff :
    MarksInside d ↔ (optionArea d.buffer d.message_length).length < MAX_DHCP_OPTIONS := by
  obtain ⟨hfilled, _, hwritten⟩ := @marshallSlots_filled d.buffer d.message_length
  have hlength := @readOptions_length d.buffer d.message_length
  constructor
  · intro h
    have hlast := h _ hwritten
    omega
  · intro hfew i hi
    have hlast := hfilled.written i hi
    omega

theorem mainLoop_ignored (h : d.request = none) :
    mainLoop s scan T d = .ok (T, ⟨[], .ok none⟩) := by
  cases hcookie : checkMagicCookie d.buffer d.message_length with
  | false => simp [mainLoop, hcookie]
  | true =>
    obtain ⟨request, hrequest⟩ := request_of_cookie hcookie
    rw [h] at hrequest
    cases hrequest

theorem mainLoop_handled (h : d.request = some request) : mainLoop s scan T d =
    if MarksInside d then dispatch s scan T d request else .error .overrun := by
  cases hcookie : checkMagicCookie d.buffer d.message_length with
  | false => simp [Datagram.request, hcookie] at h
  | true =>
    obtain ⟨request', hrequest⟩ := marshall_ok hcookie
    rw [Datagram.request, if_pos hcookie, hrequest] at h
    cases h
    have hlen : ¬d.message_length < BOOTP_ABSOLUTE_MIN_LEN := by
      have hlen := cookie_length hcookie
      rw [BOOTP_ABSOLUTE_MIN_LEN]
      omega
    simp only [mainLoop, hcookie, hlen, hrequest]
    rfl

/-- A turn that keeps to its memory does with the stored rows what `main_loop` does with their
texts, in some order of the queries. -/
theorem mainLoop_simulated {r : Rows × Turn} (h : mainLoop s scan T d = .ok r) :
    ∃ scan', S3Dhcpd.mainLoop s.text T.text (d.withScan scan') = turnText r := by
  cases hrequest : d.request with
  | none =>
    rw [mainLoop_ignored hrequest] at h
    cases h
    refine ⟨.rowid, ?_⟩
    rw [mainLoop_request, Datagram.withScan_request, hrequest]
    rfl
  | some request =>
    rw [mainLoop_handled hrequest] at h
    split_ifs at h
    obtain ⟨scan', hturn⟩ := dispatch_simulated (macU2s_ne_empty _) h
    refine ⟨scan', ?_⟩
    rw [mainLoop_request, Datagram.withScan_request, hrequest]
    exact hturn

end Turns

end S3Dhcpd.Stored
