import S3Dhcpd.MainLoop

/-! What keeps an excluded address out of use. -/
namespace S3Dhcpd
open KeyedTable Runs

/-- The row under a text is excluded. -/
def Excluded (T : Leases) (k : String) : Prop := ∃ row, T.row? k = some row ∧ row.auth_info = "excluded"

/-- The call may undo the exclusion of `k`, or hand out its address from a row under another text:
an invalidation names it, an allocation may return its number, or a check of its number is
confirmed by a row of the caller. -/
def Unlocks (cfg : Config) (T : Leases) (now : U32) (k : String) : Op → Prop
  | .ipAlloc m => ∃ ip, MayAllocate cfg T now (.ofU64 m) ip ∧ ip.u_addr = ipS2u k
  | .ipCheck m (some a) => a = ipS2u k ∧ ∃ sub, cfg.nets.mysubnet (.ofU32 a) = some sub ∧
      sub.hasDynamicRange = true ∧ ∃ row, Owns T (.ofU64 m) row ∧ ipS2u row.ip = a
  | .ipInvalidate _ a => ipU2s a = k
  | _ => False

section Step
variable {cfg : Config} {env : Env} {T : Leases} {k : String} {op : Op}

/-- An update that passes no text keeps what the row says. -/
theorem excluded_recordLease (h : Excluded T k) {mac : MACAddress} {ip : IPAddress}
    {auth_info : Option String} (hk : auth_info = none ∨ k ≠ ip.s_addr) :
    Excluded (recordLease cfg env mac ip auth_info T) k := by
  obtain ⟨row, hrow, hx⟩ := h
  by_cases hip : k = ip.s_addr
  · have hnone : auth_info = none := hk.resolve_right fun hne => hne hip
    subst hnone
    exact ⟨updated cfg env mac none row,
      by rw [row?_recordLease, if_pos hip, hrow, Option.map_some], hx⟩
  · exact ⟨row, by rw [row?_recordLease, if_neg hip, hrow], hx⟩

theorem Excluded.ne_text (h : Excluded T k) {row : Lease} (hrow : row ∈ T.rows)
    (hx : row.auth_info ≠ "excluded") : k ≠ row.ip := by
  rintro rfl
  obtain ⟨row', hrow', hx'⟩ := h
  rw [Table.row?_mem hrow, Option.some.injEq] at hrow'
  exact hx (hrow' ▸ hx')

theorem serveCall_excluded (h : Excluded T k)
    (hunassigned : getStaticIp cfg (.ofU64 op.mac) = none) (hlocked : ¬Unlocks cfg T env.now k op) :
    Excluded (serveCall cfg T ⟨env, op⟩).1 k ∧
      granted (⟨env, op⟩, (serveCall cfg T ⟨env, op⟩).2) ≠ some (ipS2u k) := by
  cases op with
  | ipAlloc m =>
    obtain ⟨leases, ip, effects, hr, hspec⟩ := serveCall_alloc cfg env m T
    simp only [hr]
    cases ip with
    | none =>
      cases hspec
      exact ⟨h, (Option.some_ne_none _).symm⟩
    | some ip =>
      refine ⟨?_, fun hg => hlocked ⟨ip, hspec.mayAllocate, Option.some.inj hg⟩⟩
      cases hspec with
      | static hassigned _ => exact (assigned_absurd hunassigned hassigned).elim
      -- neither query returns the excluded row
      | leased _ hown => exact excluded_recordLease h (Or.inr (h.ne_text hown.1 hown.2.2))
      | fresh _ _ hfree => exact excluded_recordLease h (Or.inr (h.ne_text hfree.1 hfree.2.2.1))
  | ipCheck m ip =>
    obtain ⟨leases, granted, hr, hspec⟩ := serveCall_check cfg env m ip T
    simp only [hr]
    cases hspec with
    | declined _ =>
      refine ⟨h, ?_⟩
      cases ip <;> exact (Option.some_ne_none _).symm
    | static _ hassigned _ _ => exact (assigned_absurd hunassigned hassigned).elim
    | @leased sub row hsub _ hdyn hown hsame =>
      refine ⟨excluded_recordLease h (Or.inl rfl), ?_⟩
      cases ip with
      | none => exact (Option.some_ne_none _).symm
      | some a =>
        intro hg
        exact hlocked ⟨Option.some.inj hg, sub, hsub, hdyn, row, hown, hsame.symm⟩
  | ipFree m ip => exact ⟨h, (Option.some_ne_none _).symm⟩
  | ipInvalidate m ip =>
    exact ⟨excluded_recordLease h (Or.inr fun hk => hlocked hk.symm), (Option.some_ne_none _).symm⟩

/-- Where the texts are canonical only an invalidation that names the row can undo its exclusion. -/
theorem unlocks_canonical {now : U32} (hT : Canonical T) (h : Excluded T k)
    (hunassigned : getStaticIp cfg (.ofU64 op.mac) = none) (hunlocks : Unlocks cfg T now k op) :
    ∃ m a, op = .ipInvalidate m a ∧ ipU2s a = k := by
  have hk : k = ipU2s (ipS2u k) := by
    obtain ⟨row, hrow, _⟩ := h
    obtain ⟨hmem, rfl⟩ := Table.row?_eq_some.mp hrow
    exact (hT.row_text hmem).symm
  -- under canonical texts another row has another number, too
  have hne {row : Lease} (hmem : row ∈ T.rows) (hx : row.auth_info ≠ "excluded") :
      ipS2u row.ip ≠ ipS2u k := by
    intro hip
    exact h.ne_text hmem hx (by rw [hk, ← hip, hT.row_text hmem])
  cases op with
  | ipAlloc m =>
    obtain ⟨ip, hip, hnum⟩ := hunlocks
    cases hip with
    | static hassigned => exact (assigned_absurd hunassigned hassigned).elim
    | leased _ hown => exact absurd hnum (hne hown.1 hown.2.2)
    | fresh _ _ hfree => exact absurd hnum (hne hfree.1 hfree.2.2.1)
  | ipCheck m ip =>
    cases ip with
    | none => exact hunlocks.elim
    | some a =>
      obtain ⟨ha, _, _, _, row, hown, hrow⟩ := hunlocks
      exact absurd (hrow.trans ha) (hne hown.1 hown.2.2)
  | ipFree m ip => exact hunlocks.elim
  | ipInvalidate m a => exact ⟨m, a, rfl, hunlocks⟩

end Step

/-- The clients of the packets have no static assignment. -/
def Unassigned (cfg : Config) (d : Datagram) : Prop :=
  ∀ request, d.request = some request → getStaticIp cfg request.mac = none

theorem Unassigned.op {cfg : Config} {d : Datagram} (h : Unassigned cfg d) {op : Op}
    (hop : d.op = some op) : getStaticIp cfg (.ofU64 op.mac) = none := by
  obtain ⟨request, hrequest, hmac⟩ := op_mac hop
  rw [hmac]
  exact h request hrequest

theorem mainLoop_excluded {cfg : Config} {T : Leases} {d : Datagram} {k : String}
    (h : Excluded T k) (hunassigned : Unassigned cfg d)
    (hlocked : ∀ op, d.op = some op → ¬Unlocks cfg T d.env.now k op) :
    Excluded (mainLoop cfg T d).1 k := by
  rw [mainLoop_leases]
  cases hop : d.op with
  | none => exact h
  | some op => exact (serveCall_excluded h (hunassigned.op hop) (hlocked op hop)).1

/-- In a run whose packets do not unlock an excluded row, the row stays excluded and its address is
never granted. -/
theorem exclusion_kept {cfg : Config} {T : Leases} {row : Lease} (hrow : row ∈ T.rows)
    (hx : row.auth_info = "excluded") {ds : List Datagram} (hclients : ∀ d ∈ ds, Unassigned cfg d)
    (hmeets : Meets (mainLoop cfg)
      (fun T d => ∀ op, d.op = some op → ¬Unlocks cfg T d.env.now row.ip op) T ds) :
    Excluded (after (mainLoop cfg) T ds) row.ip ∧
      ∀ pre d post, ds = pre ++ d :: post → ∀ op, d.op = some op →
        granted (⟨d.env, op⟩, (serveCall cfg (after (mainLoop cfg) T pre) ⟨d.env, op⟩).2) ≠
          some (ipS2u row.ip) := by
  have hstart : Excluded T row.ip := ⟨row, Table.row?_mem hrow, hx⟩
  have hmeets := hmeets.and_forall hclients
  -- the invariant is `Excluded`; a turn keeps it unless it unlocks the row
  have hstep : ∀ (T : Leases) (d : Datagram), Excluded T row.ip →
      (Unassigned cfg d ∧ ∀ op, d.op = some op → ¬Unlocks cfg T d.env.now row.ip op) →
        Excluded (mainLoop cfg T d).1 row.ip :=
    fun T d h hC => mainLoop_excluded h hC.1 hC.2
  refine ⟨after_invariant hstep hstart hmeets, ?_⟩
  intro pre d post hsplit op hop
  obtain ⟨hT, hunassigned, hlocked⟩ := hmeets.at_split hstep hstart hsplit
  exact (serveCall_excluded hT (hunassigned.op hop) (hlocked op hop)).2

/-- The first address of the example's range is excluded. -/
def excludedTable : Leases :=
  ⟨[⟨"", "10.20.11.50", 0, 0, "excluded"⟩, ⟨"", "10.20.11.51", 0, 0, "-"⟩], by decide⟩

theorem exampleCfg_unassigned (d : Datagram) : Unassigned exampleCfg d :=
  fun request _ => exampleCfg_noStatic request.mac.u_addr

/-- Any client may decline an excluded address, which puts it back into the pool. -/
theorem decline_lifts_exclusion : ¬∀ (cfg : Config) (T : Leases) (row : Lease)
    (ds : List Datagram), row ∈ T.rows → row.auth_info = "excluded" →
      (∀ d ∈ ds, Unassigned cfg d) →
      Excluded (after (mainLoop cfg) T ds) row.ip ∧
        ∀ pre d post, ds = pre ++ d :: post → ∀ op, d.op = some op →
          granted (⟨d.env, op⟩, (serveCall cfg (after (mainLoop cfg) T pre) ⟨d.env, op⟩).2) ≠
            some (ipS2u row.ip) := by
  intro h
  have hgranted := (h exampleCfg excludedTable ⟨"", "10.20.11.50", 0, 0, "excluded"⟩
    [exampleDatagram 1000 DHCP_DECLINE 1 (ipS2u "10.20.11.50"),
      exampleDatagram 1100 DHCP_DISCOVER 2 0, exampleDatagram 2000 DHCP_DISCOVER 1 0]
    (by decide) rfl (fun d _ => exampleCfg_unassigned d)).2
      [exampleDatagram 1000 DHCP_DECLINE 1 (ipS2u "10.20.11.50"),
        exampleDatagram 1100 DHCP_DISCOVER 2 0]
      (exampleDatagram 2000 DHCP_DISCOVER 1 0) [] rfl (.ipAlloc 1) (by rfl)
  exact hgranted (by decide)

/-- A DISCOVER leaves the exclusion alone. -/
theorem exclusion_kept_example : Excluded (after (mainLoop exampleCfg) excludedTable
    [exampleDatagram 1000 DHCP_DISCOVER 1 0]) "10.20.11.50" := by
  have hrow : (⟨"", "10.20.11.50", 0, 0, "excluded"⟩ : Lease) ∈ excludedTable.rows := by decide
  refine (exclusion_kept hrow rfl (fun d _ => exampleCfg_unassigned d)
    ((meets_cons _ _ _).mpr ⟨?_, meets_nil _⟩)).1
  have hop : (exampleDatagram 1000 DHCP_DISCOVER 1 0).op = some (.ipAlloc 1) := by rfl
  intro op hop'
  obtain rfl := Option.some.inj (hop'.symm.trans hop)
  have hrows : ∀ row ∈ excludedTable.rows, row.auth_info ≠ "excluded" →
      ipS2u row.ip ≠ ipS2u "10.20.11.50" := by decide
  rintro ⟨ip, hip, hnum⟩
  cases hip with
  | static hassigned => exact (exampleCfg_noStatic.not_assigned hassigned).elim
  | leased _ hown => exact hrows _ hown.1 hown.2.2 hnum
  | fresh _ _ hfree => exact hrows _ hfree.1 hfree.2.2.1 hnum

end S3Dhcpd
