import S3Dhcpd.MainLoop

/-! Whom an invalidation binds, and what a release gives back. -/
namespace S3Dhcpd
open KeyedTable Runs

/-- The row of the address is nobody's until `u` or later. -/
structure Withdrawn (a : U32) (u : ℤ) (T : Leases) : Prop where
  canonical : Canonical T
  held : ∃ row, T.row? (ipU2s a) = some row ∧ row.mac = nobody ∧ u ≤ row.expire

/-- The call leaves a withdrawn address alone: it does not allocate for the hardware address zero,
and when it writes the row of the address anew, the expiry stays in the range of `int`. -/
def KeepsWithdrawn (cfg : Config) (a : U32) (c : Call) : Prop :=
  match c.op with
  | .ipAlloc m => hwAddr m ≠ 0
  | .ipCheck m ip => hwAddr m = 0 → ip = some a →
      c.env.now.toInt+cfg.nets.globalnet.lease_time.toNat < 2^31
  | .ipFree _ _ => True
  | .ipInvalidate _ ip => ip = a → c.env.now.toInt+cfg.nets.globalnet.lease_time.toNat < 2^31

section Step
variable {cfg : Config} {T : Leases} {a : U32} {u : ℤ}

theorem Withdrawn.recordLease (h : Withdrawn a u T) {env : Env} {mac : MACAddress} {ip : IPAddress}
    {auth_info : Option String}
    (hip : ip.s_addr = ipU2s a → mac.s_addr = nobody ∧ u ≤ expireAt cfg env.now) :
    Withdrawn a u (recordLease cfg env mac ip auth_info T) := by
  obtain ⟨row, hrow, hmac, hexpire⟩ := h.held
  refine ⟨h.canonical.recordLease, ?_⟩
  rw [row?_recordLease, hrow]
  by_cases hk : ipU2s a = ip.s_addr
  · rw [if_pos hk]
    exact ⟨_, rfl, hip hk.symm⟩
  · rw [if_neg hk]
    exact ⟨row, rfl, hmac, hexpire⟩

/-- A row that somebody owns, or that expires earlier, is under another address. -/
theorem Withdrawn.ne (h : Withdrawn a u T) {row : Lease} (hrow : row ∈ T.rows)
    (hother : row.mac ≠ nobody ∨ row.expire < u) : ipS2u row.ip ≠ a := by
  rintro rfl
  obtain ⟨row', hrow', hmac, hexpire⟩ := h.held
  rw [h.canonical.row_text hrow, Table.row?_mem hrow, Option.some.injEq] at hrow'
  subst hrow'
  rcases hother with hne | hlt
  · exact hne hmac
  · omega

theorem Withdrawn.owner (h : Withdrawn a u T) {m : U64} {row : Lease} (hown : Owns T (.ofU64 m) row)
    (hip : ipS2u row.ip = a) : hwAddr m = 0 := by
  by_contra hm
  refine h.ne hown.1 (Or.inl fun hmac => hm ?_) hip
  rw [hown.2.1] at hmac
  exact macU2s_inj.mp hmac

theorem withdrawn_invalidate (hT : Canonical T) {row : Lease} (hrow : row ∈ T.rows) {env : Env}
    (hbound : env.now.toInt+cfg.nets.globalnet.lease_time.toNat < 2^31) (mac : MACAddress) :
    Withdrawn (ipS2u row.ip) (env.now.toInt+cfg.nets.globalnet.lease_time.toNat)
      (ipInvalidate cfg env mac (.ofU32 (ipS2u row.ip)) T) := by
  refine ⟨hT.recordLease, ?_⟩
  rw [ipInvalidate, row?_recordLease, IPAddress.ofU32, if_pos rfl, hT.row_text hrow,
    Table.row?_mem hrow]
  exact ⟨_, rfl, rfl, (expireAt_eq hbound).ge⟩

theorem serveCall_withdrawn (hstatic : NoStatic cfg) (h : Withdrawn a u T) {c : Call}
    (hu : u ≤ c.env.now.toInt+cfg.nets.globalnet.lease_time.toNat) (hnow : c.env.now.toInt ≤ u)
    (hkeep : KeepsWithdrawn cfg a c) : Withdrawn a u (serveCall cfg T c).1 := by
  obtain ⟨env, op⟩ := c
  cases op with
  | ipAlloc m =>
    obtain ⟨leases, ip, effects, hr, hspec⟩ := serveCall_alloc cfg env m T
    simp only [hr]
    have haddress {row : Lease} (hip : row.ip = ipU2s a) : ipS2u row.ip = a := by
      rw [hip, ipS2u_ipU2s]
    cases hspec with
    | static hassigned _ => exact (hstatic.not_assigned hassigned).elim
    | leased _ hown =>
      exact h.recordLease fun hip => absurd (h.owner hown (haddress hip)) hkeep
    | fresh _ _ hfree =>
      exact h.recordLease fun hip =>
        absurd (haddress hip) (h.ne hfree.1 (Or.inr (hfree.2.1.trans_le hnow)))
    | refused _ _ _ => exact h
  | ipCheck m ip =>
    obtain ⟨leases, granted, hr, hspec⟩ := serveCall_check cfg env m ip T
    simp only [hr]
    cases hspec with
    | declined _ => exact h
    | static _ hassigned _ _ => exact (hstatic.not_assigned hassigned).elim
    | @leased _ row _ _ _ hown hsame =>
      apply h.recordLease
      intro hip
      cases ip with
      | none => exact absurd hip.symm (ipU2s_ne_empty a)
      | some b =>
        -- only a client with the hardware address zero renews the row
        have hb : b = a := ipU2s_injective hip
        subst hb
        have hzero : hwAddr m = 0 := h.owner hown hsame.symm
        refine ⟨macU2s_inj.mpr hzero, ?_⟩
        rw [expireAt_eq (hkeep hzero rfl)]
        exact hu
  | ipFree m ip => exact h
  | ipInvalidate m ip =>
    refine h.recordLease fun hip => ⟨rfl, ?_⟩
    rw [expireAt_eq (hkeep (ipU2s_injective hip))]
    exact hu

theorem withdrawn_granted (hstatic : NoStatic cfg) (h : Withdrawn a u T) {c : Call}
    (hnow : c.env.now.toInt ≤ u) (hg : granted (c, (serveCall cfg T c).2) = some a) :
    hwAddr c.op.mac = 0 := by
  obtain ⟨env, op⟩ := c
  cases op with
  | ipAlloc m =>
    obtain ⟨leases, ip, effects, hr, hspec⟩ := serveCall_alloc cfg env m T
    simp only [hr] at hg
    cases hspec with
    | static hassigned _ => exact (hstatic.not_assigned hassigned).elim
    | leased _ hown => exact h.owner hown (Option.some.inj hg)
    | fresh _ _ hfree =>
      -- the row has not expired, so it is not free
      exact absurd (Option.some.inj hg) (h.ne hfree.1 (Or.inr (hfree.2.1.trans_le hnow)))
    | refused _ _ _ => cases hg
  | ipCheck m ip =>
    obtain ⟨leases, granted, hr, hspec⟩ := serveCall_check cfg env m ip T
    simp only [hr] at hg
    cases hspec with
    | declined _ => cases ip <;> cases hg
    | static _ hassigned _ _ => exact (hstatic.not_assigned hassigned).elim
    | leased _ _ _ hown hsame =>
      cases ip with
      | none => cases hg
      | some b => exact h.owner hown (hsame.symm.trans (Option.some.inj hg))
  | ipFree m ip => cases hg
  | ipInvalidate m ip => cases hg

end Step

/-- An invalidated address is not allocated for a lease time, as long as nobody comes with the
hardware address zero and the row's expiry stays in the range of `int`. -/
theorem invalidation_binds {cfg : Config} (hstatic : NoStatic cfg) {T : Leases} (hT : Canonical T)
    {row : Lease} (hrow : row ∈ T.rows) {env : Env} {m : U64} {calls : List Call}
    (hbound : env.now.toInt+cfg.nets.globalnet.lease_time.toNat < 2^31)
    (hord : (⟨env, .ipInvalidate m (ipS2u row.ip)⟩ :: calls).Pairwise
      fun c c' : Call => c.env.now.toInt ≤ c'.env.now.toInt)
    (hkeep : ∀ c ∈ calls, c.env.now.toInt ≤ env.now.toInt+cfg.nets.globalnet.lease_time.toNat →
      KeepsWithdrawn cfg (ipS2u row.ip) c) :
    ∀ pre c post, calls = pre ++ c :: post → ∀ m', c.op = .ipAlloc m' →
      c.env.now.toInt ≤ env.now.toInt+cfg.nets.globalnet.lease_time.toNat →
        granted (c, (serveCall cfg (after (serveCall cfg)
          (serveCall cfg T ⟨env, .ipInvalidate m (ipS2u row.ip)⟩).1 pre) c).2) ≠
            some (ipS2u row.ip) := by
  intro pre c post hsplit m' hop hnow hg
  obtain ⟨hlater, hord⟩ := List.pairwise_cons.mp hord
  have hc : c ∈ calls := by
    rw [hsplit]
    exact List.mem_append_cons_self
  -- the invariant is `Withdrawn`, which holds until its time is over
  have hstep : ∀ (T : Leases) (c : Call), Withdrawn (ipS2u row.ip)
      (env.now.toInt+cfg.nets.globalnet.lease_time.toNat) T →
      c.env.now.toInt ≤ env.now.toInt+cfg.nets.globalnet.lease_time.toNat →
      (env.now.toInt ≤ c.env.now.toInt ∧ KeepsWithdrawn cfg (ipS2u row.ip) c) →
        Withdrawn (ipS2u row.ip) (env.now.toInt+cfg.nets.globalnet.lease_time.toNat)
          (serveCall cfg T c).1 :=
    fun T c hT hnow hC => serveCall_withdrawn hstatic hT (Int.add_le_add_right hC.1 _) hnow hC.2
  have hwithdrawn := until_invariant (fun c : Call => c.env.now.toInt) hstep
    (withdrawn_invalidate hT hrow hbound (.ofU64 m)) hord
    (fun c hc hnow => ⟨hlater c hc, hkeep c hc hnow⟩) hsplit hnow
  have hzero := withdrawn_granted hstatic hwithdrawn hnow hg
  have hreal := hkeep c hc hnow
  simp only [KeepsWithdrawn, hop] at hreal
  rw [hop] at hzero
  exact hreal hzero

/-- The sentinel owner of an invalidated row is a client like any other. -/
theorem zero_client_takes_invalidated : ¬∀ (cfg : Config) (T : Leases) (row : Lease) (env : Env)
    (m : U64) (calls : List Call), NoStatic cfg → Canonical T → row ∈ T.rows →
      env.now.toInt+cfg.nets.globalnet.lease_time.toNat < 2^31 →
      (⟨env, .ipInvalidate m (ipS2u row.ip)⟩ :: calls).Pairwise
        (fun c c' : Call => c.env.now.toInt ≤ c'.env.now.toInt) →
      ∀ pre c post, calls = pre ++ c :: post → ∀ m', c.op = .ipAlloc m' →
        c.env.now.toInt ≤ env.now.toInt+cfg.nets.globalnet.lease_time.toNat →
          granted (c, (serveCall cfg (after (serveCall cfg)
            (serveCall cfg T ⟨env, .ipInvalidate m (ipS2u row.ip)⟩).1 pre) c).2) ≠
              some (ipS2u row.ip) := by
  intro h
  refine h exampleCfg exampleTable ⟨"", "10.20.11.50", 0, 0, "-"⟩ ⟨1000, .rowid⟩ 1
    [⟨⟨1001, .rowid⟩, .ipAlloc 0⟩] exampleCfg_noStatic (populate_canonical exampleNets) (by decide)
    (by decide) (by simp) [] _ [] rfl 0 rfl (by decide) ?_
  decide

/-- Another client does not get the invalidated address. -/
theorem invalidation_binds_example : granted (⟨⟨1001, .rowid⟩, .ipAlloc 2⟩,
    (serveCall exampleCfg (serveCall exampleCfg exampleTable
      ⟨⟨1000, .rowid⟩, .ipInvalidate 1 (ipS2u "10.20.11.50")⟩).1 ⟨⟨1001, .rowid⟩, .ipAlloc 2⟩).2) ≠
        some (ipS2u "10.20.11.50") := by
  have hrow : (⟨"", "10.20.11.50", 0, 0, "-"⟩ : Lease) ∈ exampleTable.rows := by decide
  have hord : [(⟨⟨1000, .rowid⟩, .ipInvalidate 1 (ipS2u "10.20.11.50")⟩ : Call),
      ⟨⟨1001, .rowid⟩, .ipAlloc 2⟩].Pairwise
        fun c c' => c.env.now.toInt ≤ c'.env.now.toInt := by simp
  refine invalidation_binds exampleCfg_noStatic (populate_canonical exampleNets) hrow
    (by decide) hord ?_
    [] _ [] rfl 2 rfl (by decide)
  intro c hc _
  rw [List.mem_singleton.mp hc]
  simp [KeepsWithdrawn, hwAddr]

/-- The states of the server over its runs and restarts, from an empty database. -/
inductive Reachable (cfg : Config) : Leases → Prop where
  | start : Reachable cfg (populate cfg.nets .empty)
  | turn {T : Leases} (d : Datagram) (h : Reachable cfg T) : Reachable cfg (mainLoop cfg T d).1
  | restart {T : Leases} (h : Reachable cfg T) : Reachable cfg (populate cfg.nets T)

theorem Reachable.canonical {cfg : Config} (hstatic : NoStatic cfg) {T : Leases}
    (h : Reachable cfg T) : Canonical T := by
  induction h with
  | start => exact populate_canonical cfg.nets
  | turn d _ ih =>
    rw [mainLoop_leases]
    cases d.op with
    | none => exact ih
    | some op => exact serveCall_canonical hstatic _ ih
  | restart _ ih =>
    intro row hrow
    rcases mem_populate_old.mp hrow with hold | ⟨⟨sub, _, hnew⟩, _⟩
    · exact ih row hold
    · obtain ⟨a, rfl⟩ := rangeRows_fresh hnew
      rw [canonicalQuad_iff, freshRow, IPAddress.ofU32, ipS2u_ipU2s]

/-- A released address is not free: while its lease runs and no other row is expired, a client
that owns nothing is refused. -/
theorem release_frees_nothing {cfg : Config} (hstatic : NoStatic cfg) {T : Leases} {row : Lease}
    {m m' : U64} {env env' : Env} (hunexpired : env'.now.toInt ≤ row.expire)
    (hothers : ∀ row' ∈ T.rows, row' ≠ row → row'.auth_info ≠ "excluded" →
      ¬row'.expire < env'.now.toInt)
    (hnone : ∀ row', ¬Owns T (.ofU64 m') row') :
    granted (⟨env', .ipAlloc m'⟩, (serveCall cfg
      (serveCall cfg T ⟨env, .ipFree m (ipS2u row.ip)⟩).1 ⟨env', .ipAlloc m'⟩).2) = none := by
  -- `ip_free` does nothing
  have hsame : (serveCall cfg T ⟨env, .ipFree m (ipS2u row.ip)⟩).1 = T := rfl
  rw [hsame]
  obtain ⟨leases, ip, effects, hr, hspec⟩ := serveCall_alloc cfg env' m' T
  rw [hr]
  cases hspec with
  | static hassigned _ => exact (hstatic.not_assigned hassigned).elim
  | leased _ hown => exact absurd hown (hnone _)
  | @fresh row' _ _ hfree =>
    obtain ⟨hmem, hexpired, hx, _⟩ := hfree
    by_cases hrow : row' = row
    · subst hrow
      omega
    · exact absurd hexpired (hothers row' hmem hrow hx)
  | refused _ _ _ => rfl

/-- Both addresses of the example are leased. -/
def leasedTable : Leases := after (mainLoop exampleCfg) exampleTable
  [exampleDatagram 1000 DHCP_DISCOVER 1 0, exampleDatagram 1001 DHCP_DISCOVER 2 0]

theorem leasedTable_reachable : Reachable exampleCfg leasedTable :=
  .turn _ (.turn _ .start)

theorem leasedTable_rows : leasedTable.rows = [⟨macU2s 1, "10.20.11.50", 1000, 1180, "new"⟩,
    ⟨macU2s 2, "10.20.11.51", 1001, 1181, "new"⟩] := by
  decide

theorem leasedTable_third (row : Lease) : ¬Owns leasedTable (.ofU64 3) row := by
  rintro ⟨hmem, hmac, _⟩
  have hrows : ∀ r ∈ leasedTable.rows, r.mac ≠ macU2s 3 := by
    rw [leasedTable_rows]
    decide
  exact hrows row hmem hmac

/-- What a client releases is not in the pool. -/
theorem release_leaves_pool : ¬∀ (cfg : Config) (T : Leases) (row : Lease) (m m' : U64)
    (env env' : Env), NoStatic cfg → Reachable cfg T → row ∈ T.rows → row.mac = macU2s m →
      hwAddr m ≠ 0 → row.auth_info ≠ "excluded" → env.now.toInt ≤ row.expire →
      env.now.toInt ≤ env'.now.toInt → env'.now.toInt ≤ row.expire →
      (∀ row' ∈ T.rows, row' ≠ row → row'.auth_info ≠ "excluded" →
        ¬row'.expire < env'.now.toInt) →
      hwAddr m' ≠ 0 → (∀ row', ¬Owns T (.ofU64 m') row') →
        granted (⟨env', .ipAlloc m'⟩, (serveCall cfg
          (serveCall cfg T ⟨env, .ipFree m (ipS2u row.ip)⟩).1 ⟨env', .ipAlloc m'⟩).2) =
            some (ipS2u row.ip) := by
  intro h
  have hgranted := h exampleCfg leasedTable ⟨macU2s 1, "10.20.11.50", 1000, 1180, "new"⟩ 1 3
    ⟨1100, .rowid⟩ ⟨1101, .rowid⟩ exampleCfg_noStatic leasedTable_reachable
    (by rw [leasedTable_rows]; decide) rfl (by decide) (by decide) (by decide) (by decide)
    (by decide) (by rw [leasedTable_rows]; decide) (by decide) leasedTable_third
  have hrefused : granted (⟨⟨1101, .rowid⟩, .ipAlloc 3⟩, (serveCall exampleCfg
      (serveCall exampleCfg leasedTable ⟨⟨1100, .rowid⟩, .ipFree 1 (ipS2u "10.20.11.50")⟩).1
        ⟨⟨1101, .rowid⟩, .ipAlloc 3⟩).2) = none := by decide
  exact Option.some_ne_none _ (hgranted.symm.trans hrefused)

/-- The third client of the example is refused after the first one's release. -/
theorem release_frees_nothing_example : granted (⟨⟨1101, .rowid⟩, .ipAlloc 3⟩,
    (serveCall exampleCfg (serveCall exampleCfg leasedTable
      ⟨⟨1100, .rowid⟩, .ipFree 1 (ipS2u "10.20.11.50")⟩).1 ⟨⟨1101, .rowid⟩, .ipAlloc 3⟩).2) =
        none := by
  refine @release_frees_nothing exampleCfg exampleCfg_noStatic leasedTable
    ⟨macU2s 1, "10.20.11.50", 1000, 1180, "new"⟩ 1 3 ⟨1100, .rowid⟩ ⟨1101, .rowid⟩ (by decide) ?_
    leasedTable_third
  rw [leasedTable_rows]
  decide

end S3Dhcpd
