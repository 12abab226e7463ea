import S3Dhcpd.Exclusivity

/-! What a client keeps while others are served: its address, and the answer to its request. -/
namespace S3Dhcpd
open KeyedTable LeaseRegister Runs

/-- The names under which real clients hold leases. -/
def clients : Set String := {c | ∃ m : U64, hwAddr m ≠ 0 ∧ c = macU2s m}

theorem nobody_notMem_clients : nobody ∉ clients := by
  rintro ⟨m, hm, h⟩
  exact hm (macU2s_inj.mp h).symm

theorem granted_invalidated {e : Call × Answer} {a : U32} (h : granted e = some a) :
    e.1.op.invalidated = none := by
  obtain ⟨⟨env, op⟩, answer⟩ := e
  cases op with
  | ipInvalidate m ip => cases answer <;> cases h
  | _ => rfl

section Run
variable {cfg : Config} {T : Leases} {calls : List Call} {a : U32} {m : U64}

theorem grant_view (hstatic : NoStatic cfg) (hT : Canonical T) {c : Call} (hc : RealClient c)
    (hg : Grants (c, (serveCall cfg T c).2) a (hwAddr m)) :
    view (serveCall cfg T c).1 a = some (macU2s m, ((expireAt cfg c.env.now : ℤ) : WithTop ℤ)) := by
  have hmac : macU2s c.op.mac = macU2s m := macU2s_inj.mpr hg.2
  have hinv : c.op.invalidated = none := granted_invalidated hg.1
  rw [← (serveCall_register hstatic hT hc).2, entries, acts, hg.1, hinv, hmac]
  exact Function.update_self ..

/-- A client keeps an address that is neither granted to another client nor invalidated. -/
theorem view_kept (hstatic : NoStatic cfg) (hT : Canonical T) (hcalls : ∀ c ∈ calls, RealClient c)
    {v : WithTop ℤ} (hheld : view T a = some (macU2s m, v))
    (hothers : ∀ e ∈ trace (serveCall cfg) T calls, ∀ client, Grants e a client →
      client = hwAddr m)
    (hvalid : ∀ c ∈ calls, c.op.invalidated ≠ some a) :
    ∃ v', view (after (serveCall cfg) T calls) a = some (macU2s m, v') := by
  rw [← (calls_register hstatic hT hcalls).2]
  -- what keeps a holder in the register is an entry-wise condition on the log
  apply holder_stays hheld
  intro x hx
  obtain ⟨e, he, hxe⟩ := List.mem_flatMap.mp hx
  obtain ⟨_, _, ⟨b, hb, hact⟩ | ⟨b, hb, hact⟩⟩ := mem_entries.mp hxe
  · constructor
    · intro c' hc'
      rw [hact, Act.grant.injEq] at hc'
      obtain ⟨rfl, rfl⟩ := hc'
      exact macU2s_inj.mpr (hothers e he _ ⟨hb, rfl⟩)
    · rw [hact]
      simp
  · constructor
    · intro c' hc'
      rw [hact] at hc'
      cases hc'
    · rw [hact]
      rintro ⟨rfl⟩
      exact hvalid _ (trace_call he) hb

theorem populate_single (nets : Subnets) : Single clients (view (populate nets Table.empty)) := by
  rintro _ ⟨m, hm, rfl⟩ b _ u _ hb _
  obtain ⟨row, hown, _⟩ := view_owns hm hb
  obtain ⟨_, rfl⟩ := populate_fresh hown.1
  exact absurd hown.2.1.symm (macU2s_ne_empty m)

theorem owns_unique (hstatic : NoStatic cfg) (hcalls : ∀ c ∈ calls, RealClient c)
    (hm : hwAddr m ≠ 0) {row row' : Lease}
    (h : Owns (after (serveCall cfg) (populate cfg.nets Table.empty) calls) (.ofU64 m) row)
    (h' : Owns (after (serveCall cfg) (populate cfg.nets Table.empty) calls) (.ofU64 m) row') :
    row = row' := by
  have hT := populate_canonical cfg.nets
  have hcanon := calls_canonical hstatic hT calls
  have hsingle := single_after nobody_notMem_clients (populate_single cfg.nets)
    (calls_register hstatic hT hcalls).1
  rw [(calls_register hstatic hT hcalls).2] at hsingle
  have hip := hsingle _ ⟨m, hm, rfl⟩ _ _ _ _ (owns_view hcanon h) (owns_view hcanon h')
  apply Table.row_unique _ h.1 h'.1
  rw [← hcanon.row_text h.1, ← hcanon.row_text h'.1, hip]

/-- Every address of the table lies in the pool. -/
def Pooled (cfg : Config) (T : Leases) : Prop := ∀ row ∈ T.rows, Pool cfg.nets (ipS2u row.ip)

theorem serveCall_pooled (hstatic : NoStatic cfg) (c : Call) (hT : Pooled cfg T) :
    Pooled cfg (serveCall cfg T c).1 := by
  intro row hrow
  rcases serveCall_recorded hstatic T c with hsame | ⟨mac, ip, auth_info, hrec⟩
  · exact hT row (hsame ▸ hrow)
  · rw [hrec] at hrow
    rcases mem_recordLease.mp hrow with ⟨row₀, hrow₀, rfl⟩ | ⟨hmem, _⟩
    · exact hT row₀ (Table.row?_eq_some.mp hrow₀).1
    · exact hT row hmem

theorem populate_pooled (hmask : PrefixNets cfg.nets) : Pooled cfg (populate cfg.nets .empty) := by
  intro row hrow
  obtain ⟨a, ha, rfl⟩ := (mem_populate_pool hmask).mp hrow
  rw [freshRow, IPAddress.ofU32, ipS2u_ipU2s]
  exact ha

/-- Without static assignments the addresses of the table stay as they are populated. -/
theorem calls_pooled (hstatic : NoStatic cfg) (hmask : PrefixNets cfg.nets) (calls : List Call) :
    Pooled cfg (after (serveCall cfg) (populate cfg.nets .empty) calls) :=
  after_invariant (C := fun _ _ => True) (fun _ c hT _ => serveCall_pooled hstatic c hT)
    (populate_pooled hmask) (meets_of_forall fun _ _ _ => trivial)

/-- What the grant of `a` leaves to its client, however the others are served. -/
theorem address_kept (hstatic : NoStatic cfg) {pre mid : List Call} {c₁ : Call}
    (hcalls : ∀ c ∈ pre ++ c₁ :: mid, RealClient c) (hm : hwAddr m ≠ 0)
    (hgrant : Grants (c₁, (serveCall cfg (after (serveCall cfg) (populate cfg.nets .empty) pre) c₁).2)
      a (hwAddr m))
    (hothers : ∀ e ∈ trace (serveCall cfg)
      (after (serveCall cfg) (populate cfg.nets .empty) (pre ++ [c₁])) mid,
      ∀ client, Grants e a client → client = hwAddr m)
    (hvalid : ∀ c ∈ mid, c.op.invalidated ≠ some a) (env : Env) :
    (∃ row ∈ (after (serveCall cfg) (populate cfg.nets .empty) (pre ++ c₁ :: mid)).rows,
      row.ip = ipU2s a) ∧
    getLeasedIp env (.ofU64 m) (after (serveCall cfg) (populate cfg.nets .empty) (pre ++ c₁ :: mid)) =
      some (.ofU32 a) := by
  rw [List.forall_mem_append, List.forall_mem_cons] at hcalls
  have hcanon := calls_canonical hstatic (populate_canonical cfg.nets) pre
  -- the register follows the address from the grant on, and what it says is then read off the table
  have hview := grant_view hstatic hcanon hcalls.2.1 hgrant
  rw [after_append] at hothers
  obtain ⟨v, hview'⟩ := view_kept hstatic (serveCall_canonical hstatic c₁ hcanon) hcalls.2.2 hview
    hothers hvalid
  rw [← after_cons, ← after_append] at hview'
  obtain ⟨row, hown, hip, _⟩ := view_owns hm hview'
  have hleased : getLeasedIp env (.ofU64 m) (after (serveCall cfg) (populate cfg.nets .empty)
      (pre ++ c₁ :: mid)) = some (.ofText row.ip) :=
    getLeasedIp_unique hown fun row' hown' =>
      owns_unique hstatic (List.forall_mem_append.mpr ⟨hcalls.1, List.forall_mem_cons.mpr hcalls.2⟩)
        hm hown' hown
  refine ⟨⟨row, hown.1, hip⟩, ?_⟩
  rw [hleased, hip, IPAddress.ofText, ipS2u_ipU2s, IPAddress.ofU32]

theorem grants_to_holder (hstatic : NoStatic cfg) (hT : Canonical T) {pre mid : List Call}
    {c₁ c₂ : Call} (hcalls : ∀ c ∈ (pre ++ c₁ :: mid) ++ [c₂], RealClient c)
    (hclock : Clocked cfg ((pre ++ c₁ :: mid) ++ [c₂]))
    (hgrant : Grants (c₁, (serveCall cfg (after (serveCall cfg) T pre) c₁).2) a (hwAddr m))
    (ht : c₂.env.now.toInt ≤ c₁.env.now.toInt+cfg.nets.globalnet.lease_time.toNat) :
    ∀ e ∈ trace (serveCall cfg) (after (serveCall cfg) T (pre ++ [c₁])) mid,
      ∀ client, Grants e a client → client = hwAddr m := by
  intro e he client hg
  by_contra hne
  -- a grant to another client would come after the lease, and so after `c₂`
  have hexcl := trace_exclusive hstatic hT hcalls hclock
  rw [trace_append, List.pairwise_append, trace_append, List.pairwise_append, trace_cons,
    List.pairwise_cons] at hexcl
  rw [after_append] at he
  have hlate : c₁.env.now.toInt+cfg.nets.globalnet.lease_time.toNat < e.1.env.now.toInt :=
    hexcl.1.2.1.1 e he _ _ _ hgrant hg (Ne.symm hne)
  have hord := hclock.ordered
  rw [List.pairwise_append] at hord
  have hle := hord.2.2 e.1 (List.mem_append_right _ (List.mem_cons_of_mem _ (trace_call he))) c₂
    (List.mem_singleton_self c₂)
  omega

/-- An allocation returns a row of the client, or one that expired before all that are not excluded. -/
theorem allocated_row (hstatic : NoStatic cfg) {env : Env} {ip : IPAddress} {effects : List Effect}
    (h : (serveCall cfg T ⟨env, .ipAlloc m⟩).2 = .alloc (some ip) effects) :
    ∃ row ∈ T.rows, row.ip = ip.s_addr ∧
      (row.mac ≠ macU2s m → row.expire < env.now.toInt ∧ row.auth_info ≠ "excluded" ∧
        ∀ row' ∈ T.rows, row'.auth_info ≠ "excluded" → row.expire ≤ row'.expire) := by
  obtain ⟨leases, ip', effects', hr, hspec⟩ := serveCall_alloc cfg env m T
  simp only [hr, Answer.alloc.injEq] at h
  obtain ⟨rfl, _⟩ := h
  cases hspec with
  | static hassigned _ => exact (hstatic.not_assigned hassigned).elim
  | @leased row _ hown => exact ⟨row, hown.1, rfl, fun hne => absurd hown.2.1 hne⟩
  | @fresh row _ _ hfree =>
    obtain ⟨hmem, hexpired, hx, hleast⟩ := hfree
    refine ⟨row, hmem, rfl, fun _ => ⟨hexpired, hx, fun row' hrow' hx' => ?_⟩⟩
    by_cases hexpired' : row'.expire < env.now.toInt
    · exact hleast row' hrow' hexpired' hx'
    · omega

end Run

/-- Every offer is honoured: the client that was allocated `a` may request it during the lease,
unless the address is declined in between. -/
theorem offer_honoured {cfg : Config} (hstatic : NoStatic cfg) (hmask : PrefixNets cfg.nets)
    (hdis : DisjointNets cfg.nets) {pre mid : List Call} {c₁ c₂ : Call}
    (hcalls : ∀ c ∈ pre ++ c₁ :: (mid ++ [c₂]), RealClient c)
    (hclock : Clocked cfg (pre ++ c₁ :: (mid ++ [c₂]))) {m : U64} {ip : IPAddress}
    {effects : List Effect} (hop₁ : c₁.op = .ipAlloc m)
    (hoffer : (serveCall cfg (after (serveCall cfg) (populate cfg.nets .empty) pre) c₁).2 =
      .alloc (some ip) effects)
    (hvalid : ∀ c ∈ mid, c.op.invalidated ≠ some ip.u_addr)
    (hop₂ : c₂.op = .ipCheck m (some ip.u_addr))
    (ht : c₂.env.now.toInt ≤ c₁.env.now.toInt+cfg.nets.globalnet.lease_time.toNat) :
    (serveCall cfg (after (serveCall cfg) (populate cfg.nets .empty) (pre ++ c₁ :: mid)) c₂).2 =
      .check true := by
  have hsplit : pre ++ c₁ :: (mid ++ [c₂]) = (pre ++ c₁ :: mid) ++ [c₂] := by simp
  rw [hsplit] at hcalls hclock
  have hm : hwAddr m ≠ 0 := by
    have hreal := hcalls c₂ (by simp)
    rwa [RealClient, hop₂] at hreal
  have hgrant : Grants
      (c₁, (serveCall cfg (after (serveCall cfg) (populate cfg.nets .empty) pre) c₁).2)
      ip.u_addr (hwAddr m) := by
    obtain ⟨env₁, op₁⟩ := c₁
    subst hop₁
    rw [hoffer]
    exact ⟨rfl, rfl⟩
  -- while the lease runs nobody else is granted the address
  have hothers := grants_to_holder hstatic (populate_canonical cfg.nets) hcalls hclock hgrant ht
  rw [List.forall_mem_append] at hcalls
  obtain ⟨⟨row, hrow, htext⟩, hleased⟩ := address_kept hstatic hcalls.1 hm hgrant hothers hvalid
    c₂.env
  -- the row is one of the pool, so the subnet it is found in has a dynamic range
  have hpool := calls_pooled hstatic hmask _ _ hrow
  rw [htext, ipS2u_ipU2s] at hpool
  obtain ⟨sub, hsub, hdyn⟩ := pool_mysubnet hmask hdis hpool (rfl : (IPAddress.ofU32 ip.u_addr).u_addr = _)
  obtain ⟨env₂, op₂⟩ := c₂
  subst hop₂
  have hcheck := ipCheck_leased hsub (hstatic m) hdyn hleased rfl
  simp only [serveCall, requested, hcheck, answerCheck]

/-- The first client of the example confirms its offer at the end of its lease, after the second
client was served. -/
theorem offer_honoured_example : (serveCall exampleCfg
    (after (serveCall exampleCfg) exampleTable
      [⟨⟨1, .rowid⟩, .ipAlloc 1⟩, ⟨⟨2, .rowid⟩, .ipAlloc 2⟩])
    ⟨⟨181, .rowid⟩, .ipCheck 1 (some (ipS2u "10.20.11.50"))⟩).2 = .check true := by
  have hoffer : (serveCall exampleCfg (after (serveCall exampleCfg) exampleTable [])
      ⟨⟨1, .rowid⟩, .ipAlloc 1⟩).2 =
      .alloc (some (.ofText "10.20.11.50")) [] := by rfl
  have hvalid : ∀ c ∈ [(⟨⟨2, .rowid⟩, .ipAlloc 2⟩ : Call)],
      c.op.invalidated ≠ some (IPAddress.ofText "10.20.11.50").u_addr := by simp [Op.invalidated]
  refine offer_honoured exampleCfg_noStatic exampleNets_prefix exampleNets_disjoint ?_ ⟨?_, ?_⟩ rfl
    hoffer hvalid rfl (by decide)
  · simp [RealClient, Op.mac, hwAddr]
  · simp
  · simp [exampleCfg, exampleNets]

/-- Address stability, and reuse of the lease that expired longest ago: a client is allocated the
address that it was last granted, however long ago, unless the address went to another client or
was declined; and an allocation takes from its client only an expired row than which no row that
is not excluded expires earlier. -/
theorem address_stability {cfg : Config} (hstatic : NoStatic cfg) {calls : List Call}
    (hcalls : ∀ c ∈ calls, RealClient c) :
    (∀ pre c₁ mid c₂ post, calls = pre ++ c₁ :: (mid ++ c₂ :: post) → ∀ a m,
      Grants (c₁, (serveCall cfg (after (serveCall cfg) (populate cfg.nets .empty) pre) c₁).2) a
        (hwAddr m) →
      (∀ e ∈ trace (serveCall cfg)
        (after (serveCall cfg) (populate cfg.nets .empty) (pre ++ [c₁])) mid,
        ∀ client, Grants e a client → client = hwAddr m) →
      (∀ c ∈ mid, c.op.invalidated ≠ some a) → c₂.op = .ipAlloc m →
      Grants (c₂, (serveCall cfg
        (after (serveCall cfg) (populate cfg.nets .empty) (pre ++ c₁ :: mid)) c₂).2) a (hwAddr m)) ∧
    (∀ pre c post, calls = pre ++ c :: post → ∀ m ip effects, c.op = .ipAlloc m →
      (serveCall cfg (after (serveCall cfg) (populate cfg.nets .empty) pre) c).2 =
        .alloc (some ip) effects →
      ∃ row ∈ (after (serveCall cfg) (populate cfg.nets .empty) pre).rows, row.ip = ip.s_addr ∧
        (row.mac ≠ macU2s m → row.expire < c.env.now.toInt ∧ row.auth_info ≠ "excluded" ∧
          ∀ row' ∈ (after (serveCall cfg) (populate cfg.nets .empty) pre).rows,
            row'.auth_info ≠ "excluded" → row.expire ≤ row'.expire)) := by
  constructor
  · intro pre c₁ mid c₂ post hsplit a m hgrant hothers hvalid hop
    have hsplit' : calls = (pre ++ c₁ :: mid) ++ c₂ :: post := by simp [hsplit]
    rw [hsplit', List.forall_mem_append, List.forall_mem_cons] at hcalls
    have hm : hwAddr m ≠ 0 := by
      have hreal := hcalls.2.1
      rwa [RealClient, hop] at hreal
    have hleased := (address_kept hstatic hcalls.1 hm hgrant hothers hvalid c₂.env).2
    obtain ⟨env₂, op₂⟩ := c₂
    subst hop
    simp only [serveCall, ipAlloc_leased (hstatic m) hleased, answerAlloc]
    exact ⟨rfl, rfl⟩
  · intro pre c post _ m ip effects hop hanswer
    obtain ⟨env, op⟩ := c
    subst hop
    exact allocated_row hstatic hanswer

/-- Long after its lease the first client of the example is given its address again, and the
second client's row was a free one. -/
theorem address_stability_example :
    (∃ row ∈ (serveCall exampleCfg exampleTable ⟨⟨1, .rowid⟩, .ipAlloc 1⟩).1.rows,
      row.ip = "10.20.11.51" ∧ row.expire < 2) ∧
    Grants (⟨⟨1000, .rowid⟩, .ipAlloc 1⟩, (serveCall exampleCfg
      (after (serveCall exampleCfg) exampleTable
        [⟨⟨1, .rowid⟩, .ipAlloc 1⟩, ⟨⟨2, .rowid⟩, .ipAlloc 2⟩])
      ⟨⟨1000, .rowid⟩, .ipAlloc 1⟩).2) (ipS2u "10.20.11.50") (hwAddr 1) := by
  have hcalls : ∀ c ∈ ([⟨⟨1, .rowid⟩, .ipAlloc 1⟩, ⟨⟨2, .rowid⟩, .ipAlloc 2⟩,
      ⟨⟨1000, .rowid⟩, .ipAlloc 1⟩] : List Call), RealClient c := by simp [RealClient, Op.mac, hwAddr]
  have h := address_stability exampleCfg_noStatic hcalls
  constructor
  · obtain ⟨row, hrow, hip, hfree⟩ := h.2 [⟨⟨1, .rowid⟩, .ipAlloc 1⟩] ⟨⟨2, .rowid⟩, .ipAlloc 2⟩ _ rfl
      2 (.ofText "10.20.11.51") [] rfl rfl
    have hmac : ∀ r ∈ (serveCall exampleCfg exampleTable ⟨⟨1, .rowid⟩, .ipAlloc 1⟩).1.rows,
      r.mac ≠ macU2s 2 := by decide
    exact ⟨row, hrow, hip, (hfree (hmac row hrow)).1⟩
  · refine h.1 [] _ [⟨⟨2, .rowid⟩, .ipAlloc 2⟩] _ [] rfl _ 1 (by decide) ?_ ?_ rfl
    · intro e he client hg
      rw [trace_cons, trace_nil, List.mem_singleton] at he
      subst he
      exact absurd hg.1 (by decide)
    · simp [Op.invalidated]

end S3Dhcpd
