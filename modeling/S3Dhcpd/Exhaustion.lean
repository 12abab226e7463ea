import S3Dhcpd.Exclusivity

/-! New clients drain the pool: every free address goes out once, and then no more. -/
namespace S3Dhcpd
open KeyedTable Runs

/-- The rows that `get_new_ip` selects from. -/
def isFree (now : U32) (row : Lease) : Bool := row.expire < now.toInt && row.auth_info ≠ "excluded"

theorem isFree_iff {now : U32} {row : Lease} :
    isFree now row = true ↔ row.expire < now.toInt ∧ row.auth_info ≠ "excluded" := by
  simp only [isFree, Bool.and_eq_true, decide_eq_true_eq]

/-- The address that an allocation returned, and `none` when it was refused. -/
def Answer.allocated : Answer → Option (Option U32)
  | .alloc ip _ => some (ip.map IPAddress.u_addr)
  | _ => none

/-- What a run of `k` allocations answers, when the free rows go out in the given order. -/
def drained (order : List Lease) (k : ℕ) : List (Option (Option U32)) :=
  (order.take k).map (fun row => some (some (ipS2u row.ip))) ++
    List.replicate (k-order.length) (some none)

theorem exists_order (rows : List Lease) :
    ∃ order : List Lease, order.Perm rows ∧ order.Pairwise fun row row' => row.expire ≤ row'.expire := by
  have htotal : Std.Total fun row row' : Lease => row.expire ≤ row'.expire :=
    ⟨fun row row' => le_total row.expire row'.expire⟩
  have htrans : IsTrans Lease fun row row' => row.expire ≤ row'.expire :=
    ⟨fun _ _ _ => le_trans⟩
  exact ⟨_, List.perm_insertionSort (fun row row' => row.expire ≤ row'.expire) rows,
    List.pairwise_insertionSort _ rows⟩

theorem not_isFree_updated {cfg : Config} {env : Env}
    (hbound : env.now.toInt+cfg.nets.globalnet.lease_time.toNat < 2^31) (mac : MACAddress)
    (auth_info : Option String) (row : Lease) :
    isFree env.now (updated cfg env mac auth_info row) = false := by
  have hlate : ¬expireAt cfg env.now < env.now.toInt := by
    rw [expireAt_eq hbound]
    omega
  simp [isFree, updated, hlate]

theorem recordLease_others {cfg : Config} {env : Env} {m m' : U64} (hne : hwAddr m ≠ hwAddr m')
    {ip : IPAddress} {auth_info : Option String} {T : Leases}
    (h : ∀ row ∈ T.rows, row.mac ≠ macU2s m') :
    ∀ row ∈ (recordLease cfg env (.ofU64 m) ip auth_info T).rows, row.mac ≠ macU2s m' := by
  intro row hrow
  rcases mem_recordLease.mp hrow with ⟨row₀, _, rfl⟩ | ⟨hmem, _⟩
  · exact fun heq => hne (macU2s_inj.mp heq)
  · exact h row hmem

/-- A lease of the next free row takes it from the head of the free rows. -/
theorem drain_fresh {cfg : Config} {env : Env}
    (hbound : env.now.toInt+cfg.nets.globalnet.lease_time.toNat < 2^31) {T : Leases} {row : Lease}
    (hfree : NextFree T env.now row) (mac : MACAddress) {order : List Lease}
    (hperm : order.Perm ((recordLease cfg env mac (.ofText row.ip) (some "new") T).rows.filter
      (isFree env.now))) :
    (row :: order).Perm (T.rows.filter (isFree env.now)) ∧ ∀ r ∈ order, row.expire ≤ r.expire := by
  have hp : isFree env.now row = true := isFree_iff.mpr ⟨hfree.2.1, hfree.2.2.1⟩
  have hpf := not_isFree_updated hbound mac (some "new") row
  have htake := Table.perm_filter_update hfree.1 hp (updated_ip cfg env mac (some "new")) hpf
  have hall : (row :: order).Perm (T.rows.filter (isFree env.now)) :=
    (hperm.cons row).trans htake.symm
  refine ⟨hall, fun r hr => ?_⟩
  obtain ⟨hmem, hrfree⟩ := List.mem_filter.mp (hall.mem_iff.mp (List.mem_cons_of_mem row hr))
  obtain ⟨hexpired, hx⟩ := isFree_iff.mp hrfree
  exact hfree.2.2.2 r hmem hexpired hx

theorem drain_refused {T : Leases} {now : U32}
    (hfull : ∀ row ∈ T.rows, row.expire < now.toInt → row.auth_info = "excluded") :
    T.rows.filter (isFree now) = [] := by
  rw [List.filter_eq_nil_iff]
  intro row hrow hfree
  obtain ⟨hexpired, hx⟩ := isFree_iff.mp hfree
  exact hx (hfull row hrow hexpired)

/-- Calls of clients that own nothing and have no assignment drain the free rows of the table. -/
theorem allocations_drain {cfg : Config} {now : U32}
    (hbound : now.toInt+cfg.nets.globalnet.lease_time.toNat < 2^31) {calls : List Call}
    {ms : List U64} (hops : calls.map Call.op = ms.map .ipAlloc)
    (hnow : ∀ c ∈ calls, c.env.now = now) (hdistinct : (ms.map hwAddr).Nodup)
    (hstatic : ∀ m ∈ ms, getStaticIp cfg (.ofU64 m) = none) {T : Leases}
    (hown : ∀ m ∈ ms, ∀ row ∈ T.rows, row.mac ≠ macU2s m) :
    ∃ order : List Lease, order.Perm (T.rows.filter (isFree now)) ∧
      order.Pairwise (fun row row' => row.expire ≤ row'.expire) ∧
      (trace (serveCall cfg) T calls).map (fun e => e.2.allocated) = drained order calls.length := by
  induction calls generalizing T ms with
  | nil =>
    obtain ⟨order, hperm, hsorted⟩ := exists_order (T.rows.filter (isFree now))
    exact ⟨order, hperm, hsorted, by simp [drained]⟩
  | cons c calls ih =>
    obtain ⟨env, op⟩ := c
    cases ms with
    | nil => cases hops
    | cons m ms =>
      rw [List.map_cons, List.map_cons, List.cons.injEq] at hops
      obtain ⟨rfl, hops⟩ := hops
      rw [List.forall_mem_cons] at hnow hstatic hown
      obtain ⟨rfl, hnow⟩ := hnow
      rw [List.map_cons, List.nodup_cons] at hdistinct
      obtain ⟨leases, ip, effects, hr, hspec⟩ := serveCall_alloc cfg env m T
      simp only [trace_cons, hr, List.map_cons, List.length_cons]
      cases hspec with
      | static hassigned _ => exact (assigned_absurd hstatic.1 hassigned).elim
      | leased _ howned => exact absurd howned.2.1 (hown.1 _ howned.1)
      | @fresh row _ _ hfree =>
        -- the row leaves the free ones, and no other client's row is touched
        have hown' : ∀ m' ∈ ms, ∀ r ∈ (recordLease cfg env (.ofU64 m) (.ofText row.ip)
            (some "new") T).rows, r.mac ≠ macU2s m' := by
          intro m' hm'
          refine recordLease_others (fun heq => hdistinct.1 ?_) (hown.2 m' hm')
          exact List.mem_map.mpr ⟨m', hm', heq.symm⟩
        obtain ⟨order, hperm, hsorted, htrace⟩ := ih hops hnow hdistinct.2 hstatic.2 hown'
        obtain ⟨hall, hfirst⟩ := drain_fresh hbound hfree (.ofU64 m) hperm
        refine ⟨row :: order, hall, List.pairwise_cons.mpr ⟨hfirst, hsorted⟩, ?_⟩
        rw [htrace]
        simp [drained, Answer.allocated, IPAddress.ofText]
      | refused _ _ hfull =>
        obtain ⟨order, hperm, hsorted, htrace⟩ := ih hops hnow hdistinct.2 hstatic.2 hown.2
        have hempty := drain_refused hfull
        rw [hempty, List.perm_nil] at hperm
        subst hperm
        refine ⟨[], hempty ▸ List.Perm.nil, List.Pairwise.nil, ?_⟩
        rw [htrace]
        simp [drained, Answer.allocated, List.replicate_succ]

/-- No address is lost or given twice: new clients that ask at one time are given the addresses
of exactly the free rows, in the order of their expiry and each once, and later ones are refused. -/
theorem pool_exhaustion {cfg : Config} {T : Leases} (hT : Canonical T) {now : U32}
    (hbound : now.toInt+cfg.nets.globalnet.lease_time.toNat < 2^31) {ms : List U64}
    (hdistinct : (ms.map hwAddr).Nodup) (hstatic : ∀ m ∈ ms, getStaticIp cfg (.ofU64 m) = none)
    (hown : ∀ m ∈ ms, ∀ row ∈ T.rows, row.mac ≠ macU2s m) {calls : List Call}
    (hops : calls.map Call.op = ms.map .ipAlloc) (hnow : ∀ c ∈ calls, c.env.now = now) :
    ∃ order : List Lease, order.Perm (T.rows.filter (isFree now)) ∧
      order.Pairwise (fun row row' => row.expire ≤ row'.expire) ∧
      (order.map fun row => ipS2u row.ip).Nodup ∧
      (trace (serveCall cfg) T calls).map (fun e => e.2.allocated) = drained order calls.length := by
  obtain ⟨order, hperm, hsorted, htrace⟩ := allocations_drain hbound hops hnow hdistinct hstatic hown
  refine ⟨order, hperm, hsorted, ?_, htrace⟩
  have hmem (row : Lease) (hrow : row ∈ order) : row ∈ T.rows :=
    (List.mem_filter.mp (hperm.mem_iff.mp hrow)).1
  apply (List.nodup_map_iff_inj_on (hperm.nodup_iff.mpr (T.rows_nodup.filter _))).mpr
  intro row hrow row' hrow' hip
  apply T.row_unique (hmem row hrow) (hmem row' hrow')
  rw [← hT.row_text (hmem row hrow), ← hT.row_text (hmem row' hrow'), hip]

/-- The third of three clients finds the example's two addresses taken. -/
theorem pool_exhaustion_example : ∃ order : List Lease,
    order.Perm (exampleTable.rows.filter (isFree 1)) ∧
      order.Pairwise (fun row row' => row.expire ≤ row'.expire) ∧
      (order.map fun row => ipS2u row.ip).Nodup ∧
      (trace (serveCall exampleCfg) exampleTable
        [⟨⟨1, .rowid⟩, .ipAlloc 1⟩, ⟨⟨1, .rowid⟩, .ipAlloc 2⟩, ⟨⟨1, .rowid⟩, .ipAlloc 3⟩]).map
          (fun e => e.2.allocated) = drained order 3 := by
  have hfree : ∀ m ∈ ([1, 2, 3] : List U64), ∀ row ∈ exampleTable.rows, row.mac ≠ macU2s m := by
    intro m _ row hrow
    obtain ⟨a, rfl⟩ := populate_fresh hrow
    exact (macU2s_ne_empty m).symm
  have hbound : (1 : U32).toInt+exampleCfg.nets.globalnet.lease_time.toNat < 2^31 := by decide
  exact pool_exhaustion (populate_canonical exampleNets) hbound (by decide)
    (fun m _ => exampleCfg_noStatic m) hfree rfl (by simp)

end S3Dhcpd
