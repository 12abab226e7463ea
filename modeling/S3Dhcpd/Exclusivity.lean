import S3Dhcpd.Calls

/-! The register's log of a run, and that no address is leased to two clients at once. -/
namespace S3Dhcpd
open KeyedTable LeaseRegister Runs

section Entries
variable {cfg : Config} {e : Call × Answer} {a : U32} {client : BitVec 48}

theorem mem_entries {x : Entry U32 String (WithTop ℤ)} : x ∈ entries cfg e ↔
    x.now = (e.1.env.now.toInt : WithTop ℤ) ∧ x.expiry = (expireAt cfg e.1.env.now : WithTop ℤ) ∧
      ((∃ a, granted e = some a ∧ x.act = .grant a (macU2s e.1.op.mac)) ∨
        ∃ a, e.1.op.invalidated = some a ∧ x.act = .withdraw a) := by
  obtain ⟨now, expiry, act⟩ := x
  simp only [entries, acts, List.mem_map, List.mem_append, Option.mem_toList, Option.map_eq_some_iff,
    Entry.mk.injEq]
  constructor
  · rintro ⟨act', hact, rfl, rfl, rfl⟩
    refine ⟨rfl, rfl, ?_⟩
    simpa only [eq_comm] using hact
  · rintro ⟨rfl, rfl, hact⟩
    exact ⟨act, by simpa only [eq_comm] using hact, rfl, rfl, rfl⟩

theorem grants_entry (h : Grants e a client) :
    ⟨e.1.env.now.toInt, expireAt cfg e.1.env.now, .grant a (macU2s e.1.op.mac)⟩ ∈ entries cfg e :=
  mem_entries.mpr ⟨rfl, rfl, Or.inl ⟨a, h.1, rfl⟩⟩

end Entries

/-- The register's log of a run. -/
def log (cfg : Config) (T : Leases) (calls : List Call) : List (Entry U32 String (WithTop ℤ)) :=
  (trace (serveCall cfg) T calls).flatMap (entries cfg)

section Log
variable {cfg : Config} {T : Leases} {calls : List Call}

theorem trace_call {e : Call × Answer} (he : e ∈ trace (serveCall cfg) T calls) : e.1 ∈ calls := by
  have h := List.mem_map_of_mem (f := Prod.fst) he
  rwa [trace_inputs] at h

theorem trace_clock (hclock : Clocked cfg calls) : (trace (serveCall cfg) T calls).Pairwise
    fun e e' => e.1.env.now.toInt ≤ e'.1.env.now.toInt := by
  have h := hclock.ordered
  rwa [← @trace_inputs _ _ _ (serveCall cfg) T calls, List.pairwise_map] at h

theorem log_inOrder (hclock : Clocked cfg calls) : InOrder (log cfg T calls) := by
  rw [InOrder, log, List.pairwise_flatMap]
  constructor
  · intro e _
    exact List.pairwise_map.mpr (List.pairwise_of_forall fun _ _ => ⟨le_rfl, le_rfl⟩)
  · apply (trace_clock hclock).imp_of_mem
    intro e e' he he' hle x hx x' hx'
    obtain ⟨hnow, hexp, _⟩ := mem_entries.mp hx
    obtain ⟨hnow', hexp', _⟩ := mem_entries.mp hx'
    have hroom := expireAt_eq (hclock.bounded _ (trace_call he))
    have hroom' := expireAt_eq (hclock.bounded _ (trace_call he'))
    rw [hnow, hnow', hexp, hexp', WithTop.coe_le_coe, WithTop.coe_le_coe]
    exact ⟨hle, by omega⟩

theorem log_neverGranted (hcalls : ∀ c ∈ calls, RealClient c) :
    NeverGranted nobody (log cfg T calls) := by
  intro x hx a hact
  obtain ⟨e, he, hxe⟩ := List.mem_flatMap.mp hx
  obtain ⟨_, _, ⟨_, _, hgrant⟩ | ⟨_, _, hwithdraw⟩⟩ := mem_entries.mp hxe
  · rw [hact, Act.grant.injEq] at hgrant
    exact hcalls _ (trace_call he) (macU2s_inj.mp hgrant.2).symm
  · rw [hact] at hwithdraw
    cases hwithdraw

theorem trace_exclusive (hstatic : NoStatic cfg) (hT : Canonical T)
    (hcalls : ∀ c ∈ calls, RealClient c) (hclock : Clocked cfg calls) :
    (trace (serveCall cfg) T calls).Pairwise fun e e' => ∀ a m m', Grants e a m → Grants e' a m' →
      m ≠ m' → e.1.env.now.toInt+cfg.nets.globalnet.lease_time.toNat < e'.1.env.now.toInt := by
  have hlaw := exclusive (calls_register hstatic hT hcalls).1 (log_inOrder hclock)
    (log_neverGranted hcalls)
  apply (List.pairwise_flatMap.mp hlaw).2.imp_of_mem
  intro e e' he _ hpair a m m' hg hg' hne
  have hmac : macU2s e.1.op.mac ≠ macU2s e'.1.op.mac := by
    rw [ne_eq, macU2s_inj, hg.2, hg'.2]
    exact hne
  have hlt := hpair _ (grants_entry hg) _ (grants_entry hg') a _ _ rfl rfl hmac
  rw [WithTop.coe_lt_coe, expireAt_eq (hclock.bounded _ (trace_call he))] at hlt
  exact hlt

end Log

/-- Lease exclusivity: an address granted to one client is not granted to another until the lease
time has passed. -/
theorem lease_exclusive {cfg : Config} (hstatic : NoStatic cfg) {T : Leases} (hT : Canonical T)
    {calls : List Call} (hcalls : ∀ c ∈ calls, RealClient c) (hclock : Clocked cfg calls)
    {e₁ e₂ : Call × Answer} (he₁ : e₁ ∈ trace (serveCall cfg) T calls)
    (he₂ : e₂ ∈ trace (serveCall cfg) T calls) {a : U32} {m₁ m₂ : BitVec 48}
    (hg₁ : Grants e₁ a m₁) (hg₂ : Grants e₂ a m₂) (hne : m₁ ≠ m₂)
    (ht : e₁.1.env.now.toInt ≤ e₂.1.env.now.toInt) :
    e₁.1.env.now.toInt+cfg.nets.globalnet.lease_time.toNat < e₂.1.env.now.toInt := by
  have hee : e₁ ≠ e₂ := by
    rintro rfl
    exact hne (hg₁.2.symm.trans hg₂.2)
  have hpair := trace_exclusive hstatic hT hcalls hclock
  obtain ⟨l, r, hsplit⟩ := List.append_of_mem he₁
  rw [hsplit, List.pairwise_append, List.pairwise_cons] at hpair
  rw [hsplit, List.mem_append, List.mem_cons] at he₂
  rcases he₂ with hbefore | rfl | hafter
  · -- an earlier grant to the other client would have to be long over
    have hlt := hpair.2.2 e₂ hbefore e₁ List.mem_cons_self a m₂ m₁ hg₂ hg₁ hne.symm
    omega
  · exact absurd rfl hee
  · exact hpair.2.1.1 e₂ hafter a m₁ m₂ hg₁ hg₂ hne

/-- Two clients take the addresses of the example; a third comes a lease time later. -/
def exampleCalls : List Call :=
  [⟨⟨1, .rowid⟩, .ipAlloc 1⟩, ⟨⟨2, .rowid⟩, .ipAlloc 2⟩, ⟨⟨182, .rowid⟩, .ipAlloc 3⟩]

theorem exampleCalls_clocked : Clocked exampleCfg exampleCalls where
  ordered := by simp [exampleCalls]
  bounded := by simp [exampleCalls, exampleCfg, exampleNets]

theorem exampleCalls_realClient : ∀ c ∈ exampleCalls, RealClient c := by
  simp [exampleCalls, RealClient, Op.mac, hwAddr]

/-- The third client is given the first client's address. -/
theorem lease_exclusive_example : ∃ e₁ ∈ trace (serveCall exampleCfg) exampleTable exampleCalls,
    ∃ e₂ ∈ trace (serveCall exampleCfg) exampleTable exampleCalls,
      Grants e₁ (ipS2u "10.20.11.50") 1 ∧ Grants e₂ (ipS2u "10.20.11.50") 3 ∧
        e₁.1.env.now.toInt+exampleCfg.nets.globalnet.lease_time.toNat < e₂.1.env.now.toInt := by
  refine ⟨_, .head _, _, .tail _ (.tail _ (.head _)), ?_⟩
  refine ⟨by decide, by decide, lease_exclusive exampleCfg_noStatic
    (populate_canonical exampleNets) exampleCalls_realClient exampleCalls_clocked
    (.head _) (.tail _ (.tail _ (.head _))) (by decide : Grants _ (ipS2u "10.20.11.50") 1)
    (by decide : Grants _ _ 3) (by decide) (by decide)⟩

end S3Dhcpd
