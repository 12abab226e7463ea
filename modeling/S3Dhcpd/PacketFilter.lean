import Mathlib.Data.Finset.Insert
import Mathlib.Data.List.Induction
import S3Dhcpd.Admission
import S3Dhcpd.Effects

/-! The table of the packet filter beside the lease table: the server admits static hosts and takes
back addresses that it leases anew, and the landing page admits the clients that it authorises. -/
namespace S3Dhcpd
open KeyedTable Runs

/-- What `pftable_add` and `pftable_del` do to the table of admitted addresses. -/
def filtered (pf : Finset U32) : Effect → Finset U32
  | .pfAdd a => insert a pf
  | .pfDel a => pf.erase a
  | .acct _ _ _ => pf

inductive FilterEvent where
  | datagram (d : Datagram)
  | authorise (a : U32)
  | restart (scan : Scan Lease)

/-- The lease table and the table of the packet filter, which outlasts a restart of the server. -/
def filterStep (cfg : Config) (s : Leases × Finset U32) : FilterEvent → (Leases × Finset U32) × Unit
  | .datagram d => (((mainLoop cfg s.1 d).1, (mainLoop cfg s.1 d).2.effects.foldl filtered s.2), ())
  | .authorise a => ((s.1, insert a s.2), ())
  | .restart scan => (((prepareDatabases cfg scan s.1).1,
      (prepareDatabases cfg scan s.1).2.foldl filtered s.2), ())

/-- The client that the row of an address names. -/
def holder (T : Leases) (a : U32) : Option String := (T.row? (ipU2s a)).map Lease.mac

section Filter
variable {cfg : Config} {pf : Finset U32} {a : U32}

theorem mem_filtered {effects : List Effect} (h : a ∈ effects.foldl filtered pf) :
    a ∈ pf ∨ Effect.pfAdd a ∈ effects := by
  induction effects generalizing pf with
  | nil => exact Or.inl h
  | cons effect effects ih =>
    rcases ih h with hmem | hmem
    · cases effect with
      | pfAdd b =>
        rcases Finset.mem_insert.mp hmem with rfl | hmem
        · exact Or.inr List.mem_cons_self
        · exact Or.inl hmem
      | pfDel b => exact Or.inl (Finset.mem_of_mem_erase hmem)
      | acct status auth_info ipaddr => exact Or.inl hmem
    · exact Or.inr (List.mem_cons_of_mem _ hmem)

theorem filtered_startMessage (mac : MACAddress) (ip : IPAddress) :
    (startMessage cfg mac ip).foldl filtered pf = pf := by
  rw [startMessage]
  split_ifs <;> rfl

theorem filtered_free (mac : MACAddress) (ip : IPAddress) :
    (ipFree cfg mac ip).foldl filtered pf = pf := by
  rw [ipFree]
  split_ifs <;> rfl

end Filter

section Dynamic
variable {cfg : Config} {T : Leases} {a : U32}

/-- No static assignment denotes the address. -/
def Unassignable (cfg : Config) (a : U32) : Prop :=
  ∀ m found, getStaticIp cfg (.ofU64 m) = some found → found.1.u_addr ≠ a

/-- The address is leased under its canonical text only, and not to a static host. -/
def DynamicAt (a : U32) (T : Leases) : Prop :=
  ∀ row ∈ T.rows, ipS2u row.ip = a → row.ip = ipU2s a ∧ row.auth_info ≠ "static"

theorem DynamicAt.recordLease {env : Env} {mac : MACAddress} {ip : IPAddress}
    {auth_info : Option String} (hT : DynamicAt a T) (hword : auth_info ≠ some "static") :
    DynamicAt a (recordLease cfg env mac ip auth_info T) := by
  intro row' hrow' ha
  rcases mem_recordLease.mp hrow' with ⟨row, hrow, rfl⟩ | ⟨hmem, _⟩
  · obtain ⟨htext, hauth⟩ := hT row (Table.row?_eq_some.mp hrow).1 ha
    refine ⟨htext, ?_⟩
    cases auth_info with
    | none => exact hauth
    | some word => exact fun hstatic => hword (congrArg some hstatic)
  · exact hT row' hmem ha

/-- A static row under a text for another address. -/
theorem DynamicAt.static {env : Env} {mac : MACAddress} {ip : IPAddress} {auth_info : String}
    {T' : Leases} (hT : DynamicAt a T) (hother : ipS2u ip.s_addr ≠ a) (hrows : ∀ k, T'.row? k =
      if k = ip.s_addr then some (staticRow cfg env mac ip auth_info) else T.row? k) :
    DynamicAt a T' ∧ holder T' a = holder T a := by
  have hkey : (staticRow cfg env mac ip auth_info).ip = ip.s_addr := rfl
  constructor
  · intro row' hrow' ha
    rcases (Table.mem_write hkey hrows).mp hrow' with rfl | ⟨hmem, _⟩
    · exact absurd ha hother
    · exact hT row' hmem ha
  · have hne : ipU2s a ≠ ip.s_addr := by
      intro htext
      rw [← htext, ipS2u_ipU2s] at hother
      exact hother rfl
    rw [holder, hrows, if_neg hne, holder]

/-- A row that is recorded for the client it names keeps its holder. -/
theorem holder_recordLease {env : Env} {mac : MACAddress} {ip : IPAddress}
    {auth_info : Option String}
    (hsame : ∀ row, T.row? (ipU2s a) = some row → ip.s_addr = ipU2s a → row.mac = mac.s_addr) :
    holder (recordLease cfg env mac ip auth_info T) a = holder T a := by
  rw [holder, row?_recordLease, holder]
  split_ifs with hip
  · cases hrow : T.row? (ipU2s a) with
    | none => rfl
    | some row =>
      have hmac := hsame row hrow hip.symm
      rw [Option.map_some, Option.map_some, Option.map_some, hmac]
      rfl
  · rfl

theorem holder_invalidate {env : Env} {ip : IPAddress} {auth_info : Option String} :
    holder (recordLease cfg env (.ofU64 0) ip auth_info T) a = holder T a ∨
      holder (recordLease cfg env (.ofU64 0) ip auth_info T) a = some nobody := by
  rw [holder, row?_recordLease, holder]
  split_ifs
  · cases T.row? (ipU2s a) with
    | none => exact Or.inl rfl
    | some row => exact Or.inr rfl
  · exact Or.inl rfl

end Dynamic

section Step
variable {cfg : Config} {env : Env} {T : Leases} {pf : Finset U32} {a : U32}

/-- What a call may do to an address that is not assigned statically: if the filter still admits it,
it was admitted before, and its row names the same client or nobody. -/
def Passes (pf : Finset U32) (a : U32) (T T' : Leases) (effects : List Effect) : Prop :=
  DynamicAt a T' ∧ (a ∈ effects.foldl filtered pf →
    a ∈ pf ∧ (holder T' a = holder T a ∨ holder T' a = some nobody))

theorem passes_silent {T' : Leases} (hT : DynamicAt a T') (h : holder T' a = holder T a) :
    Passes pf a T T' [] := ⟨hT, fun hmem => ⟨hmem, Or.inl h⟩⟩

theorem alloc_passes (hpf : cfg.pf_enabled = true) (hfree : Unassignable cfg a)
    (hT : DynamicAt a T) {m : U64} {leases : Leases} {ip : Option IPAddress} {effects : List Effect}
    (h : Tells cfg env (.ofU64 m) T leases ip effects) : Passes pf a T leases effects := by
  cases h with
  | @static ip inet_access _ hassigned hrows =>
    have hne : ip.u_addr ≠ a := hfree m _ hassigned
    have hother : ipS2u ip.s_addr ≠ a := by
      rwa [getStaticIp_text hassigned] at hne
    obtain ⟨hT', hholder⟩ := hT.static hother hrows
    refine ⟨hT', fun hmem => ⟨?_, Or.inl hholder⟩⟩
    rw [List.foldl_append, filtered_startMessage] at hmem
    split_ifs at hmem
    · exact (Finset.mem_insert.mp hmem).resolve_left (Ne.symm hne)
    · exact hmem
  | @leased row _ hown =>
    refine passes_silent (hT.recordLease (by decide)) (holder_recordLease ?_)
    intro row' hrow' hip
    obtain ⟨hmem, htext⟩ := Table.row?_eq_some.mp hrow'
    rw [T.row_unique hmem hown.1 (htext.trans hip.symm)]
    exact hown.2.1
  | @fresh row _ _ hfree =>
    refine ⟨hT.recordLease (by decide), fun hmem => ?_⟩
    rw [List.foldl_append, filtered_startMessage, if_pos hpf] at hmem
    obtain ⟨hdel, hmem⟩ := Finset.mem_erase.mp hmem
    -- the row of `a` would have been taken back
    refine ⟨hmem, Or.inl (holder_recordLease fun _ _ hip => ?_)⟩
    have htext : row.ip = ipU2s a := hip
    rw [htext, ipS2u_ipU2s] at hdel
    exact absurd rfl hdel
  | refused _ => exact passes_silent hT rfl

theorem check_passes (ha : a ≠ 0) (hfree : Unassignable cfg a) (hT : DynamicAt a T) {m : U64}
    {ip : Option U32} {leases : Leases} {granted : Bool}
    (h : Checks cfg env (.ofU64 m) (requested ip) T leases granted) : Passes pf a T leases [] := by
  have htext : ipS2u (requested ip).s_addr = (requested ip).u_addr ∨ ip = none := by
    cases ip with
    | none => exact Or.inr rfl
    | some b => exact Or.inl (ipS2u_ipU2s b)
  have hempty : ipS2u (requested none).s_addr ≠ a := by
    rw [requested, IPAddress.unset, ipS2u_empty]
    exact Ne.symm ha
  cases h with
  | declined _ => exact passes_silent hT rfl
  | static _ hassigned hsame hrows =>
    have hother : ipS2u (requested ip).s_addr ≠ a := by
      rcases htext with htext | rfl
      · rw [htext, hsame]
        exact hfree m _ hassigned
      · exact hempty
    obtain ⟨hT', hholder⟩ := hT.static hother hrows
    exact passes_silent hT' hholder
  | @leased _ row _ _ _ hown hsame =>
    refine passes_silent (hT.recordLease (by decide)) (holder_recordLease ?_)
    intro row' hrow' hip
    -- the row that confirms the address is the one under its canonical text
    have hnumber : ipS2u row.ip = a := by
      rcases htext with htext | rfl
      · rw [← hsame, ← htext, hip, ipS2u_ipU2s]
      · rw [hip, ipS2u_ipU2s] at hempty
        exact absurd rfl hempty
    obtain ⟨hmem, hkey⟩ := Table.row?_eq_some.mp hrow'
    rw [T.row_unique hmem hown.1 (hkey.trans (hT row hown.1 hnumber).1.symm)]
    exact hown.2.1

theorem serveCall_passes (hpf : cfg.pf_enabled = true) (ha : a ≠ 0) (hfree : Unassignable cfg a)
    (hT : DynamicAt a T) (op : Op) :
    Passes pf a T (serveCall cfg T ⟨env, op⟩).1 (told (serveCall cfg T ⟨env, op⟩).2) := by
  cases op with
  | ipAlloc m =>
    obtain ⟨leases, ip, effects, hr, hspec⟩ := serveCall_tells cfg env m T
    simp only [hr]
    exact alloc_passes hpf hfree hT hspec
  | ipCheck m ip =>
    obtain ⟨leases, granted, hr, hspec⟩ := serveCall_check cfg env m ip T
    simp only [hr]
    exact check_passes ha hfree hT hspec
  | ipFree m ip =>
    refine ⟨hT, fun hmem => ⟨?_, Or.inl rfl⟩⟩
    simp only [serveCall, told] at hmem
    rwa [filtered_free] at hmem
  | ipInvalidate m ip =>
    exact ⟨hT.recordLease (by decide), fun hmem => ⟨hmem, holder_invalidate⟩⟩

theorem mainLoop_passes (hpf : cfg.pf_enabled = true) (ha : a ≠ 0) (hfree : Unassignable cfg a)
    (hT : DynamicAt a T) (d : Datagram) :
    Passes pf a T (mainLoop cfg T d).1 (mainLoop cfg T d).2.effects := by
  rw [mainLoop_leases, mainLoop_effects]
  cases d.op with
  | none => exact passes_silent hT rfl
  | some op => exact serveCall_passes hpf ha hfree hT op

end Step

section Restart
variable {cfg : Config} {T : Leases} {a : U32}

theorem DynamicAt.populate (hT : DynamicAt a T) : DynamicAt a (populate cfg.nets T) := by
  intro row hrow ha
  rcases mem_populate_old.mp hrow with hold | ⟨⟨sub, _, hnew⟩, _⟩
  · exact hT row hold ha
  · obtain ⟨b, rfl⟩ := rangeRows_fresh hnew
    have hb : b = a := by rw [← ha, freshRow, IPAddress.ofU32, ipS2u_ipU2s]
    subst hb
    exact ⟨rfl, by simp [freshRow]⟩

/-- A row that a client holds was there before the restart. -/
theorem holder_populate {m : U64} (h : holder (populate cfg.nets T) a = some (macU2s m)) :
    holder T a = some (macU2s m) := by
  obtain ⟨row, hrow, hmac⟩ := Option.map_eq_some_iff.mp h
  obtain ⟨hmem, hip⟩ := Table.row?_eq_some.mp hrow
  rcases mem_populate_old.mp hmem with hold | ⟨⟨sub, _, hnew⟩, _⟩
  · rw [holder, Table.row?_eq_some.mpr ⟨hold, hip⟩, Option.map_some, hmac]
  · obtain ⟨b, rfl⟩ := rangeRows_fresh hnew
    exact absurd hmac (Ne.symm (macU2s_ne_empty m))

/-- The start admits no address that is not leased to a static host. -/
theorem prepare_admits (hT : DynamicAt a T) (scan : Scan Lease) {pf : Finset U32}
    (h : a ∈ (prepareDatabases cfg scan T).2.foldl filtered pf) : a ∈ pf := by
  rcases mem_filtered h with hmem | hadd
  · exact hmem
  · obtain ⟨_, row, hrow, hstatic, ha⟩ := pfAdd_prepare.mp hadd
    exact absurd hstatic (hT row hrow ha).2

end Restart

section Runs
variable {cfg : Config} {a : U32}

/-- The last event of a run admits the address. -/
def EndsAdmitting (a : U32) (es : List FilterEvent) : Prop := ∃ pre, es = pre ++ [.authorise a]

theorem filterStep_dynamic (hpf : cfg.pf_enabled = true) (ha : a ≠ 0) (hfree : Unassignable cfg a)
    {s : Leases × Finset U32} (hs : DynamicAt a s.1) (e : FilterEvent) :
    DynamicAt a (filterStep cfg s e).1.1 := by
  cases e with
  | datagram d => exact (@mainLoop_passes cfg s.1 s.2 a hpf ha hfree hs d).1
  | authorise b => exact hs
  | restart scan => exact hs.populate

theorem dynamic_run (hpf : cfg.pf_enabled = true) (ha : a ≠ 0) (hfree : Unassignable cfg a)
    {s : Leases × Finset U32} (hs : DynamicAt a s.1) (es : List FilterEvent) :
    DynamicAt a (after (filterStep cfg) s es).1 := by
  apply @after_invariant _ _ _ (filterStep cfg) (fun _ _ => True) fun s => DynamicAt a s.1
  · exact fun s e hs _ => filterStep_dynamic hpf ha hfree hs e
  · exact hs
  · exact meets_of_forall fun _ _ _ => trivial

/-- Internet access is not inherited: if an address that is not assigned statically is admitted
while a client holds it, then it was admitted while the same client held it. -/
theorem admission_not_inherited (hpf : cfg.pf_enabled = true) (ha : a ≠ 0)
    (hfree : Unassignable cfg a) {T : Leases} (hT : DynamicAt a T) (pf : Finset U32)
    (es : List FilterEvent) {m : U64} (hm : hwAddr m ≠ 0)
    (hmem : a ∈ (after (filterStep cfg) (T, pf) es).2)
    (hholds : holder (after (filterStep cfg) (T, pf) es).1 a = some (macU2s m)) :
    ∃ pre post, es = pre ++ post ∧ (pre = [] ∧ a ∈ pf ∨ EndsAdmitting a pre) ∧
      holder (after (filterStep cfg) (T, pf) pre).1 a = some (macU2s m) := by
  -- from the back: the last event leaves the holder alone, or it is the admission
  induction es using List.reverseRecOn with
  | nil => exact ⟨[], [], rfl, Or.inl ⟨rfl, hmem⟩, hholds⟩
  | append_singleton es e ih =>
    have hdyn : DynamicAt a (after (filterStep cfg) (T, pf) es).1 := dynamic_run hpf ha hfree hT es
    have hlast : after (filterStep cfg) (T, pf) (es ++ [e]) =
        (filterStep cfg (after (filterStep cfg) (T, pf) es) e).1 := after_append _ _ _
    -- an admission before the last event is one before the end
    have hbefore (hmem' : a ∈ (after (filterStep cfg) (T, pf) es).2)
        (hholds' : holder (after (filterStep cfg) (T, pf) es).1 a = some (macU2s m)) :
        ∃ pre post, es ++ [e] = pre ++ post ∧ (pre = [] ∧ a ∈ pf ∨ EndsAdmitting a pre) ∧
          holder (after (filterStep cfg) (T, pf) pre).1 a = some (macU2s m) := by
      obtain ⟨pre, post, hsplit, hpre, hheld⟩ := ih hmem' hholds'
      exact ⟨pre, post ++ [e], by rw [hsplit, List.append_assoc], hpre, hheld⟩
    rw [hlast] at hmem hholds
    cases e with
    | datagram d =>
      obtain ⟨hmem', hholder⟩ := (mainLoop_passes hpf ha hfree hdyn d).2 hmem
      rcases hholder with hsame | hnobody
      · exact hbefore hmem' (hsame.symm.trans hholds)
      · have hzero : some (macU2s m) = some nobody := hholds.symm.trans hnobody
        exact absurd (macU2s_inj.mp (Option.some.inj hzero)) hm
    | authorise b =>
      rcases Finset.mem_insert.mp hmem with rfl | hmem'
      · exact ⟨es ++ [.authorise a], [], (List.append_nil _).symm, Or.inr ⟨es, rfl⟩, by
          rw [hlast]
          exact hholds⟩
      · exact hbefore hmem' hholds
    | restart scan => exact hbefore (prepare_admits hdyn scan hmem) (holder_populate hholds)

/-- The example configuration with a packet filter. -/
def filterCfg (cfg : Config) : Config := { cfg with pf_enabled := true }

/-- The landing page admits the first client of the example, and the server is restarted. -/
theorem admission_not_inherited_example : ∃ pre post,
    [FilterEvent.datagram (exampleDatagram 1000 DHCP_DISCOVER 1 0),
      .authorise (ipS2u "10.20.11.50"), .restart .rowid] = pre ++ post ∧
    (pre = [] ∧ ipS2u "10.20.11.50" ∈ (∅ : Finset U32) ∨ EndsAdmitting (ipS2u "10.20.11.50") pre) ∧
    holder (after (filterStep (filterCfg exampleCfg)) (exampleTable, ∅) pre).1
      (ipS2u "10.20.11.50") = some (macU2s 1) := by
  have hfree : Unassignable (filterCfg exampleCfg) (ipS2u "10.20.11.50") := by
    intro m found hassigned
    exact (assigned_absurd (exampleCfg_noStatic m) hassigned).elim
  have hdyn : DynamicAt (ipS2u "10.20.11.50") exampleTable :=
    @DynamicAt.populate exampleCfg .empty _ fun _ hrow => absurd hrow List.not_mem_nil
  have hmem : ipS2u "10.20.11.50" ∈ (after (filterStep (filterCfg exampleCfg)) (exampleTable, ∅)
      [FilterEvent.datagram (exampleDatagram 1000 DHCP_DISCOVER 1 0),
        .authorise (ipS2u "10.20.11.50"), .restart .rowid]).2 := by decide
  have hholds : holder (after (filterStep (filterCfg exampleCfg)) (exampleTable, ∅)
      [FilterEvent.datagram (exampleDatagram 1000 DHCP_DISCOVER 1 0),
        .authorise (ipS2u "10.20.11.50"), .restart .rowid]).1 (ipS2u "10.20.11.50") = some (macU2s 1) := by decide
  exact admission_not_inherited rfl (by decide) hfree hdyn ∅ _ (by decide) hmem hholds

/-- What the datagrams of a run must meet for the restarts in it to admit no further hosts. -/
def KeepsFilter (cfg : Config) (s : Leases × Finset U32) (e : FilterEvent) : Prop :=
  ∀ d op, e = .datagram d → d.op = some op → KeepsAdmitted cfg d.env s.1 op

theorem alloc_admits {env : Env} {m : U64} {T leases : Leases} {ip : Option IPAddress}
    {effects : List Effect} (h : Tells cfg env (.ofU64 m) T leases ip effects)
    (hadd : Effect.pfAdd a ∈ effects) : InetAddress cfg a := by
  have hstart {mac : MACAddress} {ip : IPAddress} : Effect.pfAdd a ∉ startMessage cfg mac ip := by
    rw [startMessage]
    split_ifs <;> simp
  cases h with
  | @static ip inet_access _ hassigned _ =>
    have hpf := (List.mem_append.mp hadd).resolve_right hstart
    split_ifs at hpf with hinet
    · rw [List.mem_singleton, Effect.pfAdd.injEq] at hpf
      rw [Bool.and_eq_true] at hinet
      obtain ⟨rfl, _⟩ := hinet
      exact ⟨m, ip, hassigned, hpf.symm⟩
    · cases hpf
  | leased _ _ => cases hadd
  | @fresh row _ _ _ =>
    have hpf := (List.mem_append.mp hadd).resolve_right hstart
    split_ifs at hpf <;> simp at hpf
  | refused _ => cases hadd

/-- The server tells the filter to admit addresses of hosts with internet access only. -/
theorem mainLoop_admits {T : Leases} {d : Datagram}
    (hadd : Effect.pfAdd a ∈ (mainLoop cfg T d).2.effects) : InetAddress cfg a := by
  rw [mainLoop_effects] at hadd
  cases hop : d.op with
  | none =>
    rw [hop] at hadd
    cases hadd
  | some op =>
    rw [hop] at hadd
    cases op with
    | ipAlloc m =>
      obtain ⟨leases, ip, effects, hr, hspec⟩ := serveCall_tells cfg d.env m T
      simp only [hr] at hadd
      exact alloc_admits hspec hadd
    | ipCheck m ip =>
      obtain ⟨leases, granted, hr, _⟩ := serveCall_check cfg d.env m ip T
      simp only [hr, told] at hadd
      cases hadd
    | ipFree m ip =>
      simp only [serveCall, told, ipFree] at hadd
      split_ifs at hadd <;> simp at hadd
    | ipInvalidate m ip => cases hadd

theorem filterStep_admitted {s : Leases × Finset U32} {e : FilterEvent} (hs : Admitted cfg s.1)
    (he : KeepsFilter cfg s e) : Admitted cfg (filterStep cfg s e).1.1 := by
  cases e with
  | datagram d => exact (mainLoop_admitted d hs).mpr fun op hop => he d op rfl hop
  | authorise b => exact hs
  | restart scan =>
    rw [admitted_iff] at hs ⊢
    exact fun row hrow hstatic => hs row ((mem_populate_static hstatic).mp hrow) hstatic

/-- Over datagrams, restarts and admissions from outside, the filter admits nothing but what it
admitted at first, what was admitted from outside, and hosts with internet access, as long as
the REQUESTs of the run mark no other host. -/
theorem filter_admits_hosts {T : Leases} (hT : Admitted cfg T) (pf : Finset U32)
    {es : List FilterEvent} (hes : Meets (filterStep cfg) (KeepsFilter cfg) (T, pf) es)
    (hmem : a ∈ (after (filterStep cfg) (T, pf) es).2) :
    a ∈ pf ∨ FilterEvent.authorise a ∈ es ∨ InetAddress cfg a := by
  induction es generalizing T pf with
  | nil => exact Or.inl hmem
  | cons e es ih =>
    have hnext : Admitted cfg (filterStep cfg (T, pf) e).1.1 := filterStep_admitted hT hes.1
    rcases ih hnext (filterStep cfg (T, pf) e).1.2 hes.2 hmem with hbefore | hlater | hinet
    · cases e with
      | datagram d =>
        rcases mem_filtered hbefore with hold | hadd
        · exact Or.inl hold
        · exact Or.inr (Or.inr (mainLoop_admits hadd))
      | authorise b =>
        rcases Finset.mem_insert.mp hbefore with rfl | hold
        · exact Or.inr (Or.inl List.mem_cons_self)
        · exact Or.inl hold
      | restart scan =>
        rcases mem_filtered hbefore with hold | hadd
        · exact Or.inl hold
        · exact Or.inr (Or.inr (hT.2 scan a hadd))
    · exact Or.inr (Or.inl (List.mem_cons_of_mem e hlater))
    · exact Or.inr (Or.inr hinet)

/-- A static host with internet access is admitted by its DISCOVER, and again by the next start. -/
theorem filter_admits_hosts_example : ipS2u "10.20.11.33" ∈ (∅ : Finset U32) ∨
    FilterEvent.authorise (ipS2u "10.20.11.33") ∈
      [FilterEvent.datagram (exampleDatagram 1000 DHCP_DISCOVER 9 0), .restart .rowid] ∨
    InetAddress (filterCfg (staticCfg "10.20.11.33" "Y")) (ipS2u "10.20.11.33") := by
  have hop : (exampleDatagram 1000 DHCP_DISCOVER 9 0).op = some (.ipAlloc 9) := by rfl
  refine filter_admits_hosts (populate_admitted (filterCfg (staticCfg "10.20.11.33" "Y"))) ∅
    ⟨?_, ?_, trivial⟩ (by decide)
  · rintro d op he hd
    obtain rfl := FilterEvent.datagram.inj he
    obtain rfl := Option.some.inj (hop.symm.trans hd)
    trivial
  · rintro d op he hd
    cases he

end Runs

end S3Dhcpd
