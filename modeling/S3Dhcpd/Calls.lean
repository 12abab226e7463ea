import Mathlib.Order.WithBot
import S3Dhcpd.LeaseRegister
import S3Dhcpd.Populate

/-! Runs of calls to the allocator, and the register of leases that they keep: who holds an
address, and until when. -/
namespace S3Dhcpd
open KeyedTable LeaseRegister Runs

inductive Op where
  | ipAlloc (mac : U64)
  | ipCheck (mac : U64) (ip : Option U32)
  | ipFree (mac : U64) (ip : U32)
  | ipInvalidate (mac : U64) (ip : U32)

def Op.mac : Op → U64
  | .ipAlloc m | .ipCheck m _ | .ipFree m _ | .ipInvalidate m _ => m

/-- The address that an invalidation names. -/
def Op.invalidated : Op → Option U32
  | .ipInvalidate _ ip => some ip
  | _ => none

structure Call where
  env : Env
  op : Op

inductive Answer where
  | alloc (ip : Option IPAddress) (effects : List Effect)
  | check (granted : Bool)
  | freed (effects : List Effect)
  | invalidated
  | thrown (e : IPAllocatorException)

/-- SQLite undoes a statement that fails, so an exception leaves the table alone. -/
def answerAlloc (T : Leases) : Except IPAllocatorException Allocation → Leases × Answer
  | .ok r => (r.leases, .alloc r.ip r.effects)
  | .error e => (T, .thrown e)

def answerCheck (T : Leases) : Except IPAllocatorException (Leases × Bool) → Leases × Answer
  | .ok (leases, granted) => (leases, .check granted)
  | .error e => (T, .thrown e)

/-- One call. -/
def serveCall (cfg : Config) (T : Leases) (c : Call) : Leases × Answer :=
  match c.op with
  | .ipAlloc m => answerAlloc T (ipAlloc cfg c.env (.ofU64 m) T)
  | .ipCheck m ip => answerCheck T (ipCheck cfg c.env (.ofU64 m) (requested ip) T)
  | .ipFree m ip => (T, .freed (ipFree cfg (.ofU64 m) (.ofU32 ip)))
  | .ipInvalidate m ip => (ipInvalidate cfg c.env (.ofU64 m) (.ofU32 ip) T, .invalidated)

theorem serveCall_alloc (cfg : Config) (env : Env) (m : U64) (T : Leases) :
    ∃ leases ip effects, serveCall cfg T ⟨env, .ipAlloc m⟩ = (leases, .alloc ip effects) ∧
      Allocates cfg env (.ofU64 m) T leases ip := by
  obtain ⟨leases, ip, effects, hr, hspec⟩ := ipAlloc_spec cfg env (.ofU64 m) T
  refine ⟨leases, ip, effects, ?_, hspec⟩
  simp only [serveCall, hr, answerAlloc]

theorem serveCall_check (cfg : Config) (env : Env) (m : U64) (ip : Option U32) (T : Leases) :
    ∃ leases granted, serveCall cfg T ⟨env, .ipCheck m ip⟩ = (leases, .check granted) ∧
      Checks cfg env (.ofU64 m) (requested ip) T leases granted := by
  obtain ⟨leases, granted, hr, hspec⟩ := ipCheck_spec cfg env (.ofU64 m) (requested ip) T
  refine ⟨leases, granted, ?_, hspec⟩
  simp only [serveCall, hr, answerCheck]

/-- The address that an answered call hands to its client: an allocation returns it, a check
confirms it. A check of no address hands out none. -/
def granted : Call × Answer → Option U32
  | (⟨_, .ipAlloc _⟩, .alloc (some ip) _) => some ip.u_addr
  | (⟨_, .ipCheck _ (some ip)⟩, .check true) => some ip
  | _ => none

def Grants (e : Call × Answer) (a : U32) (client : BitVec 48) : Prop :=
  granted e = some a ∧ hwAddr e.1.op.mac = client

instance (e : Call × Answer) (a : U32) (client : BitVec 48) : Decidable (Grants e a client) :=
  inferInstanceAs (Decidable (_ ∧ _))

/-- No client has a static assignment. -/
def NoStatic (cfg : Config) : Prop := ∀ m : U64, getStaticIp cfg (.ofU64 m) = none

theorem NoStatic.not_assigned {cfg : Config} (h : NoStatic cfg) {m : U64} {found : IPAddress × Bool}
    (hassigned : getStaticIp cfg (.ofU64 m) = some found) : False :=
  assigned_absurd (h m) hassigned

/-- The rc file assigns addresses under `host-` keys only. -/
theorem rcStaticIp_none {rc : Apprc} (hkeys : ∀ kv ∈ rc.items.rows, ¬"host-".toList <+: kv.1.toList)
    (m : U64) : rcStaticIp rc (.ofU64 m) = none := by
  have habsolute : Apprc.isRelative ("host-" ++ macU2s m) = false := by
    simp [Apprc.isRelative, String.toList_append]
  have habsent : rc.items.row? ("host-" ++ macU2s m) = none := by
    rw [Table.row?_eq_none]
    intro kv hkv hkey
    refine hkeys kv hkv ⟨(macU2s m).toList, ?_⟩
    rw [hkey, String.toList_append]
  simp only [rcStaticIp, MACAddress.ofU64, Apprc.seek, habsolute, habsent, Option.map_none]

theorem exampleRc_noHosts : ∀ kv ∈ exampleRc.items.rows, ¬"host-".toList <+: kv.1.toList := by
  decide

theorem exampleCfg_noStatic : NoStatic exampleCfg := by
  intro m
  have hrc : rcStaticIp exampleCfg.rc (.ofU64 m) = none := rcStaticIp_none exampleRc_noHosts m
  unfold getStaticIp
  rw [hrc]
  rfl

/-- A call by a client with a hardware address. -/
def RealClient (c : Call) : Prop := hwAddr c.op.mac ≠ 0

/-- A non-decreasing clock under which no expiry leaves the range of `int`. -/
structure Clocked (cfg : Config) (calls : List Call) : Prop where
  ordered : calls.Pairwise fun c c' => c.env.now.toInt ≤ c'.env.now.toInt
  bounded : ∀ c ∈ calls, c.env.now.toInt+cfg.nets.globalnet.lease_time.toNat < 2^31

theorem expireAt_eq {cfg : Config} {now : U32}
    (h : now.toInt+cfg.nets.globalnet.lease_time.toNat < 2^31) :
    expireAt cfg now = now.toInt+cfg.nets.globalnet.lease_time.toNat := by
  have hlo := BitVec.le_toInt now
  rw [expireAt, BitVec.toInt_eq_toNat_cond, BitVec.toNat_add]
  rw [BitVec.toInt_eq_toNat_cond] at *
  have hn := now.isLt
  have hl := cfg.nets.globalnet.lease_time.isLt
  split_ifs at * <;> omega

/-- The client that withdrawn and excluded addresses belong to. -/
def nobody : String := macU2s 0

/-- What a row says about its address: an excluded one is never free. -/
def held (row : Lease) : String × WithTop ℤ :=
  if row.auth_info = "excluded" then (nobody, ⊤) else (row.mac, row.expire)

/-- The lease table as a register of leases. -/
def view (T : Leases) : Register U32 String (WithTop ℤ) := fun a => (T.row? (ipU2s a)).map held

/-- What an answered call does to the register. -/
def acts (e : Call × Answer) : List (Act U32 String) :=
  ((granted e).map (.grant · (macU2s e.1.op.mac))).toList ++ (e.1.op.invalidated.map .withdraw).toList

def entries (cfg : Config) (e : Call × Answer) : List (Entry U32 String (WithTop ℤ)) :=
  (acts e).map (⟨e.1.env.now.toInt, expireAt cfg e.1.env.now, ·⟩)

theorem view_recordLease {cfg : Config} {env : Env} {mac : MACAddress} {ip : IPAddress}
    {auth_info : Option String} {T : Leases} {a : U32} (ha : ip.s_addr = ipU2s a) :
    view (recordLease cfg env mac ip auth_info T) = Function.update (view T) a
      ((T.row? (ipU2s a)).map fun row => held (updated cfg env mac auth_info row)) := by
  funext b
  rw [view, row?_recordLease, ha, Function.update_apply]
  by_cases hb : b = a
  · rw [hb, if_pos rfl, if_pos rfl, Option.map_map]
    rfl
  · rw [if_neg (fun h => hb (ipU2s_injective h)), if_neg hb]
    rfl

section Register
variable {cfg : Config} {T : Leases} {row : Lease} {m : U64}

theorem view_row (hT : Canonical T) (hmem : row ∈ T.rows) (hx : row.auth_info ≠ "excluded") :
    view T (ipS2u row.ip) = some (row.mac, (row.expire : WithTop ℤ)) := by
  rw [view, hT.row_text hmem, Table.row?_mem hmem, Option.map_some, held, if_neg hx]

theorem owns_view (hT : Canonical T) (h : Owns T (.ofU64 m) row) :
    view T (ipS2u row.ip) = some (macU2s m, (row.expire : WithTop ℤ)) := by
  obtain ⟨hmem, hmac, hx⟩ := h
  rw [view_row hT hmem hx, hmac]
  rfl

/-- What the register says of a real client's lease is written in a row that it owns. -/
theorem view_owns (hm : hwAddr m ≠ 0) {a : U32} {u : WithTop ℤ}
    (h : view T a = some (macU2s m, u)) :
    ∃ row, Owns T (.ofU64 m) row ∧ row.ip = ipU2s a ∧ u = row.expire := by
  obtain ⟨row, hrow, hheld⟩ := Option.map_eq_some_iff.mp h
  obtain ⟨hmem, hip⟩ := Table.row?_eq_some.mp hrow
  rw [held] at hheld
  split_ifs at hheld with hx
  · have hzero : hwAddr 0 = hwAddr m := macU2s_inj.mp (Prod.mk.inj hheld).1
    exact absurd hzero.symm hm
  · obtain ⟨hmac, hu⟩ := Prod.mk.inj hheld
    exact ⟨row, ⟨hmem, hmac, hx⟩, hip, hu.symm⟩

/-- A row rewritten for a client under a text that is not `excluded` is held by it. -/
theorem view_granted {env : Env} (auth_info : Option String) (hT : Canonical T)
    (hmem : row ∈ T.rows) (hx : auth_info.getD row.auth_info ≠ "excluded") :
    view (recordLease cfg env (.ofU64 m) (.ofText row.ip) auth_info T) =
      Function.update (view T) (ipS2u row.ip) (some (macU2s m, ((expireAt cfg env.now : ℤ) : WithTop ℤ))) := by
  have htext := hT.row_text hmem
  rw [view_recordLease (a := ipS2u row.ip) htext.symm, htext, Table.row?_mem hmem, Option.map_some,
    held, updated, if_neg hx]
  rfl

end Register

/-- Without static assignments a call updates one row at most, and inserts none. -/
theorem serveCall_recorded {cfg : Config} (hstatic : NoStatic cfg) (T : Leases) (c : Call) :
    (serveCall cfg T c).1 = T ∨ ∃ mac ip auth_info,
      (serveCall cfg T c).1 = recordLease cfg c.env mac ip auth_info T := by
  obtain ⟨env, op⟩ := c
  -- by the kind of call; static leases are out of the question
  cases op with
  | ipAlloc m =>
    obtain ⟨leases, ip, effects, hr, hspec⟩ := serveCall_alloc cfg env m T
    simp only [hr]
    cases hspec with
    | static hassigned _ => exact (hstatic.not_assigned hassigned).elim
    | leased _ _ => exact Or.inr ⟨_, _, _, rfl⟩
    | fresh _ _ _ => exact Or.inr ⟨_, _, _, rfl⟩
    | refused _ _ _ => exact Or.inl rfl
  | ipCheck m ip =>
    obtain ⟨leases, granted, hr, hspec⟩ := serveCall_check cfg env m ip T
    simp only [hr]
    cases hspec with
    | declined _ => exact Or.inl rfl
    | static _ hassigned _ _ => exact (hstatic.not_assigned hassigned).elim
    | leased _ _ _ _ _ => exact Or.inr ⟨_, _, _, rfl⟩
  | ipFree m ip => exact Or.inl rfl
  | ipInvalidate m ip => exact Or.inr ⟨_, _, _, rfl⟩

theorem serveCall_canonical {cfg : Config} (hstatic : NoStatic cfg) {T : Leases} (c : Call)
    (hT : Canonical T) : Canonical (serveCall cfg T c).1 := by
  rcases serveCall_recorded hstatic T c with h | ⟨mac, ip, auth_info, h⟩
  · rwa [h]
  · rw [h]
    exact hT.recordLease

/-- One call does to the table what its entries do to the register, and they are lawful. -/
def Registered (cfg : Config) (T : Leases) (c : Call) : Prop :=
  Meets (step nobody) Permits (view T) (entries cfg (c, (serveCall cfg T c).2)) ∧
    after (step nobody) (view T) (entries cfg (c, (serveCall cfg T c).2)) =
      view (serveCall cfg T c).1

section Registered
variable {cfg : Config} {T : Leases} {env : Env} {m : U64}

theorem registered_alloc (hstatic : NoStatic cfg) (hT : Canonical T) (hm : hwAddr m ≠ 0) :
    Registered cfg T ⟨env, .ipAlloc m⟩ := by
  obtain ⟨leases, ip, effects, hr, hspec⟩ := serveCall_alloc cfg env m T
  simp only [Registered, hr]
  cases hspec with
  | static hassigned _ => exact (hstatic.not_assigned hassigned).elim
  | @leased row _ hown =>
    -- the holder renews its lease
    have hview := owns_view hT hown
    refine ⟨⟨⟨macU2s m, row.expire, hview, Or.inl rfl⟩, trivial⟩, ?_⟩
    exact (view_granted (some "leased") hT hown.1 (by simp)).symm
  | @fresh row _ hnone hfree =>
    -- an expired lease goes to a client that holds nothing
    have hview := view_row hT hfree.1 hfree.2.2.1
    have hexpired : (row.expire : WithTop ℤ) < (env.now.toInt : WithTop ℤ) :=
      WithTop.coe_lt_coe.mpr hfree.2.1
    have hfresh : ∀ b v, view T b ≠ some (macU2s m, v) := by
      intro b v hb
      obtain ⟨row', hown, _⟩ := view_owns hm hb
      exact hnone row' hown
    refine ⟨⟨⟨row.mac, row.expire, hview, Or.inr ⟨hexpired, hfresh⟩⟩, trivial⟩, ?_⟩
    exact (view_granted (some "new") hT hfree.1 (by simp)).symm
  | refused _ _ _ => exact ⟨trivial, rfl⟩

theorem registered_check (hstatic : NoStatic cfg) (hT : Canonical T) {ip : Option U32} :
    Registered cfg T ⟨env, .ipCheck m ip⟩ := by
  obtain ⟨leases, granted, hr, hspec⟩ := serveCall_check cfg env m ip T
  simp only [Registered, hr]
  cases hspec with
  | declined _ =>
    cases ip <;> exact ⟨trivial, rfl⟩
  | static _ hassigned _ _ => exact (hstatic.not_assigned hassigned).elim
  | @leased sub row _ _ _ hown hsame =>
    cases ip with
    | none =>
      -- the update finds no row under the empty text
      exact ⟨trivial, congrArg view (recordLease_absent hT.row?_unset).symm⟩
    | some a =>
      have ha : a = ipS2u row.ip := hsame
      subst ha
      have htext : requested (some (ipS2u row.ip)) = .ofText row.ip := by
        rw [requested, IPAddress.ofU32, hT.row_text hown.1, IPAddress.ofText]
      have hview := owns_view hT hown
      refine ⟨⟨⟨macU2s m, row.expire, hview, Or.inl rfl⟩, trivial⟩, ?_⟩
      rw [htext, view_granted none hT hown.1 hown.2.2]
      rfl

theorem registered_invalidate {ip : U32} : Registered cfg T ⟨env, .ipInvalidate m ip⟩ := by
  refine ⟨⟨trivial, trivial⟩, ?_⟩
  simp only [serveCall, ipInvalidate]
  rw [view_recordLease (a := ip) rfl]
  change Function.update (view T) ip (((T.row? (ipU2s ip)).map held).map fun _ =>
    (nobody, ((expireAt cfg env.now : ℤ) : WithTop ℤ))) = _
  rw [Option.map_map]
  rfl

theorem serveCall_register (hstatic : NoStatic cfg) {c : Call} (hT : Canonical T)
    (hc : RealClient c) : Registered cfg T c := by
  obtain ⟨env, op⟩ := c
  cases op with
  | ipAlloc m => exact registered_alloc hstatic hT hc
  | ipCheck m ip => exact registered_check hstatic hT
  | ipFree m ip => exact ⟨trivial, rfl⟩
  | ipInvalidate m ip => exact registered_invalidate

end Registered

/-- A run of calls keeps a lawful register. -/
theorem calls_register {cfg : Config} (hstatic : NoStatic cfg) {T : Leases} (hT : Canonical T)
    {calls : List Call} (hcalls : ∀ c ∈ calls, RealClient c) :
    Meets (step nobody) Permits (view T) ((trace (serveCall cfg) T calls).flatMap (entries cfg)) ∧
      after (step nobody) (view T) ((trace (serveCall cfg) T calls).flatMap (entries cfg)) =
        view (after (serveCall cfg) T calls) :=
  simulation view (entries cfg)
    (fun _ c (hT : Canonical _) (_ : RealClient c) => serveCall_canonical hstatic c hT)
    (fun _ _ hT hc => serveCall_register hstatic hT hc) hT (meets_of_forall fun _ => hcalls)

theorem calls_canonical {cfg : Config} (hstatic : NoStatic cfg) {T : Leases} (hT : Canonical T)
    (calls : List Call) : Canonical (after (serveCall cfg) T calls) :=
  after_invariant (C := fun _ _ => True) (fun _ c hT _ => serveCall_canonical hstatic c hT) hT
    (meets_of_forall fun _ _ _ => trivial)

section Texts
variable {P : String → Prop} {cfg : Config} {env : Env} {T T' : Leases} {mac : MACAddress}
  {ip : IPAddress}

/-- The addresses of the rows are under texts of a kind. -/
def RowTexts (P : String → Prop) (T : Leases) : Prop := ∀ row ∈ T.rows, P row.ip

theorem RowTexts.recordLease (hT : RowTexts P T) {auth_info : Option String} :
    RowTexts P (recordLease cfg env mac ip auth_info T) := by
  intro row' hrow'
  rcases mem_recordLease.mp hrow' with ⟨row, hrow, rfl⟩ | ⟨hmem, _⟩
  · exact hT row (Table.row?_eq_some.mp hrow).1
  · exact hT row' hmem

theorem RowTexts.static (hT : RowTexts P T) {auth_info : String} (hip : P ip.s_addr)
    (hrows : ∀ k, T'.row? k =
      if k = ip.s_addr then some (staticRow cfg env mac ip auth_info) else T.row? k) :
    RowTexts P T' := by
  intro row hrow
  have hmem : row = staticRow cfg env mac ip auth_info ∨ (row ∈ T.rows ∧ row.ip ≠ ip.s_addr) :=
    Table.mem_write rfl hrows |>.mp hrow
  rcases hmem with rfl | ⟨hold, _⟩
  · exact hip
  · exact hT row hold

/-- A call inserts a row under the text of an assignment that an allocation reads, or under the
printed address of a check. -/
theorem serveCall_rowTexts (hT : RowTexts P T) (hprinted : ∀ a, P (requested a).s_addr) (op : Op)
    (hassigned : ∀ m, op = .ipAlloc m → ∀ ip inet_access,
      getStaticIp cfg (.ofU64 m) = some (ip, inet_access) → P ip.s_addr) :
    RowTexts P (serveCall cfg T ⟨env, op⟩).1 := by
  cases op with
  | ipAlloc m =>
    obtain ⟨leases, ip, effects, hr, hspec⟩ := serveCall_alloc cfg env m T
    rw [hr]
    cases hspec with
    | static hfound hrows => exact hT.static (hassigned m rfl _ _ hfound) hrows
    | leased _ _ => exact hT.recordLease
    | fresh _ _ _ => exact hT.recordLease
    | refused _ _ _ => exact hT
  | ipCheck m ip =>
    obtain ⟨leases, granted, hr, hspec⟩ := serveCall_check cfg env m ip T
    rw [hr]
    cases hspec with
    | declined _ => exact hT
    | static _ _ _ hrows => exact hT.static (hprinted ip) hrows
    | leased _ _ _ _ _ => exact hT.recordLease
  | ipFree m ip => exact hT
  | ipInvalidate m ip => exact hT.recordLease

end Texts

theorem populate_fits (nets : Subnets) : RowTexts IPAddress.Fits (populate nets .empty) := by
  intro row hrow
  obtain ⟨a, rfl⟩ := populate_fresh hrow
  exact IPAddress.fits_ipU2s a

end S3Dhcpd
