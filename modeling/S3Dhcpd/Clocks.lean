import S3Dhcpd.LeaseTime

/-! `get_clock` on both kinds of platforms, and how long a lease lasts by it. -/
namespace S3Dhcpd
open KeyedTable

/-- The two definitions of `get_clock`. -/
inductive Platform where
  | apple
  | other
deriving DecidableEq, Repr

/-- What the clocks of a system show at an instant: `mach_absolute_time` with its timebase, and
`CLOCK_REALTIME`. -/
structure Instant where
  numer : U32
  denom : U32
  tm : U64
  tv_sec : U64
  tv_nsec : ℕ
  nsec_lt : tv_nsec < 10^9

/-- `(tm * timebase_info.numer) / timebase_info.denom`, in 64 bits. -/
def Instant.now (i : Instant) : U64 := i.tm*i.numer.setWidth 64 / i.denom.setWidth 64

/-- Either reading is narrowed to `int`. -/
def getClock : Platform → Instant → U32
  | .apple, i => i.now.setWidth 32
  | .other, i => i.tv_sec.setWidth 32

/-- The time of an instant in nanoseconds, since the boot or since the epoch. -/
def Instant.nanoseconds : Platform → Instant → ℕ
  | .apple, i => i.now.toNat
  | .other, i => i.tv_sec.toNat*10^9+i.tv_nsec

/-- Two instants of one system, the second less than `L` seconds after the first; the seconds since
the epoch leave room for `L` more. -/
structure Instant.Within (platform : Platform) (L : ℕ) (first second : Instant) : Prop where
  timebase : first.numer = second.numer ∧ first.denom = second.denom
  ordered : first.nanoseconds platform ≤ second.nanoseconds platform
  near : second.nanoseconds platform < first.nanoseconds platform+L*10^9
  room : platform = .other → first.tv_sec.toNat+L < 2^31 ∧ second.tv_sec.toNat+L < 2^31

/-- No lease is given away before its time is over. -/
def LeasesLast (platform : Platform) (cfg : Config) : Prop :=
  ∀ first second, Instant.Within platform cfg.nets.globalnet.lease_time.toNat first second →
    ∀ scan T row, Stores cfg ⟨getClock platform first, scan⟩ T row →
      ∀ T', ¬ NextFree T' (getClock platform second) row

section Lasting
variable {cfg : Config}

/-- A clock of seconds keeps every lease for its time. -/
theorem leasesLast_other : LeasesLast .other cfg := by
  intro first second hnear scan T row hstored T' hfree
  obtain ⟨hfirst, hsecond⟩ := hnear.room rfl
  have hexpire : row.expire = expireAt cfg (getClock .other first) := hstored.expire
  have hclock {i : Instant} (hi : i.tv_sec.toNat+cfg.nets.globalnet.lease_time.toNat < 2^31) :
      (getClock .other i).toInt = i.tv_sec.toNat := by
    rw [getClock, BitVec.toInt_eq_toNat_cond, BitVec.toNat_setWidth]
    omega
  rw [expireAt_eq (by rw [hclock hfirst]; exact_mod_cast hfirst), hclock hfirst] at hexpire
  have hlate := hfree.2.1
  rw [hclock hsecond, hexpire] at hlate
  -- the second reading is at most `L` behind the first, and a row is free only after its expiry
  have hseconds := hnear.near
  simp only [Instant.nanoseconds] at hseconds
  have hnsec := first.nsec_lt
  omega

/-- An instant of a system whose ticks are nanoseconds. -/
def appleInstant (tm : U64) : Instant := ⟨1, 1, tm, 0, 0, by decide⟩

theorem appleInstant_now (tm : U64) : (appleInstant tm).now = tm := by
  simp [Instant.now, appleInstant]

theorem appleInstant_clock (tm : U64) :
    getClock .apple (appleInstant tm) = tm.setWidth 32 := by
  rw [getClock, appleInstant_now]

theorem leasesLast_apple_late {tm tm' : U64}
    (hlate : expireAt cfg (tm.setWidth 32) < (tm'.setWidth 32).toInt)
    (hordered : tm.toNat ≤ tm'.toNat)
    (hnear : tm'.toNat < tm.toNat+cfg.nets.globalnet.lease_time.toNat*10^9) :
    ¬ LeasesLast .apple cfg := by
  intro h
  obtain ⟨T, row, hstored, hrows, hauth⟩ := exists_stored cfg ⟨tm.setWidth 32, .rowid⟩
  have hexpire : row.expire = expireAt cfg (tm.setWidth 32) := hstored.expire
  have hnano (tm : U64) : (appleInstant tm).nanoseconds .apple = tm.toNat := by
    rw [Instant.nanoseconds, appleInstant_now]
  have hwithin : Instant.Within .apple cfg.nets.globalnet.lease_time.toNat (appleInstant tm)
      (appleInstant tm') := by
    refine ⟨⟨rfl, rfl⟩, ?_, ?_, fun hother => absurd hother (by decide)⟩
    · rw [hnano, hnano]
      exact hordered
    · rw [hnano, hnano]
      exact hnear
  have hkept := h (appleInstant tm) (appleInstant tm') hwithin .rowid T row
  rw [appleInstant_clock, appleInstant_clock] at hkept
  -- the table of one expired row is one that `get_new_ip` may find
  refine hkept hstored T ⟨?_, ?_, hauth, ?_⟩
  · rw [hrows]
    exact List.mem_singleton_self row
  · rw [hexpire]
    exact hlate
  · intro row' hrow' _ _
    rw [hrows, List.mem_singleton] at hrow'
    rw [hrow']

/-- A clock of nanoseconds keeps no lease for a second. -/
theorem leasesLast_apple (hL : 0 < cfg.nets.globalnet.lease_time.toNat) :
    ¬ LeasesLast .apple cfg := by
  by_cases hfits : cfg.nets.globalnet.lease_time.toNat+1 < 2^31
  · -- so many nanoseconds behind the expiry
    have hexpire : expireAt cfg ((0 : U64).setWidth 32) =
        (0 : U32).toInt+cfg.nets.globalnet.lease_time.toNat := by
      have hzero : (0 : U64).setWidth 32 = (0 : U32) := by decide
      have hnow : (0 : U32).toInt = 0 := by decide
      rw [hzero, expireAt_eq (by omega)]
    have hlate : ((BitVec.ofNat 64 (cfg.nets.globalnet.lease_time.toNat+1)).setWidth 32).toInt =
        cfg.nets.globalnet.lease_time.toNat+1 := by
      rw [BitVec.toInt_eq_toNat_cond, BitVec.toNat_setWidth, BitVec.toNat_ofNat]
      omega
    have hnow : (0 : U32).toInt = 0 := by decide
    refine @leasesLast_apple_late cfg 0 _ (by rw [hexpire, hlate]; omega) (Nat.zero_le _) ?_
    rw [BitVec.toNat_ofNat]
    omega
  · -- the sum leaves the range of `int` at once
    have hpast : expireAt cfg ((1 : U64).setWidth 32) < ((1 : U64).setWidth 32).toInt := by
      have hone : (1 : U64).setWidth 32 = (1 : U32) := by decide
      have hnow : (1 : U32).toInt = 1 := by decide
      rw [hone]
      apply not_le.mp
      intro hcurrent
      apply hfits
      have hsum := (now_le_expireAt (by decide)).mp hcurrent
      omega
    exact leasesLast_apple_late hpast (Nat.le_refl _) (by omega)

/-- Leases last on every platform but one, where no lease does. -/
theorem leases_last (platform : Platform) (cfg : Config) :
    LeasesLast platform cfg ↔ platform = .other ∨ cfg.nets.globalnet.lease_time = 0 := by
  constructor
  · intro h
    cases platform with
    | other => exact Or.inl rfl
    | apple =>
      right
      by_contra hL
      refine leasesLast_apple (Nat.pos_of_ne_zero fun hzero => hL ?_) h
      exact BitVec.eq_of_toNat_eq hzero
  · rintro (rfl | hL)
    · exact leasesLast_other
    · -- no two instants are less than no time apart
      intro first second hnear
      have hnone := hnear.ordered.trans_lt hnear.near
      rw [hL] at hnone
      exact absurd hnone (by simp)

end Lasting

/-- The lease of the example configuration is given away after 181 nanoseconds. -/
theorem example_lease_lost : ¬ LeasesLast .apple exampleCfg := leasesLast_apple (by decide)

end S3Dhcpd
