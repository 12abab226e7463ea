import Mathlib.Logic.Function.Basic
import Mathlib.Data.Set.Basic
import Mathlib.Order.Basic
import S3Dhcpd.Runs

/-! Timed leases in the abstract: a register says of each address who holds it and until when.
A holder may always renew; anyone else has to wait for the expiry and must hold nothing. -/
namespace LeaseRegister
open Runs
variable {α κ τ : Type*} [DecidableEq α] [LinearOrder τ]

abbrev Register (α κ τ : Type*) := α → Option (κ × τ)

inductive Act (α κ : Type*) where
  | grant (a : α) (c : κ)
  | withdraw (a : α)

/-- What happened to an address, at what time, and the expiry that was written. -/
structure Entry (α κ τ : Type*) where
  now : τ
  expiry : τ
  act : Act α κ

/-- Withdrawn addresses are held by `nobody`; an address outside the register stays outside. -/
def record (nobody : κ) (R : Register α κ τ) (e : Entry α κ τ) : Register α κ τ :=
  match e.act with
  | .grant a c => Function.update R a (some (c, e.expiry))
  | .withdraw a => Function.update R a ((R a).map fun _ => (nobody, e.expiry))

def step (nobody : κ) (R : Register α κ τ) (e : Entry α κ τ) : Register α κ τ × Unit :=
  (record nobody R e, ())

/-- The law of the register: a grant renews the holder's own lease, or it takes an expired
address for somebody who holds none. -/
def Permits (R : Register α κ τ) (e : Entry α κ τ) : Prop :=
  match e.act with
  | .grant a c => ∃ h u, R a = some (h, u) ∧ (h = c ∨ (u < e.now ∧ ∀ b v, R b ≠ some (c, v)))
  | .withdraw _ => True

/-- Time does not run backwards, and later entries do not write earlier expiries. -/
def InOrder (log : List (Entry α κ τ)) : Prop :=
  log.Pairwise fun e e' => e.now ≤ e'.now ∧ e.expiry ≤ e'.expiry

/-- Nothing is granted to `c`. -/
def NeverGranted (c : κ) (log : List (Entry α κ τ)) : Prop :=
  ∀ e ∈ log, ∀ a, e.act ≠ .grant a c

/-- Between two grants of one address to different holders the first lease runs out. -/
def Exclusive (e e' : Entry α κ τ) : Prop :=
  ∀ a c c', e.act = .grant a c → e'.act = .grant a c' → c ≠ c' → e.expiry < e'.now

omit [DecidableEq α] in
theorem taken_expired {c h : κ} {a : α} {v : τ} {R : Register α κ τ} {e : Entry α κ τ}
    (hperm : Permits R e) (hR : R a = some (h, v)) (hact : e.act = .grant a c) (hne : h ≠ c) :
    v < e.now := by
  simp only [Permits, hact] at hperm
  obtain ⟨h', u', hR', hcase⟩ := hperm
  rw [hR, Option.some.injEq, Prod.mk.injEq] at hR'
  obtain ⟨rfl, rfl⟩ := hR'
  rcases hcase with hsame | ⟨hexpired, _⟩
  · exact absurd hsame hne
  · exact hexpired

/-- An entry that grants `a` to nobody but `c` leaves `a` with `c` or nobody, until `u` or later. -/
theorem record_kept {nobody c h : κ} {a : α} {u v : τ} {R : Register α κ τ} {e : Entry α κ τ}
    (hR : R a = some (h, v)) (hh : h = c ∨ h = nobody) (huv : u ≤ v) (hu : u ≤ e.expiry)
    (hgrant : ∀ c', e.act = .grant a c' → c' = c) :
    ∃ h' v', record nobody R e a = some (h', v') ∧ (h' = c ∨ h' = nobody) ∧ u ≤ v' := by
  cases hact : e.act with
  | grant b c' =>
    simp only [record, hact]
    by_cases hb : b = a
    · subst hb
      exact ⟨c', e.expiry, Function.update_self .., Or.inl (hgrant c' hact), hu⟩
    · exact ⟨h, v, by rw [Function.update_of_ne (Ne.symm hb), hR], hh, huv⟩
  | withdraw b =>
    simp only [record, hact]
    by_cases hb : b = a
    · subst hb
      exact ⟨nobody, e.expiry, by rw [Function.update_self, hR, Option.map_some], Or.inr rfl, hu⟩
    · exact ⟨h, v, by rw [Function.update_of_ne (Ne.symm hb), hR], hh, huv⟩

/-- While `c` or nobody holds `a` until `u` or later, a grant of `a` to anyone else is later
than `u`. -/
theorem guarded {nobody c h : κ} {a : α} {u v : τ} {log : List (Entry α κ τ)}
    {R : Register α κ τ} (hR : R a = some (h, v)) (hh : h = c ∨ h = nobody) (huv : u ≤ v)
    (hlog : Meets (step nobody) Permits R log) (hord : InOrder log)
    (hexp : ∀ e ∈ log, u ≤ e.expiry) (hno : NeverGranted nobody log) :
    ∀ e ∈ log, ∀ c', e.act = .grant a c' → c' ≠ c → u < e.now := by
  -- the induction carries who may hold `a`, and until when at least
  induction log generalizing R h v with
  | nil => exact fun e he => absurd he List.not_mem_nil
  | cons e es ih =>
    obtain ⟨hperm, hrest⟩ := hlog
    obtain ⟨hfirst, hord'⟩ := List.pairwise_cons.mp hord
    obtain ⟨hu, hexp'⟩ := List.forall_mem_cons.mp hexp
    obtain ⟨hreal, hno'⟩ := List.forall_mem_cons.mp hno
    by_cases htaken : ∃ c', e.act = .grant a c' ∧ c' ≠ c
    · -- the entry takes `a` from its holder, so the old lease is over, now and later on
      obtain ⟨c', hact, hne⟩ := htaken
      have hholder : h ≠ c' := by
        rintro rfl
        rcases hh with rfl | rfl
        · exact hne rfl
        · exact hreal a hact
      have hlt : u < e.now := huv.trans_lt (taken_expired hperm hR hact hholder)
      intro e' he' _ _ _
      rcases List.mem_cons.mp he' with rfl | he'
      · exact hlt
      · exact hlt.trans_le (hfirst e' he').1
    · have hgrant : ∀ c', e.act = .grant a c' → c' = c := by
        intro c' hact
        by_contra hne
        exact htaken ⟨c', hact, hne⟩
      obtain ⟨h', v', hR', hh', huv'⟩ := record_kept hR hh huv hu hgrant
      intro e' he' c' hact hne
      rcases List.mem_cons.mp he' with rfl | he'
      · exact absurd (hgrant c' hact) hne
      · exact ih hR' hh' huv' hrest hord' hexp' hno' e' he' c' hact hne

/-- Leases are exclusive in every lawful log. -/
theorem exclusive {nobody : κ} {log : List (Entry α κ τ)} {R : Register α κ τ}
    (hlog : Meets (step nobody) Permits R log) (hord : InOrder log)
    (hno : NeverGranted nobody log) : log.Pairwise Exclusive := by
  induction log generalizing R with
  | nil => exact List.Pairwise.nil
  | cons e es ih =>
    obtain ⟨hfirst, hord'⟩ := List.pairwise_cons.mp hord
    have hno' : NeverGranted nobody es := fun e' he' => hno e' (List.mem_cons_of_mem e he')
    refine List.pairwise_cons.mpr ⟨?_, ih hlog.2 hord' hno'⟩
    intro e' he' a c c' hact hact' hne
    have hheld : record nobody R e a = some (c, e.expiry) := by
      simp only [record, hact, Function.update_self]
    exact guarded hheld (Or.inl rfl) le_rfl hlog.2 hord' (fun x hx => (hfirst x hx).2) hno' e' he'
      c' hact' (Ne.symm hne)

omit [LinearOrder τ] in
theorem holder_stays {nobody c : κ} {a : α} {log : List (Entry α κ τ)} {R : Register α κ τ}
    {v : τ} (hR : R a = some (c, v))
    (hkeep : ∀ e ∈ log, (∀ c', e.act = .grant a c' → c' = c) ∧ e.act ≠ .withdraw a) :
    ∃ v', after (step nobody) R log a = some (c, v') := by
  -- the expiry may change with every entry, the holder may not
  induction log generalizing R v with
  | nil => exact ⟨v, hR⟩
  | cons e es ih =>
    obtain ⟨hgrant, hwithdraw⟩ := hkeep e List.mem_cons_self
    have hkeep' := fun e' he' => hkeep e' (List.mem_cons_of_mem e he')
    have hheld : ∃ v', record nobody R e a = some (c, v') := by
      cases hact : e.act with
      | grant b c' =>
        simp only [record, hact]
        by_cases hb : b = a
        · subst hb
          exact ⟨e.expiry, by rw [Function.update_self, hgrant c' hact]⟩
        · exact ⟨v, by rw [Function.update_of_ne (Ne.symm hb), hR]⟩
      | withdraw b =>
        have hb : b ≠ a := fun hb => hwithdraw (hb ▸ hact)
        simp only [record, hact]
        exact ⟨v, by rw [Function.update_of_ne (Ne.symm hb), hR]⟩
    obtain ⟨v', hR'⟩ := hheld
    exact ih hR' hkeep'

/-- The clients in `C` hold at most one address each. -/
def Single (C : Set κ) (R : Register α κ τ) : Prop :=
  ∀ c ∈ C, ∀ a b u v, R a = some (c, u) → R b = some (c, v) → a = b

theorem single_step {C : Set κ} {nobody : κ} (hnobody : nobody ∉ C) (R : Register α κ τ)
    (e : Entry α κ τ) (hR : Single C R) (he : Permits R e) : Single C (step nobody R e).1 := by
  intro c hc a b u v ha hb
  simp only [step, record] at ha hb
  cases hact : e.act with
  | grant x d =>
    simp only [hact, Function.update_apply] at ha hb
    simp only [Permits, hact] at he
    obtain ⟨h, w, hx, hcase⟩ := he
    -- a client that is granted `x` held `x` or nothing before
    have hown {y : α} {t : τ} (hd : d ∈ C) (hy : R y = some (d, t)) : x = y := by
      rcases hcase with rfl | ⟨_, hnone⟩
      · exact hR h hd x y w t hx hy
      · exact absurd hy (hnone y t)
    split_ifs at ha hb with hax hbx hbx
    · exact hax.trans hbx.symm
    · obtain ⟨rfl, _⟩ := Prod.mk.inj (Option.some.inj ha)
      exact hax.trans (hown hc hb)
    · obtain ⟨rfl, _⟩ := Prod.mk.inj (Option.some.inj hb)
      exact (hbx.trans (hown hc ha)).symm
    · exact hR c hc a b u v ha hb
  | withdraw x =>
    simp only [hact, Function.update_apply] at ha hb
    have hother {y : α} {t : τ} (hy : (if y = x then (R x).map fun _ => (nobody, e.expiry) else R y) =
        some (c, t)) : R y = some (c, t) := by
      split_ifs at hy with hyx
      · obtain ⟨_, _, hc'⟩ := Option.map_eq_some_iff.mp hy
        exact absurd ((Prod.mk.inj hc').1 ▸ hc) hnobody
      · exact hy
    exact hR c hc a b u v (hother ha) (hother hb)

/-- One address per client, in every lawful log. -/
theorem single_after {C : Set κ} {nobody : κ} (hnobody : nobody ∉ C) {log : List (Entry α κ τ)}
    {R : Register α κ τ} (hR : Single C R) (hlog : Meets (step nobody) Permits R log) :
    Single C (after (step nobody) R log) :=
  after_invariant (fun R e hR he => single_step hnobody R e hR he) hR hlog

end LeaseRegister
