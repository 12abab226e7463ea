import Mathlib.Data.List.Basic
import Mathlib.Data.List.Flatten
import Mathlib.Order.Basic

/-! Runs of a machine that answers each input, and the rules by which facts about one step
become facts about a run. -/
namespace Runs
variable {σ ι ο : Type*}

/-- The state that a run ends in. -/
def after (step : σ → ι → σ × ο) : σ → List ι → σ
  | s, [] => s
  | s, i :: is => after step (step s i).1 is

/-- The inputs of a run, each with its answer. -/
def trace (step : σ → ι → σ × ο) : σ → List ι → List (ι × ο)
  | _, [] => []
  | s, i :: is => (i, (step s i).2) :: trace step (step s i).1 is

/-- Every input of the run meets `C` in the state it arrives in. -/
def Meets (step : σ → ι → σ × ο) (C : σ → ι → Prop) : σ → List ι → Prop
  | _, [] => True
  | s, i :: is => C s i ∧ Meets step C (step s i).1 is

variable {step : σ → ι → σ × ο} {C : σ → ι → Prop} {Inv : σ → Prop}

@[simp] theorem after_nil (s : σ) : after step s [] = s := rfl

@[simp] theorem after_cons (s : σ) (i : ι) (is : List ι) :
    after step s (i :: is) = after step (step s i).1 is := rfl

@[simp] theorem trace_nil (s : σ) : trace step s [] = [] := rfl

@[simp] theorem trace_cons (s : σ) (i : ι) (is : List ι) :
    trace step s (i :: is) = (i, (step s i).2) :: trace step (step s i).1 is := rfl

@[simp] theorem meets_nil (s : σ) : Meets step C s [] := trivial

@[simp] theorem meets_cons (s : σ) (i : ι) (is : List ι) :
    Meets step C s (i :: is) ↔ C s i ∧ Meets step C (step s i).1 is := Iff.rfl

theorem after_append (s : σ) (is js : List ι) :
    after step s (is ++ js) = after step (after step s is) js := by
  induction is generalizing s with
  | nil => rfl
  | cons i is ih => exact ih (step s i).1

theorem trace_append (s : σ) (is js : List ι) :
    trace step s (is ++ js) = trace step s is ++ trace step (after step s is) js := by
  induction is generalizing s with
  | nil => rfl
  | cons i is ih => simp only [List.cons_append, trace_cons, after_cons, ih]

theorem meets_append (s : σ) (is js : List ι) :
    Meets step C s (is ++ js) ↔ Meets step C s is ∧ Meets step C (after step s is) js := by
  induction is generalizing s with
  | nil => simp
  | cons i is ih => simp only [List.cons_append, meets_cons, after_cons, ih, and_assoc]

theorem trace_inputs (s : σ) (is : List ι) : (trace step s is).map Prod.fst = is := by
  induction is generalizing s with
  | nil => rfl
  | cons i is ih => simp only [trace_cons, List.map_cons, ih]

/-- Where an answered input of a run stands in it. -/
theorem mem_trace {s : σ} {is : List ι} {e : ι × ο} (h : e ∈ trace step s is) :
    ∃ pre post, is = pre ++ e.1 :: post ∧ e.2 = (step (after step s pre) e.1).2 := by
  induction is generalizing s with
  | nil => cases h
  | cons i is ih =>
    rw [trace_cons, List.mem_cons] at h
    rcases h with rfl | h
    · exact ⟨[], is, rfl, rfl⟩
    · obtain ⟨pre, post, rfl, he⟩ := ih h
      exact ⟨i :: pre, post, rfl, he⟩

theorem meets_of_forall {s : σ} {is : List ι} (h : ∀ s, ∀ i ∈ is, C s i) : Meets step C s is := by
  induction is generalizing s with
  | nil => trivial
  | cons i is ih =>
    exact ⟨h s i List.mem_cons_self, ih fun s j hj => h s j (List.mem_cons_of_mem i hj)⟩

theorem meets_iff_split {s : σ} {is : List ι} : Meets step C s is ↔
    ∀ pre i post, is = pre ++ i :: post → C (after step s pre) i := by
  constructor
  · rintro h pre i post rfl
    rw [meets_append] at h
    exact h.2.1
  · intro h
    induction is generalizing s with
    | nil => trivial
    | cons i is ih =>
      refine ⟨h [] i is rfl, ih ?_⟩
      rintro pre j post rfl
      exact h (i :: pre) j post rfl

theorem Meets.and_forall {P : ι → Prop} {s : σ} {is : List ι} (h : Meets step C s is)
    (hP : ∀ i ∈ is, P i) : Meets step (fun s i => P i ∧ C s i) s is := by
  induction is generalizing s with
  | nil => trivial
  | cons i is ih =>
    rw [List.forall_mem_cons] at hP
    exact ⟨⟨hP.1, h.1⟩, ih h.2 hP.2⟩

theorem meets_and {D : σ → ι → Prop} {s : σ} {is : List ι} :
    Meets step (fun s i => C s i ∧ D s i) s is ↔ Meets step C s is ∧ Meets step D s is := by
  induction is generalizing s with
  | nil => simp
  | cons i is ih => simp only [meets_cons, ih, and_and_and_comm]

/-- In a run that meets `C` every input also meets what the invariant preserved under `C` gives. -/
theorem Meets.of_invariant {D : σ → ι → Prop} (hstep : ∀ s i, Inv s → C s i → Inv (step s i).1)
    (hD : ∀ s i, Inv s → C s i → D s i) {s : σ} {is : List ι} (hs : Inv s)
    (h : Meets step C s is) : Meets step D s is := by
  induction is generalizing s with
  | nil => trivial
  | cons i is ih => exact ⟨hD s i hs h.1, ih (hstep s i hs h.1) h.2⟩

/-- What every step preserves under `C` holds at the end of a run that meets `C`. -/
theorem after_invariant (hstep : ∀ s i, Inv s → C s i → Inv (step s i).1) {s : σ} {is : List ι}
    (hs : Inv s) (h : Meets step C s is) : Inv (after step s is) := by
  induction is generalizing s with
  | nil => exact hs
  | cons i is ih => exact ih (hstep s i hs h.1) h.2

/-- In the middle of a run that meets `C` the invariant holds, and the next input meets `C`. -/
theorem Meets.at_split (hstep : ∀ s i, Inv s → C s i → Inv (step s i).1) {s : σ} (hs : Inv s)
    {is pre post : List ι} {i : ι} (h : Meets step C s is) (hsplit : is = pre ++ i :: post) :
    Inv (after step s pre) ∧ C (after step s pre) i := by
  rw [hsplit, meets_append] at h
  exact ⟨after_invariant hstep hs h.1, h.2.1⟩

/-- When `C` is exactly what a step needs to preserve the invariant, the runs that stay in the
invariant are those that meet `C`. -/
theorem meets_iff_invariant (hstep : ∀ s i, Inv s → (Inv (step s i).1 ↔ C s i)) {s : σ}
    (hs : Inv s) (is : List ι) :
    (∀ pre, pre <+: is → Inv (after step s pre)) ↔ Meets step C s is := by
  induction is generalizing s with
  | nil =>
    simp only [List.prefix_nil, forall_eq, after_nil, meets_nil, hs]
  | cons i is ih =>
    rw [meets_cons]
    constructor
    · intro h
      have hi : Inv (step s i).1 := h [i] (by simp)
      refine ⟨(hstep s i hs).mp hi, (ih hi).mp ?_⟩
      intro pre hpre
      exact h (i :: pre) (List.cons_prefix_cons.mpr ⟨rfl, hpre⟩)
    · rintro ⟨hC, hrest⟩ pre hpre
      -- a prefix is empty or begins with the same input
      cases pre with
      | nil => exact hs
      | cons j pre =>
        obtain ⟨rfl, hrest'⟩ := List.cons_prefix_cons.mp hpre
        exact (ih ((hstep s j hs).mpr hC)).mpr hrest pre hrest'

/-- The same of the prefixes whose inputs all meet `P`, when an input that does not meet `P` meets
`C`. -/
theorem while_iff_invariant {P : σ → ι → Prop} {Q : ι → Prop}
    (hstep : ∀ s i, Q i → Inv s → P s i → (Inv (step s i).1 ↔ C s i))
    (hother : ∀ s i, Q i → Inv s → ¬P s i → C s i) {s : σ} (hs : Inv s) {is : List ι}
    (hQ : ∀ i ∈ is, Q i) :
    (∀ pre, pre <+: is → Meets step P s pre → Inv (after step s pre)) ↔
      ∀ pre i post, is = pre ++ i :: post → Meets step P s pre → C (after step s pre) i := by
  constructor
  · rintro h pre i post rfl hpre
    have hinv : Inv (after step s pre) := h pre (List.prefix_append _ _) hpre
    have hi : Q i := hQ i (by simp)
    by_cases hP : P (after step s pre) i
    · have hnext : Inv (after step s (pre ++ [i])) := by
        apply h (pre ++ [i]) ⟨post, by simp⟩
        rw [meets_append]
        exact ⟨hpre, hP, trivial⟩
      rw [after_append] at hnext
      exact (hstep _ i hi hinv hP).mp hnext
    · exact hother _ i hi hinv hP
  · rintro h pre ⟨rest, rfl⟩ hpre
    -- from the front: every input of the prefix meets `C` where it arrives
    induction pre generalizing s with
    | nil => exact hs
    | cons i pre ih =>
      have hC : C s i := h [] i (pre ++ rest) rfl trivial
      refine ih ((hstep s i (hQ i (by simp)) hs hpre.1).mpr hC)
        (fun j hj => hQ j (List.mem_cons_of_mem i hj)) ?_ hpre.2
      intro pre' j post hsplit hpre'
      exact h (i :: pre') j post (by rw [List.cons_append, hsplit, List.cons_append])
        ⟨hpre.1, hpre'⟩

/-- What the inputs up to the time `u` preserve holds until then, when time does not run
backwards. -/
theorem until_invariant {τ : Type*} [Preorder τ] (time : ι → τ) {u : τ} {P : ι → Prop}
    (hstep : ∀ s i, Inv s → time i ≤ u → P i → Inv (step s i).1) {s : σ} (hs : Inv s)
    {is pre post : List ι} {i : ι} (hord : is.Pairwise fun i j => time i ≤ time j)
    (hP : ∀ j ∈ is, time j ≤ u → P j) (hsplit : is = pre ++ i :: post) (hi : time i ≤ u) :
    Inv (after step s pre) := by
  subst hsplit
  refine @after_invariant _ _ _ _ (fun _ j => time j ≤ u ∧ P j) _
    (fun s j hs hC => hstep s j hs hC.1 hC.2) s pre hs (meets_of_forall fun s j hj => ?_)
  have hj' : time j ≤ u :=
    ((List.pairwise_append.mp hord).2.2 j hj i List.mem_cons_self).trans hi
  exact ⟨hj', hP j (List.mem_append_left _ hj) hj'⟩

section Simulation
variable {σ' ι' ο' : Type*} {step' : σ' → ι' → σ' × ο'} {C' : σ' → ι' → Prop}

/-- A machine refines another when each of its answered inputs stands for admissible inputs of
the other that lead between the two views; then whole runs do. -/
theorem simulation (view : σ → σ') (emit : ι × ο → List ι')
    (hstep : ∀ s i, Inv s → C s i → Inv (step s i).1)
    (hsim : ∀ s i, Inv s → C s i →
      Meets step' C' (view s) (emit (i, (step s i).2)) ∧
        after step' (view s) (emit (i, (step s i).2)) = view (step s i).1)
    {s : σ} {is : List ι} (hs : Inv s) (h : Meets step C s is) :
    Meets step' C' (view s) ((trace step s is).flatMap emit) ∧
      after step' (view s) ((trace step s is).flatMap emit) = view (after step s is) := by
  induction is generalizing s with
  | nil => exact ⟨trivial, rfl⟩
  | cons i is ih =>
    obtain ⟨hm, ha⟩ := hsim s i hs h.1
    obtain ⟨hm', ha'⟩ := ih (hstep s i hs h.1) h.2
    rw [trace_cons, List.flatMap_cons, meets_append, after_append, ha]
    exact ⟨⟨hm, hm'⟩, ha'⟩

end Simulation

end Runs
