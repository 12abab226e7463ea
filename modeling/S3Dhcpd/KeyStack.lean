import Mathlib.Data.List.TakeWhile
import S3Dhcpd.Subnets

/-! The stack of key prefixes, kept in one string: `pop` against `push`, runs of calls against a
stack of names, and the prefixes that `Subnets::load` reads under. -/
namespace S3Dhcpd

namespace Apprc
variable {rc : Apprc} {k base : String} {front back : List Char}

theorem cut_none (h : '-' ∉ back) : back.reverse.dropWhile (· ≠ '-') = [] := by
  rw [List.dropWhile_eq_nil_iff]
  intro c hc
  rw [List.mem_reverse] at hc
  exact decide_eq_true fun heq => h (heq ▸ hc)

theorem cut_last (h : '-' ∉ back) :
    (front ++ '-' :: back).reverse.dropWhile (· ≠ '-') = '-' :: front.reverse := by
  rw [List.reverse_append, List.reverse_cons, List.append_assoc, List.dropWhile_append, cut_none h]
  rfl

/-- A text with a delimiter has a last one. -/
theorem exists_last {s : List Char} (h : '-' ∈ s) :
    ∃ front back, s = front ++ '-' :: back ∧ '-' ∉ back := by
  obtain ⟨back, front, hs, hback⟩ := List.eq_append_cons_of_mem (List.mem_reverse.mpr h)
  refine ⟨front.reverse, back.reverse, ?_, by rwa [List.mem_reverse]⟩
  rw [← List.reverse_reverse s, hs]
  simp

theorem pop_single (h : rc.keyst = some k) (hk : k ≠ "") (hplain : '-' ∉ k.toList) :
    rc.pop = .ok { rc with keyst := none } := by
  rw [pop, h]
  dsimp only
  rw [if_neg hk, cut_none hplain]

theorem pop_cut (h : rc.keyst = some (String.ofList (front ++ '-' :: back))) (hplain : '-' ∉ back) :
    rc.pop = .ok { rc with keyst := some (String.ofList front) } := by
  have hne : String.ofList (front ++ '-' :: back) ≠ "" := by
    intro heq
    have hnil : front ++ '-' :: back = [] := String.ofList_injective heq
    simp at hnil
  rw [pop, h]
  dsimp only
  rw [if_neg hne, String.toList_ofList, cut_last hplain]
  dsimp only
  rw [List.reverse_reverse]

theorem push_some (h : rc.keyst = some base) (k : String) :
    (rc.push k).keyst = some (base ++ "-" ++ k) := by
  rw [push, h]

theorem push_none (h : rc.keyst = none) (k : String) : (rc.push k).keyst = some k := by
  rw [push, h]

@[simp] theorem push_items (rc : Apprc) (k : String) : (rc.push k).items = rc.items := by
  rw [push]
  split <;> rfl

/-- What `pop` leaves of a name with a delimiter stays on the stack. -/
theorem pop_push_some (h : rc.keyst = some base) (k : String) :
    ∃ rest, (rc.push k).pop = .ok { rc with keyst := some (base ++ rest) } ∧
      (rest = "" ↔ '-' ∉ k.toList) := by
  have hpush := push_some h k
  have hrc (keyst : Option String) : ({ rc.push k with keyst } : Apprc) = { rc with keyst } := by
    rw [Apprc.mk.injEq]
    exact ⟨push_items rc k, rfl⟩
  by_cases hdash : '-' ∈ k.toList
  · obtain ⟨front, back, hk, hback⟩ := exists_last hdash
    have htext : base ++ "-" ++ k =
        String.ofList ((base.toList ++ '-' :: front) ++ '-' :: back) := by
      apply String.toList_inj.mp
      simp [hk]
    rw [htext] at hpush
    refine ⟨String.ofList ('-' :: front), ?_, ?_⟩
    · rw [pop_cut hpush hback, hrc, String.ofList_append, String.ofList_toList]
    · refine iff_of_false (fun heq => ?_) (not_not_intro hdash)
      exact List.cons_ne_nil _ _ (String.ofList_injective heq)
  · have htext : base ++ "-" ++ k = String.ofList (base.toList ++ '-' :: k.toList) := by
      apply String.toList_inj.mp
      simp
    rw [htext] at hpush
    refine ⟨"", ?_, iff_of_true rfl hdash⟩
    rw [pop_cut hpush hdash, hrc, String.ofList_toList, String.append_empty]

theorem pop_push (hk : k ≠ "") : (rc.push k).pop = .ok rc ↔ '-' ∉ k.toList := by
  cases hkeyst : rc.keyst with
  | none =>
    have hpush := push_none hkeyst k
    constructor
    · intro h hdash
      obtain ⟨front, back, hcut, hback⟩ := exists_last hdash
      have hk : k = String.ofList (front ++ '-' :: back) := by rw [← hcut, String.ofList_toList]
      rw [hk] at hpush h
      rw [pop_cut hpush hback] at h
      have hlost := congrArg keyst (Except.ok.inj h)
      rw [hkeyst] at hlost
      cases hlost
    · intro hplain
      rw [pop_single hpush hk hplain, ← hkeyst, Except.ok.injEq, Apprc.mk.injEq]
      exact ⟨push_items rc k, rfl⟩
  | some base =>
    obtain ⟨rest, hpop, hrest⟩ := pop_push_some hkeyst k
    have hrc : ({ rc with keyst := some (base ++ rest) } : Apprc) = rc ↔ rest = "" := by
      constructor
      · intro heq
        have hsame := congrArg keyst heq
        rw [hkeyst, Option.some.injEq, ← String.toList_inj, String.toList_append] at hsame
        exact String.toList_inj.mp (List.append_right_eq_self.mp hsame)
      · rintro rfl
        rw [String.append_empty, ← hkeyst]
    rw [hpop, Except.ok.injEq, hrc, hrest]

section Levels

inductive StackCall where
  | push (key : String)
  | pop
deriving DecidableEq, Repr

def call (rc : Apprc) : StackCall → Except KeyException Apprc
  | .push key => .ok (rc.push key)
  | .pop => rc.pop

/-- The same calls on a list of names. -/
def callLevels (levels : List String) : StackCall → Except KeyException (List String)
  | .push key => .ok (key :: levels)
  | .pop => match levels with
    | [] => .error .stackUnderflow
    | _ :: levels => .ok levels

/-- The names, the last one pushed in front, in one string. -/
def joined : List String → Option String
  | [] => none
  | k :: levels => some (match joined levels with
    | some base => base ++ "-" ++ k
    | none => k)

def PlainName (k : String) : Prop := k ≠ "" ∧ '-' ∉ k.toList

variable {levels : List String} {calls : List StackCall} {c : StackCall}

theorem push_joined (h : rc.keyst = joined levels) (k : String) :
    rc.push k = { rc with keyst := joined (k :: levels) } := by
  rw [push, joined, h]
  cases joined levels <;> rfl

theorem call_levels (hlevels : ∀ k ∈ levels, PlainName k) (h : rc.keyst = joined levels) (c) :
    rc.call c = (callLevels levels c).map fun levels => { rc with keyst := joined levels } := by
  cases c with
  | push k => exact congrArg Except.ok (push_joined h k)
  | pop =>
    cases levels with
    | nil =>
      rw [call, pop, h]
      rfl
    | cons k levels =>
      obtain ⟨hk, hplain⟩ := hlevels k List.mem_cons_self
      have hpushed : rc = ({ rc with keyst := joined levels } : Apprc).push k := by
        rw [push_joined rfl k, ← h]
      have hpop : rc.pop = .ok { rc with keyst := joined levels } := by
        conv_lhs => rw [hpushed]
        exact (pop_push hk).mpr hplain
      exact hpop

/-- With names without delimiters a run of calls is a run on the list. -/
theorem run_levels (hlevels : ∀ k ∈ levels, PlainName k) (h : rc.keyst = joined levels)
    (hcalls : ∀ k, .push k ∈ calls → PlainName k) :
    calls.foldlM call rc =
      (calls.foldlM callLevels levels).map fun levels => { rc with keyst := joined levels } := by
  induction calls generalizing rc levels with
  | nil =>
    change Except.ok rc = Except.ok { rc with keyst := joined levels }
    rw [← h]
  | cons c calls ih =>
    rw [List.foldlM_cons, List.foldlM_cons, call_levels hlevels h]
    cases hstep : callLevels levels c with
    | error e => rfl
    | ok levels' =>
      have hlevels' : ∀ k ∈ levels', PlainName k := by
        cases c with
        | push k =>
          cases hstep
          rw [List.forall_mem_cons]
          exact ⟨hcalls k List.mem_cons_self, hlevels⟩
        | pop =>
          cases levels with
          | nil => cases hstep
          | cons k levels =>
            cases hstep
            exact (List.forall_mem_cons.mp hlevels).2
      exact @ih { rc with keyst := joined levels' } levels' hlevels' rfl
        fun k hk => hcalls k (List.mem_cons_of_mem _ hk)

end Levels

end Apprc

namespace Subnets
open Apprc
variable {rc : Apprc} {base : String} {keys names : List String}

/-- The names of subnets, each with the prefix under which its keys are read. -/
def readStacks : List String → Apprc → List (String × Option String)
  | [], _ => []
  | name :: names, rc => (name, (rc.push name).keyst) :: match (rc.push name).pop with
    | .ok rc => readStacks names rc
    | .error _ => []

theorem loadKeys_reads (h : rc.keyst = some base) : Prod.snd <$> loadKeys keys rc =
    (readStacks (keys.filterMap subnetName) rc).mapM fun read =>
      loadSubnet { rc with keyst := read.2 } read.1 := by
  -- on the keys of the walk; a `pop` leaves some prefix, be it the right one or not
  induction keys generalizing rc base with
  | nil => rfl
  | cons key keys ih =>
    cases hname : subnetName key with
    | none =>
      rw [loadKeys, hname, List.filterMap_cons_none hname]
      exact ih h
    | some name =>
      obtain ⟨rest, hpop, _⟩ := pop_push_some h name
      have hpushed : ({ rc with keyst := (rc.push name).keyst } : Apprc) = rc.push name := by
        rw [Apprc.mk.injEq]
        exact ⟨(push_items rc name).symm, rfl⟩
      have hrest := @ih { rc with keyst := some (base ++ rest) } _ rfl
      rw [loadKeys, hname, List.filterMap_cons_some hname, readStacks, hpop, List.mapM_cons,
        hpushed, ← hrest]
      dsimp only
      cases loadSubnet (rc.push name) name with
      | error e => rfl
      | ok sub =>
        rw [hpop]
        dsimp only [liftKey, bind, Except.bind]
        cases loadKeys keys { rc with keyst := some (base ++ rest) } <;> rfl

/-- The walk reads every subnet under its own name as long as `pop` gives the stack back. -/
theorem readStacks_own (h : rc.keyst = some base) :
    (∀ read ∈ readStacks names rc, read.2 = some (base ++ "-" ++ read.1)) ↔
      ∀ name ∈ names.dropLast, '-' ∉ name.toList := by
  induction names with
  | nil => simp [readStacks]
  | cons name names ih =>
    obtain ⟨rest, hpop, hrest⟩ := pop_push_some h name
    rw [readStacks, hpop, List.forall_mem_cons, push_some h name]
    dsimp only
    rw [eq_self, true_and]
    by_cases hdash : '-' ∈ name.toList
    · cases names with
      | nil => simp [readStacks]
      | cons next names =>
        -- what `pop` leaves of this name is in front of the next one
        have hlonger : rest ≠ "" := fun hnil => hrest.mp hnil hdash
        refine iff_of_false (fun hall => ?_) fun hall => ?_
        · have hread := hall (next, some (base ++ rest ++ "-" ++ next)) (by simp [readStacks, push])
          have htext := congrArg String.toList (Option.some.inj hread)
          simp only [String.toList_append, List.append_assoc, List.append_cancel_left_eq] at htext
          have hlen := congrArg List.length htext
          rw [List.length_append] at hlen
          exact hlonger (String.toList_eq_nil_iff.mp (List.length_eq_zero_iff.mp (by omega)))
        · rw [List.dropLast_cons_cons] at hall
          exact hall name List.mem_cons_self hdash
    · obtain rfl : rest = "" := hrest.mpr hdash
      have hrc : ({ rc with keyst := some (base ++ "") } : Apprc) = rc := by
        rw [String.append_empty, ← h]
      rw [hrc, ih]
      cases names with
      | nil => simp
      | cons next names => rw [List.dropLast_cons_cons, List.forall_mem_cons, and_iff_right hdash]

/-- `push` and `pop` are inverse for the keys without a delimiter, and a subnet is read under its
own name as long as no name before it has one. -/
theorem push_pop_inverse (rc : Apprc) {k : String} (hk : k ≠ "") {loaded : Apprc}
    (h : loaded.keyst = none) (keys : List String) :
    ((rc.push k).pop = .ok rc ↔ '-' ∉ k.toList) ∧
      (Prod.snd <$> loadKeys keys (loaded.push "subnet") =
        (readStacks (keys.filterMap subnetName) (loaded.push "subnet")).mapM fun read =>
          loadSubnet { loaded with keyst := read.2 } read.1) ∧
      ((∀ read ∈ readStacks (keys.filterMap subnetName) (loaded.push "subnet"),
          read.2 = some ("subnet-" ++ read.1)) ↔
        ∀ name ∈ (keys.filterMap subnetName).dropLast, '-' ∉ name.toList) := by
  have hpush := push_none h "subnet"
  have hrc (keyst : Option String) :
      ({ loaded.push "subnet" with keyst } : Apprc) = { loaded with keyst } := by
    rw [Apprc.mk.injEq]
    exact ⟨push_items loaded "subnet", rfl⟩
  refine ⟨pop_push hk, ?_, readStacks_own hpush⟩
  rw [loadKeys_reads hpush]
  simp only [hrc]

/-- A name with a delimiter is left on the stack in part, and the next subnet is read under it. -/
theorem delimiter_in_name :
    ¬((∀ (calls : List StackCall) (rc : Apprc) (k : String), calls.foldlM call .empty = .ok rc →
        k ≠ "" → (rc.push k).pop = .ok rc) ∧
      ∀ keys : List String,
        ∀ read ∈ readStacks (keys.filterMap subnetName) (Apprc.empty.push "subnet"),
          read.2 = some ("subnet-" ++ read.1)) ∧
    readStacks (["subnet-my-net-addr", "subnet-b-addr"].filterMap subnetName)
      (Apprc.empty.push "subnet") =
        [("my-net", some "subnet-my-net"), ("b", some "subnet-my-b")] := by
  constructor
  · rintro ⟨h, _⟩
    have hpop := h [.push "subnet"] (Apprc.empty.push "subnet") "my-net" rfl (by decide)
    exact absurd ((pop_push (by decide)).mp hpop) (by decide)
  · rfl

/-- A plain name on the stack, and two plain subnets. -/
theorem push_pop_inverse_example :
    (Apprc.empty.push "subnet").pop = .ok .empty ∧
    ∀ read ∈ readStacks (["subnet-a-addr", "subnet-b-addr"].filterMap subnetName)
      (Apprc.empty.push "subnet"), read.2 = some ("subnet-" ++ read.1) := by
  obtain ⟨hpop, _, hown⟩ := @push_pop_inverse .empty "subnet" (by decide) .empty
    rfl ["subnet-a-addr", "subnet-b-addr"]
  exact ⟨hpop.mpr (by decide), hown.mpr (by decide)⟩

end Subnets

end S3Dhcpd
