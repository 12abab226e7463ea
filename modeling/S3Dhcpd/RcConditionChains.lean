import Mathlib.Algebra.Ring.Parity
import S3Dhcpd.RcLoad

/-! Comparisons that are joined by `&&` or by `||`: what they mean, and what `expand_condition` makes
of them. -/
namespace S3Dhcpd.RcFile

variable {σ : Type} [KeyTable σ] {host : Host} {rc : σ} {c : Char} {e pre w lead rest : List Char}
  {behind : Option (List Char)}

/-- The signs that a condition is made of. -/
def SIGNS : List Char := ['=', '!', '&', '|']

def isWordChar (c : Char) : Bool := !isTrimmed c && c ∉ SIGNS

/-- A word of a condition. -/
def IsWord (w : List Char) : Prop := w ≠ [] ∧ w.all isWordChar = true

instance (w : List Char) : Decidable (IsWord w) := inferInstanceAs (Decidable (_ ∧ _))

/-- `lh == rh`, or `lh != rh` -/
structure Comparison where
  lh : List Char
  eq : Bool
  rh : List Char
  lh_word : IsWord lh
  rh_word : IsWord rh

inductive Connective where
  | and
  | or
deriving DecidableEq, Repr

/-- The truth that settles the whole. -/
def Connective.settling : Connective → Bool
  | .and => false
  | .or => true

def Connective.sign : Connective → Char
  | .and => '&'
  | .or => '|'

def Connective.apply : Connective → Bool → Bool → Bool
  | .and => Bool.and
  | .or => Bool.or

namespace Comparison
variable {op : Connective} {c : Comparison} {cs : List Comparison}

def text (c : Comparison) : List Char :=
  c.lh ++ ' ' :: (if c.eq then '=' else '!') :: '=' :: ' ' :: c.rh

/-- What stands behind the first comparison. -/
def joined (op : Connective) : List Comparison → List Char
  | [] => []
  | c :: cs => ' ' :: op.sign :: op.sign :: ' ' :: (c.text ++ joined op cs)

/-- The left side is a word, or a variable that is defined. -/
def Valued (host : Host) (rc : σ) (c : Comparison) : Prop :=
  ∃ v, sideValue host rc c.lh = .ok v

def holds (host : Host) (rc : σ) (c : Comparison) : Bool :=
  match sideValue host rc c.lh with
  | .ok v => (v == c.rh) == c.eq
  | .error _ => false

/-- What a condition means. -/
def meaning (host : Host) (rc : σ) : Connective → List Comparison → Bool
  | .and, cs => cs.all (holds host rc)
  | .or, cs => cs.any (holds host rc)

def settles (host : Host) (rc : σ) (op : Connective) (c : Comparison) : Bool :=
  c.holds host rc == op.settling

/-- The comparisons up to the first `!=` of a conjunction, or the first `==` of a disjunction. -/
def heeded (op : Connective) : List Comparison → List Comparison
  | [] => []
  | c :: cs => if c.eq = op.settling then [c] else c :: heeded op cs

end Comparison

section Texts

theorem ok_bind {ε α β : Type} (a : α) (k : α → Except ε β) : Except.ok a >>= k = k a := rfl

theorem cutAt_absent (h : c ∉ e) : cutAt c e = none := by
  rw [cutAt, takeWhile_absent h, List.drop_length]

theorem cutAt_present (h : c ∉ e) (rest : List Char) :
    cutAt c (e ++ c :: c :: rest) = some (e, rest) := by
  rw [cutAt, takeWhile_to h, List.drop_left]
  exact if_pos rfl

theorem splitCondition_eq (hpre : '=' ∉ pre) (rest : List Char) :
    splitCondition (pre ++ ' ' :: '=' :: '=' :: ' ' :: rest) =
      .ok (pre ++ [' '], true, some rest) := by
  have hlh : '=' ∉ pre ++ [' '] := by
    rw [List.mem_append, not_or]
    exact ⟨hpre, by decide⟩
  rw [List.append_cons pre, splitCondition, takeWhile_to hlh, List.drop_left, List.getLast?_concat]
  rfl

theorem splitCondition_ne (hpre : '=' ∉ pre) (rest : List Char) :
    splitCondition (pre ++ ' ' :: '!' :: '=' :: ' ' :: rest) =
      .ok (pre ++ [' '], false, some rest) := by
  have hlh : '=' ∉ pre ++ [' '] ++ ['!'] := by
    rw [List.append_assoc, List.mem_append, not_or]
    exact ⟨hpre, by decide⟩
  rw [List.append_cons pre, List.append_cons (pre ++ [' ']), splitCondition, takeWhile_to hlh,
    List.drop_left, List.getLast?_concat]
  dsimp only
  rw [if_pos rfl, List.dropLast_concat]
  rfl

theorem IsWord.char (hw : IsWord w) (hc : c ∈ w) : isTrimmed c = false ∧ c ∉ SIGNS := by
  have hchar := List.all_eq_true.mp hw.2 c hc
  rwa [isWordChar, Bool.and_eq_true, Bool.not_eq_true', decide_eq_true_eq] at hchar

theorem IsWord.absent (hw : IsWord w) {x : Char} (hx : x ∈ SIGNS) : x ∉ w :=
  fun h => (hw.char h).2 hx

theorem blank_trimmed : ∀ x ∈ [' '], isTrimmed x = true := List.forall_mem_singleton.mpr rfl

/-- Blanks around a word are cut off. -/
theorem trim_word (hw : IsWord w) (hlead : ∀ c ∈ lead, isTrimmed c = true) {trail : List Char}
    (htrail : ∀ c ∈ trail, isTrimmed c = true) : trim host (lead ++ (w ++ trail)) = .ok w := by
  have hne := hw.1
  have hfront : (w ++ trail).dropWhile isTrimmed = w ++ trail := by
    cases w with
    | nil => exact absurd rfl hne
    | cons c w =>
      have hc : ¬isTrimmed c = true := by
        rw [(hw.char List.mem_cons_self).1]
        decide
      exact List.dropWhile_cons_of_neg hc
  have hback : (w ++ trail).rdropWhile isTrimmed = w := by
    have hself : w.rdropWhile isTrimmed = w := by
      rw [List.rdropWhile_eq_self_iff]
      intro hl
      rw [(hw.char (List.getLast_mem hl)).1]
      decide
    have htrail : ∀ c ∈ trail.reverse, isTrimmed c = true :=
      fun c hc => htrail c (List.mem_reverse.mp hc)
    rw [List.rdropWhile, List.reverse_append, List.dropWhile_append_of_pos htrail]
    exact hself
  have hsome : ¬(w ++ trail).isEmpty = true := by
    rw [List.isEmpty_iff, List.append_eq_nil_iff]
    exact fun h => hne h.1
  rw [trim, List.dropWhile_append_of_pos hlead, hfront, if_neg hsome, hback]

end Texts

section Steps
variable {op : Connective} {c : Comparison} {cs : List Comparison} {fuel : ℕ} {v : List Char}

/-- The comparison in front of the text is taken apart. -/
theorem splitCondition_text (hlead : ∀ c ∈ lead, isTrimmed c = true) (rest : List Char) :
    splitCondition (lead ++ (c.text ++ rest)) =
      .ok (lead ++ (c.lh ++ [' ']), c.eq, some (c.rh ++ rest)) := by
  have hpre : '=' ∉ lead ++ c.lh := by
    rw [List.mem_append, not_or]
    exact ⟨fun h => absurd (hlead _ h) (by decide), c.lh_word.absent (by decide)⟩
  have htext : lead ++ (c.text ++ rest) =
      lead ++ c.lh ++ ' ' :: (if c.eq then '=' else '!') :: '=' :: ' ' :: (c.rh ++ rest) := by
    simp only [Comparison.text, List.append_assoc, List.cons_append]
  rw [htext, ← List.append_assoc lead]
  cases c.eq with
  | true => exact splitCondition_eq hpre (c.rh ++ rest)
  | false => exact splitCondition_ne hpre (c.rh ++ rest)

/-- The value of a comparison, once the flag is known. -/
theorem compare_sides (hlead : ∀ c ∈ lead, isTrimmed c = true) {trail : List Char}
    (htrail : ∀ c ∈ trail, isTrimmed c = true) (hv : sideValue host rc c.lh = .ok v) (flag : Bool) :
    (do
      let lh ← trim host (lead ++ (c.lh ++ [' ']))
      let rh ← trim host (c.rh ++ trail)
      let value ← sideValue host rc lh
      pure (if flag then value == rh else value != rh)) =
        (.ok ((v == c.rh) == flag) : Except LoadError Bool) := by
  rw [trim_word c.lh_word hlead blank_trimmed]
  have hrh : trim host (c.rh ++ trail) = .ok c.rh :=
    @trim_word host c.rh [] c.rh_word (fun _ h => absurd h List.not_mem_nil) trail htrail
  rw [hrh]
  change (sideValue host rc c.lh >>= _) = _
  rw [hv]
  cases flag with
  | true => exact congrArg Except.ok (beq_true _).symm
  | false => exact congrArg Except.ok (beq_false _).symm

theorem expand_last (hlead : ∀ c ∈ lead, isTrimmed c = true)
    (hv : sideValue host rc c.lh = .ok v) :
    expandConditionLoop host rc (fuel+1) behind (lead ++ c.text) = .ok ((v == c.rh) == c.eq) := by
  have hsplit := @splitCondition_text lead c hlead []
  rw [List.append_nil, List.append_nil] at hsplit
  have hand : cutAt '&' c.rh = none := cutAt_absent (c.rh_word.absent (by decide))
  have hor : cutAt '|' c.rh = none := cutAt_absent (c.rh_word.absent (by decide))
  have hsides := @compare_sides _ _ host rc lead c v hlead []
    (fun _ h => absurd h List.not_mem_nil) hv c.eq
  rw [List.append_nil] at hsides
  simp only [expandConditionLoop, hsplit, rightSide, ok_bind, hand, hor, pure_bind]
  exact hsides

theorem text_absent {x : Char} (hx : x ∈ ['&', '|']) : x ∉ c.text := by
  have hword : x ∈ SIGNS := List.mem_append_right ['=', '!'] hx
  have hsigns : x ∉ [' ', '=', '!'] := by
    intro h
    simp only [List.mem_cons, List.not_mem_nil, or_false] at hx h
    rcases hx with rfl | rfl <;> simp at h
  rw [Comparison.text, List.mem_append, not_or]
  refine ⟨c.lh_word.absent hword, ?_⟩
  have hrh := c.rh_word.absent hword
  cases c.eq <;> simp_all

theorem or_absent : '&' ∉ Comparison.joined .or cs := by
  induction cs with
  | nil => exact List.not_mem_nil
  | cons d cs ih =>
    rw [Comparison.joined, ← List.singleton_append]
    have htext := @text_absent d '&' (by decide)
    simp [Connective.sign, htext, ih]

/-- What is behind a comparison changes the flag that selects between `==` and `!=`. -/
theorem expand_more {d : Comparison} {r : Bool} (hlead : ∀ c ∈ lead, isTrimmed c = true)
    (hv : sideValue host rc c.lh = .ok v) (hrest : expandConditionLoop host rc fuel none
      (' ' :: (d.text ++ Comparison.joined op cs)) = .ok r) :
    expandConditionLoop host rc (fuel+1) behind
        (lead ++ (c.text ++ Comparison.joined op (d :: cs))) =
      .ok ((v == c.rh) == op.apply c.eq r) := by
  have hsplit := @splitCondition_text lead c hlead (Comparison.joined op (d :: cs))
  have hsides := @compare_sides _ _ host rc lead c v hlead [' '] blank_trimmed hv (op.apply c.eq r)
  have hnone {x : Char} (hx : x ∈ SIGNS) (hblank : x ∉ [' ']) :
      x ∉ c.rh ++ [' '] := by
    rw [List.mem_append, not_or]
    exact ⟨c.rh_word.absent hx, hblank⟩
  cases op with
  | and =>
    have hand : cutAt '&' (c.rh ++ Comparison.joined .and (d :: cs)) =
        some (c.rh ++ [' '], ' ' :: (d.text ++ Comparison.joined .and cs)) := by
      rw [Comparison.joined, List.append_cons]
      exact cutAt_present (hnone (by decide) (by decide)) _
    have hor : cutAt '|' (c.rh ++ [' ']) = none := cutAt_absent (hnone (by decide) (by decide))
    simp only [expandConditionLoop, hsplit, rightSide, ok_bind, hand, hrest, hor, pure_bind]
    exact hsides
  | or =>
    have hand : cutAt '&' (c.rh ++ Comparison.joined .or (d :: cs)) = none := by
      refine cutAt_absent ?_
      rw [List.mem_append, not_or]
      exact ⟨c.rh_word.absent (by decide), or_absent⟩
    have hor : cutAt '|' (c.rh ++ Comparison.joined .or (d :: cs)) =
        some (c.rh ++ [' '], ' ' :: (d.text ++ Comparison.joined .or cs)) := by
      rw [Comparison.joined, List.append_cons]
      exact cutAt_present (hnone (by decide) (by decide)) _
    simp only [expandConditionLoop, hsplit, rightSide, ok_bind, hand, hrest, hor, pure_bind]
    exact hsides

end Steps

section Chains
variable {op : Connective} {c : Comparison} {cs : List Comparison} {fuel : ℕ}

theorem Connective.apply_settling (op : Connective) (r : Bool) :
    op.apply op.settling r = op.settling := by
  cases op <;> rfl

theorem Connective.apply_other (op : Connective) (r : Bool) :
    op.apply (!op.settling) r = r := by
  cases op <;> cases r <;> rfl

/-- A comparison that settles the whole turns the value of what is behind it over. -/
theorem turned_over {s t r : Bool} {n : ℕ} (h : r = s ↔ Odd n) :
    (t == r) = s ↔ Odd (n+if ((t == !s) == s) = true then 1 else 0) := by
  by_cases hset : ((t == !s) == s) = true
  · rw [if_pos hset, Nat.odd_add_one, ← h]
    revert hset
    cases s <;> cases t <;> cases r <;> decide
  · rw [if_neg hset, Nat.add_zero, ← h]
    revert hset
    cases s <;> cases t <;> cases r <;> decide

theorem Comparison.holds_eq {v : List Char} (hv : sideValue host rc c.lh = .ok v) :
    c.holds host rc = ((v == c.rh) == c.eq) := by
  rw [holds, hv]

/-- A comparison that is heeded alone. -/
theorem holds_iff_odd : c.holds host rc = op.settling ↔
    Odd ([c].countP (Comparison.settles host rc op)) := by
  rw [List.countP_singleton, Comparison.settles]
  split_ifs with hset
  · exact iff_of_true (eq_of_beq hset) odd_one
  · exact iff_of_false (fun h => hset (beq_iff_eq.mpr h)) (by decide)

/-- What the recursion computes is settled by the parity of the comparisons that it heeds. -/
theorem expand_joined (hlead : ∀ x ∈ lead, isTrimmed x = true)
    (hvalued : ∀ d ∈ c :: cs, d.Valued host rc) (hfuel : cs.length < fuel) :
    ∃ r, expandConditionLoop host rc fuel behind (lead ++ (c.text ++ Comparison.joined op cs)) =
        .ok r ∧
      (r = op.settling ↔
        Odd ((Comparison.heeded op (c :: cs)).countP (Comparison.settles host rc op))) := by
  -- on the comparisons behind the first one, which are evaluated before it
  induction cs generalizing c lead fuel behind with
  | nil =>
    obtain ⟨v, hv⟩ := hvalued c List.mem_cons_self
    obtain ⟨fuel, rfl⟩ := Nat.exists_eq_succ_of_ne_zero (Nat.ne_of_gt hfuel)
    refine ⟨(v == c.rh) == c.eq, ?_, ?_⟩
    · rw [Comparison.joined, List.append_nil]
      exact expand_last hlead hv
    · have hheeded : Comparison.heeded op [c] = [c] := by
        rw [Comparison.heeded]
        split_ifs <;> rfl
      rw [hheeded, ← holds_iff_odd, c.holds_eq hv]
  | cons d cs ih =>
    obtain ⟨v, hv⟩ := hvalued c List.mem_cons_self
    obtain ⟨fuel, rfl⟩ := Nat.exists_eq_succ_of_ne_zero (Nat.ne_of_gt (Nat.zero_lt_of_lt hfuel))
    obtain ⟨r, hrest, hr⟩ := @ih [' '] none d fuel blank_trimmed (List.forall_mem_cons.mp hvalued).2
      (Nat.lt_of_succ_lt_succ hfuel)
    refine ⟨_, expand_more hlead hv hrest, ?_⟩
    rw [Comparison.heeded]
    split_ifs with hstop
    -- a `!=` of a conjunction keeps its flag, whatever is behind it
    · rw [← holds_iff_odd, c.holds_eq hv, hstop, op.apply_settling]
    · have heq : c.eq = !op.settling := Bool.eq_not_of_ne hstop
      rw [heq, op.apply_other, List.countP_cons, Comparison.settles, c.holds_eq hv, heq]
      exact turned_over hr

theorem Comparison.heeded_prefix (op : Connective) (cs : List Comparison) :
    heeded op cs <+: cs := by
  induction cs with
  | nil => exact List.nil_prefix
  | cons c cs ih =>
    rw [heeded]
    split_ifs
    · exact ⟨cs, rfl⟩
    · exact List.cons_prefix_cons.mpr ⟨rfl, ih⟩

theorem Comparison.length_joined (op : Connective) (cs : List Comparison) :
    cs.length ≤ (joined op cs).length := by
  induction cs with
  | nil => exact Nat.zero_le _
  | cons c cs ih =>
    simp only [joined, List.length_cons, List.length_append]
    omega

theorem meaning_settled : Comparison.meaning host rc op cs = op.settling ↔
    ∃ d ∈ cs, Comparison.settles host rc op d = true := by
  cases op with
  | and => simp [Comparison.meaning, Comparison.settles, Connective.settling]
  | or => simp [Comparison.meaning, Comparison.settles, Connective.settling]

/-- The value of a variable of the table. -/
theorem sideValue_variable {name : List Char} {value : String} (hname : ∀ x ∈ name, x ∉ WORD_BRAKES)
    (hvalue : seekKey rc (String.ofList name) = .ok (some value)) :
    sideValue host rc ('$' :: name) = .ok value.toList := by
  have hhead {x : Char} (hx : x ∈ WORD_BRAKES) : name.head? ≠ some x :=
    fun h => hname x (List.mem_of_mem_head? h) hx
  have hclosing : closing name = none := by
    cases name with
    | nil => rfl
    | cons x name =>
      have hopen : x ≠ '(' := fun h => hhead (x := '(') (by decide) (congrArg some h)
      have hbrace : x ≠ '\x7b' := fun h => hhead (x := '\x7b') (by decide) (congrArg some h)
      rw [closing.eq_def]
      split
      · exact absurd (List.cons.inj ‹_›).1 hopen
      · exact absurd (List.cons.inj ‹_›).1 hbrace
      · rfl
  have htake : name.takeWhile (inName none) = name := by
    rw [List.takeWhile_eq_self_iff]
    exact fun x hx => decide_eq_true (hname x hx)
  have hvar : expandVar host rc name = .ok (value.toList, name.length+0+1+0) := by
    rw [expandVar, if_neg (hhead (x := '$') (by decide))]
    simp only [List.drop_zero, hclosing, Option.toList_none, List.length_nil, htake, hvalue]
    rfl
  rw [sideValue, hvar]
  rfl

/-- A condition is evaluated to what it means exactly when no comparison settles it, or the
comparisons up to the first `!=` of a conjunction, or the first `==` of a disjunction, that settle it
are odd in number. -/
theorem condition_means (hlead : ∀ x ∈ lead, isTrimmed x = true)
    (hvalued : ∀ d ∈ c :: cs, d.Valued host rc) :
    expandCondition host rc behind (lead ++ (c.text ++ Comparison.joined op cs)) =
        .ok (Comparison.meaning host rc op (c :: cs)) ↔
      (∀ d ∈ c :: cs, Comparison.settles host rc op d = false) ∨
        Odd ((Comparison.heeded op (c :: cs)).countP (Comparison.settles host rc op)) := by
  have hfuel : cs.length < (lead ++ (c.text ++ Comparison.joined op cs)).length+MAX_RC_LINE := by
    have hjoined := Comparison.length_joined op cs
    have htext : 0 < c.text.length := by
      rw [Comparison.text, List.length_append, List.length_cons]
      omega
    rw [List.length_append, List.length_append]
    omega
  obtain ⟨r, hload, hr⟩ := expand_joined hlead hvalued hfuel
  -- both values are known by whether they are the settling one
  have hsome (hodd : Odd ((Comparison.heeded op (c :: cs)).countP
      (Comparison.settles host rc op))) :
      ∃ d ∈ c :: cs, Comparison.settles host rc op d = true := by
    obtain ⟨k, hk⟩ := hodd
    obtain ⟨d, hd, hset⟩ := List.countP_pos_iff.mp (by rw [hk]; exact Nat.succ_pos _)
    exact ⟨d, (Comparison.heeded_prefix op (c :: cs)).subset hd, hset⟩
  have hsame : r = Comparison.meaning host rc op (c :: cs) ↔
      (r = op.settling ↔ Comparison.meaning host rc op (c :: cs) = op.settling) := by
    cases r <;> cases Comparison.meaning host rc op (c :: cs) <;> cases op.settling <;> decide
  rw [expandCondition, hload, Except.ok.injEq, hsame, hr, meaning_settled]
  constructor
  · intro h
    by_cases hany : ∃ d ∈ c :: cs, Comparison.settles host rc op d = true
    · exact Or.inr (h.mpr hany)
    · refine Or.inl fun d hd => ?_
      rw [← Bool.not_eq_true]
      exact fun hset => hany ⟨d, hd, hset⟩
  · rintro (hnone | hodd)
    · refine ⟨hsome, ?_⟩
      rintro ⟨d, hd, hset⟩
      exact absurd hset (by rw [hnone d hd]; decide)
    · exact iff_of_true hodd (hsome hodd)

theorem conjunction_misread : ¬∀ (host : Host) (rc : Apprc) (behind : Option (List Char))
    (op : Connective) (lead : List Char) (c : Comparison) (cs : List Comparison),
    (∀ x ∈ lead, isTrimmed x = true) → (∀ d ∈ c :: cs, d.Valued host rc) →
    expandCondition host rc behind (lead ++ (c.text ++ Comparison.joined op cs)) =
      .ok (Comparison.meaning host rc op (c :: cs)) := by
  intro h
  have hfalse := h bareHost .empty none .and [' ']
    ⟨"1".toList, true, "2".toList, by decide, by decide⟩
    [⟨"3".toList, true, "4".toList, by decide, by decide⟩] blank_trimmed
    (List.forall_mem_cons.mpr ⟨⟨_, rfl⟩, List.forall_mem_singleton.mpr ⟨_, rfl⟩⟩)
  have htrue : expandCondition bareHost Apprc.empty none " 1 == 2 && 3 == 4".toList =
    .ok true := rfl
  cases htrue.symm.trans hfalse

/-- A variable that is defined, and a comparison that holds. -/
theorem condition_means_example :
    expandCondition bareHost (Apprc.empty.store "abc".toList "1".toList) none
      " $abc == 1 && 3 != 4".toList = .ok true := by
  have hvalued : sideValue bareHost (Apprc.empty.store "abc".toList "1".toList) "$abc".toList =
      .ok "1".toList := sideValue_variable (List.forall_mem_cons.mpr ⟨by decide,
        List.forall_mem_cons.mpr ⟨by decide, List.forall_mem_singleton.mpr (by decide)⟩⟩) rfl
  exact (@condition_means _ _ bareHost _ [' '] none .and
    ⟨"$abc".toList, true, "1".toList, by decide, by decide⟩
    [⟨"3".toList, false, "4".toList, by decide, by decide⟩] blank_trimmed
    (List.forall_mem_cons.mpr ⟨⟨_, hvalued⟩, List.forall_mem_singleton.mpr ⟨_, rfl⟩⟩)).mpr
      (Or.inl (List.forall_mem_cons.mpr ⟨rfl, List.forall_mem_singleton.mpr rfl⟩))

end Chains

end S3Dhcpd.RcFile
