import Mathlib.Algebra.Order.Ring.Int
import Mathlib.Data.List.DropRight
import S3Dhcpd.RcTable

/-! How `dsApprc` reads a line of a configuration: variables, escapes, literals and array keys. -/
namespace S3Dhcpd

namespace RcFile

section Texts
variable {c : Char} {pre : List Char}

theorem takeWhile_append_absent (h : c ∉ pre) (rest : List Char) :
    (pre ++ rest).takeWhile (· ≠ c) = pre ++ rest.takeWhile (· ≠ c) := by
  apply List.takeWhile_append_of_pos
  intro x hx
  exact decide_eq_true fun heq => h (heq ▸ hx)

theorem takeWhile_absent (h : c ∉ pre) : pre.takeWhile (· ≠ c) = pre := by
  have htake := takeWhile_append_absent h []
  rwa [List.append_nil, List.takeWhile_nil, List.append_nil] at htake

theorem takeWhile_to (h : c ∉ pre) (rest : List Char) :
    (pre ++ c :: rest).takeWhile (· ≠ c) = pre := by
  rw [takeWhile_append_absent h, List.takeWhile_cons_of_neg (by simp), List.append_nil]

/-- What a test finds of every character of a fixed text. -/
theorem forall_mem_of_all {p : Char → Prop} [DecidablePred p]
    (h : pre.all (fun c => decide (p c)) = true) : ∀ c ∈ pre, p c :=
  fun c hc => of_decide_eq_true (List.all_eq_true.mp h c hc)

end Texts

/-- What loading depends on: the files that can be opened, the environment, and the characters that
stand in memory in front of a copied text, nearest first. -/
structure Host where
  files : String → Option (List Char)
  getenv : String → Option String
  before : List Char → ℕ → Char

variable {σ : Type} [KeyTable σ]

def isBlankOrTab (c : Char) : Bool := c == ' ' || c == '\t'

/-- What `trim` takes away at either end. -/
def isTrimmed (c : Char) : Bool := isBlankOrTab c || c == '\n'

def WORD_BRAKES : List Char := "\t ,;:!?$#@/\"\x7b(\x7d)\\".toList

/-- The bracket that closes a variable's name. -/
def closing : List Char → Option Char
  | '(' :: _ => some ')'
  | '{' :: _ => some '}'
  | _ => none

def inName (bracket : Option Char) (c : Char) : Bool :=
  match bracket with
  | some b => c ≠ b
  | none => c ∉ WORD_BRAKES

/-- The text of the variable at `name`, behind the dollar sign, and how many characters it takes
together with that sign. A second dollar sign adds the environment. -/
def expandVar (host : Host) (rc : σ) (name : List Char) : Except LoadError (List Char × ℕ) :=
  let env : ℕ := if name.head? = some '$' then 1 else 0
  let bracket := closing (name.drop env)
  let s := (name.drop env).drop bracket.toList.length
  let rname := s.takeWhile (inName bracket)
  if bracket.isSome && (s.drop rname.length).isEmpty then
    .error (.unclosedBracket (bracket.getD ' '))
  else match seekKey rc (String.ofList rname) with
    | .error e => .error e
    | .ok found =>
      let c := match found with
        | some c => some c
        | none => if env = 1 then host.getenv (String.ofList rname) else none
      match c with
      | some c => .ok (c.toList, rname.length+(if bracket.isSome then 2 else 0)+1+env)
      | none => .error (.undefinedVariable (String.ofList rname))

/-- The two streams of `_add`, whether the second one is current, and the depth of literals. -/
structure AddState where
  stKey : List Char
  stVal : List Char
  inVal : Bool
  lit : ℕ

def AddState.put (st : AddState) (text : List Char) : AddState :=
  if st.inVal then { st with stVal := st.stVal ++ text } else { st with stKey := st.stKey ++ text }

/-- What an escape stands for. The branch for other characters carries a misspelled label. -/
def escaped : Option Char → List Char
  | some 'n' => ['\n']
  | some 'r' => ['\r']
  | some 't' => ['\t']
  | some '{' => ['{']
  | some '}' => ['}']
  | some '\\' => ['\\']
  | _ => []

/-- The loop of `_add` over the characters up to `eol`, of which `n` are left; the next `skip` of
them have been read already. -/
def addLoop (host : Host) (rc : σ) (line : List Char) :
    List Char → ℕ → ℕ → AddState → Except LoadError AddState
  | [], _, _, st => .ok st
  | _, 0, _, st => .ok st
  | _ :: s, n+1, skip+1, st => addLoop host rc line s n skip st
  | c :: s, n+1, 0, st =>
    if c = '\\' then addLoop host rc line s n 1 (st.put (escaped s.head?))
    else if c = '{' then addLoop host rc line s n 0 { st with lit := st.lit+1 }
    else if c = '}' then
      if st.lit = 0 then .error (.unbalancedClose (String.ofList line))
      else addLoop host rc line s n 0 { st with lit := st.lit-1 }
    else if isBlankOrTab c ∧ st.lit = 0 ∧ !st.inVal then addLoop host rc line s n 0 st
    else if c = '$' then
      match expandVar host rc s with
      | .error e => .error e
      | .ok (res, vlen) => addLoop host rc line s n (vlen-1) (st.put res)
    else if c = '=' ∧ st.lit = 0 ∧ !st.inVal then
      addLoop host rc line s n (s.takeWhile isBlankOrTab).length { st with inVal := true }
    else addLoop host rc line s n 0 (st.put [c])

/-- `nkey[i]`; a short key is read in front of its beginning. -/
def keyChar (host : Host) (nkey : List Char) (i : ℤ) : Char :=
  if i < 0 then host.before nkey (-1-i).toNat else nkey.getD i.toNat '\x00'

/-- The last section of the key is `[]`. -/
def isArrayKey (host : Host) (nkey : List Char) : Bool :=
  keyChar host nkey (nkey.length-3) == '-' && keyChar host nkey (nkey.length-2) == '[' &&
    keyChar host nkey (nkey.length-1) == ']'

/-- `%d` -/
def decimal (n : ℤ) : List Char :=
  if n < 0 then '-' :: Nat.toDigits 10 n.natAbs else Nat.toDigits 10 n.natAbs

/-- `%02d` -/
def decimal2 (n : ℤ) : List Char := if 0 ≤ n ∧ n < 10 then '0' :: decimal n else decimal n

/-- `_add2`: the names of an array key are written in front of a short key, and the counter may
overflow. -/
def add2 (host : Host) (rc : σ) (key val : List Char) : Except LoadError σ :=
  if isArrayKey host key then
    if key.length < 3 then .error .fault
    else do
      let stem := key.take (key.length-3)
      let counter_name := stem ++ "-count".toList
      -- `getlong(counter_name, 0)`, narrowed to `int`
      let count := ((← seekKey rc (String.ofList counter_name)).map Apprc.atoi).getD 0
      let rc ← insertKey rc (stem ++ '-' :: decimal2 count) val
      if count = 2^31-1 then throw .fault
      else insertKey rc counter_name (decimal (count+1))
  else insertKey rc key val

/-- `_add`; on a line of nothing but blanks `eol` leaves the line. -/
def addLine (host : Host) (rc : σ) (line : List Char) : Except LoadError σ :=
  let len := (line.rdropWhile isTrimmed).length
  if len = 0 then .error .fault
  else
    match addLoop host rc line line len 0 ⟨[], [], false, 0⟩ with
    | .error e => .error e
    | .ok st =>
      if !st.inVal then .error .noTag
      else if st.lit ≠ 0 then .error (.unbalancedOpen (String.ofList line))
      else add2 host rc st.stKey st.stVal

/-- `add` -/
def addPair (host : Host) (rc : σ) (key val : List Char) : Except LoadError σ :=
  addLine host rc (key ++ '=' :: val)

section Decimals

theorem decimal_nat (n : ℕ) : decimal n = Nat.toDigits 10 n := by
  rw [decimal, if_neg (by omega), Int.natAbs_natCast]

theorem decimal_digit {c : Char} {n : ℕ} (hc : c ∈ decimal n) : c.isDigit = true := by
  rw [decimal_nat] at hc
  exact Nat.isDigit_of_mem_toDigits (by decide) (by decide) hc

theorem digit_range {c : Char} (h : c.isDigit = true) : 48 ≤ c.toNat ∧ c.toNat ≤ 57 := by
  rw [Char.isDigit, Bool.and_eq_true, decide_eq_true_iff, decide_eq_true_iff] at h
  exact ⟨h.1, h.2⟩

theorem numeral_nat (n : ℕ) : Apprc.numeral (String.ofList (decimal n)) = n := by
  have hdigits : ∀ c ∈ decimal n, c.isDigit = true := fun c hc => decimal_digit hc
  have hvalue : (decimal n).foldl (fun n c => 10*n+(c.toNat-48)) 0 = n := by
    rw [decimal_nat]
    exact Nat.ofDigitChars_ten_toDigits
  have hne : decimal n ≠ [] := by
    rw [decimal_nat]
    exact Nat.toDigits_ne_nil
  obtain ⟨c, s, hs⟩ := List.exists_cons_of_ne_nil hne
  rw [hs] at hdigits hvalue
  have hc := digit_range (hdigits c List.mem_cons_self)
  have hfirst {x : Char} (hx : x.toNat < 48) : c ≠ x := by
    rintro rfl
    omega
  have hblank : Apprc.isBlank c = false := by
    rw [Apprc.isBlank, beq_eq_false_iff_ne.mpr (hfirst (by decide)), Bool.false_or,
      Bool.and_eq_false_iff, decide_eq_false_iff_not, decide_eq_false_iff_not]
    omega
  rw [Apprc.numeral, String.toList_ofList, hs, List.dropWhile_cons_of_neg (by rw [hblank]; decide)]
  split
  · rename_i heq
    exact absurd (List.cons.inj heq).1 (hfirst (by decide))
  · rename_i heq
    exact absurd (List.cons.inj heq).1 (hfirst (by decide))
  · dsimp only
    rw [List.takeWhile_eq_self_iff.mpr hdigits, hvalue]

/-- What is printed is read back. -/
theorem numeral_decimal (n : ℤ) : Apprc.numeral (String.ofList (decimal n)) = n := by
  rcases lt_or_ge n 0 with hneg | hpos
  · have hdigits : ∀ c ∈ Nat.toDigits 10 n.natAbs, c.isDigit = true :=
      fun c hc => Nat.isDigit_of_mem_toDigits (by decide) (by decide) hc
    have hvalue : (Nat.toDigits 10 n.natAbs).foldl (fun n c => 10*n+(c.toNat-48)) 0 = n.natAbs :=
      Nat.ofDigitChars_ten_toDigits
    rw [decimal, if_pos hneg, Apprc.numeral, String.toList_ofList,
      List.dropWhile_cons_of_neg (by decide)]
    change -((((Nat.toDigits 10 n.natAbs).takeWhile Char.isDigit).foldl
      (fun n c => 10*n+(c.toNat-48)) 0 : ℕ) : ℤ) = n
    rw [List.takeWhile_eq_self_iff.mpr hdigits, hvalue]
    omega
  · obtain ⟨m, rfl⟩ := Int.eq_ofNat_of_zero_le hpos
    exact numeral_nat m

theorem atoi_decimal {n : ℤ} (hmin : -2^31 ≤ n) (hmax : n < 2^31) :
    Apprc.atoi (String.ofList (decimal n)) = n := by
  rw [Apprc.atoi_eq, numeral_decimal]
  · rwa [numeral_decimal]
  · rwa [numeral_decimal]

end Decimals

section FiniteMap
variable {host : Host} {rc : Apprc}

theorem seekKey_apprc (key : String) : seekKey rc key = .ok (rc.seek key) := rfl

theorem insertKey_apprc (key val : List Char) : insertKey rc key val = .ok (rc.store key val) := rfl

/-- A finite map takes both entries of an array key. -/
theorem add2_apprc (key val : List Char) : add2 host rc key val =
    if isArrayKey host key then
      let stem := key.take (key.length-3)
      let counter_name := stem ++ "-count".toList
      let count := ((rc.seek (String.ofList counter_name)).map Apprc.atoi).getD 0
      if key.length < 3 ∨ count = 2^31-1 then .error .fault
      else .ok ((rc.store (stem ++ '-' :: decimal2 count) val).store counter_name
        (decimal (count+1)))
    else .ok (rc.store key val) := by
  rw [add2]
  split_ifs with harray hshort
  · dsimp only
    rw [if_pos (Or.inl hshort)]
  · simp only [hshort, false_or, seekKey_apprc, insertKey_apprc]
    rfl
  · rfl

end FiniteMap

end RcFile

end S3Dhcpd
