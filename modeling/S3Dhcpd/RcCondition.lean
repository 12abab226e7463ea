import S3Dhcpd.RcLine

/-! The conditions of `.if` lines. -/
namespace S3Dhcpd.RcFile

variable {σ : Type} [KeyTable σ]

def MAX_RC_LINE : ℕ := 1024

/-- The text without blanks at either end. Of a text of blanks the character in front is read, and
a blank there would be cut off in its place. -/
def trim (host : Host) (src : List Char) : Except LoadError (List Char) :=
  let s := src.dropWhile isTrimmed
  if s.isEmpty then if isTrimmed (host.before src 0) then .error .fault else .ok []
  else .ok (s.rdropWhile isTrimmed)

/-- What stands before the operator, whether it is `==`, and what stands behind it and one more
character; nothing when the text ends at its operator. The sign in front of a condition that begins
with `=` is never `!`. -/
def splitCondition (cond : List Char) :
    Except LoadError (List Char × Bool × Option (List Char)) :=
  let lh := cond.takeWhile (· ≠ '=')
  match cond.drop lh.length with
  | [] => .error .invalidCondition
  | _ :: p =>
    if lh.getLast? = some '!' then .ok (lh.dropLast, false, p.tail?)
    else
      match p with
      | '=' :: p => .ok (lh, true, p.tail?)
      | _ => .error .invalidCondition

/-- The copy at `p+3`. When the text ends at its operator this is what the memory has behind the
terminating zero, as far as it is defined. -/
def rightSide (behind : Option (List Char)) : Option (List Char) → Except LoadError (List Char)
  | some rh => .ok rh
  | none =>
    match behind with
    | some rh => .ok rh
    | none => .error .fault

/-- The text in front of the first `c`, and behind the second, if the first is followed by a second
at once. -/
def cutAt (c : Char) (rh : List Char) : Option (List Char × List Char) :=
  let e := rh.takeWhile (· ≠ c)
  match rh.drop e.length with
  | _ :: c' :: rest => if c' = c then some (e, rest) else none
  | _ => none

/-- The value of a side of a comparison. -/
def sideValue (host : Host) (rc : σ) (lh : List Char) : Except LoadError (List Char) :=
  match lh with
  | '$' :: name => Prod.fst <$> expandVar host rc name
  | _ => .ok lh

/-- `expand_condition`, with the depth of its recursion bounded. What is behind `&&`, or else behind
`||`, is evaluated first, and changes the flag that selects between `==` and `!=`. The right side is
a copy, whose memory ends with it; but what was cut off at `&&` still stands behind a part in front
of it. -/
def expandConditionLoop (host : Host) (rc : σ) :
    ℕ → Option (List Char) → List Char → Except LoadError Bool
  | 0, _, _ => .error .invalidCondition
  | fuel+1, behind, cond => do
    let (lh, condition, found) ← splitCondition cond
    let rh ← rightSide behind found
    let (rh, condition, behind) ← match cutAt '&' rh with
      | some (e, rest) => do
        let r ← expandConditionLoop host rc fuel none rest
        pure (e, condition && r, some ('&' :: rest))
      | none => pure (rh, condition, none)
    let (rh, condition) ← match cutAt '|' rh with
      | some (e, rest) => do
        let r ← expandConditionLoop host rc fuel behind rest
        pure (e, condition || r)
      | none => pure (rh, condition)
    let lh ← trim host lh
    let rh ← trim host rh
    let c ← sideValue host rc lh
    pure (if condition then c == rh else c != rh)

/-- The condition at `cond`, with what is defined behind its end in the buffer of a line. -/
def expandCondition (host : Host) (rc : σ) (behind : Option (List Char)) (cond : List Char) :
    Except LoadError Bool := expandConditionLoop host rc (cond.length+MAX_RC_LINE) behind cond

end S3Dhcpd.RcFile
