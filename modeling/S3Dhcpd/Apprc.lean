import Mathlib.Algebra.Order.Ring.Int
import S3Dhcpd.KeyedTable

/-! The settings that `dsApprc` holds once it is loaded: the hash table as a finite map that is
walked in slot order, and the stack of key prefixes. -/
namespace S3Dhcpd

structure Apprc where
  items : KeyedTable.Table (String × String) Prod.fst
  keyst : Option String

/-- `keyException` and `INIException`, one constructor for each text. -/
inductive KeyException where
  | undefinedRelative (keyst key : String)
  | undefinedKey (key : String)
  | stackUnderflow
deriving DecidableEq, Repr

def KeyException.msg : KeyException → String
  | .undefinedRelative keyst key => "Key (" ++ keyst ++ ")" ++ key ++ " not defined. "
  | .undefinedKey key => "Key " ++ key ++ " not defined. "
  | .stackUnderflow => "Key stack underflow"

namespace Apprc

/-- A table without any settings. -/
def empty : Apprc := ⟨.empty, none⟩

def isRelative (key : String) : Bool := key.toList.head? == some '-'

/-- Keys that begin with the delimiter are looked up under the pushed prefix. -/
def seek (rc : Apprc) (key : String) : Option String :=
  match isRelative key, rc.keyst with
  | true, some keyst => (rc.items.row? (keyst ++ key)).map Prod.snd
  | _, _ => (rc.items.row? key).map Prod.snd

def hasKey (rc : Apprc) (key : String) : Bool := (rc.seek key).isSome

def undefinedKeyException (rc : Apprc) (key : String) : KeyException :=
  match isRelative key, rc.keyst with
  | true, some keyst => .undefinedRelative keyst key
  | _, _ => .undefinedKey key

def getstring (rc : Apprc) (key : String) : Except KeyException String :=
  match rc.seek key with
  | some sp => .ok sp
  | none => .error (rc.undefinedKeyException key)

def isBlank (c : Char) : Bool := c == ' ' || (9 ≤ c.toNat && c.toNat ≤ 13)

/-- Blanks, a sign, digits up to the first other character. -/
def numeral (s : String) : ℤ :=
  let digits (l : List Char) : ℕ :=
    (l.takeWhile Char.isDigit).foldl (fun n c => 10*n+(c.toNat-48)) 0
  match s.toList.dropWhile isBlank with
  | '-' :: l => -(digits l : ℤ)
  | '+' :: l => digits l
  | l => digits l

/-- `strtol` stops at the ends of the range of `long`. -/
def strtol (s : String) : ℤ := max (-2^63) (min (numeral s) (2^63-1))

/-- `atoi` narrows what `strtol` returns. -/
def atoi (s : String) : ℤ := (BitVec.ofInt 32 (strtol s)).toInt

theorem strtol_eq {s : String} (hmin : -2^63 ≤ numeral s) (hmax : numeral s < 2^63) :
    strtol s = numeral s := by
  rw [strtol, min_eq_left (by omega), max_eq_right hmin]

theorem atoi_eq {s : String} (hmin : -2^31 ≤ numeral s) (hmax : numeral s < 2^31) :
    atoi s = numeral s := by
  rw [atoi, strtol_eq (by omega) (by omega), BitVec.toInt_ofInt]
  exact Int.bmod_eq_of_le (by omega) (by omega)

def getint (rc : Apprc) (key : String) : Except KeyException ℤ := atoi <$> rc.getstring key

def getbool (rc : Apprc) (key : String) (defval : Bool) : Bool :=
  match rc.seek key with
  | some sp => sp.toList.head? ∈ [some 'y', some 'Y', some 't', some 'T', some '1']
  | none => defval

def push (rc : Apprc) (key : String) : Apprc :=
  match rc.keyst with
  | none => { rc with keyst := some key }
  | some keyst => { rc with keyst := some (keyst ++ "-" ++ key) }

/-- `pop` cuts the prefix at its last delimiter, wherever that came from. -/
def pop (rc : Apprc) : Except KeyException Apprc :=
  match rc.keyst with
  | none => .error .stackUnderflow
  | some keyst =>
    if keyst = "" then .error .stackUnderflow
    else match keyst.toList.reverse.dropWhile (· ≠ '-') with
      | [] => .ok { rc with keyst := none }
      | _ :: front => .ok { rc with keyst := some (String.ofList front.reverse) }

/-- `walk(0)`, `walk(1)`, … without the empty slots. -/
def keys (rc : Apprc) : List String := rc.items.rows.map Prod.fst

end Apprc

end S3Dhcpd
