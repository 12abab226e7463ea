import Mathlib.Data.List.TakeWhile
import S3Dhcpd.Apprc
import S3Dhcpd.HashInserts

/-! The tables that a configuration is loaded into: `dsHashTable` with its slots, and the finite map
that it stands for. A `Char` is one `char` of the stream. -/
namespace S3Dhcpd
open KeyedTable

namespace RcFile

/-- `keyException`, one constructor for each text, `dsHashTableException`, and undefined
behaviour. -/
inductive LoadError where
  | unclosedBracket (bracket : Char)
  | undefinedVariable (rname : String)
  | invalidCondition
  | unbalancedClose (line : String)
  | unbalancedOpen (line : String)
  | noTag
  | tooManyIncludes
  | invalidInclude
  | cantOpen (fname : String)
  | unmatchedEndif
  | unclosedIf
  | located (line : ℕ) (e : LoadError)
  | tableFull
  | fault
deriving DecidableEq, Repr

/-- The texts; `%m` is the system's message. -/
def LoadError.msg (strerror : String) : LoadError → String
  | .unclosedBracket bracket => "Unclosed bracket '" ++ bracket.toString ++ "'"
  | .undefinedVariable rname => "Undefined variable '" ++ rname ++ "'"
  | .invalidCondition => "invalid condition format"
  | .unbalancedClose line => "Unbalanced '\x7d' in literal.'" ++ line ++ "'"
  | .unbalancedOpen line => "Unbalanced '\x7b' in literal.'" ++ line ++ "'"
  | .noTag => "Invalid line format. No unescaped '=' tag"
  | .tooManyIncludes => "Too many nested includes."
  | .invalidInclude => "Invalid include syntax. Use .include \"filename\""
  | .cantOpen fname => "Can't open file '" ++ fname ++ "' (" ++ strerror ++ ")"
  | .unmatchedEndif => "unmaptched .endif"
  | .unclosedIf => "Unexpected end of file (unclosed .if)"
  | .located line e => "Error: " ++ toString line ++ ": " ++ e.msg strerror
  | .tableFull => "Table full and can't grow more"
  | .fault => ""

/-- The exception is a `keyException`. -/
def LoadError.IsKey : LoadError → Prop
  | .tableFull | .fault => False
  | _ => True

/-- What a load makes of a `dsHashTableException`. The text about the maximal size prints a number
with `%s`. -/
def refusal : HashTableException → LoadError
  | .tableFull => .tableFull
  | .maximalSize | .outside _ | .overflow => .fault

/-- What loading asks of a table. `value` is the finite map that the table stands for. -/
class KeyTable (σ : Type) where
  find : σ → String → Except HashTableException (Option String)
  put : σ → List Char → List Char → Except HashTableException σ
  value : σ → String → Option String

section Results

theorem mapError_ok {ε ε' α : Type} {f : ε → ε'} {r : Except ε α} {a : α} :
    r.mapError f = .ok a ↔ r = .ok a := by
  cases r with
  | ok b => exact ⟨fun h => congrArg _ (Except.ok.inj h), fun h => congrArg _ (Except.ok.inj h)⟩
  | error e =>
    constructor
    · exact fun h => by cases h
    · exact fun h => by cases h

theorem bind_eq_ok {ε α β : Type} {x : Except ε α} {k : α → Except ε β} {y : β} :
    x >>= k = .ok y ↔ ∃ a, x = .ok a ∧ k a = .ok y := by
  cases x with
  | error e =>
    constructor
    · exact fun h => by cases h
    · rintro ⟨a, h, _⟩
      cases h
  | ok a =>
    constructor
    · exact fun h => ⟨a, rfl, h⟩
    · rintro ⟨a', h, hk⟩
      cases h
      exact hk

theorem bind_ne_error {ε α β : Type} {x : Except ε α} {k : α → Except ε β} {e : ε}
    (hx : x ≠ .error e) (hk : ∀ a, k a ≠ .error e) : x >>= k ≠ .error e := by
  cases x with
  | error e' => exact fun h => hx (congrArg Except.error (Except.error.inj h))
  | ok a => exact hk a

end Results

section Calls
variable {σ : Type} [KeyTable σ]

/-- `seek(key)` -/
def seekKey (rc : σ) (key : String) : Except LoadError (Option String) :=
  (KeyTable.find rc key).mapError refusal

/-- `_h->insert(key, val, true)` -/
def insertKey (rc : σ) (key val : List Char) : Except LoadError σ :=
  (KeyTable.put rc key val).mapError refusal

end Calls

end RcFile

namespace Apprc

/-- The table as a finite map. -/
def value (rc : Apprc) (key : String) : Option String := (rc.items.row? key).map Prod.snd

def store (rc : Apprc) (key val : List Char) : Apprc :=
  { rc with items := rc.items.put (String.ofList key, String.ofList val) }

theorem value_store (rc : Apprc) (key val : List Char) (k : String) : (rc.store key val).value k =
    if k = String.ofList key then some (String.ofList val) else rc.value k := by
  rw [value, store, Table.row?_put]
  split_ifs <;> rfl

/-- A finite map accepts every key. -/
instance : RcFile.KeyTable Apprc where
  find rc key := .ok (rc.seek key)
  put rc key val := .ok (rc.store key val)
  value := value

end Apprc

/-- The characters of a text up to its terminating zero. -/
def CString.ofText (s : List Char) : CString :=
  ⟨(s.map byteOfChar).takeWhile (· ≠ 0), fun h => by simpa using List.mem_takeWhile_imp h⟩

/-- `dsApprc` over its hash table, in which every search for a key that is there finds it. -/
structure HashApprc where
  h : HashTable String
  keyst : Option String
  chained : h.Chained

namespace HashApprc

/-- `dsApprc()` -/
def new : HashApprc := ⟨.ofSize 256, none, fun _ _ _ hslot => by cases hslot⟩

/-- The name under which a key is looked up. -/
def keyName (rc : HashApprc) (key : String) : String :=
  match Apprc.isRelative key, rc.keyst with
  | true, some keyst => keyst ++ key
  | _, _ => key

def seek (rc : HashApprc) (key : String) : Except HashTableException (Option String) :=
  rc.h.seek (.ofText (rc.keyName key).toList)

theorem chained_insert (rc : HashApprc) {a : CString × String}
    {r : HashTable String × Option (CString × String)} (h : rc.h.insert a true = .ok r) :
    r.1.Chained := by
  obtain ⟨t, old, hinsert, hchained, _⟩ :=
    HashTable.insert_accepts rc.chained (HashTable.accepts_of_insert rc.chained h)
  rwa [Except.ok.inj (h.symm.trans hinsert)]

def insert (rc : HashApprc) (key val : List Char) : Except HashTableException HashApprc :=
  match h : rc.h.insert (.ofText key, String.ofList val) true with
  | .ok r => .ok ⟨r.1, rc.keyst, rc.chained_insert h⟩
  | .error e => .error e

/-- The entry under a key, in whatever slot. -/
def value (rc : HashApprc) (key : String) : Option String :=
  (rc.h.items.find? (·.1 = .ofText key.toList)).map Prod.snd

instance : RcFile.KeyTable HashApprc where
  find := seek
  put := insert
  value := value

end HashApprc

end S3Dhcpd
