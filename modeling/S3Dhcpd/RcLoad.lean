import S3Dhcpd.RcCondition

/-! `dsApprc::load`: the lines that the stream delivers, what each does, and the loop over them. -/
namespace S3Dhcpd.RcFile

variable {σ : Type} [KeyTable σ]

def MAX_INCLUDE_LEVEL : ℕ := 10

/-- An input stream: what is left, and its state. -/
structure IStream where
  rest : List Char
  eof : Bool
  fail : Bool

def IStream.ofText (text : List Char) : IStream := ⟨text, false, false⟩

/-- `is.getline(read_buf, n)`: at most `n-1` characters of a line are stored, and a line that does
not fit makes the stream fail. A stream that has failed delivers nothing and does not end. -/
def getline (n : ℕ) (is : IStream) : List Char × IStream :=
  if is.eof || is.fail then ([], { is with fail := true })
  else
    let line := is.rest.takeWhile (· ≠ '\n')
    if line.length < n then
      match is.rest.drop line.length with
      | [] => (line, ⟨[], true, line.isEmpty⟩)
      | _ :: rest => (line, ⟨rest, false, false⟩)
    else (line.take (n-1), ⟨is.rest.drop (n-1), false, true⟩)

/-- The `dsApprc` that is loaded. -/
structure Loader (σ : Type) where
  rc : σ
  recursion_cnt : ℕ

/-- The variables of one call of `load`; of `read_buf` the characters that have been written. -/
structure Frame where
  line : ℕ
  ignore : ℕ → Bool
  lev : ℕ
  read_buf : List Char

def Frame.initial : Frame := ⟨0, fun _ => false, 0, []⟩

/-- A line and its terminating zero, written over the beginning of the buffer. -/
def overwrite (line read_buf : List Char) : List Char :=
  line ++ '\x00' :: read_buf.drop (line.length+1)

/-- A line has been read. -/
def Frame.nextLine (f : Frame) (line : List Char) : Frame :=
  { f with line := f.line+1, read_buf := overwrite line f.read_buf }

/-- What an earlier, longer line has left in the buffer, from behind the first zero to the next. -/
def leftover (read_buf : List Char) : Option (List Char) :=
  match read_buf.dropWhile (· ≠ '\x00') with
  | _ :: c :: rest => some ((c :: rest).takeWhile (· ≠ '\x00'))
  | _ => none

/-- `int ignore[30]` -/
def MAX_IGNORE : ℕ := 30

/-- The branch of the loop that a line takes. -/
inductive LineKind where
  | skipped
  | included
  | opens
  | closes
  | flips
  | ends
  | key
deriving DecidableEq, Repr

def lineKind (buf : List Char) : LineKind :=
  match buf with
  | [] => .skipped
  | c :: _ =>
    if c = '#' ∨ c = ';' then .skipped
    else if ".include".toList.isPrefixOf buf then .included
    else if ".if".toList.isPrefixOf buf then .opens
    else if ".endif".toList.isPrefixOf buf then .closes
    else if ".else".toList.isPrefixOf buf then .flips
    else if ".end".toList.isPrefixOf buf then .ends
    else .key

/-- The line up to its terminating zero, without the blanks at its beginning. -/
def bufOf (line : List Char) : List Char :=
  (line.takeWhile (· ≠ '\x00')).dropWhile isBlankOrTab

/-- The loop over the quoted name of an `.include`; the next `skip` characters have been read. -/
def includeName (host : Host) (rc : σ) : List Char → ℕ → Except LoadError (Option (List Char))
  | [], _ => .ok none
  | _ :: s, skip+1 => includeName host rc s skip
  | c :: s, 0 =>
    if c = '"' then .ok (some [])
    else if c = '$' then do
      let (res, n) ← expandVar host rc s
      let tmp ← includeName host rc s (n-1)
      pure (tmp.map (res ++ ·))
    else do
      let tmp ← includeName host rc s 0
      pure (tmp.map (c :: ·))

/-- The name of the file that an `.include` line names. -/
def includeFile (host : Host) (rc : σ) (buf : List Char) : Except LoadError (List Char) :=
  match (buf.drop 8).dropWhile (· ≠ '"') with
  | [] => .error .invalidInclude
  | _ :: s => do
    match ← includeName host rc s 0 with
    | none | some [] => .error .invalidInclude
    | some tmp => pure tmp

/-- What a turn of the loop leads to. -/
inductive Turn (σ : Type) where
  | next (l : Loader σ) (f : Frame)
  | nested (l : Loader σ) (fname : List Char) (f : Frame)
  | leave (l : Loader σ) (f : Frame)
  | throw (e : LoadError)

def doIgnore (f : Frame) : Bool := (List.range (f.lev+1)).any f.ignore

/-- The body of the loop, for a line that has been read into the buffer. -/
def turn (host : Host) (l : Loader σ) (f : Frame) (line : List Char) : Turn σ :=
  let buf := bufOf line
  match lineKind buf with
  | .skipped => .next l f
  | .included =>
    if l.recursion_cnt > MAX_INCLUDE_LEVEL then .throw .tooManyIncludes
    else match includeFile host l.rc buf with
      | .error e => .throw e
      | .ok fname => .nested { l with recursion_cnt := l.recursion_cnt+1 } fname f
  | .opens =>
    match expandCondition host l.rc (leftover f.read_buf) (buf.drop 3) with
    | .error e => .throw e
    | .ok b =>
      if f.lev+1 < MAX_IGNORE then
        .next l { f with ignore := Function.update f.ignore (f.lev+1) (!b), lev := f.lev+1 }
      else .throw .fault
  | .closes => if f.lev = 0 then .throw .unmatchedEndif else .next l { f with lev := f.lev-1 }
  | .flips => .next l { f with ignore := Function.update f.ignore f.lev (!f.ignore f.lev) }
  | .ends => .leave l f
  | .key =>
    if doIgnore f then .next l f
    else match addLine host l.rc buf with
      | .error e => .throw e
      | .ok rc => .next { l with rc } f

/-- What leaves `load`, which catches only `keyException`. -/
def locate (line : ℕ) : LoadError → LoadError
  | .tableFull => .tableFull
  | .fault => .fault
  | e => .located line e

/-- The end of the loop. -/
def finish (l : Loader σ) (f : Frame) : Except LoadError (Loader σ) :=
  if f.lev ≠ 0 then .error (locate f.line .unclosedIf) else .ok l

/-- `load(const char*)` up to the call of `load(istream&)`. -/
def openFile (host : Host) (l : Loader σ) (fname : List Char) :
    Except LoadError (Loader σ × IStream) :=
  match host.files (String.ofList fname) with
  | none => .error (.cantOpen (String.ofList fname))
  | some text =>
    match addPair host l.rc ".file-[]".toList fname with
    | .error e => .error e
    | .ok rc => .ok ({ l with rc }, .ofText text)

/-- The loop of `load(istream&)`, for at most `fuel` turns, and as many in every included file. -/
def loadLoop (host : Host) :
    ℕ → IStream → Loader σ → Frame → Option (Except LoadError (Loader σ))
  | 0, _, _, _ => none
  | fuel+1, is, l, f =>
    let (line, is) := getline (MAX_RC_LINE-1) is
    if is.eof then some (finish l f)
    else
      let f := f.nextLine line
      match turn host l f line with
      | .next l f => loadLoop host fuel is l f
      | .leave l f => some (finish l f)
      | .throw e => some (.error (locate f.line e))
      | .nested l fname f =>
        match openFile host l fname with
        | .error e => some (.error (locate f.line e))
        | .ok (l, is') =>
          match loadLoop host fuel is' l .initial with
          | none => none
          | some (.error e) => some (.error (locate f.line e))
          | some (.ok l) => loadLoop host fuel is l f

/-- A host without files and variables. -/
def bareHost : Host := ⟨fun _ => none, fun _ => none, fun _ _ => '\x00'⟩

def bareLoader : Loader Apprc := ⟨.empty, 0⟩

/-- The `dsApprc` before anything is loaded, with its hash table. -/
def newLoader : Loader HashApprc := ⟨.new, 0⟩

end S3Dhcpd.RcFile
