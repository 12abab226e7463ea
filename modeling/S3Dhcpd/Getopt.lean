import Mathlib.Data.List.Basic
import Mathlib.Data.List.TakeWhile

/-! The options of a command line, as `dsGetopt` hands them out one by one. -/
namespace S3Dhcpd

inductive GetoptException where
  | illegal (c : Char)
  | notEnough (c : Char)
deriving DecidableEq, Repr

def GetoptException.msg : GetoptException → String
  | .illegal c => "Illegal option '" ++ String.singleton c ++ "'"
  | .notEnough c => "Not enough argument given for '" ++ String.singleton c ++ "'"

/-- `place` is what is left of the word that is being read. -/
structure Getopt where
  argv : List (List Char)
  optind : ℕ
  optopt : Option Char
  optarg : Option (List Char)
  place : List Char
deriving DecidableEq, Repr

/-- An option as it is handed out, with its argument. -/
abbrev Opt := Char × Option (List Char)

namespace Getopt

/-- `dsGetopt(argc, argv)` -/
def new (argv : List (List Char)) : Getopt := ⟨argv, 1, none, none, []⟩

/-- The text from the first `c` on. -/
def strchr (s : List Char) (c : Char) : Option (List Char) :=
  match s.dropWhile (· ≠ c) with
  | [] => none
  | oli => some oli

/-- Moves the scanning pointer into the next word, if that is one of options. -/
def scan (g : Getopt) : Option Char × Getopt :=
  match g.place with
  | c :: _ => (some c, g)
  | [] =>
    match g.argv[g.optind]? with
    | some ['-'] => (some '-', { g with place := ['-'] })
    | some ('-' :: '-' :: _) => (none, { g with optind := g.optind+1, place := [] })
    | some ('-' :: c :: rest) => (some c, { g with place := c :: rest })
    | _ => (none, { g with place := [] })

/-- An option that needs an argument: the rest of the word, or the next word. -/
def argument (c : Char) (g : Getopt) : Except GetoptException (Option Char) × Getopt :=
  if g.place ≠ [] then
    (.ok (some c), { g with optarg := some g.place, place := [], optind := g.optind+1 })
  else
    match g.argv[g.optind+1]? with
    | none => (.error (.notEnough c), { g with place := [], optind := g.optind+1 })
    | some arg => (.ok (some c), { g with optarg := some arg, place := [], optind := g.optind+2 })

/-- What is done with the letter `c` once it is looked up; `oli` is NULL for a letter that is
unknown, which goes on as one that needs an argument. -/
def accept (c : Char) (oli : Option (List Char)) (g : Getopt) :
    Except GetoptException (Option Char) × Getopt :=
  if oli ≠ none ∧ (oli.getD []).tail.head? ≠ some ':' then
    (.ok (some c),
      { g with optarg := none, optind := if g.place = [] then g.optind+1 else g.optind })
  else argument c g

/-- `next`: a letter, or none for EOF. -/
def next (ostr : List Char) (g : Getopt) : Except GetoptException (Option Char) × Getopt :=
  match scan g with
  | (none, g) => (.ok none, g)
  | (some c, g) =>
    let g := { g with optopt := some c, place := g.place.tail }
    -- a colon is not looked up, and leaves the pointer at the front of the option letters
    let oli := if c = ':' then some ostr else strchr ostr c
    if c = ':' ∨ oli = none then
      if c = '-' then (.ok none, g)
      else
        let g := { g with optind := if g.place = [] then g.optind+1 else g.optind }
        if ostr.head? ≠ some ':' then (.error (.illegal c), g) else accept c oli g
    else accept c oli g

/-- The options up to EOF or an exception. -/
def readOptions (ostr : List Char) :
    ℕ → Getopt → Option (List Opt × Except GetoptException Getopt)
  | 0, _ => none
  | fuel+1, g =>
    match next ostr g with
    | (.error e, _) => some ([], .error e)
    | (.ok none, g) => some ([], .ok g)
    | (.ok (some c), g) => (readOptions ostr fuel g).map fun r => ((c, g.optarg) :: r.1, r.2)

/-- A letter of the option string that no colon follows. -/
def IsFlag (ostr : List Char) (c : Char) : Prop :=
  c ≠ ':' ∧ ∃ oli, strchr ostr c = some oli ∧ oli.tail.head? ≠ some ':'

def TakesArgument (ostr : List Char) (c : Char) : Prop :=
  c ≠ ':' ∧ ∃ oli, strchr ostr c = some oli ∧ oli.tail.head? = some ':'

section Steps
variable {ostr : List Char} {g : Getopt} {c : Char} {place rest arg : List Char}

theorem strchr_eq_none : strchr ostr c = none ↔ c ∉ ostr := by
  have hdrop : ostr.dropWhile (· ≠ c) = [] ↔ c ∉ ostr := by
    rw [List.dropWhile_eq_nil_iff]
    constructor
    · intro h hmem
      exact absurd rfl (of_decide_eq_true (h c hmem))
    · intro h x hx
      exact decide_eq_true fun heq => h (heq ▸ hx)
  rw [strchr]
  split
  · rename_i hnil
    exact iff_of_true rfl (hdrop.mp hnil)
  · rename_i oli hne
    exact iff_of_false (Option.some_ne_none _) (fun h => hne (hdrop.mpr h))

theorem next_place (hplace : g.place = c :: place) : next ostr g =
    if c = ':' ∨ strchr ostr c = none then
      if c = '-' then (.ok none, { g with optopt := some c, place })
      else if ostr.head? ≠ some ':' then
        (.error (.illegal c), { g with
          optopt := some c, place, optind := if place = [] then g.optind+1 else g.optind })
      else accept c (if c = ':' then some ostr else strchr ostr c) { g with
          optopt := some c, place, optind := if place = [] then g.optind+1 else g.optind }
    else accept c (strchr ostr c) { g with optopt := some c, place } := by
  have hscan : scan g = (some c, g) := by
    rw [scan, hplace]
  simp only [next, hscan, hplace, List.tail_cons]
  by_cases hcolon : c = ':'
  · simp only [hcolon, if_true, true_or]
  · simp only [hcolon, if_false, false_or]

/-- Inside a word the scanning pointer is moved before the letter is read. -/
theorem next_enter (hplace : g.place = []) (hword : g.argv[g.optind]? = some ('-' :: c :: rest))
    (hc : c ≠ '-') : next ostr g = next ostr { g with place := c :: rest } := by
  have hscan : scan g = (some c, { g with place := c :: rest }) := by
    rw [scan, hplace]
    dsimp only
    rw [hword]
    split
    · rename_i heq
      cases heq
    · rename_i heq
      exact absurd (List.cons.inj (List.cons.inj (Option.some.inj heq)).2).1 hc
    · rename_i heq
      obtain ⟨-, hrest⟩ := List.cons.inj (Option.some.inj heq)
      obtain ⟨rfl, rfl⟩ := List.cons.inj hrest
      rfl
    · rename_i hother
      exact absurd rfl (hother c rest)
  simp only [next, hscan]
  rfl

theorem next_stop (hplace : g.place = []) (hword : ∀ rest, g.argv[g.optind]? ≠ some ('-' :: rest)) :
    next ostr g = (.ok none, { g with place := [] }) := by
  have hscan : scan g = (none, { g with place := [] }) := by
    rw [scan, hplace]
    dsimp only
    split
    · exact absurd ‹_› (hword [])
    · exact absurd ‹_› (hword _)
    · exact absurd ‹_› (hword _)
    · rfl
  rw [next, hscan]

theorem next_lone (hplace : g.place = []) (hword : g.argv[g.optind]? = some ['-']) :
    next ostr g = next ostr { g with place := ['-'] } := by
  have hscan : scan g = (some '-', { g with place := ['-'] }) := by
    rw [scan, hplace]
    dsimp only
    rw [hword]
    rfl
  simp only [next, hscan]
  rfl

theorem next_dashes (hplace : g.place = [])
    (hword : g.argv[g.optind]? = some ('-' :: '-' :: rest)) :
    next ostr g = (.ok none, { g with optind := g.optind+1, place := [] }) := by
  have hscan : scan g = (none, { g with optind := g.optind+1, place := [] }) := by
    rw [scan, hplace]
    dsimp only
    rw [hword]
    rfl
  rw [next, hscan]

theorem IsFlag.ne_dash (h : IsFlag ostr c) (hdash : '-' ∉ ostr) : c ≠ '-' := by
  obtain ⟨-, oli, holi, -⟩ := h
  rintro rfl
  rw [strchr_eq_none.mpr hdash] at holi
  cases holi

theorem TakesArgument.ne_dash (h : TakesArgument ostr c) (hdash : '-' ∉ ostr) : c ≠ '-' := by
  obtain ⟨-, oli, holi, -⟩ := h
  rintro rfl
  rw [strchr_eq_none.mpr hdash] at holi
  cases holi

theorem next_flag (hplace : g.place = c :: place) (hflag : IsFlag ostr c) : next ostr g =
    (.ok (some c), { g with
      optopt := some c, optarg := none, place,
      optind := if place = [] then g.optind+1 else g.optind }) := by
  obtain ⟨hcolon, oli, holi, hplain⟩ := hflag
  rw [next_place hplace, if_neg, accept, holi, if_pos]
  · exact ⟨Option.some_ne_none _, hplain⟩
  · rw [holi, not_or]
    exact ⟨hcolon, Option.some_ne_none _⟩

theorem next_takes (hplace : g.place = c :: place) (htakes : TakesArgument ostr c) :
    next ostr g = argument c { g with optopt := some c, place } := by
  obtain ⟨hcolon, oli, holi, hwith⟩ := htakes
  rw [next_place hplace, if_neg, accept, holi, if_neg]
  · rw [not_and, not_not]
    exact fun _ => hwith
  · rw [holi, not_or]
    exact ⟨hcolon, Option.some_ne_none _⟩

/-- A dash in a word ends the options. -/
theorem next_dash (hplace : g.place = '-' :: place) (hdash : '-' ∉ ostr) :
    next ostr g = (.ok none, { g with optopt := some '-', place }) := by
  rw [next_place hplace, if_pos (Or.inr (strchr_eq_none.mpr hdash)), if_pos rfl]

theorem next_illegal (hplace : g.place = c :: place) (hcolon : ostr.head? ≠ some ':')
    (hc : c ≠ '-') (hflag : ¬IsFlag ostr c) (htakes : ¬TakesArgument ostr c) :
    (next ostr g).1 = .error (.illegal c) := by
  have hunknown : c = ':' ∨ strchr ostr c = none := by
    by_contra hknown
    rw [not_or] at hknown
    obtain ⟨oli, holi⟩ := Option.ne_none_iff_exists'.mp hknown.2
    by_cases hwith : oli.tail.head? = some ':'
    · exact htakes ⟨hknown.1, oli, holi, hwith⟩
    · exact hflag ⟨hknown.1, oli, holi, hwith⟩
  rw [next_place hplace, if_pos hunknown, if_neg hc, if_pos hcolon]

end Steps

def flagOpts (flags : List Char) : List Opt := flags.map fun c => (c, none)

/-- The command lines that are understood: the words behind the name of the program, the options in
them, and how many words they take up. Options end in front of a word that does not begin with a
dash, in front of a lone dash, behind a word that begins with two, and at a dash inside a word. -/
inductive CommandLine (ostr : List Char) : List (List Char) → List Opt → ℕ → Prop
  | finished : CommandLine ostr [] [] 0
  | operand {w : List Char} {rest : List (List Char)} (hw : w.head? ≠ some '-') :
      CommandLine ostr (w :: rest) [] 0
  | lone (rest : List (List Char)) : CommandLine ostr (['-'] :: rest) [] 0
  | dashes (junk : List Char) (rest : List (List Char)) :
      CommandLine ostr (('-' :: '-' :: junk) :: rest) [] 1
  | broken {flags : List Char} (junk : List Char) (rest : List (List Char)) (hne : flags ≠ [])
      (hflags : ∀ c ∈ flags, IsFlag ostr c) :
      CommandLine ostr (('-' :: (flags ++ '-' :: junk)) :: rest) (flagOpts flags) 0
  | flags {flags : List Char} {args : List (List Char)} {opts : List Opt} {n : ℕ} (hne : flags ≠ [])
      (hflags : ∀ c ∈ flags, IsFlag ostr c) (h : CommandLine ostr args opts n) :
      CommandLine ostr (('-' :: flags) :: args) (flagOpts flags ++ opts) (n+1)
  | attached {flags arg : List Char} {c : Char} {args : List (List Char)} {opts : List Opt} {n : ℕ}
      (hflags : ∀ c ∈ flags, IsFlag ostr c) (hc : TakesArgument ostr c) (harg : arg ≠ [])
      (h : CommandLine ostr args opts n) :
      CommandLine ostr (('-' :: (flags ++ c :: arg)) :: args)
        (flagOpts flags ++ (c, some arg) :: opts) (n+1)
  | separate {flags : List Char} (arg : List Char) {c : Char} {args : List (List Char)}
      {opts : List Opt} {n : ℕ} (hflags : ∀ c ∈ flags, IsFlag ostr c) (hc : TakesArgument ostr c)
      (h : CommandLine ostr args opts n) :
      CommandLine ostr (('-' :: (flags ++ [c])) :: arg :: args)
        (flagOpts flags ++ (c, some arg) :: opts) (n+2)

/-- The options are handed out up to EOF, and leave the index `n`. -/
def Hands (ostr : List Char) (g : Getopt) (opts : List Opt) (n : ℕ) : Prop :=
  ∃ fuel g', readOptions ostr fuel g = some (opts, .ok g') ∧ g'.optind = n

section Understood
variable {ostr flags body arg : List Char} {g g' : Getopt} {c : Char} {opts : List Opt} {n : ℕ}
  {pre args : List (List Char)}

theorem hands_eof (h : next ostr g = (.ok none, g')) (hn : g'.optind = n) : Hands ostr g [] n :=
  ⟨1, g', by rw [readOptions, h], hn⟩

theorem hands_cons (h : next ostr g = (.ok (some c), g')) (hrest : Hands ostr g' opts n) :
    Hands ostr g ((c, g'.optarg) :: opts) n := by
  obtain ⟨fuel, g'', hread, hn⟩ := hrest
  refine ⟨fuel+1, g'', ?_, hn⟩
  rw [readOptions, h]
  simp only [hread, Option.map_some]

/-- Flags are handed out one by one; behind the last one of a word stands the next word. -/
theorem hands_flags (hflags : ∀ c ∈ flags, IsFlag ostr c) (hplace : g.place = flags ++ body)
    (hne : flags ++ body ≠ [])
    (h : ∀ g' : Getopt, g'.argv = g.argv → g'.place = body →
      (g'.optind = if body = [] then g.optind+1 else g.optind) → Hands ostr g' opts n) :
    Hands ostr g (flagOpts flags ++ opts) n := by
  induction flags generalizing g with
  | nil =>
    have hbody : body ≠ [] := hne
    exact h g rfl hplace (by rw [if_neg hbody])
  | cons f fs ih =>
    rw [List.forall_mem_cons] at hflags
    have hplace' : g.place = f :: (fs ++ body) := hplace
    refine hands_cons (next_flag hplace' hflags.1) ?_
    by_cases hempty : fs ++ body = []
    · obtain ⟨rfl, rfl⟩ := List.append_eq_nil_iff.mp hempty
      exact h _ rfl rfl rfl
    · refine ih hflags.2 rfl hempty fun g' hargv hplace' hoptind => h g' hargv hplace' ?_
      rw [hoptind]
      dsimp only
      rw [if_neg hempty]

theorem word_at (hargv : g.argv = pre ++ args) (hoptind : g.optind = pre.length) :
    g.argv[g.optind]? = args.head? ∧ g.argv[g.optind+1]? = args.tail.head? := by
  rw [hargv, hoptind]
  cases args with
  | nil => simp
  | cons w args => cases args <;> simp

theorem hands_congr (h : next ostr g = next ostr g') (hrest : Hands ostr g' opts n) :
    Hands ostr g opts n := by
  obtain ⟨fuel, g'', hread, hn⟩ := hrest
  refine ⟨fuel, g'', ?_, hn⟩
  cases fuel with
  | zero => cases hread
  | succ fuel =>
    rw [readOptions, h]
    exact hread

/-- The flags at the front of a word, from the place in front of it. -/
theorem hands_word (hdash : '-' ∉ ostr) (hplace : g.place = [])
    (hword : g.argv[g.optind]? = some ('-' :: (flags ++ body))) (hne : flags ++ body ≠ [])
    (hfirst : body.head? ≠ some '-' ∨ flags ≠ []) (hflags : ∀ c ∈ flags, IsFlag ostr c)
    (h : ∀ g' : Getopt, g'.argv = g.argv → g'.place = body →
      (g'.optind = if body = [] then g.optind+1 else g.optind) → Hands ostr g' opts n) :
    Hands ostr g (flagOpts flags ++ opts) n := by
  obtain ⟨c, rest, hcons⟩ := List.exists_cons_of_ne_nil hne
  have hc : c ≠ '-' := by
    cases flags with
    | nil =>
      rintro rfl
      have hbody : body = '-' :: rest := hcons
      rw [hbody] at hfirst
      exact hfirst.elim (fun h => h rfl) fun h => h rfl
    | cons f fs =>
      obtain ⟨rfl, -⟩ := List.cons.inj hcons
      exact (hflags f List.mem_cons_self).ne_dash hdash
  rw [hcons] at hword
  refine hands_congr (next_enter hplace hword hc) ?_
  exact hands_flags hflags hcons.symm hne h

/-- What is handed out behind words that have been read. -/
theorem hands_behind (front : List (List Char))
    (hrest : ∀ {g' : Getopt} {pre' : List (List Char)}, g'.argv = pre' ++ args →
      g'.optind = pre'.length → g'.place = [] → Hands ostr g' opts (pre'.length+n))
    (hargv : g.argv = pre ++ (front ++ args)) (hoptind : g.optind = pre.length+front.length)
    (hplace : g.place = []) : Hands ostr g opts (pre.length+(n+front.length)) := by
  have hlen : pre.length+(n+front.length) = (pre ++ front).length+n := by
    rw [List.length_append]
    omega
  rw [hlen]
  refine hrest ?_ ?_ hplace
  · rw [hargv, List.append_assoc]
  · rw [hoptind, List.length_append]

/-- Every command line of the grammar is understood. -/
theorem hands_commandLine (hdash : '-' ∉ ostr) (h : CommandLine ostr args opts n)
    (hargv : g.argv = pre ++ args) (hoptind : g.optind = pre.length) (hplace : g.place = []) :
    Hands ostr g opts (pre.length+n) := by
  induction h generalizing g pre with
  | finished =>
    have hstop : ∀ rest, g.argv[g.optind]? ≠ some ('-' :: rest) := by
      intro rest
      rw [(word_at hargv hoptind).1]
      exact fun h => by cases h
    exact hands_eof (next_stop hplace hstop) hoptind
  | @operand w rest hw =>
    have hstop : ∀ rest, g.argv[g.optind]? ≠ some ('-' :: rest) := by
      intro rest
      rw [(word_at hargv hoptind).1, List.head?_cons, ne_eq, Option.some.injEq]
      rintro rfl
      exact hw rfl
    exact hands_eof (next_stop hplace hstop) hoptind
  | lone rest =>
    refine hands_congr (next_lone hplace (word_at hargv hoptind).1) ?_
    exact hands_eof (next_dash rfl hdash) hoptind
  | dashes junk rest =>
    exact hands_eof (next_dashes hplace (word_at hargv hoptind).1) (congrArg (· + 1) hoptind)
  | @broken flags junk rest hne hflags =>
    have hword := (word_at hargv hoptind).1
    rw [← List.append_nil (flagOpts flags)]
    refine hands_word hdash hplace hword (by simp) (Or.inr hne) hflags ?_
    intro g' hargv' hplace' hoptind'
    rw [if_neg (List.cons_ne_nil _ _), hoptind] at hoptind'
    exact hands_eof (next_dash hplace' hdash) hoptind'
  | @flags flags args opts n hne hflags h ih =>
    have hword := (word_at hargv hoptind).1
    rw [List.head?_cons, ← List.append_nil flags] at hword
    refine hands_word hdash hplace hword (by simpa using hne) (Or.inr hne) hflags ?_
    intro g' hargv' hplace' hoptind'
    rw [if_pos rfl, hoptind] at hoptind'
    exact hands_behind ['-' :: flags] ih (hargv'.trans hargv) hoptind' hplace'
  | @attached flags arg c args opts n hflags hc harg h ih =>
    have hword := (word_at hargv hoptind).1
    refine hands_word hdash hplace hword (by simp) (Or.inl ?_) hflags ?_
    · rw [List.head?_cons, ne_eq, Option.some.injEq]
      exact hc.ne_dash hdash
    · intro g' hargv' hplace' hoptind'
      rw [if_neg (List.cons_ne_nil _ _), hoptind] at hoptind'
      have hnext := next_takes hplace' hc
      rw [argument, if_pos harg] at hnext
      refine hands_cons hnext ?_
      exact hands_behind ['-' :: (flags ++ c :: arg)] ih (hargv'.trans hargv)
        (congrArg (· + 1) hoptind') rfl
  | @separate flags arg c args opts n hflags hc h ih =>
    have hword := (word_at hargv hoptind).1
    refine hands_word hdash hplace hword (by simp) (Or.inl ?_) hflags ?_
    · rw [List.head?_cons, ne_eq, Option.some.injEq]
      exact hc.ne_dash hdash
    · intro g' hargv' hplace' hoptind'
      rw [if_neg (List.cons_ne_nil _ _)] at hoptind'
      have hnext := next_takes hplace' hc
      have harg : g'.argv[g'.optind+1]? = some arg := by
        rw [hargv', hoptind', (word_at hargv hoptind).2]
        rfl
      rw [argument, if_neg (not_not.mpr rfl)] at hnext
      simp only [harg] at hnext
      refine hands_cons hnext ?_
      exact hands_behind ['-' :: (flags ++ [c]), arg] ih (hargv'.trans hargv)
        (congrArg (· + 2) (hoptind'.trans hoptind)) rfl

end Understood

section Accepted
variable {ostr : List Char} {g g' g₁ : Getopt} {c : Char} {opts : List Opt} {fuel : ℕ}
  {pre args : List (List Char)}

theorem read_eof (h : next ostr g = (.ok none, g₁))
    (hread : readOptions ostr (fuel+1) g = some (opts, .ok g')) : opts = [] ∧ g' = g₁ := by
  rw [readOptions, h] at hread
  obtain ⟨hopts, hg⟩ := Prod.mk.inj (Option.some.inj hread)
  exact ⟨hopts.symm, (Except.ok.inj hg).symm⟩

theorem read_cons (h : next ostr g = (.ok (some c), g₁))
    (hread : readOptions ostr (fuel+1) g = some (opts, .ok g')) :
    ∃ opts', opts = (c, g₁.optarg) :: opts' ∧ readOptions ostr fuel g₁ = some (opts', .ok g') := by
  rw [readOptions, h] at hread
  obtain ⟨r, hr, heq⟩ := Option.map_eq_some_iff.mp hread
  obtain ⟨hopts, hg⟩ := Prod.mk.inj heq
  exact ⟨r.1, hopts.symm, by rw [hr, ← hg]⟩

theorem read_error {e : GetoptException} (h : (next ostr g).1 = .error e)
    (hread : readOptions ostr (fuel+1) g = some (opts, .ok g')) : False := by
  have hnext : next ostr g = (.error e, (next ostr g).2) := Prod.ext h rfl
  rw [readOptions, hnext] at hread
  cases Option.some.inj hread

theorem read_congr (h : next ostr g = next ostr g₁) :
    readOptions ostr (fuel+1) g = readOptions ostr (fuel+1) g₁ := by
  rw [readOptions, readOptions, h]

/-- The words from the place in front of one on form a command line. -/
def ReadsWords (ostr : List Char) (fuel : ℕ) : Prop :=
  ∀ (g g' : Getopt) (pre args : List (List Char)) (opts : List Opt), g.argv = pre ++ args →
    g.optind = pre.length → g.place = [] → readOptions ostr fuel g = some (opts, .ok g') →
      ∃ n, CommandLine ostr args opts n ∧ g'.optind = pre.length+n

/-- The same from a place inside a word, of which flags have been read. -/
def ReadsWord (ostr : List Char) (fuel : ℕ) : Prop :=
  ∀ (g g' : Getopt) (pre args : List (List Char)) (front body : List Char) (opts : List Opt),
    g.argv = pre ++ ('-' :: (front ++ body)) :: args → g.optind = pre.length → g.place = body →
      body ≠ [] → (∀ c ∈ front, IsFlag ostr c) → (front = [] → body.head? ≠ some '-') →
        readOptions ostr fuel g = some (opts, .ok g') →
          ∃ n, CommandLine ostr (('-' :: (front ++ body)) :: args) (flagOpts front ++ opts) n ∧
            g'.optind = pre.length+n

theorem flagOpts_concat (front : List Char) (c : Char) (opts : List Opt) :
    flagOpts (front ++ [c]) ++ opts = flagOpts front ++ (c, none) :: opts := by
  rw [flagOpts, List.map_append, List.append_assoc]
  rfl

section Word
variable {g g' : Getopt} {pre args : List (List Char)} {front place : List Char} {c : Char}
  {opts : List Opt}

/-- The words behind those that have been taken. -/
theorem ReadsWords.behind (hwords : ReadsWords ostr fuel)
    (hread : readOptions ostr fuel g = some (opts, .ok g')) (taken : List (List Char))
    (hargv : g.argv = pre ++ (taken ++ args)) (hoptind : g.optind = pre.length+taken.length)
    (hplace : g.place = []) :
    ∃ n, CommandLine ostr args opts n ∧ g'.optind = pre.length+(n+taken.length) := by
  rw [← List.append_assoc] at hargv
  rw [← List.length_append] at hoptind
  obtain ⟨n, hline, hn⟩ := hwords g g' (pre ++ taken) args opts hargv hoptind hplace hread
  refine ⟨n, hline, ?_⟩
  rw [hn, List.length_append]
  omega

/-- A flag is followed by the rest of its word, or by the next words when it is the last letter. -/
theorem readsWord_flag (hwords : ReadsWords ostr fuel) (hword : ReadsWord ostr fuel)
    (hargv : g.argv = pre ++ ('-' :: (front ++ c :: place)) :: args)
    (hoptind : g.optind = pre.length) (hplace : g.place = c :: place)
    (hfront : ∀ x ∈ front, IsFlag ostr x) (hflag : IsFlag ostr c)
    (hread : readOptions ostr (fuel+1) g = some (opts, .ok g')) :
    ∃ n, CommandLine ostr (('-' :: (front ++ c :: place)) :: args) (flagOpts front ++ opts) n ∧
      g'.optind = pre.length+n := by
  obtain ⟨opts', rfl, hrest⟩ := read_cons (next_flag hplace hflag) hread
  have hfront' : ∀ x ∈ front ++ [c], IsFlag ostr x := by
    rw [List.forall_mem_append, List.forall_mem_singleton]
    exact ⟨hfront, hflag⟩
  have hne : front ++ [c] ≠ [] := List.append_ne_nil_of_right_ne_nil _ (List.cons_ne_nil _ _)
  rw [← flagOpts_concat]
  by_cases hlast : place = []
  · subst hlast
    obtain ⟨n, hline, hn⟩ := hwords.behind hrest ['-' :: (front ++ [c])] hargv
      (congrArg (· + 1) hoptind) rfl
    exact ⟨n+1, .flags hne hfront' hline, hn⟩
  · rw [if_neg hlast] at hrest
    have hsplit : front ++ c :: place = (front ++ [c]) ++ place := by
      rw [List.append_assoc, List.singleton_append]
    rw [hsplit] at hargv ⊢
    exact hword { g with optopt := some c, optarg := none, place := place } g' pre args
      (front ++ [c]) place opts' hargv hoptind rfl hlast hfront' (fun h => absurd h hne) hrest

/-- An option that takes an argument takes the rest of its word, or else the next word. -/
theorem readsWord_takes (hwords : ReadsWords ostr fuel)
    (hargv : g.argv = pre ++ ('-' :: (front ++ c :: place)) :: args)
    (hoptind : g.optind = pre.length) (hplace : g.place = c :: place)
    (hfront : ∀ x ∈ front, IsFlag ostr x) (htakes : TakesArgument ostr c)
    (hread : readOptions ostr (fuel+1) g = some (opts, .ok g')) :
    ∃ n, CommandLine ostr (('-' :: (front ++ c :: place)) :: args) (flagOpts front ++ opts) n ∧
      g'.optind = pre.length+n := by
  have hnext := next_takes hplace htakes
  rw [argument] at hnext
  by_cases hlast : place = []
  · subst hlast
    have harg : g.argv[g.optind+1]? = args.head? := (word_at hargv hoptind).2
    rw [if_neg (not_not.mpr rfl), harg] at hnext
    cases args with
    | nil => exact (read_error (congrArg Prod.fst hnext) hread).elim
    | cons arg args =>
      obtain ⟨opts', rfl, hrest⟩ := read_cons hnext hread
      obtain ⟨n, hline, hn⟩ := hwords.behind hrest ['-' :: (front ++ [c]), arg] hargv
        (congrArg (· + 2) hoptind) rfl
      exact ⟨n+2, .separate arg hfront htakes hline, hn⟩
  · rw [if_pos hlast] at hnext
    obtain ⟨opts', rfl, hrest⟩ := read_cons hnext hread
    obtain ⟨n, hline, hn⟩ := hwords.behind hrest ['-' :: (front ++ c :: place)] hargv
      (congrArg (· + 1) hoptind) rfl
    exact ⟨n+1, .attached hfront htakes hlast hline, hn⟩

end Word

theorem readsWord_step (hdash : '-' ∉ ostr) (hcolon : ostr.head? ≠ some ':')
    (hwords : ReadsWords ostr fuel) (hword : ReadsWord ostr fuel) : ReadsWord ostr (fuel+1) := by
  intro g g' pre args front body opts hargv hoptind hplace hne hfront hfirst hread
  obtain ⟨c, place, rfl⟩ := List.exists_cons_of_ne_nil hne
  by_cases hflag : IsFlag ostr c
  · exact readsWord_flag hwords hword hargv hoptind hplace hfront hflag hread
  by_cases htakes : TakesArgument ostr c
  · exact readsWord_takes hwords hargv hoptind hplace hfront htakes hread
  by_cases hc : c = '-'
  · subst hc
    obtain ⟨rfl, rfl⟩ := read_eof (next_dash hplace hdash) hread
    refine ⟨0, ?_, hoptind⟩
    rw [List.append_nil]
    exact .broken place args (fun hnil => hfirst hnil rfl) hfront
  · exact (read_error (next_illegal hplace hcolon hc hflag htakes) hread).elim

theorem readsWords_step (hdash : '-' ∉ ostr) (hword : ReadsWord ostr (fuel+1)) :
    ReadsWords ostr (fuel+1) := by
  intro g g' pre args opts hargv hoptind hplace hread
  have hhead : g.argv[g.optind]? = args.head? := (word_at hargv hoptind).1
  cases args with
  | nil =>
    have hstop : ∀ rest, g.argv[g.optind]? ≠ some ('-' :: rest) := by
      intro rest
      rw [hhead]
      exact fun h => by cases h
    obtain ⟨rfl, rfl⟩ := read_eof (next_stop hplace hstop) hread
    exact ⟨0, .finished, hoptind⟩
  | cons w args =>
    by_cases hw : w.head? = some '-'
    · obtain ⟨body, rfl⟩ : ∃ body, w = '-' :: body := ⟨w.tail, (List.cons_head?_tail hw).symm⟩
      rcases body with _ | ⟨c, rest⟩
      · rw [read_congr (next_lone hplace hhead)] at hread
        obtain ⟨rfl, rfl⟩ := read_eof (next_dash rfl hdash) hread
        exact ⟨0, .lone args, hoptind⟩
      · by_cases hc : c = '-'
        · subst hc
          obtain ⟨rfl, rfl⟩ := read_eof (next_dashes hplace hhead) hread
          exact ⟨1, .dashes rest args, congrArg (· + 1) hoptind⟩
        · rw [read_congr (next_enter hplace hhead hc)] at hread
          refine hword { g with place := c :: rest } g' pre args [] (c :: rest) opts hargv hoptind
            rfl (List.cons_ne_nil _ _) (fun _ h => absurd h List.not_mem_nil) (fun _ => ?_) hread
          rw [List.head?_cons, ne_eq, Option.some.injEq]
          exact hc
    · have hstop : ∀ rest, g.argv[g.optind]? ≠ some ('-' :: rest) := by
        intro rest
        rw [hhead, List.head?_cons, ne_eq, Option.some.injEq]
        rintro rfl
        exact hw rfl
      obtain ⟨rfl, rfl⟩ := read_eof (next_stop hplace hstop) hread
      exact ⟨0, .operand hw, hoptind⟩

theorem reads_all (hdash : '-' ∉ ostr) (hcolon : ostr.head? ≠ some ':') (fuel : ℕ) :
    ReadsWords ostr fuel ∧ ReadsWord ostr fuel := by
  induction fuel with
  | zero =>
    constructor
    · intro g g' pre args opts _ _ _ hread
      cases hread
    · intro g g' pre args front body opts _ _ _ _ _ _ hread
      cases hread
  | succ fuel ih =>
    have hword := readsWord_step hdash hcolon ih.1 ih.2
    exact ⟨readsWords_step hdash hword, hword⟩

/-- The command lines that are understood are those of the grammar, with its options in their order
and the index of the first operand. The letters are ASCII: where `char` is signed, a byte 0xFF would
be handed over as `EOF`. -/
theorem hands_iff (hdash : '-' ∉ ostr) (hcolon : ostr.head? ≠ some ':') (prog : List Char) {n : ℕ} :
    Hands ostr (.new (prog :: args)) opts (n+1) ↔ CommandLine ostr args opts n := by
  constructor
  · rintro ⟨fuel, g', hread, hn⟩
    obtain ⟨n', hline, hn'⟩ := (reads_all hdash hcolon fuel).1 (.new (prog :: args)) g' [prog] args
      opts rfl rfl rfl hread
    rw [hn, List.length_singleton, Nat.add_comm, Nat.add_left_cancel_iff] at hn'
    rwa [hn']
  · intro h
    have hhands : Hands ostr (.new (prog :: args)) opts ([prog].length+n) :=
      hands_commandLine hdash h rfl rfl rfl
    rwa [List.length_singleton, Nat.add_comm] at hhands

theorem hands_iff_example : CommandLine "ab:".toList (["-a", "-bx", "y"].map String.toList)
    [('a', none), ('b', some ['x'])] 2 := by
  have hread : readOptions "ab:".toList 3
      (.new (("s3dhcpd" :: ["-a", "-bx", "y"]).map String.toList)) =
        some ([('a', none), ('b', some ['x'])], .ok
          ⟨("s3dhcpd" :: ["-a", "-bx", "y"]).map String.toList, 3, some 'b', some ['x'], []⟩) := by
    decide
  exact (hands_iff (by decide) (by decide) "s3dhcpd".toList).mp ⟨3, _, hread, rfl⟩

end Accepted

section Termination
variable {ostr place : List Char} {g g' g₁ : Getopt} {c : Char}

/-- The characters of words, with one more for each word. -/
def wordsLength : List (List Char) → ℕ
  | [] => 0
  | w :: ws => w.length+1 + wordsLength ws

def wordsLeft (g : Getopt) (i : ℕ) : ℕ := wordsLength (g.argv.drop i)

/-- How much is left to read. -/
def left (g : Getopt) : ℕ :=
  if g.place = [] then g.wordsLeft g.optind else g.place.length + g.wordsLeft (g.optind+1)

theorem wordsLength_drop_le (k : ℕ) (ws : List (List Char)) :
    wordsLength (ws.drop k) ≤ wordsLength ws := by
  induction ws generalizing k with
  | nil => rw [List.drop_nil]
  | cons w ws ih =>
    cases k with
    | zero => exact le_rfl
    | succ k =>
      rw [List.drop_succ_cons, wordsLength]
      exact (ih k).trans (Nat.le_add_left _ _)

theorem wordsLeft_anti (g : Getopt) {i j : ℕ} (h : i ≤ j) : g.wordsLeft j ≤ g.wordsLeft i := by
  obtain ⟨k, rfl⟩ := Nat.exists_eq_add_of_le h
  rw [wordsLeft, wordsLeft, ← List.drop_drop]
  exact wordsLength_drop_le k _

/-- Either the word goes on behind the letter, or the next words are up. -/
def Moves (place : List Char) (g g' : Getopt) : Prop :=
  g'.argv = g.argv ∧
    ((place ≠ [] ∧ g'.place = place ∧ g'.optind = g.optind) ∨
      (g'.place = [] ∧ g.optind+1 ≤ g'.optind))

theorem Moves.left (h : Moves place g g') (hplace : g.place = c :: place) : g'.left < g.left := by
  obtain ⟨hargv, hcases⟩ := h
  have hsame (i : ℕ) : g'.wordsLeft i = g.wordsLeft i := by
    rw [wordsLeft, hargv, wordsLeft]
  rw [Getopt.left, Getopt.left, hplace, if_neg (List.cons_ne_nil _ _), List.length_cons]
  rcases hcases with ⟨hne, hplace', hoptind⟩ | ⟨hplace', hoptind⟩
  · rw [hplace', if_neg hne, hsame, hoptind]
    omega
  · rw [if_pos hplace', hsame]
    have hanti := g.wordsLeft_anti hoptind
    omega

theorem argument_moves {i : ℕ} (hi : g.optind ≤ i)
    (h : argument c { g with optopt := some c, place, optind := i } = (.ok (some c), g')) :
    Moves place g g' := by
  rw [argument] at h
  split_ifs at h with hne
  · obtain ⟨-, rfl⟩ := Prod.mk.inj h
    exact ⟨rfl, Or.inr ⟨rfl, Nat.succ_le_succ hi⟩⟩
  · dsimp only at h
    cases hword : g.argv[i+1]? with
    | none =>
      simp only [hword] at h
      cases (Prod.mk.inj h).1
    | some arg =>
      simp only [hword] at h
      obtain ⟨-, rfl⟩ := Prod.mk.inj h
      exact ⟨rfl, Or.inr ⟨rfl, by dsimp only; omega⟩⟩

theorem accept_moves {oli : Option (List Char)} {i : ℕ} (hi : g.optind ≤ i)
    (hsame : place ≠ [] → i = g.optind)
    (h : accept c oli { g with optopt := some c, place, optind := i } = (.ok (some c), g')) :
    Moves place g g' := by
  rw [accept] at h
  split_ifs at h with hflag hempty
  · obtain ⟨-, rfl⟩ := Prod.mk.inj h
    exact ⟨rfl, Or.inr ⟨hempty, Nat.succ_le_succ hi⟩⟩
  · obtain ⟨-, rfl⟩ := Prod.mk.inj h
    exact ⟨rfl, Or.inl ⟨hempty, rfl, hsame hempty⟩⟩
  · exact argument_moves hi h

theorem accept_letter {oli : Option (List Char)} {b : Char}
    (h : accept c oli g = (.ok (some b), g')) : b = c := by
  rw [accept] at h
  split_ifs at h
  · exact (Option.some.inj (Except.ok.inj (Prod.mk.inj h).1)).symm
  · exact (Option.some.inj (Except.ok.inj (Prod.mk.inj h).1)).symm
  · rw [argument] at h
    split_ifs at h
    · exact (Option.some.inj (Except.ok.inj (Prod.mk.inj h).1)).symm
    · cases hword : g.argv[g.optind+1]? with
      | none =>
        simp only [hword] at h
        cases (Prod.mk.inj h).1
      | some arg =>
        simp only [hword] at h
        exact (Option.some.inj (Except.ok.inj (Prod.mk.inj h).1)).symm

theorem next_moves {b : Char} (hplace : g.place = c :: place)
    (h : next ostr g = (.ok (some b), g')) : Moves place g g' := by
  rw [next_place hplace] at h
  by_cases hunknown : c = ':' ∨ strchr ostr c = none
  · rw [if_pos hunknown] at h
    by_cases hdash : c = '-'
    · rw [if_pos hdash] at h
      cases (Prod.mk.inj h).1
    rw [if_neg hdash] at h
    by_cases hcolon : ostr.head? ≠ some ':'
    · rw [if_pos hcolon] at h
      cases (Prod.mk.inj h).1
    -- an unknown letter that the option string lets pass is stepped over first
    · rw [if_neg hcolon] at h
      obtain rfl := accept_letter h
      refine accept_moves ?_ (fun hne => if_neg hne) h
      split_ifs <;> omega
  · rw [if_neg hunknown] at h
    obtain rfl := accept_letter h
    exact @accept_moves place g g' b _ g.optind le_rfl (fun _ => rfl) h

theorem scan_left (ostr : List Char) (hscan : scan g = (some c, g₁)) :
    (∃ place, g₁.place = c :: place) ∧
    g₁.left ≤ g.left ∧ next ostr g = next ostr g₁ := by
  cases hplace : g.place with
  | cons x place =>
    rw [scan, hplace] at hscan
    obtain ⟨hx, rfl⟩ := Prod.mk.inj hscan
    exact ⟨⟨place, by rw [hplace, Option.some.inj hx]⟩, le_rfl, rfl⟩
  | nil =>
    have hword (w : List Char) (hw : g.argv[g.optind]? = some w) : g.wordsLeft g.optind =
        w.length+1 + g.wordsLeft (g.optind+1) := by
      have hcons : g.argv.drop g.optind = w :: g.argv.drop (g.optind+1) := by
        obtain ⟨hlt, rfl⟩ := List.getElem?_eq_some_iff.mp hw
        exact List.drop_eq_getElem_cons hlt
      rw [wordsLeft, hcons, wordsLength, ← wordsLeft]
    have hleft : g.left = g.wordsLeft g.optind := by
      rw [left, if_pos hplace]
    rw [scan, hplace] at hscan
    dsimp only at hscan
    split at hscan
    · rename_i hw
      obtain ⟨hx, rfl⟩ := Prod.mk.inj hscan
      refine ⟨⟨[], by rw [← Option.some.inj hx]⟩, ?_, next_lone hplace hw⟩
      rw [hleft, hword _ hw]
      exact Nat.add_le_add_right (Nat.le_succ 1) _
    · cases (Prod.mk.inj hscan).1
    · rename_i x rest hother hw
      obtain ⟨hx, rfl⟩ := Prod.mk.inj hscan
      have hne : x ≠ '-' := by
        rintro rfl
        exact hother rfl
      refine ⟨⟨rest, by rw [← Option.some.inj hx]⟩, ?_, next_enter hplace hw hne⟩
      rw [hleft, hword _ hw]
      exact Nat.add_le_add_right (Nat.le_succ_of_le (Nat.le_succ _)) _
    · cases (Prod.mk.inj hscan).1

theorem next_left {b : Char} (h : next ostr g = (.ok (some b), g')) : g'.left < g.left := by
  rcases hscan : scan g with ⟨_ | c, g₁⟩
  · rw [next, hscan] at h
    cases (Prod.mk.inj h).1
  · obtain ⟨⟨place, hplace⟩, hle, hnext⟩ := scan_left ostr hscan
    rw [hnext] at h
    exact ((next_moves hplace h).left hplace).trans_le hle

theorem readOptions_unique {fuel fuel' : ℕ} {r r' : List Opt × Except GetoptException Getopt}
    (h : readOptions ostr fuel g = some r) (h' : readOptions ostr fuel' g = some r') : r = r' := by
  induction fuel generalizing g fuel' r r' with
  | zero => cases h
  | succ fuel ih =>
    cases fuel' with
    | zero => cases h'
    | succ fuel' =>
      rw [readOptions] at h h'
      rcases hnext : next ostr g with ⟨e | _ | c, g₁⟩
      · rw [hnext] at h h'
        exact Option.some.inj (h.symm.trans h')
      · rw [hnext] at h h'
        exact Option.some.inj (h.symm.trans h')
      · rw [hnext] at h h'
        obtain ⟨q, hq, rfl⟩ := Option.map_eq_some_iff.mp h
        obtain ⟨q', hq', rfl⟩ := Option.map_eq_some_iff.mp h'
        rw [ih hq hq']

/-- Reading a command line ends, whatever is on it and whatever options there are. -/
theorem readOptions_ends (ostr : List Char) (g : Getopt) :
    ∃ r, readOptions ostr (g.left+1) g = some r := by
  suffices h : ∀ fuel g, left g < fuel → ∃ r, readOptions ostr fuel g = some r from
    h _ g (Nat.lt_succ_self _)
  intro fuel
  induction fuel with
  | zero => exact fun g h => absurd h (Nat.not_lt_zero _)
  | succ fuel ih =>
    intro g hg
    rcases hnext : next ostr g with ⟨e | _ | c, g'⟩
    · exact ⟨_, by rw [readOptions, hnext]⟩
    · exact ⟨_, by rw [readOptions, hnext]⟩
    · obtain ⟨r, hr⟩ := ih g' (by have hless := next_left hnext; omega)
      exact ⟨_, by rw [readOptions, hnext]; simp only [hr, Option.map_some]; rfl⟩

end Termination

end Getopt

end S3Dhcpd
