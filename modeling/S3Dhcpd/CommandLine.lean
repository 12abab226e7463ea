import Mathlib.Data.List.Induction
import S3Dhcpd.Getopt

/-! What `main` makes of its command line. -/
namespace S3Dhcpd
open Getopt

structure Options where
  config_file : Option (List Char) := none
  interface : Option (List Char) := none
  daemonise : Bool := false
deriving DecidableEq, Repr

/-- How `main` goes on behind its options: with `usage`, behind the text of an exception if there is
one, or with an error, or with what it needs. -/
inductive Started where
  | usage (e : Option GetoptException)
  | missing (text : String)
  | ready (config_file interface : List Char) (daemonise : Bool)
deriving DecidableEq, Repr

def OPTIONS : List Char := "hc:di:k".toList

/-- What the switch does with a letter that is no request for help. -/
def Options.set (o : Options) (opt : Opt) : Options :=
  if opt.1 = 'c' then { o with config_file := opt.2 }
  else if opt.1 = 'i' then { o with interface := opt.2 }
  else { o with daemonise := true }

/-- `while ((c = gto.next("hc:di:k")) != EOF)` -/
def readArguments : ℕ → Getopt → Options → Option (Except (Option GetoptException) Options)
  | 0, _, _ => none
  | fuel+1, g, o =>
    match next OPTIONS g with
    | (.error e, _) => some (.error (some e))
    | (.ok none, _) => some (.ok o)
    | (.ok (some c), g) =>
      if c = 'c' ∨ c = 'i' ∨ c = 'd' then readArguments fuel g (o.set (c, g.optarg))
      else some (.error none)

def Options.start (o : Options) : Started :=
  match o.config_file with
  | none => .missing "No config file specified. Exiting"
  | some config_file =>
    match o.interface with
    | none => .missing "No interface specified. Exiting"
    | some interface => .ready config_file interface o.daemonise

/-- `main` up to the loading of the rc file. -/
def mainStart (argv : List (List Char)) : Option Started :=
  (readArguments ((Getopt.new argv).left+1) (.new argv) {}).map fun
    | .error e => .usage e
    | .ok o => o.start

/-- The argument that the last option with a letter was given. -/
def lastArgument (c : Char) (opts : List Opt) : Option (List Char) :=
  ((opts.filter fun opt => opt.1 = c).getLast?).bind Prod.snd

section Arguments
variable {o o' : Options} {opts : List Opt} {g g' : Getopt} {fuel : ℕ}

/-- The loop reads the options that the switch knows, and stops at any other. -/
theorem readArguments_iff : readArguments fuel g o = some (.ok o') ↔ ∃ opts g',
    readOptions OPTIONS fuel g = some (opts, .ok g') ∧
      (∀ opt ∈ opts, opt.1 ∈ ['c', 'i', 'd']) ∧ o' = opts.foldl Options.set o := by
  induction fuel generalizing g o with
  | zero =>
    refine iff_of_false (fun h => by cases h) ?_
    rintro ⟨_, _, hread, -⟩
    cases hread
  | succ fuel ih =>
    rcases hnext : next OPTIONS g with ⟨e | _ | c, g₁⟩
    · rw [readArguments, readOptions, hnext]
      refine iff_of_false (fun h => by cases Option.some.inj h) ?_
      rintro ⟨_, _, hread, -⟩
      cases Option.some.inj hread
    · rw [readArguments, readOptions, hnext]
      constructor
      · intro h
        exact ⟨[], g₁, rfl, fun _ h => absurd h List.not_mem_nil,
          (Except.ok.inj (Option.some.inj h)).symm⟩
      · rintro ⟨opts, g', hread, -, rfl⟩
        obtain ⟨rfl, -⟩ := Prod.mk.inj (Option.some.inj hread)
        rfl
    · rw [readArguments, readOptions, hnext]
      dsimp only
      by_cases hc : c = 'c' ∨ c = 'i' ∨ c = 'd'
      · rw [if_pos hc, ih]
        constructor
        · rintro ⟨opts, g', hread, hopts, rfl⟩
          refine ⟨(c, g₁.optarg) :: opts, g', by rw [hread]; rfl, ?_, rfl⟩
          rw [List.forall_mem_cons]
          exact ⟨by simpa using hc, hopts⟩
        · rintro ⟨opts, g', hread, hopts, rfl⟩
          obtain ⟨r, hr, heq⟩ := Option.map_eq_some_iff.mp hread
          obtain ⟨rfl, hg⟩ := Prod.mk.inj heq
          rw [List.forall_mem_cons] at hopts
          exact ⟨r.1, g', by rw [hr, ← hg], hopts.2, rfl⟩
      · rw [if_neg hc]
        refine iff_of_false (fun h => by cases Option.some.inj h) ?_
        rintro ⟨opts, g', hread, hopts, -⟩
        obtain ⟨r, hr, heq⟩ := Option.map_eq_some_iff.mp hread
        obtain ⟨rfl, -⟩ := Prod.mk.inj heq
        rw [List.forall_mem_cons] at hopts
        exact hc (by simpa using hopts.1)

theorem lastArgument_concat (c : Char) (opt : Opt) : lastArgument c (opts ++ [opt]) =
    if opt.1 = c then opt.2 else lastArgument c opts := by
  rw [lastArgument, List.filter_append]
  split_ifs with h
  · rw [List.filter_cons_of_pos (by simpa using h), List.filter_nil, List.getLast?_concat]
    rfl
  · rw [List.filter_cons_of_neg (by simpa using h), List.filter_nil, List.append_nil]
    rfl

/-- The last option of a letter counts. -/
theorem foldl_set (hopts : ∀ opt ∈ opts, opt.1 ∈ ['c', 'i', 'd']) :
    opts.foldl Options.set {} = ⟨lastArgument 'c' opts, lastArgument 'i' opts,
      opts.any fun opt => opt.1 = 'd'⟩ := by
  induction opts using List.reverseRecOn with
  | nil => rfl
  | append_singleton opts opt ih =>
    rw [List.forall_mem_append, List.forall_mem_singleton] at hopts
    rw [List.foldl_append, ih hopts.1, List.foldl_cons, List.foldl_nil, lastArgument_concat,
      lastArgument_concat, List.any_append, Options.set]
    have hletter := hopts.2
    simp only [List.mem_cons, List.not_mem_nil, or_false] at hletter
    rcases hletter with h | h | h <;> simp [h]

theorem start_ready {config_file interface : List Char} {daemonise : Bool} :
    o.start = .ready config_file interface daemonise ↔
      o.config_file = some config_file ∧ o.interface = some interface ∧
        daemonise = o.daemonise := by
  rw [Options.start]
  cases o.config_file with
  | none => simp
  | some c =>
    cases o.interface with
    | none => simp
    | some i =>
      simp only [Started.ready.injEq, Option.some.injEq]
      exact ⟨fun h => ⟨h.1, h.2.1, h.2.2.symm⟩, fun h => ⟨h.1, h.2.1, h.2.2.symm⟩⟩

/-- The reading of a command line in the number of turns that it has. -/
theorem readOptions_commandLine (prog : List Char) {args : List (List Char)} :
    (∃ g', readOptions OPTIONS ((Getopt.new (prog :: args)).left+1) (.new (prog :: args)) =
      some (opts, .ok g')) ↔ ∃ n, CommandLine OPTIONS args opts n := by
  have hdash : '-' ∉ OPTIONS := by decide
  constructor
  · rintro ⟨g', hread⟩
    obtain ⟨n, hline, -⟩ := (reads_all hdash (by decide) _).1 (.new (prog :: args)) g' [prog] args
      opts rfl rfl rfl hread
    exact ⟨n, hline⟩
  · rintro ⟨n, hline⟩
    have hhands : Hands OPTIONS (.new (prog :: args)) opts ([prog].length+n) :=
      hands_commandLine hdash hline rfl rfl rfl
    obtain ⟨fuel, g', hread, -⟩ := hhands
    obtain ⟨r, hr⟩ := readOptions_ends OPTIONS (.new (prog :: args))
    exact ⟨g', by rw [hr, readOptions_unique hr hread]⟩

/-- `main` goes on with a configuration file and an interface exactly when they are the arguments of
the last -c and the last -i of a command line that asks for nothing but that and for a daemon. -/
theorem main_ready_iff (prog : List Char) (args : List (List Char))
    (config_file interface : List Char) (daemonise : Bool) :
    mainStart (prog :: args) = some (.ready config_file interface daemonise) ↔
      ∃ opts n, CommandLine OPTIONS args opts n ∧ (∀ opt ∈ opts, opt.1 ∈ ['c', 'i', 'd']) ∧
        lastArgument 'c' opts = some config_file ∧ lastArgument 'i' opts = some interface ∧
          daemonise = opts.any fun opt => opt.1 = 'd' := by
  rw [mainStart, Option.map_eq_some_iff]
  constructor
  · rintro ⟨r, hread, hstart⟩
    rcases r with e | o
    · cases hstart
    · obtain ⟨opts, g', hoptions, hopts, rfl⟩ := readArguments_iff.mp hread
      obtain ⟨n, hline⟩ := (readOptions_commandLine prog).mp ⟨g', hoptions⟩
      rw [foldl_set hopts] at hstart
      obtain ⟨hconfig, hinterface, hdaemon⟩ := start_ready.mp hstart
      exact ⟨opts, n, hline, hopts, hconfig, hinterface, hdaemon⟩
  · rintro ⟨opts, n, hline, hopts, hconfig, hinterface, hdaemon⟩
    obtain ⟨g', hoptions⟩ := (readOptions_commandLine prog).mpr ⟨n, hline⟩
    refine ⟨_, readArguments_iff.mpr ⟨opts, g', hoptions, hopts, rfl⟩, ?_⟩
    rw [foldl_set hopts]
    exact start_ready.mpr ⟨hconfig, hinterface, hdaemon⟩

example : mainStart (["s3dhcpd", "-dc", "a.rc", "-iem0", "-c", "b.rc"].map String.toList) =
    some (.ready "b.rc".toList "em0".toList true) := by decide

end Arguments

end S3Dhcpd
