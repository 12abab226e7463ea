import S3Dhcpd.RcArrays
import S3Dhcpd.Runs

/-! The pid file of `daemon.cxx` between processes that start, signal each other and end in any
order. -/
namespace S3Dhcpd
open Runs RcFile

/-- Where a process stands in `write_pid_file` or `kill_running`; the number is the local `pid`. -/
inductive Place where
  | access
  | scan
  | term (pid : ℤ)
  | probe (pid : ℤ)
  | create
  | write
  | returned
  | thrown
deriving DecidableEq, Repr

/-- What a process runs. `daemonize` runs `write_pid_file` in the child that it forks; `killprev` is
the flag `DAEMON_KILLPREV`. -/
inductive Program where
  | daemonize (killprev : Bool)
  | killRunning
  | foreign
deriving DecidableEq, Repr

structure Process where
  program : Program
  uid : ℕ
  place : Place
deriving DecidableEq, Repr

/-- The text of the pid file, if there is one, and the processes by their ids. -/
structure World where
  file : Option (List Char)
  proc : ℕ → Option Process

inductive DaemonException where
  | cantRead
  | cantCreate
  | alreadyRun (pid : ℤ)
  | cantKill (pid : ℤ)
deriving DecidableEq, Repr

def PID_PATH : String := "/var/run"

def pidName (prog_name : String) : String := PID_PATH ++ "/" ++ prog_name ++ ".pid"

/-- The texts of the exceptions; `error` is what `%m` stands for. -/
def DaemonException.msg (prog_name error : String) : DaemonException → String
  | .cantRead => "Can't read PID file '" ++ pidName prog_name ++ "' (" ++ error ++ ")"
  | .cantCreate => "Can't create PID file '" ++ pidName prog_name ++ "' (" ++ error ++ ")"
  | .alreadyRun pid => prog_name ++ " alredy run with pid '" ++ toString pid ++ "'"
  | .cantKill pid => "Can't kill " ++ prog_name ++ " pid:" ++ toString pid ++ ", (" ++ error ++ ")"

/-- What a step does not find in the world: the value of a `pid` that `fscanf` leaves unset, whether
a number that is no process id names a group that can be signalled, and whether the system lets
`fopen` open the file. -/
structure Chance where
  garbage : ℤ
  group : Bool
  opens : Bool
deriving DecidableEq, Repr

/-- `fscanf(pidf,"%ld",&pid)` -/
def scanLong (text : List Char) : Option ℤ :=
  match text.dropWhile Apprc.isBlank with
  | [] => none
  | c :: rest =>
    if c.isDigit || ((c == '-' || c == '+') && (rest.head?.map Char.isDigit).getD false) then
      some (Apprc.strtol (String.ofList text))
    else none

/-- `fprintf(pidf,"%ld",(long) getpid())` writes over what is in the file. -/
def printPid (me : ℕ) (text : List Char) : List Char :=
  decimal me ++ text.drop (decimal me).length

/-- `kill` of a process of the user `uid` does not fail: there is a process with the number, made a
`pid_t`, and it is not another user's. Only the user 0 may signal those. -/
def World.kill (w : World) (uid : ℕ) (group : Bool) (pid : ℤ) : Bool :=
  let pid := (BitVec.ofInt 32 pid).toInt
  if 0 < pid then (w.proc pid.toNat).any fun x => uid == 0 || uid == x.uid else group

/-- A step of a process: the file and the place that it leaves, and what it throws. -/
structure Stepped where
  file : Option (List Char)
  place : Place
  exception : Option DaemonException := none

/-- What `fscanf` leaves in `pid`. -/
def World.scanned (w : World) (c : Chance) : ℤ := (w.file.bind scanLong).getD c.garbage

/-- `write_pid_file`, from one system call to the next. -/
def writePidFile (killprev : Bool) (w : World) (me uid : ℕ) (c : Chance) : Place → Stepped
  | .access => { file := w.file, place := if w.file.isSome then .scan else .create }
  | .scan =>
    if c.opens && w.file.isSome then
      let pid := w.scanned c
      { file := w.file, place := if killprev && pid > 1 then .term pid else .probe pid }
    else { file := w.file, place := .thrown, exception := some .cantRead }
  | .term pid =>
    { file := w.file, place := if w.kill uid c.group pid then .term pid else .probe pid }
  | .probe pid =>
    if w.kill uid c.group pid then
      { file := w.file, place := .thrown, exception := some (.alreadyRun pid) }
    else { file := w.file, place := .create }
  | .create =>
    if c.opens then { file := some [], place := .write }
    else { file := w.file, place := .thrown, exception := some .cantCreate }
  | .write => { file := w.file.map (printPid me), place := .returned }
  | place => { file := w.file, place }

def killRunning (w : World) (uid : ℕ) (c : Chance) : Place → Stepped
  | .access => { file := w.file, place := if w.file.isSome then .scan else .returned }
  | .scan =>
    if c.opens && w.file.isSome then
      let pid := w.scanned c
      { file := w.file, place := if pid > 1 then .term pid else .probe pid }
    else { file := w.file, place := .thrown, exception := some .cantRead }
  | .term pid =>
    { file := w.file, place := if w.kill uid c.group pid then .term pid else .probe pid }
  | .probe pid =>
    if w.kill uid c.group pid then
      { file := w.file, place := .thrown, exception := some (.cantKill pid) }
    else { file := w.file, place := .returned }
  | place => { file := w.file, place }

def Process.turn (x : Process) (w : World) (me : ℕ) (c : Chance) : Stepped :=
  match x.program with
  | .daemonize killprev => writePidFile killprev w me x.uid c x.place
  | .killRunning => killRunning w x.uid c x.place
  | .foreign => { file := w.file, place := x.place }

/-- A process of some user is forked under a free id, makes its next step, or ends. A process that a
signal has reached ends at any later time. -/
inductive ProcessEvent where
  | fork (p : ℕ) (program : Program) (uid : ℕ)
  | step (p : ℕ) (c : Chance)
  | exit (p : ℕ)
deriving DecidableEq, Repr

/-- One event of the system; a process that throws ends by an `exit` of its own. -/
def World.next (w : World) : ProcessEvent → World × Option DaemonException
  | .fork p program uid =>
    if (0 < p ∧ p < 2^31) ∧ w.proc p = none then
      ({ w with proc := Function.update w.proc p (some ⟨program, uid, .access⟩) }, none)
    else (w, none)
  | .step p c =>
    match w.proc p with
    | none => (w, none)
    | some x =>
      let t := x.turn w p c
      (⟨t.file, Function.update w.proc p (some { x with place := t.place })⟩, t.exception)
  | .exit p => ({ w with proc := Function.update w.proc p none }, none)

/-- A daemon that has written its pid file. -/
def World.Running (w : World) (p : ℕ) : Prop :=
  ∃ killprev uid, w.proc p = some ⟨.daemonize killprev, uid, .returned⟩

/-- A daemon between the start and the end of `write_pid_file`. -/
def Process.Starting (x : Process) : Prop :=
  ∃ killprev, x.program = .daemonize killprev ∧ x.place ≠ .returned ∧ x.place ≠ .thrown

/-- The places of a process that has not decided that `p` is gone. -/
def Minds (p : ℕ) : Place → Prop
  | .access | .scan | .thrown => True
  | .term pid | .probe pid => pid = p
  | .create | .write | .returned => False

/-- The process may signal those of the user `u`, as far as it tries. -/
def Process.MaySignal (u : ℕ) (x : Process) : Prop := x.program ≠ .foreign → x.uid = 0 ∨ x.uid = u

/-- The daemon `p` of the user `u` runs, the pid file names it, every start-up that is under way
minds it, and the processes that look for it may signal it. -/
structure Held (p u : ℕ) (w : World) : Prop where
  positive : 0 < p
  small : p < 2^31
  running : ∃ killprev, w.proc p = some ⟨.daemonize killprev, u, .returned⟩
  file : w.file = some (decimal p)
  minds : ∀ q x, w.proc q = some x → x.Starting → Minds p x.place
  allowed : ∀ q x, w.proc q = some x → x.MaySignal u

/-- What is forked may signal the processes of the user `u`. -/
def ProcessEvent.Allows (u : ℕ) : ProcessEvent → Prop
  | .fork _ program uid => Process.MaySignal u ⟨program, uid, .access⟩
  | _ => True

section File

theorem scanLong_decimal {n : ℕ} (hn : n < 2^31) : scanLong (decimal n) = some (n : ℤ) := by
  have hne : decimal n ≠ [] := by
    rw [decimal_nat]
    exact Nat.toDigits_ne_nil
  obtain ⟨c, rest, hs⟩ := List.exists_cons_of_ne_nil hne
  have hdigit : c.isDigit = true := decimal_digit (hs ▸ List.mem_cons_self)
  have hc := digit_range hdigit
  have hblank : Apprc.isBlank c = false := by
    have hspace : c ≠ ' ' := by
      rintro rfl
      exact absurd hdigit (by decide)
    rw [Apprc.isBlank, beq_eq_false_iff_ne.mpr hspace, Bool.false_or, Bool.and_eq_false_iff,
      decide_eq_false_iff_not, decide_eq_false_iff_not]
    omega
  have hdrop : (decimal n).dropWhile Apprc.isBlank = c :: rest := by
    rw [hs, List.dropWhile_cons_of_neg (by rw [hblank]; decide)]
  have hvalue : Apprc.strtol (String.ofList (decimal n)) = (n : ℤ) := by
    rw [Apprc.strtol_eq, numeral_nat]
    · rw [numeral_nat]
      omega
    · rw [numeral_nat]
      omega
  simp only [scanLong, hdrop, hdigit, Bool.true_or, if_true, hvalue]

@[simp] theorem printPid_nil (me : ℕ) : printPid me [] = decimal me := by
  rw [printPid, List.drop_nil, List.append_nil]

end File

section Events
variable {w : World} {p q r uid : ℕ} {c : Chance} {x : Process}

theorem next_fork_proc (program : Program) : (w.next (.fork p program uid)).1.proc r =
    if r = p ∧ (0 < p ∧ p < 2^31) ∧ w.proc p = none then some ⟨program, uid, .access⟩
    else w.proc r := by
  rw [World.next]
  split_ifs with hfree hboth hboth
  · rw [hboth.1]
    exact Function.update_self ..
  · exact Function.update_of_ne (fun hr => hboth ⟨hr, hfree⟩) ..
  · exact absurd hboth.2 hfree
  · rfl

theorem next_fork_file (program : Program) : (w.next (.fork p program uid)).1.file = w.file := by
  rw [World.next]
  split_ifs <;> rfl

theorem next_step_proc (hx : w.proc q = some x) : (w.next (.step q c)).1.proc r =
    if r = q then some { x with place := (x.turn w q c).place } else w.proc r := by
  simp only [World.next, hx, Function.update_apply]

theorem next_step_file (hx : w.proc q = some x) :
    (w.next (.step q c)).1.file = (x.turn w q c).file := by
  simp only [World.next, hx]

theorem next_step_none (hx : w.proc q = none) : (w.next (.step q c)).1 = w := by
  simp only [World.next, hx]

theorem next_exit_proc : (w.next (.exit p)).1.proc r = if r = p then none else w.proc r := by
  simp only [World.next, Function.update_apply]

/-- A process is one that was there, a new one, or one that has made a step. -/
theorem next_proc {e : ProcessEvent} {x' : Process} (h : (w.next e).1.proc r = some x') :
    w.proc r = some x' ∨
      (∃ program uid, e = .fork r program uid ∧ x' = ⟨program, uid, .access⟩) ∨
      ∃ c x, e = .step r c ∧ w.proc r = some x ∧ x' = { x with place := (x.turn w r c).place } := by
  cases e with
  | fork q program uid =>
    rw [next_fork_proc] at h
    split_ifs at h with hr
    · exact Or.inr (Or.inl ⟨program, uid, by rw [hr.1], (Option.some.inj h).symm⟩)
    · exact Or.inl h
  | step q c =>
    cases hq : w.proc q with
    | none =>
      rw [next_step_none hq] at h
      exact Or.inl h
    | some x =>
      rw [next_step_proc hq] at h
      split_ifs at h with hr
      · subst hr
        exact Or.inr (Or.inr ⟨c, x, rfl, hq, (Option.some.inj h).symm⟩)
      · exact Or.inl h
  | exit q =>
    rw [next_exit_proc] at h
    split_ifs at h
    exact Or.inl h

/-- The file is as it was, or as the step of a process leaves it. -/
theorem next_file (w : World) (e : ProcessEvent) : (w.next e).1.file = w.file ∨
    ∃ q c x, e = .step q c ∧ w.proc q = some x ∧ (w.next e).1.file = (x.turn w q c).file := by
  cases e with
  | fork q program uid => exact Or.inl (next_fork_file program)
  | step q c =>
    cases hq : w.proc q with
    | none => exact Or.inl (by rw [next_step_none hq])
    | some x => exact Or.inr ⟨q, c, x, rfl, hq, next_step_file hq⟩
  | exit q => exact Or.inl rfl

end Events

section Holder
variable {p q u uid : ℕ} {w : World} {x : Process}

/-- Whoever may signal the daemon finds it. -/
theorem Held.kill (h : Held p u w) (huid : uid = 0 ∨ uid = u) (group : Bool) :
    w.kill uid group p = true := by
  obtain ⟨killprev, hp⟩ := h.running
  have hsmall := h.small
  have hpid : (BitVec.ofInt 32 p).toInt = p := by
    rw [BitVec.toInt_ofInt]
    exact Int.bmod_eq_of_le (by omega) (by omega)
  simp only [World.kill, hpid]
  rw [if_pos (by exact_mod_cast h.positive), Int.toNat_natCast, hp, Option.any_some,
    Bool.or_eq_true, beq_iff_eq, beq_iff_eq]
  exact huid

theorem Held.scanned (h : Held p u w) (c : Chance) : w.scanned c = p := by
  rw [World.scanned, h.file, Option.bind_some, scanLong_decimal h.small, Option.getD_some]

/-- A start-up that minds a running daemon leaves its file, and goes on minding it. -/
theorem Held.writePidFile (h : Held p u w) (huid : uid = 0 ∨ uid = u) (killprev : Bool) (c : Chance)
    {place : Place} (hplace : Minds p place) :
    (writePidFile killprev w q uid c place).file = w.file ∧
      Minds p (writePidFile killprev w q uid c place).place := by
  cases place with
  | access =>
    simp only [S3Dhcpd.writePidFile, h.file, Option.isSome_some, if_true]
    exact ⟨trivial, trivial⟩
  | scan =>
    simp only [S3Dhcpd.writePidFile, h.scanned]
    split_ifs
    · exact ⟨rfl, rfl⟩
    · exact ⟨rfl, rfl⟩
    · exact ⟨rfl, trivial⟩
  | term pid =>
    obtain rfl : pid = p := hplace
    simp only [S3Dhcpd.writePidFile, h.kill huid, if_true]
    exact ⟨trivial, rfl⟩
  | probe pid =>
    obtain rfl : pid = p := hplace
    simp only [S3Dhcpd.writePidFile, h.kill huid, if_true]
    exact ⟨trivial, trivial⟩
  | thrown => exact ⟨rfl, trivial⟩
  | create => exact hplace.elim
  | write => exact hplace.elim
  | returned => exact hplace.elim

theorem killRunning_file (w : World) (uid : ℕ) (c : Chance) (place : Place) :
    (killRunning w uid c place).file = w.file := by
  cases place with
  | scan =>
    rw [killRunning]
    split_ifs <;> rfl
  | probe pid =>
    rw [killRunning]
    split_ifs <;> rfl
  | _ => rfl

theorem Held.killRunning (h : Held p u w) (huid : uid = 0 ∨ uid = u) (c : Chance) {place : Place}
    (hplace : Minds p place) : Minds p (killRunning w uid c place).place := by
  cases place with
  | access =>
    simp only [S3Dhcpd.killRunning, h.file, Option.isSome_some, if_true]
    trivial
  | scan =>
    simp only [S3Dhcpd.killRunning, h.scanned]
    split_ifs
    · rfl
    · rfl
    · trivial
  | term pid =>
    obtain rfl : pid = p := hplace
    simp only [S3Dhcpd.killRunning, h.kill huid, if_true]
    rfl
  | probe pid =>
    obtain rfl : pid = p := hplace
    simp only [S3Dhcpd.killRunning, h.kill huid, if_true]
    trivial
  | thrown => trivial
  | create => exact hplace.elim
  | write => exact hplace.elim
  | returned => exact hplace.elim

/-- One step of any process leaves the file of a running daemon, and what minds it goes on to. -/
theorem Held.turn (h : Held p u w) (hx : w.proc q = some x) (c : Chance) :
    (x.turn w q c).file = w.file ∧
      (Minds p x.place → Minds p (x.turn w q c).place) ∧
      (({ x with place := (x.turn w q c).place } : Process).Starting →
        Minds p (x.turn w q c).place) := by
  have huid := h.allowed q x hx
  obtain ⟨program, uid, place⟩ := x
  cases program with
  | daemonize killprev =>
    have huid := huid Program.noConfusion
    by_cases hstarting : (⟨.daemonize killprev, uid, place⟩ : Process).Starting
    · have hminds : Minds p place := h.minds q _ hx hstarting
      obtain ⟨hfile, hplace⟩ := @Held.writePidFile p q u uid w h huid killprev c place hminds
      exact ⟨hfile, fun _ => hplace, fun _ => hplace⟩
    · -- a start-up that is over makes no further step
      have hover : place = .returned ∨ place = .thrown := by
        by_contra hnot
        rw [not_or] at hnot
        exact hstarting ⟨killprev, rfl, hnot⟩
      rcases hover with rfl | rfl
      · exact ⟨rfl, id, fun hs => absurd hs hstarting⟩
      · exact ⟨rfl, id, fun _ => trivial⟩
  | killRunning =>
    refine ⟨killRunning_file w uid c place, h.killRunning (huid Program.noConfusion) c, ?_⟩
    rintro ⟨killprev, hprogram, _⟩
    cases hprogram
  | foreign =>
    refine ⟨rfl, id, ?_⟩
    rintro ⟨killprev, hprogram, _⟩
    cases hprogram

/-- A daemon that has written its file makes no further step. -/
theorem running_next {killprev : Bool}
    (hp : w.proc p = some ⟨.daemonize killprev, u, .returned⟩) {e : ProcessEvent}
    (he : e ≠ .exit p) : (w.next e).1.proc p = some ⟨.daemonize killprev, u, .returned⟩ := by
  cases e with
  | fork q program uid =>
    rw [next_fork_proc, if_neg, hp]
    rintro ⟨rfl, -, hnone⟩
    rw [hp] at hnone
    cases hnone
  | step q c =>
    cases hq : w.proc q with
    | none => rw [next_step_none hq, hp]
    | some x =>
      rw [next_step_proc hq]
      split_ifs with hpq
      · subst hpq
        obtain rfl := Option.some.inj (hp.symm.trans hq)
        rfl
      · exact hp
  | exit q =>
    rw [next_exit_proc, if_neg, hp]
    rintro rfl
    exact he rfl

/-- The processes keep their users. -/
theorem allowed_next (hw : ∀ q x, w.proc q = some x → x.MaySignal u) {e : ProcessEvent}
    (he : e.Allows u) : ∀ q x, (w.next e).1.proc q = some x → x.MaySignal u := by
  intro q x' hx'
  rcases next_proc hx' with hold | ⟨program, uid, rfl, rfl⟩ | ⟨c, x, -, hx, rfl⟩
  · exact hw q x' hold
  · exact he
  · exact hw q x hx

/-- The only event that ends the hold of a daemon is its own end. -/
theorem Held.next (h : Held p u w) {e : ProcessEvent} (he : e ≠ .exit p) (huser : e.Allows u) :
    Held p u (w.next e).1 := by
  obtain ⟨killprev, hp⟩ := h.running
  refine ⟨h.positive, h.small, ⟨killprev, running_next hp he⟩, ?_, ?_, allowed_next h.allowed huser⟩
  · rcases next_file w e with hfile | ⟨q, c, x, -, hq, hfile⟩
    · exact hfile.trans h.file
    · exact hfile.trans ((h.turn hq c).1.trans h.file)
  · intro r x' hx' hstarting
    rcases next_proc hx' with hold | ⟨program, uid, -, rfl⟩ | ⟨c, x, -, hx, rfl⟩
    · exact h.minds r x' hold hstarting
    · trivial
    · exact (h.turn hx c).2.2 hstarting

/-- What is under the id `r` has not decided that `p` is gone. -/
def World.Minding (p r : ℕ) (w : World) : Prop := ∀ x, w.proc r = some x → Minds p x.place

theorem Held.next_minding {r : ℕ} (h : Held p u w) (hr : w.Minding p r) (e : ProcessEvent) :
    (w.next e).1.Minding p r := by
  intro x' hx'
  rcases next_proc hx' with hold | ⟨program, uid, -, rfl⟩ | ⟨c, x, -, hx, rfl⟩
  · exact hr x' hold
  · trivial
  · exact (h.turn hx c).2.1 (hr x hx)

end Holder

section Sole
variable {p q u uid : ℕ} {w : World} {x : Process}

/-- At most one start-up is under way, and every daemon that runs holds the pid file. All of them
are processes of the user `u`. -/
structure Sole (u : ℕ) (w : World) : Prop where
  ids : ∀ q x, w.proc q = some x → 0 < q ∧ q < 2^31
  user : ∀ q x, w.proc q = some x → x.program ≠ .foreign → x.uid = u
  starter : ∀ q x q' x', w.proc q = some x → w.proc q' = some x' → x.Starting → x'.Starting → q = q'
  empty : ∀ q killprev uid, w.proc q = some ⟨.daemonize killprev, uid, .write⟩ → w.file = some []
  held : ∀ p, w.Running p → Held p u w

/-- A daemon is forked only when no other start-up is under way. -/
def StartsAlone (w : World) (e : ProcessEvent) : Prop :=
  ∀ p killprev uid, e = .fork p (.daemonize killprev) uid → ∀ q x, w.proc q = some x → ¬x.Starting

/-- Whatever is forked of the program is the user's. -/
def ProcessEvent.Owned (u : ℕ) (e : ProcessEvent) : Prop :=
  ∀ p program uid, e = .fork p program uid → program ≠ .foreign → uid = u

theorem ProcessEvent.Owned.allows {e : ProcessEvent} (h : e.Owned u) : e.Allows u := by
  cases e with
  | fork p program uid => exact fun hprogram => Or.inr (h p program uid rfl hprogram)
  | step p c => trivial
  | exit p => trivial

/-- What a step does to a start-up: it leaves the file or empties it or writes its id. -/
theorem turn_starting (hstarting : x.Starting) (w : World) (c : Chance) :
    ((x.turn w q c).place ≠ .write ∧ (x.turn w q c).place ≠ .returned ∧
        (x.turn w q c).file = w.file) ∨
      ((x.turn w q c).place = .write ∧ (x.turn w q c).file = some []) ∨
      (x.place = .write ∧ (x.turn w q c).place = .returned ∧
        (x.turn w q c).file = w.file.map (printPid q)) := by
  obtain ⟨program, uid, place⟩ := x
  obtain ⟨killprev, rfl, hreturned, hthrown⟩ := hstarting
  simp only [Process.turn]
  cases place with
  | access =>
    simp only [writePidFile]
    split_ifs <;> exact Or.inl ⟨Place.noConfusion, Place.noConfusion, trivial⟩
  | scan =>
    simp only [writePidFile]
    split_ifs <;> exact Or.inl ⟨Place.noConfusion, Place.noConfusion, rfl⟩
  | term pid =>
    simp only [writePidFile]
    split_ifs <;> exact Or.inl ⟨Place.noConfusion, Place.noConfusion, trivial⟩
  | probe pid =>
    simp only [writePidFile]
    split_ifs <;> exact Or.inl ⟨Place.noConfusion, Place.noConfusion, rfl⟩
  | create =>
    simp only [writePidFile]
    split_ifs
    · exact Or.inr (Or.inl ⟨rfl, rfl⟩)
    · exact Or.inl ⟨Place.noConfusion, Place.noConfusion, rfl⟩
  | write => exact Or.inr (Or.inr ⟨rfl, rfl, rfl⟩)
  | returned => exact absurd rfl hreturned
  | thrown => exact absurd rfl hthrown

/-- A process that starts no daemon leaves the file, and starts none. -/
theorem turn_idle (hidle : ¬x.Starting) (w : World) (c : Chance) : (x.turn w q c).file = w.file ∧
    (x.program ≠ .killRunning → (x.turn w q c).place = x.place) := by
  obtain ⟨program, uid, place⟩ := x
  cases program with
  | daemonize killprev =>
    have hover : place = .returned ∨ place = .thrown := by
      by_contra hnot
      rw [not_or] at hnot
      exact hidle ⟨killprev, rfl, hnot⟩
    rcases hover with rfl | rfl <;> exact ⟨rfl, fun _ => rfl⟩
  | killRunning => exact ⟨killRunning_file w uid c place, fun h => absurd rfl h⟩
  | foreign => exact ⟨rfl, fun _ => rfl⟩

/-- A start-up that goes on was one before, or it has just begun. -/
theorem starting_before {e : ProcessEvent} {x' : Process} (hx' : (w.next e).1.proc q = some x')
    (hstarting : x'.Starting) : (∃ killprev uid, e = .fork q (.daemonize killprev) uid) ∨
      ∃ x, w.proc q = some x ∧ x.Starting := by
  obtain ⟨killprev, hprogram, hreturned, hthrown⟩ := hstarting
  rcases next_proc hx' with hold | ⟨program, uid, he, rfl⟩ | ⟨c, x, he, hx, rfl⟩
  · exact Or.inr ⟨x', hold, killprev, hprogram, hreturned, hthrown⟩
  · obtain rfl : program = .daemonize killprev := hprogram
    exact Or.inl ⟨killprev, uid, he⟩
  · refine Or.inr ⟨x, hx, ?_⟩
    by_contra hidle
    have hprogram' : x.program = .daemonize killprev := hprogram
    have hplace := (turn_idle (q := q) hidle w c).2 (by rw [hprogram']; exact Program.noConfusion)
    exact hidle ⟨killprev, hprogram', hplace ▸ hreturned, hplace ▸ hthrown⟩

/-- A daemon that runs was running before, or it has just written its file. -/
theorem running_before {e : ProcessEvent} (h : (w.next e).1.Running p) : w.Running p ∨
    ∃ c x, e = .step p c ∧ w.proc p = some x ∧ x.Starting ∧ x.place = .write ∧
      (w.next e).1.file = w.file.map (printPid p) := by
  obtain ⟨killprev, uid, hp⟩ := h
  rcases next_proc hp with hold | ⟨program, uid', -, heq⟩ | ⟨c, x, rfl, hx, heq⟩
  · exact Or.inl ⟨killprev, uid, hold⟩
  · cases heq
  · obtain ⟨hprogram, huid, hplace⟩ := Process.mk.inj heq
    by_cases hstarting : x.Starting
    · rcases @turn_starting p x hstarting w c with ⟨-, hnot, -⟩ | ⟨hwrite, -⟩ | ⟨hwrite, -, hfile⟩
      · exact absurd hplace.symm hnot
      · cases hplace.trans hwrite
      · exact Or.inr ⟨c, x, rfl, hx, hstarting, hwrite, (next_step_file hx).trans hfile⟩
    · have hsame := (@turn_idle p x hstarting w c).2 (by rw [← hprogram]; exact Program.noConfusion)
      refine Or.inl ⟨killprev, uid, hx.trans (congrArg some ?_)⟩
      rw [Process.mk.injEq]
      exact ⟨hprogram.symm, huid.symm, hsame.symm.trans hplace.symm⟩

/-- Whoever is about to write was so before, or has just emptied the file. -/
theorem writer_before {e : ProcessEvent} {killprev : Bool}
    (h : (w.next e).1.proc q = some ⟨.daemonize killprev, uid, .write⟩) :
    (w.proc q = some ⟨.daemonize killprev, uid, .write⟩ ∧ ∀ c, e ≠ .step q c) ∨
      (w.next e).1.file = some [] := by
  rcases next_proc h with hold | ⟨program, uid', -, heq⟩ | ⟨c, x, rfl, hx, heq⟩
  · refine Or.inl ⟨hold, ?_⟩
    rintro c rfl
    rw [next_step_proc hold, if_pos rfl] at h
    cases h
  · cases heq
  · obtain ⟨hprogram, -, hplace⟩ := Process.mk.inj heq
    by_cases hstarting : x.Starting
    · rcases @turn_starting q x hstarting w c with ⟨hnot, -, -⟩ | ⟨-, hfile⟩ | ⟨-, hreturned, -⟩
      · exact absurd hplace.symm hnot
      · exact Or.inr ((next_step_file hx).trans hfile)
      · cases hplace.trans hreturned
    · have hsame := (@turn_idle q x hstarting w c).2 (by rw [← hprogram]; exact Program.noConfusion)
      refine absurd ⟨killprev, hprogram.symm, ?_, ?_⟩ hstarting
      · rw [← hsame, ← hplace]
        exact Place.noConfusion
      · rw [← hsame, ← hplace]
        exact Place.noConfusion

theorem Sole.starter_next (h : Sole u w) {e : ProcessEvent} (he : StartsAlone w e) {q' : ℕ}
    {x' : Process} (hx : (w.next e).1.proc q = some x) (hx' : (w.next e).1.proc q' = some x')
    (hs : x.Starting) (hs' : x'.Starting) : q = q' := by
  rcases starting_before hx hs with ⟨k, uid, hfork⟩ | ⟨y, hy, hys⟩
  · rcases starting_before hx' hs' with ⟨k', uid', hfork'⟩ | ⟨y', hy', hys'⟩
    · rw [hfork, ProcessEvent.fork.injEq] at hfork'
      exact hfork'.1
    · exact absurd hys' (he q k uid hfork q' y' hy')
  · rcases starting_before hx' hs' with ⟨k', uid', hfork'⟩ | ⟨y', hy', hys'⟩
    · exact absurd hys (he q' k' uid' hfork' q y hy)
    · exact h.starter q y q' y' hy hy' hys hys'

theorem Sole.empty_next (h : Sole u w) {e : ProcessEvent} {killprev : Bool}
    (hq : (w.next e).1.proc q = some ⟨.daemonize killprev, uid, .write⟩) :
    (w.next e).1.file = some [] := by
  rcases writer_before hq with ⟨hold, hnot⟩ | hfile
  · have hempty := h.empty q killprev uid hold
    rcases next_file w e with hfile | ⟨r, c, x, rfl, hx, hfile⟩
    · exact hfile.trans hempty
    · by_cases hstarting : x.Starting
      · have hwriting : (⟨.daemonize killprev, uid, .write⟩ : Process).Starting :=
          ⟨killprev, rfl, Place.noConfusion, Place.noConfusion⟩
        obtain rfl := h.starter q _ r x hold hx hwriting hstarting
        exact absurd rfl (hnot c)
      · exact hfile.trans ((turn_idle hstarting w c).1.trans hempty)
  · exact hfile

/-- A daemon that was alone when it wrote its file holds it. -/
theorem Sole.held_next (h : Sole u w) {e : ProcessEvent} (huser : e.Owned u)
    (hp : (w.next e).1.Running p) : Held p u (w.next e).1 := by
  have hallowed : ∀ q x, w.proc q = some x → x.MaySignal u :=
    fun q x hx hprogram => Or.inr (h.user q x hx hprogram)
  rcases running_before hp with hold | ⟨c, x, rfl, hx, hstarting, hwrite, hfile⟩
  · refine (h.held p hold).next ?_ huser.allows
    rintro rfl
    obtain ⟨killprev, uid, hp⟩ := hp
    rw [next_exit_proc, if_pos rfl] at hp
    cases hp
  · obtain ⟨killprev, hprogram, -⟩ := id hstarting
    have huid : x.uid = u := h.user p x hx (by rw [hprogram]; exact Program.noConfusion)
    have hempty : w.file = some [] := by
      refine h.empty p killprev x.uid (hx.trans (congrArg some ?_))
      rw [← hprogram, ← hwrite]
    obtain ⟨k, uid, hp⟩ := hp
    have hwritten := hp
    rw [next_step_proc hx, if_pos rfl] at hwritten
    obtain ⟨-, hsame, -⟩ := Process.mk.inj (Option.some.inj hwritten)
    obtain rfl : uid = u := hsame.symm.trans huid
    refine ⟨(h.ids p x hx).1, (h.ids p x hx).2, ⟨k, hp⟩, ?_, ?_, allowed_next hallowed trivial⟩
    · rw [hfile, hempty, Option.map_some, printPid_nil]
    · intro r y hy hys
      rcases starting_before hy hys with ⟨k', uid', hfork⟩ | ⟨y', hy', hys'⟩
      · cases hfork
      · -- the only start-up is over
        obtain rfl := h.starter r y' p x hy' hx hys' hstarting
        obtain rfl := Option.some.inj (hy.symm.trans hp)
        obtain ⟨-, -, hnot, -⟩ := hys
        exact absurd rfl hnot

theorem Sole.next (h : Sole u w) {e : ProcessEvent} (he : StartsAlone w e ∧ e.Owned u) :
    Sole u (w.next e).1 where
  ids := by
    intro q x' hx'
    rcases next_proc hx' with hold | ⟨program, uid, rfl, rfl⟩ | ⟨c, x, -, hx, rfl⟩
    · exact h.ids q x' hold
    · rw [next_fork_proc] at hx'
      split_ifs at hx' with hfree
      · exact hfree.2.1
      · exact h.ids q _ hx'
    · exact h.ids q x hx
  user := by
    intro q x' hx' hprogram
    rcases next_proc hx' with hold | ⟨program, uid, rfl, rfl⟩ | ⟨c, x, -, hx, rfl⟩
    · exact h.user q x' hold hprogram
    · exact he.2 q program uid rfl hprogram
    · exact h.user q x hx hprogram
  starter := fun _ _ _ _ hx hx' hs hs' => h.starter_next he.1 hx hx' hs hs'
  empty := fun _ _ _ hq => h.empty_next hq
  held := fun _ hp => h.held_next he.2 hp

end Sole

section Runs
variable {p u : ℕ} {w : World} {es : List ProcessEvent}

/-- As long as a daemon lives that holds the pid file, it goes on holding it, and no start-up and no
`kill_running` that begins meanwhile returns, whatever the processes do and in any order, if those
that look for the daemon may signal it. -/
theorem holder_outlasts (h : Held p u w) {r : ℕ}
    (hr : ∀ x, w.proc r = some x → x.place = .access) (hes : .exit p ∉ es)
    (husers : ∀ e ∈ es, e.Allows u) :
    Held p u (after World.next w es) ∧
      ∀ x, (after World.next w es).proc r = some x → x.place ≠ .returned := by
  have hstep : ∀ w e, Held p u w ∧ w.Minding p r → e ≠ ProcessEvent.exit p ∧ e.Allows u →
      Held p u (w.next e).1 ∧ (w.next e).1.Minding p r :=
    fun w e hw he => ⟨hw.1.next he.1 he.2, hw.1.next_minding hw.2 e⟩
  have hstart : w.Minding p r := by
    intro x hx
    rw [hr x hx]
    trivial
  have hmeets : Meets World.next (fun _ e => e ≠ ProcessEvent.exit p ∧ e.Allows u) w es :=
    meets_of_forall fun _ e he => ⟨fun heq => hes (heq ▸ he), husers e he⟩
  obtain ⟨hheld, hminding⟩ := after_invariant hstep ⟨h, hstart⟩ hmeets
  refine ⟨hheld, fun x hx hreturned => ?_⟩
  have hminds := hminding x hx
  rw [hreturned] at hminds
  exact hminds

/-- A daemon of the user 5 with the id 7. -/
def heldWorld : World :=
  ⟨some "7".toList, fun q => if q = 7 then some ⟨.daemonize false, 5, .returned⟩ else none⟩

theorem heldWorld_held : Held 7 5 heldWorld where
  positive := by decide
  small := by decide
  running := ⟨false, rfl⟩
  file := by decide
  minds := by
    intro q x hx hstarting
    dsimp only [heldWorld] at hx
    split_ifs at hx
    obtain rfl := Option.some.inj hx
    obtain ⟨-, -, hnot, -⟩ := hstarting
    exact absurd rfl hnot
  allowed := by
    intro q x hx _
    dsimp only [heldWorld] at hx
    split_ifs at hx
    obtain rfl := Option.some.inj hx
    exact Or.inr rfl

/-- What another start-up of that user and a `kill_running` of the user 0 do about the daemon. -/
def heldEvents : List ProcessEvent :=
  [.fork 8 (.daemonize true) 5, .step 8 ⟨0, false, true⟩, .fork 9 .killRunning 0,
    .step 8 ⟨0, false, true⟩, .step 9 ⟨0, false, true⟩, .step 8 ⟨0, false, true⟩,
    .step 9 ⟨0, false, true⟩, .step 9 ⟨0, false, true⟩, .exit 8]

theorem holder_outlasts_example : Held 7 5 (after World.next heldWorld heldEvents) ∧
    ∀ x, (after World.next heldWorld heldEvents).proc 9 = some x → x.place ≠ .returned := by
  refine holder_outlasts heldWorld_held ?_ (by decide) ?_
  · intro x hx
    cases hx
  · intro e he
    simp only [heldEvents, List.mem_cons, List.not_mem_nil, or_false] at he
    rcases he with rfl | rfl | rfl | rfl | rfl | rfl | rfl | rfl | rfl
    · exact fun _ => Or.inr rfl
    · trivial
    · exact fun _ => Or.inl rfl
    all_goals trivial

/-- When start-ups do not overlap and all are made by one user, at most one daemon runs at any time
and the pid file names it, in whatever order the processes make their steps, are signalled and end,
and whatever file was left. -/
theorem sole_daemon (hw : ∀ q x, w.proc q = some x → (0 < q ∧ q < 2^31) ∧ x.program = .foreign)
    (halone : Meets World.next (fun w e => StartsAlone w e ∧ e.Owned u) w es) {p : ℕ}
    (hp : (after World.next w es).Running p) :
    (after World.next w es).file = some (decimal p) ∧
      ∀ q, (after World.next w es).Running q → q = p := by
  have hforeign {q : ℕ} {x : Process} (hx : w.proc q = some x) : ¬x.Starting := by
    rintro ⟨killprev, hprogram, -⟩
    rw [(hw q x hx).2] at hprogram
    cases hprogram
  have hsole : Sole u w := by
    refine ⟨fun q x hx => (hw q x hx).1, fun q x hx h => absurd (hw q x hx).2 h, ?_, ?_, ?_⟩
    · exact fun q x _ _ hx _ hs _ => absurd hs (hforeign hx)
    · intro q killprev uid hq
      cases (hw q _ hq).2
    · rintro q ⟨killprev, uid, hq⟩
      cases (hw q _ hq).2
  have hend : Sole u (after World.next w es) :=
    after_invariant (fun _ _ h he => h.next he) hsole halone
  have hheld := hend.held p hp
  refine ⟨hheld.file, fun q hq => ?_⟩
  have hheld' := hend.held q hq
  have hsame : scanLong (decimal q) = scanLong (decimal p) :=
    congrArg scanLong (Option.some.inj (hheld'.file.symm.trans hheld.file))
  rw [scanLong_decimal hheld.small, scanLong_decimal hheld'.small] at hsame
  exact_mod_cast Option.some.inj hsame

/-- A start over the file of a daemon that is gone; its number is too large for a `pid_t`, and names
another process. -/
def staleWorld : World :=
  ⟨some "4294967308".toList, fun q => if q = 12 then some ⟨.foreign, 1, .access⟩ else none⟩

/-- That process is another user's, so the start is not refused. -/
theorem sole_daemon_example :
    (after World.next staleWorld (.fork 7 (.daemonize false) 5 ::
      List.replicate 5 (.step 7 ⟨0, false, true⟩))).file = some (decimal 7) ∧
    ∀ q, (after World.next staleWorld (.fork 7 (.daemonize false) 5 ::
      List.replicate 5 (.step 7 ⟨0, false, true⟩))).Running q → q = 7 := by
  have hw : ∀ q x, staleWorld.proc q = some x → (0 < q ∧ q < 2^31) ∧ x.program = .foreign := by
    intro q x hx
    dsimp only [staleWorld] at hx
    split_ifs at hx with hq
    obtain rfl := Option.some.inj hx
    subst hq
    exact ⟨by decide, rfl⟩
  have halone : Meets World.next (fun w e => StartsAlone w e ∧ e.Owned 5) staleWorld
      (.fork 7 (.daemonize false) 5 :: List.replicate 5 (.step 7 ⟨0, false, true⟩)) := by
    refine ⟨⟨fun _ _ _ _ q x hx => ?_, ?_⟩, meets_of_forall fun w e he => ?_⟩
    · rintro ⟨killprev, hprogram, -⟩
      rw [(hw q x hx).2] at hprogram
      cases hprogram
    · rintro p program uid heq -
      cases heq
      rfl
    · rw [List.eq_of_mem_replicate he]
      constructor
      · rintro p killprev uid heq
        cases heq
      · rintro p program uid heq
        cases heq
  exact sole_daemon hw halone ⟨false, 5, by decide⟩

/-- Two start-ups that have both looked before either wrote. -/
def overlapping : List ProcessEvent :=
  [.fork 7 (.daemonize false) 0, .fork 8 (.daemonize false) 0, .step 7 ⟨0, false, true⟩,
    .step 8 ⟨0, false, true⟩, .step 7 ⟨0, false, true⟩, .step 7 ⟨0, false, true⟩,
    .step 8 ⟨0, false, true⟩, .step 8 ⟨0, false, true⟩]

example : (after World.next ⟨none, fun _ => none⟩ overlapping).Running 7 ∧
    (after World.next ⟨none, fun _ => none⟩ overlapping).Running 8 :=
  ⟨⟨false, 0, rfl⟩, ⟨false, 0, rfl⟩⟩

end Runs

end S3Dhcpd
