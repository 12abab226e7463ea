import S3Dhcpd.RcInactive
import S3Dhcpd.RcTermination

/-! Included files: the nesting of a load without a limit, and the count of includes that stands in
for it. -/
namespace S3Dhcpd.RcFile

variable {host : Host} {text line rest fname : List Char} {rc rc' rc₁ rc₂ : Apprc}
  {l l' : Loader Apprc} {f f' : Frame} {is : IStream} {d m n cnt : ℕ}

/-- As many includes as `_recursion_cnt++ > MAX_INCLUDE_LEVEL` lets pass. -/
def INCLUDE_LIMIT : ℕ := MAX_INCLUDE_LEVEL+1

/-- A turn on a line without a limit. -/
def freeTurn (host : Host) (rc : Apprc) (f : Frame) (line : List Char) : Turn Apprc :=
  turn host ⟨rc, 0⟩ (f.nextLine line) line

/-- The load without a limit comes to the end of the text. It meets `n` includes, with at most `d`
files being included at once. -/
inductive Walk (host : Host) : ℕ → List Char → Apprc → Frame → Apprc → ℕ → Prop where
  | last {d : ℕ} {text : List Char} {rc : Apprc} {f : Frame} (hline : ShortLine text)
      (hlev : f.lev = 0) : Walk host d text rc f rc 0
  | leave {d : ℕ} {text line rest : List Char} {rc : Apprc} {f f' : Frame} {l' : Loader Apprc}
      (htext : text = line ++ '\n' :: rest) (hline : ShortLine line)
      (hturn : freeTurn host rc f line = .leave l' f') (hlev : f'.lev = 0) :
      Walk host d text rc f rc 0
  | next {d n : ℕ} {text line rest : List Char} {rc rc' : Apprc} {f f' : Frame} {l' : Loader Apprc}
      (htext : text = line ++ '\n' :: rest) (hline : ShortLine line)
      (hturn : freeTurn host rc f line = .next l' f') (hrest : Walk host d rest l'.rc f' rc' n) :
      Walk host d text rc f rc' n
  | included {d m n : ℕ} {text line rest fname text' : List Char} {rc rc₁ rc' : Apprc}
      {f f' : Frame} {l₁ l₂ : Loader Apprc} (htext : text = line ++ '\n' :: rest)
      (hline : ShortLine line)
      (hturn : freeTurn host rc f line = .nested l₁ fname f')
      (hopen : openFile host l₁ fname = .ok (l₂, .ofText text'))
      (hfile : Walk host d text' l₂.rc .initial rc₁ m) (hrest : Walk host (d+1) rest rc₁ f' rc' n) :
      Walk host (d+1) text rc f rc' (m+1+n)

/-- The load without a limit comes to an include while `d` files are being included. -/
inductive Exceeds (host : Host) : ℕ → List Char → Apprc → Frame → Prop where
  | here {text line rest fname : List Char} {rc : Apprc} {f f' : Frame} {l₁ : Loader Apprc}
      (htext : text = line ++ '\n' :: rest) (hline : ShortLine line)
      (hturn : freeTurn host rc f line = .nested l₁ fname f') : Exceeds host 0 text rc f
  | next {d : ℕ} {text line rest : List Char} {rc : Apprc} {f f' : Frame} {l' : Loader Apprc}
      (htext : text = line ++ '\n' :: rest) (hline : ShortLine line)
      (hturn : freeTurn host rc f line = .next l' f') (hrest : Exceeds host d rest l'.rc f') :
      Exceeds host d text rc f
  | inside {d : ℕ} {text line rest fname text' : List Char} {rc : Apprc} {f f' : Frame}
      {l₁ l₂ : Loader Apprc} (htext : text = line ++ '\n' :: rest) (hline : ShortLine line)
      (hturn : freeTurn host rc f line = .nested l₁ fname f')
      (hopen : openFile host l₁ fname = .ok (l₂, .ofText text'))
      (hfile : Exceeds host d text' l₂.rc .initial) : Exceeds host (d+1) text rc f
  | behind {d m : ℕ} {text line rest fname text' : List Char} {rc rc₁ : Apprc} {f f' : Frame}
      {l₁ l₂ : Loader Apprc} (htext : text = line ++ '\n' :: rest) (hline : ShortLine line)
      (hturn : freeTurn host rc f line = .nested l₁ fname f')
      (hopen : openFile host l₁ fname = .ok (l₂, .ofText text'))
      (hfile : Walk host d text' l₂.rc .initial rc₁ m) (hrest : Exceeds host (d+1) rest rc₁ f') :
      Exceeds host (d+1) text rc f

/-- The load without a limit, with `d` files that may still be included at once, comes to another
text, table and frame. -/
inductive Visits (host : Host) : ℕ → List Char → Apprc → Frame → ℕ → List Char → Apprc → Frame →
    Prop where
  | refl {d : ℕ} {text : List Char} {rc : Apprc} {f : Frame} : Visits host d text rc f d text rc f
  | next {d d₀ : ℕ} {text line rest text₀ : List Char} {rc rc₀ : Apprc} {f f' f₀ : Frame}
      {l' : Loader Apprc} (htext : text = line ++ '\n' :: rest) (hline : ShortLine line)
      (hturn : freeTurn host rc f line = .next l' f')
      (hrest : Visits host d rest l'.rc f' d₀ text₀ rc₀ f₀) :
      Visits host d text rc f d₀ text₀ rc₀ f₀
  | inside {d d₀ : ℕ} {text line rest fname text' text₀ : List Char} {rc rc₀ : Apprc}
      {f f' f₀ : Frame} {l₁ l₂ : Loader Apprc} (htext : text = line ++ '\n' :: rest)
      (hline : ShortLine line) (hturn : freeTurn host rc f line = .nested l₁ fname f')
      (hopen : openFile host l₁ fname = .ok (l₂, .ofText text'))
      (hfile : Visits host d text' l₂.rc .initial d₀ text₀ rc₀ f₀) :
      Visits host (d+1) text rc f d₀ text₀ rc₀ f₀
  | behind {d d₀ m : ℕ} {text line rest fname text' text₀ : List Char} {rc rc₁ rc₀ : Apprc}
      {f f' f₀ : Frame} {l₁ l₂ : Loader Apprc} (htext : text = line ++ '\n' :: rest)
      (hline : ShortLine line) (hturn : freeTurn host rc f line = .nested l₁ fname f')
      (hopen : openFile host l₁ fname = .ok (l₂, .ofText text'))
      (hfile : Walk host d text' l₂.rc .initial rc₁ m)
      (hrest : Visits host (d+1) rest rc₁ f' d₀ text₀ rc₀ f₀) :
      Visits host (d+1) text rc f d₀ text₀ rc₀ f₀

/-- A turn on a valid line: it does not fail, leaves no block open, and an included file can be
opened. -/
def SoundTurn (host : Host) (d : ℕ) : Turn Apprc → Prop
  | .next _ _ => True
  | .leave _ f => f.lev = 0
  | .nested l fname _ => d = 0 ∨ ∃ opened, openFile host l fname = .ok opened
  | .throw _ => False

/-- The next line is valid, or nothing is left and no block is open. -/
def Sound (host : Host) (d : ℕ) (text : List Char) (rc : Apprc) (f : Frame) : Prop :=
  (ShortLine text ∧ f.lev = 0) ∨ ∃ line rest, text = line ++ '\n' :: rest ∧ ShortLine line ∧
    SoundTurn host d (freeTurn host rc f line)

/-- Every line is valid that the load without a limit comes to while at most `d` files are being
included at once. -/
def Valid (host : Host) (d : ℕ) (text : List Char) (rc : Apprc) (f : Frame) : Prop :=
  ∀ d₀ text₀ rc₀ f₀, Visits host d text rc f d₀ text₀ rc₀ f₀ → Sound host d₀ text₀ rc₀ f₀

/-- The exception that was thrown first. -/
def LoadError.root : LoadError → LoadError
  | .located _ e => e.root
  | e => e

/-- `load` throws `Too many nested includes.` -/
def ThrowsTooMany (host : Host) (text : List Char) (l : Loader Apprc) (f : Frame) : Prop :=
  ∃ e, Loads host (.ofText text) l f (.error e) ∧ e.root = .tooManyIncludes

/-- The load ends, and throws exactly when more files than the limit are being included at once. -/
def LimitsNesting (host : Host) (text : List Char) (rc : Apprc) : Prop :=
  (∃ r, Loads host (.ofText text) ⟨rc, 0⟩ .initial r) ∧
    (ThrowsTooMany host text ⟨rc, 0⟩ .initial ↔ Exceeds host INCLUDE_LIMIT text rc .initial)

section Counting

/-- The same turn for a loader that has counted more includes. -/
def Turn.recount (cnt : ℕ) : Turn Apprc → Turn Apprc
  | .next l f => .next ⟨l.rc, cnt+l.recursion_cnt⟩ f
  | .nested l fname f => .nested ⟨l.rc, cnt+l.recursion_cnt⟩ fname f
  | .leave l f => .leave ⟨l.rc, cnt+l.recursion_cnt⟩ f
  | .throw e => .throw e

theorem turn_recount (h : lineKind (bufOf line) ≠ .included ∨ cnt < INCLUDE_LIMIT) :
    turn host ⟨rc, cnt⟩ f line = (turn host ⟨rc, 0⟩ f line).recount cnt := by
  rw [turn, turn]
  cases hkind : lineKind (bufOf line) with
  | skipped => rfl
  | ends => rfl
  | flips => rfl
  | included =>
    have hcnt : ¬cnt > MAX_INCLUDE_LEVEL :=
      Nat.not_lt.mpr (Nat.le_of_lt_succ (h.resolve_left fun hne => hne hkind))
    dsimp only
    rw [if_neg hcnt, if_neg (Nat.not_lt_zero _)]
    cases includeFile host rc (bufOf line) <;> rfl
  | opens =>
    dsimp only
    cases expandCondition host rc (leftover f.read_buf) ((bufOf line).drop 3) with
    | error e => rfl
    | ok b =>
      dsimp only
      split_ifs <;> rfl
  | closes =>
    dsimp only
    split_ifs <;> rfl
  | key =>
    dsimp only
    split_ifs
    · rfl
    · cases addLine host rc (bufOf line) <;> rfl

theorem turn_of_next (h : freeTurn host rc f line = .next l' f') (cnt : ℕ) :
    turn host ⟨rc, cnt⟩ (f.nextLine line) line = .next ⟨l'.rc, cnt⟩ f' := by
  obtain ⟨hkind, _, hcnt, _⟩ := next_of_turn h
  rw [turn_recount (Or.inl hkind), ← freeTurn, h, Turn.recount, hcnt]
  rfl

theorem turn_of_leave (h : freeTurn host rc f line = .leave l' f') (cnt : ℕ) :
    turn host ⟨rc, cnt⟩ (f.nextLine line) line = .leave ⟨rc, cnt⟩ f' := by
  obtain ⟨hkind, rfl, _⟩ := leave_of_turn h
  rw [turn_recount (Or.inl (by rw [hkind]; decide)), ← freeTurn, h, Turn.recount, Nat.add_zero]

theorem turn_of_nested (h : freeTurn host rc f line = .nested l' fname f')
    (hcnt : cnt < INCLUDE_LIMIT) :
    turn host ⟨rc, cnt⟩ (f.nextLine line) line = .nested ⟨l'.rc, cnt+1⟩ fname f' := by
  rw [turn_recount (Or.inr hcnt), ← freeTurn, h, Turn.recount, (nested_of_turn h).2.2.1]

theorem turn_of_many (h : freeTurn host rc f line = .nested l' fname f')
    (hcnt : INCLUDE_LIMIT ≤ cnt) :
    turn host ⟨rc, cnt⟩ (f.nextLine line) line = .throw .tooManyIncludes :=
  turn_include_many (nested_of_turn h).1 hcnt

theorem openFile_recount (h : openFile host l fname = .ok (l', is)) (cnt : ℕ) :
    openFile host ⟨l.rc, cnt⟩ fname = .ok (⟨l'.rc, cnt⟩, is) := by
  rw [openFile] at h ⊢
  split at h
  · cases h
  · dsimp only
    split at h
    · cases h
    · cases h
      rfl

theorem openFile_text (h : openFile host l fname = .ok (l', is)) : ∃ text, is = .ofText text := by
  rw [openFile] at h
  split at h
  · cases h
  · split at h
    · cases h
    · cases h
      exact ⟨_, rfl⟩

theorem root_locate (n : ℕ) (e : LoadError) : (locate n e).root = e.root := by
  cases e <;> rfl

end Counting

section Loading

theorem finish_level (h : f.lev = 0) : finish l f = .ok l := by
  rw [finish, if_neg (not_not_intro h)]

/-- As long as the limit is not reached the load counts the includes and does the same. -/
theorem Walk.loads (h : Walk host d text rc f rc' n) {cnt : ℕ} (hcnt : cnt+n ≤ INCLUDE_LIMIT) :
    Loads host (.ofText text) ⟨rc, cnt⟩ f (.ok ⟨rc', cnt+n⟩) := by
  induction h generalizing cnt with
  | last hline hlev =>
    rw [loads_last hline, finish_level hlev]
    rfl
  | leave htext hline hturn hlev =>
    have hstops := Stops.leave (turn_of_leave hturn cnt)
    rw [finish_level hlev] at hstops
    rw [htext]
    exact loads_stops hline hstops
  | next htext hline hturn _ ih =>
    rw [htext, loads_step hline (.next (turn_of_next hturn cnt))]
    exact ih hcnt
  | @included d m n text line rest fname text' rc rc₁ rc' f f' l₁ l₂ htext hline hturn hopen _ _
      ihfile ihrest =>
    have hlt : cnt < INCLUDE_LIMIT := by omega
    have hroom : cnt+1+m ≤ INCLUDE_LIMIT := by omega
    have hall : cnt+1+m+n ≤ INCLUDE_LIMIT := by omega
    have hopen' := openFile_recount hopen (cnt+1)
    rw [htext, loads_step hline (.included (turn_of_nested hturn hlt) hopen' (ihfile hroom))]
    have hrest := ihrest hall
    rwa [show cnt+1+m+n = cnt+(m+1+n) by omega] at hrest

theorem throws_step {l l' : Loader Apprc} (hline : ShortLine line)
    (hstep : Step host line l f l' f') :
    ThrowsTooMany host (line ++ '\n' :: rest) l f ↔ ThrowsTooMany host rest l' f' := by
  rw [ThrowsTooMany, ThrowsTooMany]
  exact exists_congr fun e => and_congr_left fun _ => loads_step hline hstep

/-- The include that reaches the limit. -/
theorem throws_here (hline : ShortLine line) (hturn : freeTurn host rc f line = .nested l' fname f')
    (hcnt : INCLUDE_LIMIT ≤ cnt) : ThrowsTooMany host (line ++ '\n' :: rest) ⟨rc, cnt⟩ f :=
  ⟨_, loads_stops hline (.throw (turn_of_many hturn hcnt)), root_locate _ _⟩

/-- What an included file throws is thrown on. -/
theorem throws_inside {l₁ l₂ : Loader Apprc} {text' : List Char} (hline : ShortLine line)
    (hturn : turn host l (f.nextLine line) line = .nested l₁ fname f')
    (hopen : openFile host l₁ fname = .ok (l₂, .ofText text'))
    (h : ThrowsTooMany host text' l₂ .initial) :
    ThrowsTooMany host (line ++ '\n' :: rest) l f := by
  obtain ⟨e, hload, he⟩ := h
  exact ⟨_, loads_stops hline (.failed hturn hopen hload), (root_locate _ _).trans he⟩

/-- A load that meets too many includes throws, however they are nested. -/
theorem Walk.throws (h : Walk host d text rc f rc' n) {cnt : ℕ} (hcnt : cnt ≤ INCLUDE_LIMIT)
    (hmany : INCLUDE_LIMIT < cnt+n) : ThrowsTooMany host text ⟨rc, cnt⟩ f := by
  induction h generalizing cnt with
  | last _ _ => omega
  | leave _ _ _ _ => omega
  | next htext hline hturn _ ih =>
    rw [htext, throws_step hline (.next (turn_of_next hturn cnt))]
    exact ih hcnt hmany
  | @included d m n text line rest fname text' rc rc₁ rc' f f' l₁ l₂ htext hline hturn hopen hfile _
      ihfile ihrest =>
    rw [htext]
    rcases Nat.lt_or_ge cnt INCLUDE_LIMIT with hlt | hge
    · have hturn' := turn_of_nested hturn hlt
      have hopen' := openFile_recount hopen (cnt+1)
      rcases Nat.lt_or_ge INCLUDE_LIMIT (cnt+1+m) with hfull | hroom
      · exact throws_inside hline hturn' hopen' (ihfile hlt hfull)
      · rw [throws_step hline (.included hturn' hopen' (hfile.loads hroom))]
        exact ihrest hroom (by omega)
    · exact throws_here hline hturn hge

/-- A load that nests too many files throws. -/
theorem Exceeds.throws (h : Exceeds host d text rc f) {cnt : ℕ} (hcnt : cnt ≤ INCLUDE_LIMIT)
    (hmany : INCLUDE_LIMIT ≤ cnt+d) : ThrowsTooMany host text ⟨rc, cnt⟩ f := by
  induction h generalizing cnt with
  | here htext hline hturn =>
    rw [htext]
    exact throws_here hline hturn hmany
  | next htext hline hturn _ ih =>
    rw [htext, throws_step hline (.next (turn_of_next hturn cnt))]
    exact ih hcnt hmany
  | inside htext hline hturn hopen _ ih =>
    rw [htext]
    rcases Nat.lt_or_ge cnt INCLUDE_LIMIT with hlt | hge
    · exact throws_inside hline (turn_of_nested hturn hlt) (openFile_recount hopen _)
        (ih hlt (by omega))
    · exact throws_here hline hturn hge
  | @behind d m text line rest fname text' rc rc₁ f f' l₁ l₂ htext hline hturn hopen hfile _ ih =>
    rw [htext]
    rcases Nat.lt_or_ge cnt INCLUDE_LIMIT with hlt | hge
    · have hturn' := turn_of_nested hturn hlt
      have hopen' := openFile_recount hopen (cnt+1)
      rcases Nat.lt_or_ge INCLUDE_LIMIT (cnt+1+m) with hfull | hroom
      · exact throws_inside hline hturn' hopen' (hfile.throws hlt hfull)
      · rw [throws_step hline (.included hturn' hopen' (hfile.loads hroom))]
        exact ih hroom (by omega)
    · exact throws_here hline hturn hge

end Loading

section Validity

variable {l₁ l₂ : Loader Apprc} {text' : List Char}

theorem Valid.sound (h : Valid host d text rc f) : Sound host d text rc f := h _ _ _ _ .refl

theorem Valid.next (h : Valid host d text rc f) (htext : text = line ++ '\n' :: rest)
    (hline : ShortLine line) (hturn : freeTurn host rc f line = .next l' f') :
    Valid host d rest l'.rc f' := fun _ _ _ _ hvisits =>
  h _ _ _ _ (.next htext hline hturn hvisits)

theorem Valid.inside (h : Valid host (d+1) text rc f) (htext : text = line ++ '\n' :: rest)
    (hline : ShortLine line) (hturn : freeTurn host rc f line = .nested l₁ fname f')
    (hopen : openFile host l₁ fname = .ok (l₂, .ofText text')) :
    Valid host d text' l₂.rc .initial := fun _ _ _ _ hvisits =>
  h _ _ _ _ (.inside htext hline hturn hopen hvisits)

theorem Valid.behind (h : Valid host (d+1) text rc f) (htext : text = line ++ '\n' :: rest)
    (hline : ShortLine line) (hturn : freeTurn host rc f line = .nested l₁ fname f')
    (hopen : openFile host l₁ fname = .ok (l₂, .ofText text'))
    (hfile : Walk host d text' l₂.rc .initial rc₁ m) : Valid host (d+1) rest rc₁ f' :=
  fun _ _ _ _ hvisits => h _ _ _ _ (.behind htext hline hturn hopen hfile hvisits)

/-- A valid text is read to its end, or nests too many files. -/
theorem Valid.cases (h : Valid host d text rc f) :
    (∃ rc' n, Walk host d text rc f rc' n) ∨ Exceeds host d text rc f := by
  -- on the files that may still be included at once, and then on the text
  induction d using Nat.strong_induction_on generalizing text rc f with
  | _ d ihd =>
  induction hlen : text.length using Nat.strong_induction_on generalizing text rc f with
  | _ len ihtext =>
  rcases h.sound with ⟨hline, hlev⟩ | ⟨line, rest, htext, hline, hturn⟩
  · exact Or.inl ⟨rc, 0, .last hline hlev⟩
  · have hshorter : rest.length < len := by
      rw [← hlen, htext, List.length_append, List.length_cons]
      omega
    cases hfree : freeTurn host rc f line with
    | next l' f' =>
      rcases ihtext _ hshorter (h.next htext hline hfree) rfl with ⟨rc', n, hrest⟩ | hrest
      · exact Or.inl ⟨rc', n, .next htext hline hfree hrest⟩
      · exact Or.inr (.next htext hline hfree hrest)
    | leave l' f' =>
      rw [hfree] at hturn
      exact Or.inl ⟨rc, 0, .leave htext hline hfree hturn⟩
    | throw e =>
      rw [hfree] at hturn
      exact hturn.elim
    | nested l₁ fname f' =>
      rw [hfree] at hturn
      cases d with
      | zero => exact Or.inr (.here htext hline hfree)
      | succ d =>
        obtain ⟨⟨l₂, is⟩, hopen⟩ := hturn.resolve_left (Nat.succ_ne_zero d)
        obtain ⟨text', rfl⟩ := openFile_text hopen
        rcases ihd d d.lt_succ_self (h.inside htext hline hfree hopen) with ⟨rc₁, m, hfile⟩ | hfile
        · have hbehind := h.behind htext hline hfree hopen hfile
          rcases ihtext _ hshorter hbehind rfl with ⟨rc', n, hrest⟩ | hrest
          · exact Or.inl ⟨rc', _, .included htext hline hfree hopen hfile hrest⟩
          · exact Or.inr (.behind htext hline hfree hopen hfile hrest)
        · exact Or.inr (.inside htext hline hfree hopen hfile)

/-- Valid files are loaded to an end, also when they include themselves. -/
theorem Valid.ends (h : Valid host INCLUDE_LIMIT text rc .initial) :
    ∃ r, Loads host (.ofText text) ⟨rc, 0⟩ .initial r := by
  rcases h.cases with ⟨rc', n, hwalk⟩ | hexceeds
  · -- too many includes throw, however they are nested
    rcases Nat.lt_or_ge INCLUDE_LIMIT (0+n) with hmany | hfew
    · obtain ⟨e, hload, _⟩ := hwalk.throws (Nat.zero_le _) hmany
      exact ⟨_, hload⟩
    · exact ⟨_, hwalk.loads hfew⟩
  · obtain ⟨e, hload, _⟩ := hexceeds.throws (Nat.zero_le _) (Nat.zero_add _).ge
    exact ⟨_, hload⟩

theorem line_split {line' rest' : List Char} (h : line ++ '\n' :: rest = line' ++ '\n' :: rest')
    (hline : ShortLine line) (hline' : ShortLine line') : line = line' ∧ rest = rest' := by
  have hfirst := congrArg (List.takeWhile (· ≠ '\n')) h
  rw [takeWhile_to hline.1, takeWhile_to hline'.1] at hfirst
  subst hfirst
  exact ⟨rfl, (List.cons.inj (List.append_cancel_left h)).2⟩

theorem ShortLine.not_more (h : ShortLine text) : text ≠ line ++ '\n' :: rest := by
  rintro rfl
  exact h.1 (List.mem_append_right _ List.mem_cons_self)

/-- What a load did at the first line. -/
theorem Walk.first (h : Walk host d text rc f rc' n) (htext : text = line ++ '\n' :: rest)
    (hline : ShortLine line) :
    (∃ l' f', freeTurn host rc f line = .leave l' f' ∧ rc' = rc ∧ n = 0) ∨
    (∃ l' f', freeTurn host rc f line = .next l' f' ∧ Walk host d rest l'.rc f' rc' n) ∨
    ∃ d' l₁ fname f' l₂ text' rc₁ m n', d = d'+1 ∧ n = m+1+n' ∧
      freeTurn host rc f line = .nested l₁ fname f' ∧
      openFile host l₁ fname = .ok (l₂, .ofText text') ∧
      Walk host d' text' l₂.rc .initial rc₁ m ∧ Walk host (d'+1) rest rc₁ f' rc' n' := by
  cases h with
  | last hline' _ => exact absurd htext hline'.not_more
  | leave htext' hline' hturn _ =>
    obtain ⟨rfl, rfl⟩ := line_split (htext.symm.trans htext') hline hline'
    exact Or.inl ⟨_, _, hturn, rfl, rfl⟩
  | next htext' hline' hturn hrest =>
    obtain ⟨rfl, rfl⟩ := line_split (htext.symm.trans htext') hline hline'
    exact Or.inr (Or.inl ⟨_, _, hturn, hrest⟩)
  | included htext' hline' hturn hopen hfile hrest =>
    obtain ⟨rfl, rfl⟩ := line_split (htext.symm.trans htext') hline hline'
    exact Or.inr (Or.inr ⟨_, _, _, _, _, _, _, _, _, rfl, rfl, hturn, hopen, hfile, hrest⟩)

theorem Walk.unique {rc'' : Apprc} {n' : ℕ} (h : Walk host d text rc f rc' n)
    (h' : Walk host d text rc f rc'' n') : rc' = rc'' ∧ n = n' := by
  induction h generalizing rc'' n' with
  | last hline hlev =>
    cases h' with
    | last _ _ => exact ⟨rfl, rfl⟩
    | leave htext _ _ _ => exact absurd htext hline.not_more
    | next htext _ _ _ => exact absurd htext hline.not_more
    | included htext _ _ _ _ _ => exact absurd htext hline.not_more
  | leave htext hline hturn _ =>
    rcases h'.first htext hline with ⟨_, _, _, rfl, rfl⟩ | ⟨_, _, hturn', _⟩ |
      ⟨_, _, _, _, _, _, _, _, _, _, _, hturn', _, _, _⟩
    · exact ⟨rfl, rfl⟩
    · cases hturn.symm.trans hturn'
    · cases hturn.symm.trans hturn'
  | next htext hline hturn _ ih =>
    rcases h'.first htext hline with ⟨_, _, hturn', _, _⟩ | ⟨_, _, hturn', hrest'⟩ |
      ⟨_, _, _, _, _, _, _, _, _, _, _, hturn', _, _, _⟩
    · cases hturn.symm.trans hturn'
    · cases hturn.symm.trans hturn'
      exact ih hrest'
    · cases hturn.symm.trans hturn'
  | included htext hline hturn hopen _ _ ihfile ihrest =>
    rcases h'.first htext hline with ⟨_, _, hturn', _, _⟩ | ⟨_, _, hturn', _⟩ |
      ⟨d', l₁', fname', f'', l₂', text'', rc₁', m', n'', hd, rfl, hturn', hopen', hfile', hrest'⟩
    · cases hturn.symm.trans hturn'
    · cases hturn.symm.trans hturn'
    · cases hturn.symm.trans hturn'
      cases hopen.symm.trans hopen'
      obtain rfl := Nat.succ.inj hd
      obtain ⟨rfl, rfl⟩ := ihfile hfile'
      obtain ⟨rfl, rfl⟩ := ihrest hrest'
      exact ⟨rfl, rfl⟩

/-- Where a load comes to from the first line. -/
theorem Visits.first {d₀ : ℕ} {text₀ : List Char} {rc₀ : Apprc} {f₀ : Frame}
    (h : Visits host d text rc f d₀ text₀ rc₀ f₀) (htext : text = line ++ '\n' :: rest)
    (hline : ShortLine line) :
    (d₀ = d ∧ text₀ = text ∧ rc₀ = rc ∧ f₀ = f) ∨
    (∃ l' f', freeTurn host rc f line = .next l' f' ∧
      Visits host d rest l'.rc f' d₀ text₀ rc₀ f₀) ∨
    ∃ d' l₁ fname f' l₂ text', d = d'+1 ∧ freeTurn host rc f line = .nested l₁ fname f' ∧
      openFile host l₁ fname = .ok (l₂, .ofText text') ∧
      (Visits host d' text' l₂.rc .initial d₀ text₀ rc₀ f₀ ∨
        ∃ rc₁ m, Walk host d' text' l₂.rc .initial rc₁ m ∧
          Visits host (d'+1) rest rc₁ f' d₀ text₀ rc₀ f₀) := by
  cases h with
  | refl => exact Or.inl ⟨rfl, rfl, rfl, rfl⟩
  | next htext' hline' hturn hrest =>
    obtain ⟨rfl, rfl⟩ := line_split (htext.symm.trans htext') hline hline'
    exact Or.inr (Or.inl ⟨_, _, hturn, hrest⟩)
  | inside htext' hline' hturn hopen hfile =>
    obtain ⟨rfl, rfl⟩ := line_split (htext.symm.trans htext') hline hline'
    exact Or.inr (Or.inr ⟨_, _, _, _, _, _, rfl, hturn, hopen, Or.inl hfile⟩)
  | behind htext' hline' hturn hopen hfile hrest =>
    obtain ⟨rfl, rfl⟩ := line_split (htext.symm.trans htext') hline hline'
    exact Or.inr (Or.inr ⟨_, _, _, _, _, _, rfl, hturn, hopen, Or.inr ⟨_, _, hfile, hrest⟩⟩)

/-- What a load without a limit comes to the end of is valid. -/
theorem Walk.valid (h : Walk host d text rc f rc' n) : Valid host d text rc f := by
  intro d₀ text₀ rc₀ f₀ hvisits
  -- along the load; where it comes to is in this line, in the file, or behind it
  induction h with
  | last hline hlev =>
    cases hvisits with
    | refl => exact Or.inl ⟨hline, hlev⟩
    | next htext _ _ _ => exact absurd htext hline.not_more
    | inside htext _ _ _ _ => exact absurd htext hline.not_more
    | behind htext _ _ _ _ _ => exact absurd htext hline.not_more
  | leave htext hline hturn hlev =>
    rcases hvisits.first htext hline with ⟨rfl, rfl, rfl, rfl⟩ | ⟨_, _, hturn', _⟩ |
      ⟨_, _, _, _, _, _, _, hturn', _, _⟩
    · exact Or.inr ⟨_, _, htext, hline, by rw [hturn]; exact hlev⟩
    · cases hturn.symm.trans hturn'
    · cases hturn.symm.trans hturn'
  | next htext hline hturn _ ih =>
    rcases hvisits.first htext hline with ⟨rfl, rfl, rfl, rfl⟩ | ⟨_, _, hturn', hrest⟩ |
      ⟨_, _, _, _, _, _, _, hturn', _, _⟩
    · exact Or.inr ⟨_, _, htext, hline, by rw [hturn]; trivial⟩
    · cases hturn.symm.trans hturn'
      exact ih hrest
    · cases hturn.symm.trans hturn'
  | included htext hline hturn hopen hfile _ ihfile ihrest =>
    rcases hvisits.first htext hline with ⟨rfl, rfl, rfl, rfl⟩ | ⟨_, _, hturn', _⟩ |
      ⟨d', _, _, _, _, _, hd, hturn', hopen', hfile' | ⟨rc₁', m', hfile', hrest'⟩⟩
    · exact Or.inr ⟨_, _, htext, hline, by rw [hturn]; exact Or.inr ⟨_, hopen⟩⟩
    · cases hturn.symm.trans hturn'
    · cases hturn.symm.trans hturn'
      cases hopen.symm.trans hopen'
      obtain rfl := Nat.succ.inj hd
      exact ihfile hfile'
    · cases hturn.symm.trans hturn'
      cases hopen.symm.trans hopen'
      obtain rfl := Nat.succ.inj hd
      obtain ⟨rfl, rfl⟩ := hfile.unique hfile'
      exact ihrest hrest'

/-- Where a load that nests too many files does so, seen from the first line. -/
theorem Exceeds.first (h : Exceeds host d text rc f) (htext : text = line ++ '\n' :: rest)
    (hline : ShortLine line) :
    (∃ l' f', freeTurn host rc f line = .next l' f' ∧ Exceeds host d rest l'.rc f') ∨
    ∃ l₁ fname f', freeTurn host rc f line = .nested l₁ fname f' ∧
      (d = 0 ∨ ∃ d' l₂ text', d = d'+1 ∧ openFile host l₁ fname = .ok (l₂, .ofText text') ∧
        (Exceeds host d' text' l₂.rc .initial ∨
          ∃ rc₁ m, Walk host d' text' l₂.rc .initial rc₁ m ∧ Exceeds host (d'+1) rest rc₁ f')) := by
  cases h with
  | here htext' hline' hturn =>
    obtain ⟨rfl, rfl⟩ := line_split (htext.symm.trans htext') hline hline'
    exact Or.inr ⟨_, _, _, hturn, Or.inl rfl⟩
  | next htext' hline' hturn hrest =>
    obtain ⟨rfl, rfl⟩ := line_split (htext.symm.trans htext') hline hline'
    exact Or.inl ⟨_, _, hturn, hrest⟩
  | inside htext' hline' hturn hopen hfile =>
    obtain ⟨rfl, rfl⟩ := line_split (htext.symm.trans htext') hline hline'
    exact Or.inr ⟨_, _, _, hturn, Or.inr ⟨_, _, _, rfl, hopen, Or.inl hfile⟩⟩
  | behind htext' hline' hturn hopen hfile hrest =>
    obtain ⟨rfl, rfl⟩ := line_split (htext.symm.trans htext') hline hline'
    exact Or.inr ⟨_, _, _, hturn, Or.inr ⟨_, _, _, rfl, hopen, Or.inr ⟨_, _, hfile, hrest⟩⟩⟩

theorem Walk.not_exceeds (h : Walk host d text rc f rc' n) : ¬Exceeds host d text rc f := by
  intro hexceeds
  -- along the load, which has a file to spare at each include
  induction h with
  | last hline _ =>
    cases hexceeds with
    | here htext _ _ => exact absurd htext hline.not_more
    | next htext _ _ _ => exact absurd htext hline.not_more
    | inside htext _ _ _ _ => exact absurd htext hline.not_more
    | behind htext _ _ _ _ _ => exact absurd htext hline.not_more
  | leave htext hline hturn _ =>
    rcases hexceeds.first htext hline with ⟨_, _, hturn', _⟩ | ⟨_, _, _, hturn', _⟩
    · cases hturn.symm.trans hturn'
    · cases hturn.symm.trans hturn'
  | next htext hline hturn _ ih =>
    rcases hexceeds.first htext hline with ⟨_, _, hturn', hrest⟩ | ⟨_, _, _, hturn', _⟩
    · cases hturn.symm.trans hturn'
      exact ih hrest
    · cases hturn.symm.trans hturn'
  | included htext hline hturn hopen hfile _ ihfile ihrest =>
    rcases hexceeds.first htext hline with ⟨_, _, hturn', _⟩ |
      ⟨_, _, _, hturn', hd | ⟨d', _, _, hd, hopen', hfile' | ⟨rc₁', m', hfile', hrest'⟩⟩⟩
    · cases hturn.symm.trans hturn'
    · cases hd
    · cases hturn.symm.trans hturn'
      cases hopen.symm.trans hopen'
      obtain rfl := Nat.succ.inj hd
      exact ihfile hfile'
    · cases hturn.symm.trans hturn'
      cases hopen.symm.trans hopen'
      obtain rfl := Nat.succ.inj hd
      obtain ⟨rfl, rfl⟩ := hfile.unique hfile'
      exact ihrest hrest'

end Validity

/-- The count of the includes stands for their nesting exactly when they nest too deep, or are no
more than the limit altogether. -/
theorem limits_nesting (h : Valid host INCLUDE_LIMIT text rc .initial) :
    LimitsNesting host text rc ↔ Exceeds host INCLUDE_LIMIT text rc .initial ∨
      ∃ rc' n, Walk host INCLUDE_LIMIT text rc .initial rc' n ∧ n ≤ INCLUDE_LIMIT := by
  constructor
  · rintro ⟨_, hthrows⟩
    rcases h.cases with ⟨rc', n, hwalk⟩ | hexceeds
    · rcases Nat.lt_or_ge INCLUDE_LIMIT (0+n) with hmany | hfew
      · exact Or.inl (hthrows.mp (hwalk.throws (Nat.zero_le _) hmany))
      · exact Or.inr ⟨rc', n, hwalk, by omega⟩
    · exact Or.inl hexceeds
  · intro hcond
    refine ⟨h.ends, ?_⟩
    rcases hcond with hexceeds | ⟨rc', n, hwalk, hfew⟩
    · exact iff_of_true (hexceeds.throws (Nat.zero_le _) (Nat.zero_add _).ge) hexceeds
    · have hcnt : 0+n ≤ INCLUDE_LIMIT := by rwa [Nat.zero_add]
      have hload := hwalk.loads hcnt
      have hnot : ¬ThrowsTooMany host text ⟨rc, 0⟩ .initial := by
        rintro ⟨e, herror, _⟩
        cases herror.unique hload
      refine iff_of_false hnot fun hexceeds => hnot ?_
      exact hexceeds.throws (Nat.zero_le _) (Nat.zero_add _).ge

/-- An empty file. -/
def flatHost : Host :=
  ⟨fun fname => if fname = "a" then some [] else none, fun _ => none, fun _ _ => '\x00'⟩

def includeLine : List Char := ".include \"a\"".toList

/-- The file is included, and the load goes on behind it. -/
theorem walk_include (hopen : openFile flatHost ⟨rc, 1⟩ ['a'] = .ok (⟨rc₂, 1⟩, .ofText []))
    (hrest : Walk flatHost (d+1) rest rc₂ (f.nextLine includeLine) rc' n) :
    Walk flatHost (d+1) (includeLine ++ '\n' :: rest) rc f rc' (n+1) := by
  have hfile : Walk flatHost d [] rc₂ .initial rc₂ 0 := .last ⟨List.not_mem_nil, by decide⟩ rfl
  have hwalk := Walk.included rfl (show ShortLine includeLine from ⟨by decide, by decide⟩) rfl hopen
    hfile hrest
  rwa [Nat.zero_add, Nat.add_comm 1 n] at hwalk

theorem walk_end (hlev : f.lev = 0) : Walk flatHost d [] rc f rc 0 :=
  .last ⟨List.not_mem_nil, by decide⟩ hlev

/-- A file that is included twelve times, one time after the other, is said to nest too deep. -/
theorem flat_includes_refused : ¬∀ (host : Host) (text : List Char) (rc : Apprc),
    Valid host INCLUDE_LIMIT text rc .initial → LimitsNesting host text rc := by
  intro h
  obtain ⟨rc', hwalk⟩ : ∃ rc', Walk flatHost INCLUDE_LIMIT
      (unlines (List.replicate 12 includeLine)) .empty .initial rc' 12 := by
    constructor
    iterate 12 apply walk_include rfl
    exact walk_end rfl
  have hthrows := hwalk.throws (Nat.zero_le INCLUDE_LIMIT) (by decide)
  exact hwalk.not_exceeds ((h _ _ _ hwalk.valid).2.mp hthrows)

/-- A file that includes a file that includes an empty one. -/
def chainHost : Host where
  files fname :=
    if fname = "a" then some ".include \"b\"\n".toList
    else if fname = "b" then some ".include \"c\"\n".toList
    else if fname = "c" then some [] else none
  getenv _ := none
  before _ _ := '\x00'

/-- A chain of three includes is loaded without complaint. -/
theorem limits_nesting_example :
    LimitsNesting chainHost (unlines [".include \"a\"".toList]) .empty := by
  have hstep {name : Char} {d m : ℕ} {text' : List Char} {rc rc₁ rc₂ : Apprc}
      (hline : ShortLine (".include \"".toList ++ [name, '"']))
      (hturn : freeTurn chainHost rc .initial (".include \"".toList ++ [name, '"']) =
        .nested ⟨rc, 1⟩ [name] (Frame.initial.nextLine (".include \"".toList ++ [name, '"'])))
      (hopen : openFile chainHost ⟨rc, 1⟩ [name] = .ok (⟨rc₂, 1⟩, .ofText text'))
      (hfile : Walk chainHost d text' rc₂ .initial rc₁ m) :
      Walk chainHost (d+1) (unlines [".include \"".toList ++ [name, '"']]) rc .initial rc₁
        (m+1+0) :=
    .included rfl hline hturn hopen hfile (.last ⟨List.not_mem_nil, by decide⟩ rfl)
  obtain ⟨rc', hwalk⟩ : ∃ rc', Walk chainHost INCLUDE_LIMIT (unlines [".include \"a\"".toList])
      .empty .initial rc' (0+1+0+1+0+1+0) :=
    ⟨_, hstep (by decide) rfl rfl (hstep (by decide) rfl rfl (hstep (by decide) rfl rfl
      (.last ⟨List.not_mem_nil, by decide⟩ rfl)))⟩
  exact (limits_nesting hwalk.valid).mpr (Or.inr ⟨rc', _, hwalk, by decide⟩)

end S3Dhcpd.RcFile
