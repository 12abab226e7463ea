import S3Dhcpd.RcRuns

/-! Which texts the loading loop comes to the end of. -/
namespace S3Dhcpd.RcFile

variable {σ : Type} [KeyTable σ] {host : Host} {l l' : Loader σ} {f f' : Frame}
  {text line buf rest : List Char}

/-- The text has the line, with or without a terminator. -/
def IsLine (text line : List Char) : Prop :=
  ∃ pre rest, text = pre ++ (line ++ rest) ∧ (pre = [] ∨ pre.getLast? = some '\n') ∧
    (rest.head? = none ∨ rest.head? = some '\n') ∧ '\n' ∉ line

def NoIncludes (text : List Char) : Prop :=
  ∀ line, IsLine text line → lineKind (bufOf line) ≠ .included

/-- The loop ends normally or with a `keyException`. -/
def Ends (host : Host) (text : List Char) (l : Loader σ) (f : Frame) : Prop :=
  ∃ r, Loads host (.ofText text) l f r ∧ ∀ e, r = .error e → e.IsKey

/-- No line that the loop arrives at is refused by the table, or makes it access what is not
defined. -/
def Defined (host : Host) (text : List Char) (l : Loader σ) (f : Frame) : Prop :=
  ∀ lines line rest l' f', text = unlines lines ++ (line ++ '\n' :: rest) →
    (∀ x ∈ lines, ShortLine x) → ShortLine line → Reaches host lines l f l' f' →
    ∀ e, turn host l' (f'.nextLine line) line = .throw e → e.IsKey

/-- When the loop arrives at a line of more than 1022 characters, the first 1022 of them, read as a
line, make it leave. -/
def LeavesLong (host : Host) (text : List Char) (l : Loader σ) (f : Frame) : Prop :=
  ∀ lines long c rest l' f', text = unlines lines ++ (long ++ c :: rest) →
    (∀ x ∈ lines, ShortLine x) → '\n' ∉ long → long.length = 1022 → c ≠ '\n' →
    Reaches host lines l f l' f' →
    (∃ l'' f'', turn host l' (f'.nextLine long) long = .leave l'' f'') ∨
      ∃ e, e.IsKey ∧ turn host l' (f'.nextLine long) long = .throw e

section Kinds

theorem lineKind_included : lineKind buf = .included ↔ ".include".toList <+: buf := by
  constructor
  · intro h
    cases buf with
    | nil => cases h
    | cons c buf =>
      simp only [lineKind] at h
      split_ifs at h with _ hprefix
      exact List.isPrefixOf_iff_prefix.mp hprefix
  · rintro ⟨rest, rfl⟩
    rfl

/-- A line that begins as an include goes on as one. -/
theorem included_append (h : lineKind (bufOf line) = .included) (rest : List Char) :
    lineKind (bufOf (line ++ rest)) = .included := by
  rw [lineKind_included] at h ⊢
  have hne : bufOf line ≠ [] := by
    intro hnil
    rw [hnil] at h
    exact absurd (List.prefix_nil.mp h) (by decide)
  obtain ⟨more, hmore⟩ : ∃ more, (line ++ rest).takeWhile (· ≠ '\x00') =
      line.takeWhile (· ≠ '\x00') ++ more := by
    rw [List.takeWhile_append]
    split_ifs with hall
    · rw [List.takeWhile_eq_self_iff.mpr (List.takeWhile_eq_self_iff.mp
        (List.IsPrefix.eq_of_length (List.takeWhile_prefix _) hall))]
      exact ⟨_, rfl⟩
    · exact ⟨[], (List.append_nil _).symm⟩
  rw [bufOf, hmore, List.dropWhile_append, if_neg (by rwa [List.isEmpty_iff, ← bufOf])]
  exact h.trans (List.prefix_append _ _)

end Kinds

section Front
variable {lines : List (List Char)}

theorem IsLine.cons (h : IsLine rest line) (first : List Char) :
    IsLine (first ++ '\n' :: rest) line := by
  obtain ⟨pre, post, rfl, hpre, hpost, hline⟩ := h
  refine ⟨first ++ '\n' :: pre, post, by simp, Or.inr ?_, hpost, hline⟩
  rcases hpre with rfl | hpre
  · simp
  · rw [List.getLast?_append, List.getLast?_cons, hpre]
    rfl

theorem isLine_first (hline : '\n' ∉ line) (hrest : rest.head? = none ∨ rest.head? = some '\n') :
    IsLine (line ++ rest) line := ⟨[], rest, rfl, Or.inl rfl, hrest, hline⟩

/-- The conditions on a text are conditions on what is left of it. -/
theorem Defined.step (h : Defined host (line ++ '\n' :: rest) l f) (hline : ShortLine line)
    (hstep : Step host line l f l' f') : Defined host rest l' f' := by
  rintro lines line' rest' l'' f'' rfl hlines hline' hreach
  refine h (line :: lines) line' rest' l'' f'' ?_ (List.forall_mem_cons.mpr ⟨hline, hlines⟩) hline'
    ⟨l', f', hstep, hreach⟩
  rw [unlines_cons, List.append_assoc, List.cons_append]

theorem LeavesLong.step (h : LeavesLong host (line ++ '\n' :: rest) l f) (hline : ShortLine line)
    (hstep : Step host line l f l' f') : LeavesLong host rest l' f' := by
  rintro lines long c rest' l'' f'' rfl hlines hlong hlen hc hreach
  refine h (line :: lines) long c rest' l'' f'' ?_ (List.forall_mem_cons.mpr ⟨hline, hlines⟩) hlong
    hlen hc ⟨l', f', hstep, hreach⟩
  rw [unlines_cons, List.append_assoc, List.cons_append]

theorem not_mem_line (text : List Char) : '\n' ∉ text.takeWhile (· ≠ '\n') := by
  intro h
  simpa using List.mem_takeWhile_imp h

theorem line_end (text : List Char) : (text.dropWhile (· ≠ '\n')).head? = none ∨
    (text.dropWhile (· ≠ '\n')).head? = some '\n' := by
  cases hdrop : text.dropWhile (· ≠ '\n') with
  | nil => exact Or.inl rfl
  | cons c rest =>
    have hhead := List.head?_dropWhile_not (· ≠ '\n') text
    rw [hdrop] at hhead
    right
    simpa using hhead

/-- A text is a line, a line and more lines, or begins with a line that does not fit. -/
theorem text_cases (text : List Char) : ShortLine text ∨
    (∃ line rest, text = line ++ '\n' :: rest ∧ ShortLine line) ∨
    ∃ long c more rest, text = long ++ c :: (more ++ rest) ∧ long.length = 1022 ∧
      '\n' ∉ long ++ c :: more ∧ (rest.head? = none ∨ rest.head? = some '\n') := by
  have hsplit : text.takeWhile (· ≠ '\n') ++ text.dropWhile (· ≠ '\n') = text :=
    List.takeWhile_append_dropWhile
  have hline := not_mem_line text
  have hrest := line_end text
  generalize text.takeWhile (· ≠ '\n') = front at hsplit hline
  generalize text.dropWhile (· ≠ '\n') = rest at hsplit hrest
  subst hsplit
  by_cases hlen : front.length < MAX_RC_LINE-1
  · cases rest with
    | nil => exact Or.inl (by rw [List.append_nil]; exact ⟨hline, hlen⟩)
    | cons c rest =>
      have hc : c = '\n' := by simpa using hrest
      exact Or.inr (Or.inl ⟨front, rest, by rw [hc], hline, hlen⟩)
  · have hlong : 1022 < front.length := by
      rw [MAX_RC_LINE] at hlen
      omega
    have hcut : front.take 1022 ++ front[1022] :: front.drop 1023 = front := by
      rw [← List.drop_eq_getElem_cons hlong, List.take_append_drop]
    refine Or.inr (Or.inr ⟨front.take 1022, front[1022], front.drop 1023, rest, ?_, ?_, ?_, hrest⟩)
    · rw [← List.cons_append, ← List.append_assoc, hcut]
    · rw [List.length_take]
      omega
    · rwa [hcut]

theorem unlines_end (lines : List (List Char)) :
    unlines lines = [] ∨ (unlines lines).getLast? = some '\n' := by
  induction lines using List.reverseRecOn with
  | nil => exact Or.inl rfl
  | append_singleton lines line _ =>
    right
    rw [unlines_append, unlines_cons, unlines_nil, List.append_cons, List.append_nil,
      ← List.append_assoc, List.getLast?_append]
    rfl

/-- An include that does not fit is a line of the text. -/
theorem not_included {long : List Char} {c : Char} (hlong : '\n' ∉ long) (hc : c ≠ '\n')
    (hinc : NoIncludes (unlines lines ++ (long ++ c :: rest))) :
    lineKind (bufOf long) ≠ .included := by
  intro hkind
  refine hinc (long ++ c :: rest.takeWhile (· ≠ '\n')) ?_ (included_append hkind _)
  refine ⟨unlines lines, rest.dropWhile (· ≠ '\n'), ?_, unlines_end lines, line_end rest, ?_⟩
  · simp only [List.append_assoc, List.cons_append, List.takeWhile_append_dropWhile]
  · rw [List.mem_append, List.mem_cons, not_or, not_or]
    exact ⟨hlong, Ne.symm hc, not_mem_line rest⟩

theorem isKey_locate (n : ℕ) (e : LoadError) : (locate n e).IsKey ↔ e.IsKey := by
  cases e <;> rfl

omit [KeyTable σ] in
theorem isKey_finish {e : LoadError} (h : finish l f = .error e) : e.IsKey := by
  rw [finish] at h
  split_ifs at h
  cases h
  trivial

/-- A turn that leaves ends the load. -/
theorem stops_of_turn
    (h : (∃ l'' f'', turn host l (f.nextLine line) line = .leave l'' f'') ∨
      ∃ e, e.IsKey ∧ turn host l (f.nextLine line) line = .throw e) :
    ∃ r, Stops host line l f r ∧ ∀ e, r = .error e → e.IsKey := by
  rcases h with ⟨l'', f'', h⟩ | ⟨e, he, h⟩
  · exact ⟨_, .leave h, fun e => isKey_finish⟩
  · refine ⟨_, .throw h, fun e' heq => ?_⟩
    rw [← Except.error.inj heq]
    exact (isKey_locate _ e).mpr he

theorem ends_of_leaves (hinc : NoIncludes text) (hdefined : Defined host text l f)
    (hleaves : LeavesLong host text l f) : Ends host text l f := by
  -- on the length of the text, one line at a time
  induction hn : text.length using Nat.strong_induction_on generalizing text l f with
  | h n ih =>
  rcases text_cases text with hlast | ⟨line, rest, rfl, hline⟩ | ⟨long, c, more, rest, rfl, hlen,
    hlong, hrest⟩
  · exact ⟨_, (loads_last hlast).mpr rfl, fun e => isKey_finish⟩
  · cases hturn : turn host l (f.nextLine line) line with
    | next l' f' =>
      have hstep : Step host line l f l' f' := .next hturn
      have hless : rest.length < n := by
        rw [← hn, List.length_append, List.length_cons]
        omega
      obtain ⟨r, hr, hne⟩ := ih _ hless (fun x hx => hinc x (hx.cons line))
        (hdefined.step hline hstep) (hleaves.step hline hstep) rfl
      exact ⟨r, (loads_step hline hstep).mpr hr, hne⟩
    | nested l₁ fname f' =>
      exact absurd (nested_of_turn hturn).1 (hinc line (isLine_first hline.1 (Or.inr rfl)))
    | leave l' f' =>
      obtain ⟨r, hr, hne⟩ := stops_of_turn (Or.inl ⟨l', f', hturn⟩)
      exact ⟨r, loads_stops hline hr, hne⟩
    | throw e =>
      have he : e.IsKey := hdefined [] line rest l f rfl (fun _ h => absurd h List.not_mem_nil)
        hline ⟨rfl, rfl⟩ e hturn
      obtain ⟨r, hr, hne⟩ := stops_of_turn (Or.inr ⟨e, he, hturn⟩)
      exact ⟨r, loads_stops hline hr, hne⟩
  -- a line that does not fit is the last that is read
  · rw [List.mem_append, List.mem_cons, not_or, not_or] at hlong
    obtain ⟨hlong, hc, hmore⟩ := hlong
    obtain ⟨r, hr, hne⟩ := stops_of_turn (hleaves [] long c (more ++ rest) l f rfl
      (fun _ h => absurd h List.not_mem_nil) hlong hlen (Ne.symm hc) ⟨rfl, rfl⟩)
    exact ⟨r, (loads_long hlong (by rw [hlen]; rfl) (Ne.symm hc)).mpr hr, hne⟩

/-- Loading ends exactly when every line of more than 1022 characters that the loop arrives at makes
it leave, and no line is refused by the hash table or makes the loop access what is not defined. -/
theorem loading_ends (hinc : NoIncludes text) (l : Loader HashApprc) :
    Ends host text l .initial ↔
      Defined host text l .initial ∧ LeavesLong host text l .initial := by
  refine ⟨fun ⟨r, hr, hkey⟩ => ⟨?_, ?_⟩, fun h => ends_of_leaves hinc h.1 h.2⟩
  · rintro lines line rest l' f' rfl hlines hline hreach e hturn
    rw [loads_reaches hlines hreach] at hr
    have hthrown := hr.unique (loads_stops hline (.throw hturn))
    exact (isKey_locate _ e).mp (hkey _ hthrown)
  · rintro lines long c rest l' f' rfl hlines hlong hlen hc hreach
    rw [loads_reaches hlines hreach, loads_long hlong (by rw [hlen]; rfl) hc] at hr
    have hkind := not_included hlong hc hinc
    cases hr with
    | leave hturn => exact Or.inl ⟨_, _, hturn⟩
    | @throw e hturn => exact Or.inr ⟨e, (isKey_locate _ e).mp (hkey _ rfl), hturn⟩
    | unopened hturn _ => exact absurd (nested_of_turn hturn).1 hkind
    | failed hturn _ _ => exact absurd (nested_of_turn hturn).1 hkind

end Front

/-- Every include has an `i`. -/
theorem noIncludes_of_absent (h : 'i' ∉ text) : NoIncludes text := by
  rintro line ⟨pre, rest, rfl, _⟩ hkind
  have hbuf : 'i' ∈ bufOf line := (lineKind_included.mp hkind).subset (by decide)
  have hline : 'i' ∈ line :=
    (List.takeWhile_sublist _).subset ((List.dropWhile_sublist _).subset hbuf)
  exact h (List.mem_append_right _ (List.mem_append_left _ hline))

/-- A comment of 1023 characters. -/
def longComment : List Char := '#' :: List.replicate 1022 'x'

theorem longComment_noIncludes : 'i' ∉ longComment := by
  rw [longComment, List.mem_cons, List.mem_replicate]
  decide

theorem long_line_hangs : ¬∀ (host : Host) (text : List Char) (l : Loader HashApprc),
    NoIncludes text → Ends host text l .initial := by
  intro h
  obtain ⟨r, hr, _⟩ := h bareHost longComment newLoader
    (noIncludes_of_absent longComment_noIncludes)
  have hsplit : longComment = ('#' :: List.replicate 1021 'x') ++ 'x' :: [] := by
    rw [longComment, List.replicate_succ', List.cons_append]
  have hline : '\n' ∉ '#' :: List.replicate 1021 'x' := by
    rw [List.mem_cons, List.mem_replicate]
    decide
  have hlen : ('#' :: List.replicate 1021 'x').length+1 = MAX_RC_LINE-1 := by
    rw [List.length_cons, List.length_replicate]
    rfl
  rw [hsplit, loads_long hline hlen (by decide)] at hr
  exact Step.not_stops (.next (turn_skipped rfl)) hr

/-- Behind `.end` a long line does no harm. -/
theorem loading_ends_example :
    Defined bareHost (".end\n".toList ++ longComment) newLoader .initial ∧
    LeavesLong bareHost (".end\n".toList ++ longComment) newLoader .initial := by
  have hinc : NoIncludes (".end\n".toList ++ longComment) := by
    apply noIncludes_of_absent
    rw [List.mem_append, not_or]
    exact ⟨by decide, longComment_noIncludes⟩
  have hload : Loads bareHost (.ofText (".end\n".toList ++ longComment)) newLoader .initial
      (.ok newLoader) := ⟨1, rfl⟩
  refine (loading_ends hinc newLoader).mp ⟨_, hload, fun e h => ?_⟩
  cases h

end S3Dhcpd.RcFile
