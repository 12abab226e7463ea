import S3Dhcpd.RcBlocks
import S3Dhcpd.RcTermination

/-! What lines do to a load that are inserted into a branch that is not taken. -/
namespace S3Dhcpd.RcFile

variable {σ : Type} [KeyTable σ] {host : Host} {is : IStream} {l l' l₀ : Loader σ} {f f' : Frame}
  {o : Except LoadError (String → Option String)} {r : Except LoadError (Loader σ)}
  {line rest text : List Char} {lines chunk : List (List Char)} {n : ℕ}

/-- A branch that is open is not taken. -/
def Inactive (f : Frame) : Prop := ∃ i, 1 ≤ i ∧ i ≤ f.lev ∧ f.ignore i = true

/-- A line that leaves the nesting as it is, or an `.if` with its `.endif`. -/
inductive Inserted : List (List Char) → Prop where
  | single {line : List Char} (hline : '\n' ∉ line)
      (hkind : lineKind (bufOf line) ∈ [.skipped, .included, .ends, .key]) : Inserted [line]
  | block {opening closing : List Char} (hopening : '\n' ∉ opening)
      (hopens : lineKind (bufOf opening) = .opens) (hclosing : '\n' ∉ closing)
      (hcloses : lineKind (bufOf closing) = .closes) : Inserted [opening, closing]

/-- The lines fit in the buffer, and are a comment, a key, or an `.if` whose condition has a value and
for which there is a flag. -/
def Harmless (host : Host) (l : Loader σ) (f : Frame) : List (List Char) → Prop
  | [line] => Block.Fits [.skipped, .key] line
  | [opening, closing] => Block.Fits [.opens] opening ∧ Block.Fits [.closes] closing ∧
    f.lev+1 < MAX_IGNORE ∧ ∃ b, expandCondition host l.rc (leftover (overwrite opening f.read_buf))
      ((bufOf opening).drop 3) = .ok b
  | _ => False

theorem Inactive.lev_ne (h : Inactive f) : f.lev ≠ 0 := by
  obtain ⟨i, hi, hle, _⟩ := h
  omega

theorem Inactive.doIgnore (h : Inactive f) : doIgnore f = true := by
  obtain ⟨i, _, hle, hignore⟩ := h
  exact doIgnore_iff.mpr ⟨i, hle, hignore⟩

theorem loadsTo_reaches (hlines : ∀ line ∈ lines, ShortLine line)
    (h : Reaches host lines l f l' f') :
    LoadsTo host (unlines lines ++ rest) l f o ↔ LoadsTo host rest l' f' o := by
  simp only [LoadsTo, loads_reaches hlines h]

section Without

/-- Harmless lines lead back to the state in front of them, but for the line number and old flags. -/
theorem Harmless.reaches (h : Harmless host l f chunk) (hinactive : Inactive f) :
    (∀ line ∈ chunk, ShortLine line) ∧ ∃ f', Reaches host chunk l f l f' ∧ f.Agrees f' := by
  match chunk, h with
  | [line], h =>
    refine ⟨List.forall_mem_singleton.mpr h.1, f.nextLine line, ⟨l, _, .next ?_, rfl, rfl⟩, rfl,
      fun _ _ => rfl⟩
    rcases List.mem_cons.mp h.2 with hskipped | hkey
    · exact turn_skipped hskipped
    · exact turn_ignored (List.mem_singleton.mp hkey) hinactive.doIgnore
  | [opening, closing], ⟨hopening, hclosing, hlev, b, hcond⟩ =>
    have hstep := step_opens hopening hcond hlev
    obtain ⟨f', hclose, hagrees⟩ :=
      @step_closes _ _ host l (f.nextLine opening) _ closing b hclosing (.refl _)
    refine ⟨List.forall_mem_cons.mpr ⟨hopening.1, List.forall_mem_singleton.mpr hclosing.1⟩, f',
      ⟨l, _, hstep, l, f', hclose, rfl, rfl⟩, hagrees.lev, hagrees.ignore⟩

theorem Harmless.sameFate (h : Harmless host l f chunk) (hinactive : Inactive f)
    (hbuffer : (bufferAfter chunk f.read_buf).drop n = f.read_buf.drop n) {post : List Char}
    (hreads : ReadsFrom n post) : SameFate host (unlines chunk ++ post) post l f := by
  obtain ⟨hshort, f', hreach, hagrees⟩ := h.reaches hinactive
  intro o
  rw [loadsTo_reaches hshort hreach]
  refine (loadsTo_agrees hreads ⟨hagrees, ?_⟩ o).symm
  rw [hreach.buffer_eq, hbuffer]

end Without

section Counts

theorem openFile_cnt {fname : List Char} (h : openFile host l fname = .ok (l', is)) :
    l'.recursion_cnt = l.recursion_cnt := by
  rw [openFile] at h
  split at h
  · cases h
  · split at h
    · cases h
    · cases h
      rfl

omit [KeyTable σ] in
theorem finish_cnt (h : finish l f = .ok l') : l'.recursion_cnt = l.recursion_cnt := by
  rw [finish] at h
  split_ifs at h
  cases h
  rfl

/-- Includes are counted and never discounted. -/
theorem Loads.cnt_le (h : Loads host is l f (.ok l')) : l.recursion_cnt ≤ l'.recursion_cnt := by
  refine Loads.induct (P := fun _ l _ r => ∀ l', r = .ok l' → l.recursion_cnt ≤ l'.recursion_cnt)
    ?eof ?leave ?throw ?unopened ?failed ?next ?included h l' rfl
  case eof =>
    intro is read_buf is' l f _ _ l' h
    exact (finish_cnt h).ge
  case leave =>
    intro is read_buf is' l f l₁ f₁ _ _ hturn l' h
    obtain ⟨_, rfl, rfl⟩ := leave_of_turn hturn
    exact (finish_cnt h).ge
  case throw =>
    intro is read_buf is' l f e _ _ _ l' h
    cases h
  case unopened =>
    intro is read_buf is' l f l₁ fname f₁ e _ _ _ _ l' h
    cases h
  case failed =>
    intro is read_buf is' l f l₁ fname f₁ l₂ is₂ e _ _ _ _ _ _ l' h
    cases h
  case next =>
    intro is read_buf is' l f l₁ f₁ r _ _ hturn ih l' h
    exact (next_of_turn hturn).2.2.1.ge.trans (ih l' h)
  case included =>
    intro is read_buf is' l f l₁ fname f₁ l₂ is₂ l₃ r _ _ hturn hopen _ hnested hrest l' h
    -- `load` counts the include, `open` does not, and the rest counts from where the file ended
    calc
      l.recursion_cnt ≤ l₁.recursion_cnt := by
        rw [(nested_of_turn hturn).2.2.1]
        exact Nat.le_succ _
      _ = l₂.recursion_cnt := (openFile_cnt hopen).symm
      _ ≤ l₃.recursion_cnt := hnested l₃ rfl
      _ ≤ l'.recursion_cnt := hrest l' h

/-- An include that the loop gets past is counted. -/
theorem Step.included_cnt (h : Step host line l f l' f')
    (hkind : lineKind (bufOf line) = .included) :
    l.recursion_cnt ≤ MAX_INCLUDE_LEVEL ∧ l.recursion_cnt < l'.recursion_cnt ∧
      f' = f.nextLine line := by
  cases h with
  | next h => exact absurd hkind (next_of_turn h).1
  | included h hopen hload =>
    obtain ⟨_, hle, hcnt, hf⟩ := nested_of_turn h
    have hopened := openFile_cnt hopen
    have hnested := hload.cnt_le
    exact ⟨hle, by omega, hf⟩

end Counts

section Within

/-- Inside a block nothing ends the load normally. -/
theorem Stops.error (h : Stops host line l f r) (hlev : f.lev ≠ 0) : ∃ e, r = .error e := by
  cases h with
  | leave h =>
    obtain ⟨_, rfl, rfl⟩ := leave_of_turn h
    exact ⟨_, if_pos hlev⟩
  | throw h => exact ⟨_, rfl⟩
  | unopened h hopen => exact ⟨_, rfl⟩
  | failed h hopen hload => exact ⟨_, rfl⟩

/-- A load that ends normally gets past every line inside a block. -/
theorem Loads.past (h : Loads host (.ofText (line ++ '\n' :: rest)) l f (.ok l'))
    (hline : '\n' ∉ line) (hlev : f.lev ≠ 0) : ShortLine line ∧
    ∃ l₁ f₁, Step host line l f l₁ f₁ ∧ Loads host (.ofText rest) l₁ f₁ (.ok l') := by
  rcases text_cases line with hshort | ⟨first, more, rfl, _⟩ | ⟨long, c, more, post, rfl, hlen,
    hlong, _⟩
  · rcases (loads_line hshort).mp h with hstops | hstep
    · obtain ⟨e, he⟩ := hstops.error hlev
      cases he
    · exact ⟨hshort, hstep⟩
  · exact absurd (List.mem_append_right _ List.mem_cons_self) hline
  -- behind a long line the load ends at that line, if at all
  · rw [List.mem_append, List.mem_cons, not_or, not_or] at hlong
    rw [List.append_assoc, List.cons_append, loads_long hlong.1 (by rw [hlen]; rfl)
      (Ne.symm hlong.2.1)] at h
    obtain ⟨e, he⟩ := h.error hlev
    cases he

def closers (n : ℕ) : List (List Char) := List.replicate n ".endif".toList

/-- Enough `.endif`s end a load. -/
theorem loads_closers : Loads host (.ofText (unlines (closers f.lev))) l f (.ok l) := by
  induction hlev : f.lev generalizing f with
  | zero => exact loads_nil.mpr (if_neg fun h => h hlev).symm
  | succ n ih =>
    have hclose : turn host l (f.nextLine ".endif".toList) ".endif".toList =
        .next l { f.nextLine ".endif".toList with lev := f.lev-1 } :=
      turn_closes rfl (hlev.trans_ne (Nat.succ_ne_zero n))
    rw [closers, List.replicate_succ, unlines_cons, loads_step (by decide) (.next hclose)]
    exact ih (Nat.sub_eq_of_eq_add hlev)

/-- Only so many includes can stand in a text whose load ends normally. -/
theorem includes_bounded (hline : '\n' ∉ line) (hkind : lineKind (bufOf line) = .included)
    (hlev : f.lev ≠ 0) {m : ℕ}
    (h : Loads host (.ofText (unlines (List.replicate m line) ++ rest)) l f (.ok l')) :
    m = 0 ∨ m+l.recursion_cnt ≤ MAX_INCLUDE_LEVEL+1 := by
  induction m generalizing l f with
  | zero => exact Or.inl rfl
  | succ m ih =>
    rw [List.replicate_succ, unlines_cons, List.append_assoc, List.cons_append] at h
    obtain ⟨_, l₁, f₁, hstep, h⟩ := h.past hline hlev
    obtain ⟨hle, hlt, rfl⟩ := hstep.included_cnt hkind
    have hrest := @ih _ (f.nextLine line) hlev h
    omega

end Within

section Exactly

/-- The lines are without effect, whatever follows them and reads nothing that they have changed in
the buffer. -/
def Unnoticed (host : Host) (l : Loader σ) (f : Frame) (chunk : List (List Char)) : Prop :=
  ∀ n post, (bufferAfter chunk f.read_buf).drop n = f.read_buf.drop n → ReadsFrom n post →
    SameFate host (unlines chunk ++ post) post l f

/-- With lines that are without effect a load ends normally where it does without them, unless an
`.if` follows. -/
theorem Unnoticed.loads_ok (h : Unnoticed host l f chunk)
    (hlines : ∀ line ∈ lines, ShortLine line ∧ lineKind (bufOf line) ≠ .opens)
    (hok : Loads host (.ofText (unlines lines)) l f (.ok l')) :
    ∃ l'', Loads host (.ofText (unlines (chunk ++ lines))) l f (.ok l'') := by
  -- behind both buffers nothing has been written
  have hbuffer : (bufferAfter chunk f.read_buf).drop
      (max (bufferAfter chunk f.read_buf).length f.read_buf.length) =
        f.read_buf.drop (max (bufferAfter chunk f.read_buf).length f.read_buf.length) := by
    rw [List.drop_eq_nil_of_le (le_max_left _ _), List.drop_eq_nil_of_le (le_max_right _ _)]
  obtain ⟨r, hr, hfate⟩ := (h _ _ hbuffer (readsFrom_unlines hlines) _).mpr ⟨_, hok, rfl⟩
  rw [← unlines_append] at hr
  cases r with
  | error e => cases hfate
  | ok l'' => exact ⟨l'', hr⟩

theorem closers_plain (n : ℕ) :
    ∀ line ∈ closers n, ShortLine line ∧ lineKind (bufOf line) ≠ .opens := by
  intro line hline
  rw [List.eq_of_mem_replicate hline]
  decide

/-- Behind the lines only the open blocks are closed, which is a load that ends normally. -/
theorem Unnoticed.closes (h : Unnoticed host l f chunk) :
    ∃ l', Loads host (.ofText (unlines chunk ++ unlines (closers f.lev))) l f (.ok l') := by
  obtain ⟨l', hload⟩ := h.loads_ok (closers_plain f.lev) loads_closers
  rw [unlines_append] at hload
  exact ⟨l', hload⟩

/-- An include never is. -/
theorem not_unnoticed_included (hline : ShortLine line) (hkind : lineKind (bufOf line) = .included)
    (hlev : f.lev ≠ 0) : ¬Unnoticed host l f [line] := by
  intro h
  -- with one include more the load would still end normally, so with any number of them
  have hany (m : ℕ) : ∃ l', Loads host (.ofText (unlines (List.replicate m line ++
      closers f.lev))) l f (.ok l') := by
    induction m with
    | zero => exact ⟨l, loads_closers⟩
    | succ m ih =>
      obtain ⟨l', hload⟩ := ih
      refine h.loads_ok (List.forall_mem_append.mpr ⟨fun line' hline' => ?_, closers_plain _⟩) hload
      rw [List.eq_of_mem_replicate hline', hkind]
      exact ⟨hline, by decide⟩
  obtain ⟨l', hload⟩ := hany (MAX_INCLUDE_LEVEL+2)
  rw [unlines_append] at hload
  rcases includes_bounded hline.1 hkind hlev hload with hzero | hle
  · exact Nat.succ_ne_zero _ hzero
  · omega

theorem Unnoticed.harmless (h : Unnoticed host l f chunk) (hchunk : Inserted chunk)
    (hlev : f.lev ≠ 0) : Harmless host l f chunk := by
  obtain ⟨l', hload⟩ := h.closes
  cases hchunk with
  | @single line hline hkind =>
    rw [unlines_cons, unlines_nil, List.append_assoc, List.cons_append, List.nil_append] at hload
    obtain ⟨hshort, l₁, f₁, hstep, _⟩ := hload.past hline hlev
    refine ⟨hshort, ?_⟩
    have hinc : lineKind (bufOf line) ≠ .included :=
      fun hinc => not_unnoticed_included hshort hinc hlev h
    have hends : lineKind (bufOf line) ≠ .ends := by
      intro hends
      exact hstep.not_stops (.leave (turn_ends hends))
    simpa [hinc, hends] using hkind
  | @block opening closing hopening hopens hclosing hcloses =>
    rw [unlines_cons, unlines_cons, unlines_nil, List.append_assoc, List.cons_append,
      List.append_assoc, List.cons_append, List.nil_append] at hload
    obtain ⟨hshort, l₁, f₁, hstep, hload⟩ := hload.past hopening hlev
    have hcond : (∃ b, expandCondition host l.rc (leftover (overwrite opening f.read_buf))
        ((bufOf opening).drop 3) = .ok b) ∧ f.lev+1 < MAX_IGNORE := by
      by_contra hbad
      rw [not_and_or, not_exists] at hbad
      obtain ⟨e, hthrow⟩ := @turn_opens_throws _ _ host l (f.nextLine opening) opening hopens hbad
      exact hstep.not_stops (.throw hthrow)
    obtain ⟨⟨b, hb⟩, hroom⟩ := hcond
    have hopening : Block.Fits [.opens] opening := ⟨hshort, List.mem_singleton.mpr hopens⟩
    obtain ⟨rfl, rfl⟩ := hstep.unique (step_opens hopening hb hroom)
    obtain ⟨hshort', _⟩ := hload.past hclosing (Nat.succ_ne_zero f.lev)
    exact ⟨hopening, ⟨hshort', List.mem_singleton.mpr hcloses⟩, hroom, b, hb⟩

/-- Inserted into a branch that is not taken, lines change nothing whatever follows them exactly when
they are harmless, as long as the conditions behind them read nothing that the lines have changed in
the buffer. -/
theorem inserted_unnoticed (hpre : ∀ line ∈ lines, ShortLine line)
    (hreach : Reaches host lines l₀ .initial l f) (hinactive : Inactive f)
    (hchunk : Inserted chunk) :
    (∀ n post, (bufferAfter (lines ++ chunk) []).drop n = (bufferAfter lines []).drop n →
      ReadsFrom n post →
      SameFate host (unlines lines ++ (unlines chunk ++ post)) (unlines lines ++ post) l₀
        .initial) ↔ Harmless host l f chunk := by
  have hbuffer : f.read_buf = bufferAfter lines [] := hreach.buffer_eq
  rw [bufferAfter_append, ← hbuffer]
  have hhere : (∀ n post, (bufferAfter chunk f.read_buf).drop n = f.read_buf.drop n →
      ReadsFrom n post → SameFate host (unlines lines ++ (unlines chunk ++ post))
        (unlines lines ++ post) l₀ .initial) ↔ Unnoticed host l f chunk := by
    simp only [Unnoticed, SameFate, loadsTo_reaches hpre hreach]
  rw [hhere]
  exact ⟨fun h => h.harmless hchunk hinactive.lev_ne,
    fun h n post hbuffer hreads => h.sameFate hinactive hbuffer hreads⟩

theorem inserted_noticed : ¬∀ (host : Host) (lines chunk : List (List Char)) (post : List Char)
    (l₀ l : Loader HashApprc) (f : Frame), (∀ line ∈ lines, ShortLine line) →
    Reaches host lines l₀ .initial l f → Inactive f → Inserted chunk →
    SameFate host (unlines lines ++ (unlines chunk ++ post)) (unlines lines ++ post) l₀
      .initial := by
  intro h
  have hstep : Step bareHost ".if 1 == 2".toList newLoader .initial newLoader
      ((Frame.initial.nextLine ".if 1 == 2".toList).enter false) :=
    step_opens (by decide) rfl (by decide)
  have hinserted : Inserted [".end".toList] := .single (by decide) (by decide)
  have hsame := h bareHost [".if 1 == 2".toList] [".end".toList] ".endif\n".toList newLoader
    newLoader _ (by decide) hstep.reaches ⟨1, le_rfl, le_rfl, rfl⟩ hinserted
  have hwithout : LoadsTo bareHost ".if 1 == 2\n.endif\n".toList newLoader .initial
      (.ok newLoader.rc.value) := ⟨.ok newLoader, ⟨3, rfl⟩, rfl⟩
  have hwith : LoadsTo bareHost ".if 1 == 2\n.end\n.endif\n".toList newLoader .initial
      (.error .unclosedIf) := ⟨.error (.located 2 .unclosedIf), ⟨2, rfl⟩, rfl⟩
  cases ((hsame _).mpr hwithout).unique hwith

/-- A nested block with a condition that has a value. -/
theorem inserted_unnoticed_example :
    SameFate bareHost
      (unlines [".if 1 == 2".toList] ++
        (unlines [".if 3 == 3".toList, ".endif".toList] ++
          unlines [".endif".toList, "abc=1".toList]))
      (unlines [".if 1 == 2".toList] ++ unlines [".endif".toList, "abc=1".toList]) newLoader
      .initial := by
  have hreach : Reaches bareHost [".if 1 == 2".toList] newLoader .initial newLoader
      ((Frame.initial.nextLine ".if 1 == 2".toList).enter false) :=
    (step_opens (by decide) rfl (by decide)).reaches
  have hinserted : Inserted [".if 3 == 3".toList, ".endif".toList] :=
    .block (by decide) rfl (by decide) rfl
  exact (inserted_unnoticed (by decide) hreach ⟨1, le_rfl, le_rfl, rfl⟩ hinserted).mpr
    ⟨by decide, by decide, by decide, true, rfl⟩ 11 _ (by decide) (readsFrom_unlines (by decide))

end Exactly

end S3Dhcpd.RcFile
