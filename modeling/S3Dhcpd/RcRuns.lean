import S3Dhcpd.RcLoad

/-! Runs of the loading loop: what one line does, which state a list of lines leads to, and how a
load ends. -/
namespace S3Dhcpd.RcFile

variable {σ : Type} [KeyTable σ] {host : Host} {is is' : IStream} {l l' l'' : Loader σ}
  {f f' f'' : Frame} {r r' : Except LoadError (Loader σ)} {line read_buf rest : List Char}
  {lines : List (List Char)}

/-- The loop ends, with `r`. -/
def Loads (host : Host) (is : IStream) (l : Loader σ) (f : Frame)
    (r : Except LoadError (Loader σ)) : Prop := ∃ fuel, loadLoop host fuel is l f = some r

/-- More turns change no result. -/
theorem loadLoop_mono {fuel fuel' : ℕ} (h : loadLoop host fuel is l f = some r)
    (hle : fuel ≤ fuel') : loadLoop host fuel' is l f = some r := by
  -- on the fuel; the included file and the rest of the text both get one unit less
  induction fuel generalizing is l f r fuel' with
  | zero => cases h
  | succ fuel ih =>
    cases fuel' with
    | zero => exact absurd hle (Nat.not_succ_le_zero fuel)
    | succ fuel' =>
      have hle := Nat.le_of_succ_le_succ hle
      rw [loadLoop] at h ⊢
      dsimp only at h ⊢
      split_ifs at h ⊢
      · exact h
      · split at h
        · exact ih h hle
        · exact h
        · exact h
        · split at h
          · exact h
          · cases hload : loadLoop host fuel _ (_ : Loader σ) Frame.initial with
            | none =>
              rw [hload] at h
              cases h
            | some nested =>
              rw [hload] at h
              rw [ih hload hle]
              cases nested with
              | error e => exact h
              | ok l => exact ih h hle

theorem Loads.unique (h : Loads host is l f r) (h' : Loads host is l f r') : r = r' := by
  obtain ⟨fuel, h⟩ := h
  obtain ⟨fuel', h'⟩ := h'
  have hmax := loadLoop_mono h (Nat.le_max_left fuel fuel')
  have hmax' := loadLoop_mono h' (Nat.le_max_right fuel fuel')
  exact Option.some.inj (hmax.symm.trans hmax')

/-- The turn on a line, with the file that it may include, leads to the next turn. -/
inductive Step (host : Host) (read_buf : List Char) (l : Loader σ) (f : Frame) :
    Loader σ → Frame → Prop where
  | next {l' : Loader σ} {f' : Frame}
      (h : turn host l (f.nextLine read_buf) read_buf = .next l' f') :
      Step host read_buf l f l' f'
  | included {l₁ l₂ l' : Loader σ} {f' : Frame} {fname : List Char} {is : IStream}
      (h : turn host l (f.nextLine read_buf) read_buf = .nested l₁ fname f')
      (hopen : openFile host l₁ fname = .ok (l₂, is)) (hload : Loads host is l₂ .initial (.ok l')) :
      Step host read_buf l f l' f'

/-- The turn on a line ends the loop. -/
inductive Stops (host : Host) (read_buf : List Char) (l : Loader σ) (f : Frame) :
    Except LoadError (Loader σ) → Prop where
  | leave {l' : Loader σ} {f' : Frame}
      (h : turn host l (f.nextLine read_buf) read_buf = .leave l' f') :
      Stops host read_buf l f (finish l' f')
  | throw {e : LoadError} (h : turn host l (f.nextLine read_buf) read_buf = .throw e) :
      Stops host read_buf l f (.error (locate (f.line+1) e))
  | unopened {l₁ : Loader σ} {f' : Frame} {fname : List Char} {e : LoadError}
      (h : turn host l (f.nextLine read_buf) read_buf = .nested l₁ fname f')
      (hopen : openFile host l₁ fname = .error e) :
      Stops host read_buf l f (.error (locate f'.line e))
  | failed {l₁ l₂ : Loader σ} {f' : Frame} {fname : List Char} {is : IStream} {e : LoadError}
      (h : turn host l (f.nextLine read_buf) read_buf = .nested l₁ fname f')
      (hopen : openFile host l₁ fname = .ok (l₂, is))
      (hload : Loads host is l₂ .initial (.error e)) :
      Stops host read_buf l f (.error (locate f'.line e))

theorem Step.unique (h : Step host read_buf l f l' f') (h' : Step host read_buf l f l'' f'') :
    l' = l'' ∧ f' = f'' := by
  cases h with
  | next h =>
    cases h' with
    | next h' =>
      cases h.symm.trans h'
      exact ⟨rfl, rfl⟩
    | included h' _ _ => cases h.symm.trans h'
  | included h hopen hload =>
    cases h' with
    | next h' => cases h.symm.trans h'
    | included h' hopen' hload' =>
      cases h.symm.trans h'
      cases hopen.symm.trans hopen'
      cases hload.unique hload'
      exact ⟨rfl, rfl⟩

theorem Step.not_stops (h : Step host read_buf l f l' f') : ¬Stops host read_buf l f r := by
  intro hstops
  cases h with
  | next h =>
    cases hstops with
    | leave h' => cases h.symm.trans h'
    | throw h' => cases h.symm.trans h'
    | unopened h' _ => cases h.symm.trans h'
    | failed h' _ _ => cases h.symm.trans h'
  | included h hopen hload =>
    cases hstops with
    | leave h' => cases h.symm.trans h'
    | throw h' => cases h.symm.trans h'
    | unopened h' hopen' =>
      cases h.symm.trans h'
      cases hopen.symm.trans hopen'
    | failed h' hopen' hload' =>
      cases h.symm.trans h'
      cases hopen.symm.trans hopen'
      cases hload.unique hload'

theorem loads_end (hread : getline (MAX_RC_LINE-1) is = (read_buf, is')) (heof : is'.eof = true) :
    Loads host is l f r ↔ r = finish l f := by
  constructor
  · rintro ⟨fuel, h⟩
    cases fuel with
    | zero => cases h
    | succ fuel =>
      rw [loadLoop, hread] at h
      dsimp only at h
      rw [if_pos heof] at h
      exact (Option.some.inj h).symm
  · rintro rfl
    refine ⟨1, ?_⟩
    rw [loadLoop, hread]
    dsimp only
    rw [if_pos heof]

theorem loadLoop_turn {fuel : ℕ} (hread : getline (MAX_RC_LINE-1) is = (read_buf, is'))
    (heof : is'.eof = false) : loadLoop host (fuel+1) is l f =
      match turn host l (f.nextLine read_buf) read_buf with
      | .next l f => loadLoop host fuel is' l f
      | .leave l f => some (finish l f)
      | .throw e => some (.error (locate (f.line+1) e))
      | .nested l fname f =>
        match openFile host l fname with
        | .error e => some (.error (locate f.line e))
        | .ok (l, is'') =>
          match loadLoop host fuel is'' l .initial with
          | none => none
          | some (.error e) => some (.error (locate f.line e))
          | some (.ok l) => loadLoop host fuel is' l f := by
  rw [loadLoop, hread]
  dsimp only
  rw [if_neg (by rw [heof]; decide)]
  rfl

/-- What a turn of the loop can do, when the loop ends. -/
theorem loadLoop_cases {fuel : ℕ} (hread : getline (MAX_RC_LINE-1) is = (read_buf, is'))
    (heof : is'.eof = false) (h : loadLoop host (fuel+1) is l f = some r) :
    (∃ l' f', turn host l (f.nextLine read_buf) read_buf = .next l' f' ∧
      loadLoop host fuel is' l' f' = some r) ∨
    (∃ l' f', turn host l (f.nextLine read_buf) read_buf = .leave l' f' ∧ r = finish l' f') ∨
    (∃ e, turn host l (f.nextLine read_buf) read_buf = .throw e ∧
      r = .error (locate (f.line+1) e)) ∨
    ∃ l₁ fname f', turn host l (f.nextLine read_buf) read_buf = .nested l₁ fname f' ∧
      ((∃ e, openFile host l₁ fname = .error e ∧ r = .error (locate f'.line e)) ∨
      ∃ l₂ is₂, openFile host l₁ fname = .ok (l₂, is₂) ∧
        ((∃ e, loadLoop host fuel is₂ l₂ .initial = some (.error e) ∧
          r = .error (locate f'.line e)) ∨
        ∃ l', loadLoop host fuel is₂ l₂ .initial = some (.ok l') ∧
          loadLoop host fuel is' l' f' = some r)) := by
  rw [loadLoop_turn hread heof] at h
  cases hturn : turn host l (f.nextLine read_buf) read_buf with
  | next l' f' =>
    rw [hturn] at h
    exact Or.inl ⟨l', f', rfl, h⟩
  | leave l' f' =>
    rw [hturn] at h
    exact Or.inr (Or.inl ⟨l', f', rfl, (Option.some.inj h).symm⟩)
  | throw e =>
    rw [hturn] at h
    exact Or.inr (Or.inr (Or.inl ⟨e, rfl, (Option.some.inj h).symm⟩))
  | nested l₁ fname f' =>
    rw [hturn] at h
    dsimp only at h
    refine Or.inr (Or.inr (Or.inr ⟨l₁, fname, f', rfl, ?_⟩))
    cases hopen : openFile host l₁ fname with
    | error e =>
      rw [hopen] at h
      exact Or.inl ⟨e, rfl, (Option.some.inj h).symm⟩
    | ok opened =>
      obtain ⟨l₂, is₂⟩ := opened
      rw [hopen] at h
      dsimp only at h
      refine Or.inr ⟨l₂, is₂, rfl, ?_⟩
      cases hload : loadLoop host fuel is₂ l₂ .initial with
      | none =>
        rw [hload] at h
        cases h
      | some nested =>
        rw [hload] at h
        cases nested with
        | error e => exact Or.inl ⟨e, rfl, (Option.some.inj h).symm⟩
        | ok l' => exact Or.inr ⟨l', rfl, h⟩

/-- A line that is delivered ends the load, or leads to the next turn. -/
theorem loads_turn (hread : getline (MAX_RC_LINE-1) is = (read_buf, is')) (heof : is'.eof = false) :
    Loads host is l f r ↔ Stops host read_buf l f r ∨
      ∃ l' f', Step host read_buf l f l' f' ∧ Loads host is' l' f' r := by
  constructor
  · rintro ⟨fuel, h⟩
    cases fuel with
    | zero => cases h
    | succ fuel =>
      rcases loadLoop_cases hread heof h with ⟨l', f', hturn, hrest⟩ | ⟨l', f', hturn, rfl⟩ |
        ⟨e, hturn, rfl⟩ | ⟨l₁, fname, f', hturn, ⟨e, hopen, rfl⟩ | ⟨l₂, is₂, hopen,
          ⟨e, hload, rfl⟩ | ⟨l', hload, hrest⟩⟩⟩
      · exact Or.inr ⟨l', f', .next hturn, fuel, hrest⟩
      · exact Or.inl (.leave hturn)
      · exact Or.inl (.throw hturn)
      · exact Or.inl (.unopened hturn hopen)
      · exact Or.inl (.failed hturn hopen ⟨fuel, hload⟩)
      · exact Or.inr ⟨l', f', .included hturn hopen ⟨fuel, hload⟩, fuel, hrest⟩
  · rintro (hstops | ⟨l', f', hstep, fuel, h⟩)
    · cases hstops with
      | leave hturn => exact ⟨1, by rw [loadLoop_turn hread heof, hturn]⟩
      | throw hturn => exact ⟨1, by rw [loadLoop_turn hread heof, hturn]⟩
      | unopened hturn hopen =>
        exact ⟨1, by rw [loadLoop_turn hread heof, hturn]; dsimp only; rw [hopen]⟩
      | failed hturn hopen hload =>
        obtain ⟨fuel, hload⟩ := hload
        refine ⟨fuel+1, ?_⟩
        rw [loadLoop_turn hread heof, hturn]
        dsimp only
        rw [hopen]
        dsimp only
        rw [hload]
    · cases hstep with
      | next hturn => exact ⟨fuel+1, by rw [loadLoop_turn hread heof, hturn]; exact h⟩
      | included hturn hopen hload =>
        obtain ⟨fuel', hload⟩ := hload
        -- enough for the included file and for the rest
        refine ⟨max fuel fuel'+1, ?_⟩
        rw [loadLoop_turn hread heof, hturn]
        dsimp only
        rw [hopen]
        dsimp only
        rw [loadLoop_mono hload (Nat.le_max_right _ _)]
        exact loadLoop_mono h (Nat.le_max_left _ _)

/-- The induction along a load that ends: over its turns, and over those of the files that it
includes. -/
theorem Loads.induct {P : IStream → Loader σ → Frame → Except LoadError (Loader σ) → Prop}
    (eof : ∀ is read_buf is' l f, getline (MAX_RC_LINE-1) is = (read_buf, is') → is'.eof = true →
      P is l f (finish l f))
    (leave : ∀ is read_buf is' l f l' f', getline (MAX_RC_LINE-1) is = (read_buf, is') →
      is'.eof = false → turn host l (f.nextLine read_buf) read_buf = .leave l' f' →
      P is l f (finish l' f'))
    (throw : ∀ is read_buf is' l f e, getline (MAX_RC_LINE-1) is = (read_buf, is') →
      is'.eof = false → turn host l (f.nextLine read_buf) read_buf = .throw e →
      P is l f (.error (locate (f.line+1) e)))
    (unopened : ∀ is read_buf is' l f l₁ fname f' e,
      getline (MAX_RC_LINE-1) is = (read_buf, is') → is'.eof = false →
      turn host l (f.nextLine read_buf) read_buf = .nested l₁ fname f' →
      openFile host l₁ fname = .error e →
      P is l f (.error (locate f'.line e)))
    (failed : ∀ is read_buf is' l f l₁ fname f' l₂ is₂ e,
      getline (MAX_RC_LINE-1) is = (read_buf, is') → is'.eof = false →
      turn host l (f.nextLine read_buf) read_buf = .nested l₁ fname f' →
      openFile host l₁ fname = .ok (l₂, is₂) → Loads host is₂ l₂ .initial (.error e) →
      P is₂ l₂ .initial (.error e) → P is l f (.error (locate f'.line e)))
    (next : ∀ is read_buf is' l f l' f' r, getline (MAX_RC_LINE-1) is = (read_buf, is') →
      is'.eof = false → turn host l (f.nextLine read_buf) read_buf = .next l' f' →
      P is' l' f' r → P is l f r)
    (included : ∀ is read_buf is' l f l₁ fname f' l₂ is₂ l' r,
      getline (MAX_RC_LINE-1) is = (read_buf, is') → is'.eof = false →
      turn host l (f.nextLine read_buf) read_buf = .nested l₁ fname f' →
      openFile host l₁ fname = .ok (l₂, is₂) → Loads host is₂ l₂ .initial (.ok l') →
      P is₂ l₂ .initial (.ok l') → P is' l' f' r → P is l f r)
    (h : Loads host is l f r) : P is l f r := by
  -- on the fuel, of which an included file has as much as the rest of the text
  obtain ⟨fuel, h⟩ := h
  induction fuel generalizing is l f r with
  | zero => cases h
  | succ fuel ih =>
    rcases hread : getline (MAX_RC_LINE-1) is with ⟨read_buf, is'⟩
    by_cases heof : is'.eof = true
    · rw [(loads_end hread heof).mp ⟨_, h⟩]
      exact eof is read_buf is' l f hread heof
    · rw [Bool.not_eq_true] at heof
      rcases loadLoop_cases hread heof h with ⟨l', f', hturn, hrest⟩ | ⟨l', f', hturn, rfl⟩ |
        ⟨e, hturn, rfl⟩ | ⟨l₁, fname, f', hturn, ⟨e, hopen, rfl⟩ | ⟨l₂, is₂, hopen,
          ⟨e, hload, rfl⟩ | ⟨l', hload, hrest⟩⟩⟩
      · exact next _ _ _ _ _ _ _ _ hread heof hturn (ih hrest)
      · exact leave _ _ _ _ _ _ _ hread heof hturn
      · exact throw _ _ _ _ _ _ hread heof hturn
      · exact unopened _ _ _ _ _ _ _ _ _ hread heof hturn hopen
      · exact failed _ _ _ _ _ _ _ _ _ _ _ hread heof hturn hopen ⟨_, hload⟩ (ih hload)
      · exact included _ _ _ _ _ _ _ _ _ _ _ _ hread heof hturn hopen ⟨_, hload⟩ (ih hload)
          (ih hrest)

section Turns
variable {buf fname : List Char} {b : Bool} {e : LoadError}

theorem turn_skipped (h : lineKind (bufOf buf) = .skipped) : turn host l f buf = .next l f := by
  rw [turn, h]

theorem turn_ends (h : lineKind (bufOf buf) = .ends) : turn host l f buf = .leave l f := by
  rw [turn, h]

theorem turn_flips (h : lineKind (bufOf buf) = .flips) : turn host l f buf =
    .next l { f with ignore := Function.update f.ignore f.lev (!f.ignore f.lev) } := by
  rw [turn, h]

theorem turn_closes (h : lineKind (bufOf buf) = .closes) (hlev : f.lev ≠ 0) :
    turn host l f buf = .next l { f with lev := f.lev-1 } := by
  rw [turn, h]
  exact if_neg hlev

theorem turn_unmatched (h : lineKind (bufOf buf) = .closes) (hlev : f.lev = 0) :
    turn host l f buf = .throw .unmatchedEndif := by
  rw [turn, h]
  exact if_pos hlev

theorem turn_opens (h : lineKind (bufOf buf) = .opens)
    (hcond : expandCondition host l.rc (leftover f.read_buf) ((bufOf buf).drop 3) = .ok b)
    (hlev : f.lev+1 < MAX_IGNORE) :
    turn host l f buf = .next l
      { f with ignore := Function.update f.ignore (f.lev+1) (!b), lev := f.lev+1 } := by
  rw [turn, h]
  dsimp only
  rw [hcond]
  exact if_pos hlev

/-- An `.if` whose condition has no value, or for which there is no flag, ends the load. -/
theorem turn_opens_throws (h : lineKind (bufOf buf) = .opens)
    (hbad : (∀ b, expandCondition host l.rc (leftover f.read_buf) ((bufOf buf).drop 3) ≠ .ok b) ∨
      ¬f.lev+1 < MAX_IGNORE) :
    ∃ e, turn host l f buf = .throw e := by
  rw [turn, h]
  dsimp only
  cases hcond : expandCondition host l.rc (leftover f.read_buf) ((bufOf buf).drop 3) with
  | error e => exact ⟨e, rfl⟩
  | ok b =>
    have hlev : ¬f.lev+1 < MAX_IGNORE := hbad.resolve_left fun h => h b hcond
    exact ⟨.fault, if_neg hlev⟩

theorem turn_ignored (h : lineKind (bufOf buf) = .key) (hignore : doIgnore f = true) :
    turn host l f buf = .next l f := by
  rw [turn, h]
  exact if_pos hignore

theorem turn_key (h : lineKind (bufOf buf) = .key) (hignore : doIgnore f = false) :
    turn host l f buf = match addLine host l.rc (bufOf buf) with
      | .error e => .throw e
      | .ok rc => .next { l with rc } f := by
  rw [turn, h]
  exact if_neg (by rw [hignore]; decide)

theorem turn_include_many (h : lineKind (bufOf buf) = .included)
    (hcnt : MAX_INCLUDE_LEVEL < l.recursion_cnt) :
    turn host l f buf = .throw .tooManyIncludes := by
  rw [turn, h]
  exact if_pos hcnt

/-- What the kind of a line has to do with where its turn leads. -/
def Turn.Follows (l : Loader σ) (f : Frame) (kind : LineKind) : Turn σ → Prop
  | .next l' f' => kind ≠ .included ∧ kind ≠ .ends ∧ l'.recursion_cnt = l.recursion_cnt ∧
    f'.read_buf = f.read_buf
  | .nested l' _ f' => kind = .included ∧ l.recursion_cnt ≤ MAX_INCLUDE_LEVEL ∧
    l'.recursion_cnt = l.recursion_cnt+1 ∧ f' = f
  | .leave l' f' => kind = .ends ∧ l' = l ∧ f' = f
  | .throw _ => True

theorem turn_follows : (turn host l f buf).Follows l f (lineKind (bufOf buf)) := by
  rw [turn]
  cases lineKind (bufOf buf) with
  | skipped => exact ⟨by decide, by decide, rfl, rfl⟩
  | ends => exact ⟨rfl, rfl, rfl⟩
  | flips => exact ⟨by decide, by decide, rfl, rfl⟩
  | included =>
    dsimp only
    split_ifs with hcnt
    · trivial
    · split
      · trivial
      · exact ⟨rfl, Nat.not_lt.mp hcnt, rfl, rfl⟩
  | opens =>
    dsimp only
    split
    · trivial
    · split_ifs
      · exact ⟨by decide, by decide, rfl, rfl⟩
      · trivial
  | closes =>
    dsimp only
    split_ifs
    · trivial
    · exact ⟨by decide, by decide, rfl, rfl⟩
  | key =>
    dsimp only
    split_ifs
    · exact ⟨by decide, by decide, rfl, rfl⟩
    · split
      · trivial
      · exact ⟨by decide, by decide, rfl, rfl⟩

theorem next_of_turn (h : turn host l f buf = .next l' f') : lineKind (bufOf buf) ≠ .included ∧
    lineKind (bufOf buf) ≠ .ends ∧ l'.recursion_cnt = l.recursion_cnt ∧
      f'.read_buf = f.read_buf := by
  have hfollows := @turn_follows _ _ host l f buf
  rwa [h] at hfollows

theorem nested_of_turn (h : turn host l f buf = .nested l' fname f') :
    lineKind (bufOf buf) = .included ∧ l.recursion_cnt ≤ MAX_INCLUDE_LEVEL ∧
      l'.recursion_cnt = l.recursion_cnt+1 ∧ f' = f := by
  have hfollows := @turn_follows _ _ host l f buf
  rwa [h] at hfollows

theorem leave_of_turn (h : turn host l f buf = .leave l' f') :
    lineKind (bufOf buf) = .ends ∧ l' = l ∧ f' = f := by
  have hfollows := @turn_follows _ _ host l f buf
  rwa [h] at hfollows

end Turns

section Lines

/-- The characters of a line that fits in the buffer. -/
def ShortLine (line : List Char) : Prop := '\n' ∉ line ∧ line.length < MAX_RC_LINE-1

instance (line : List Char) : Decidable (ShortLine line) := inferInstanceAs (Decidable (_ ∧ _))

/-- Lines with their terminators. -/
def unlines (lines : List (List Char)) : List Char := lines.flatMap (· ++ ['\n'])

@[simp] theorem unlines_nil : unlines [] = [] := rfl

@[simp] theorem unlines_cons (line : List Char) (lines : List (List Char)) :
    unlines (line :: lines) = line ++ '\n' :: unlines lines := by
  rw [unlines, List.flatMap_cons, List.append_assoc]
  rfl

theorem unlines_append (lines lines' : List (List Char)) :
    unlines (lines ++ lines') = unlines lines ++ unlines lines' := List.flatMap_append

theorem getline_line (hline : ShortLine line) (rest : List Char) :
    getline (MAX_RC_LINE-1) (.ofText (line ++ '\n' :: rest)) = (line, .ofText rest) := by
  simp only [getline, IStream.ofText, Bool.or_self, Bool.false_eq_true, if_false,
    takeWhile_to hline.1 rest, if_pos hline.2, List.drop_left]

/-- What has no terminator is delivered at the end of the stream, where nobody looks at it. -/
theorem getline_last (hline : ShortLine line) :
    getline (MAX_RC_LINE-1) (.ofText line) = (line, ⟨[], true, line.isEmpty⟩) := by
  simp only [getline, IStream.ofText, Bool.or_self, Bool.false_eq_true, if_false,
    takeWhile_absent hline.1, if_pos hline.2, List.drop_length]

/-- A line that does not fit makes the stream fail. -/
theorem getline_long (hline : '\n' ∉ line) (hlen : line.length+1 = MAX_RC_LINE-1) {c : Char}
    (hc : c ≠ '\n') (rest : List Char) : getline (MAX_RC_LINE-1) (.ofText (line ++ c :: rest)) =
      (line, ⟨c :: rest, false, true⟩) := by
  have htake : (line ++ c :: rest).takeWhile (· ≠ '\n') =
      line ++ c :: rest.takeWhile (· ≠ '\n') := by
    rw [takeWhile_append_absent hline]
    exact congrArg (line ++ ·) (List.takeWhile_cons_of_pos (decide_eq_true hc))
  have hlong : ¬(line ++ c :: rest.takeWhile (· ≠ '\n')).length < MAX_RC_LINE-1 := by
    rw [List.length_append, List.length_cons]
    omega
  have hn : MAX_RC_LINE-1-1 = line.length := by omega
  simp only [getline, IStream.ofText, Bool.or_self, Bool.false_eq_true, if_false, htake,
    if_neg hlong, hn, List.take_left, List.drop_left]

/-- A stream that has failed delivers empty lines for ever. -/
theorem getline_failed (n : ℕ) (rest : List Char) :
    getline n ⟨rest, false, true⟩ = ([], ⟨rest, false, true⟩) := rfl

end Lines

/-- The lines lead the loop from one state to another. -/
def Reaches (host : Host) : List (List Char) → Loader σ → Frame → Loader σ → Frame → Prop
  | [], l, f, l', f' => l' = l ∧ f' = f
  | line :: lines, l, f, l'', f'' =>
    ∃ l' f', Step host line l f l' f' ∧ Reaches host lines l' f' l'' f''

/-- The buffer behind lines that have been read, one after the other. -/
def bufferAfter (lines : List (List Char)) (read_buf : List Char) : List Char :=
  lines.foldl (fun read_buf line => overwrite line read_buf) read_buf

@[simp] theorem bufferAfter_nil (read_buf : List Char) : bufferAfter [] read_buf = read_buf := rfl

@[simp] theorem bufferAfter_cons (line : List Char) (lines : List (List Char))
    (read_buf : List Char) :
    bufferAfter (line :: lines) read_buf = bufferAfter lines (overwrite line read_buf) := rfl

@[simp] theorem bufferAfter_append (lines lines' : List (List Char)) (read_buf : List Char) :
    bufferAfter (lines ++ lines') read_buf = bufferAfter lines' (bufferAfter lines read_buf) :=
  List.foldl_append

section Reaches

theorem Step.buffer_eq (h : Step host line l f l' f') :
    f'.read_buf = overwrite line f.read_buf := by
  cases h with
  | next hturn => exact (next_of_turn hturn).2.2.2
  | included hturn _ _ => rw [(nested_of_turn hturn).2.2.2, Frame.nextLine]

/-- Where lines lead, they stand in the buffer. -/
theorem Reaches.buffer_eq (h : Reaches host lines l f l' f') :
    f'.read_buf = bufferAfter lines f.read_buf := by
  induction lines generalizing l f with
  | nil => rw [h.2, bufferAfter_nil]
  | cons line lines ih =>
    obtain ⟨l₁, f₁, hstep, h⟩ := h
    rw [ih h, hstep.buffer_eq, bufferAfter_cons]

theorem reaches_append {lines' : List (List Char)} : Reaches host (lines ++ lines') l f l'' f'' ↔
    ∃ l' f', Reaches host lines l f l' f' ∧ Reaches host lines' l' f' l'' f'' := by
  induction lines generalizing l f with
  | nil =>
    constructor
    · exact fun h => ⟨l, f, ⟨rfl, rfl⟩, h⟩
    · rintro ⟨_, _, ⟨rfl, rfl⟩, h⟩
      exact h
  | cons line lines ih =>
    simp only [List.cons_append, Reaches, ih]
    constructor
    · rintro ⟨l₁, f₁, hstep, l₂, f₂, hmid, hrest⟩
      exact ⟨l₂, f₂, ⟨l₁, f₁, hstep, hmid⟩, hrest⟩
    · rintro ⟨l₂, f₂, ⟨l₁, f₁, hstep, hmid⟩, hrest⟩
      exact ⟨l₁, f₁, hstep, l₂, f₂, hmid, hrest⟩

theorem Step.reaches (h : Step host line l f l' f') : Reaches host [line] l f l' f' :=
  ⟨_, _, h, rfl, rfl⟩

theorem Reaches.unique (h : Reaches host lines l f l' f') (h' : Reaches host lines l f l'' f'') :
    l' = l'' ∧ f' = f'' := by
  induction lines generalizing l f with
  | nil =>
    obtain ⟨rfl, rfl⟩ := h
    obtain ⟨rfl, rfl⟩ := h'
    exact ⟨rfl, rfl⟩
  | cons line lines ih =>
    obtain ⟨l₁, f₁, hstep, h⟩ := h
    obtain ⟨l₂, f₂, hstep', h'⟩ := h'
    obtain ⟨rfl, rfl⟩ := hstep.unique hstep'
    exact ih h h'

theorem loads_line (hline : ShortLine line) : Loads host (.ofText (line ++ '\n' :: rest)) l f r ↔
    Stops host line l f r ∨ ∃ l' f', Step host line l f l' f' ∧ Loads host (.ofText rest) l' f' r :=
  loads_turn (getline_line hline rest) rfl

theorem loads_step (hline : ShortLine line) (hstep : Step host line l f l' f') :
    Loads host (.ofText (line ++ '\n' :: rest)) l f r ↔ Loads host (.ofText rest) l' f' r := by
  rw [loads_line hline, or_iff_right hstep.not_stops]
  constructor
  · rintro ⟨l₁, f₁, hstep', h⟩
    obtain ⟨rfl, rfl⟩ := hstep.unique hstep'
    exact h
  · exact fun h => ⟨l', f', hstep, h⟩

theorem loads_stops (hline : ShortLine line) (hstops : Stops host line l f r) :
    Loads host (.ofText (line ++ '\n' :: rest)) l f r := (loads_line hline).mpr (Or.inl hstops)

/-- Loading goes on behind lines that lead to a state. -/
theorem loads_reaches (hlines : ∀ line ∈ lines, ShortLine line) (h : Reaches host lines l f l' f') :
    Loads host (.ofText (unlines lines ++ rest)) l f r ↔ Loads host (.ofText rest) l' f' r := by
  induction lines generalizing l f with
  | nil =>
    obtain ⟨rfl, rfl⟩ := h
    rfl
  | cons line lines ih =>
    obtain ⟨l₁, f₁, hstep, h⟩ := h
    rw [List.forall_mem_cons] at hlines
    rw [unlines_cons, List.append_assoc, List.cons_append, loads_step hlines.1 hstep,
      ih hlines.2 h]

/-- What follows lines that the loop does not get past is not read. -/
theorem loads_blocked (hlines : ∀ line ∈ lines, ShortLine line)
    (hblocked : ¬∃ l' f', Reaches host lines l f l' f') (rest' : List Char) :
    Loads host (.ofText (unlines lines ++ rest)) l f r →
      Loads host (.ofText (unlines lines ++ rest')) l f r := by
  induction lines generalizing l f with
  | nil => exact absurd ⟨l, f, rfl, rfl⟩ hblocked
  | cons line lines ih =>
    rw [List.forall_mem_cons] at hlines
    rw [unlines_cons, List.append_assoc, List.append_assoc, List.cons_append, List.cons_append,
      loads_line hlines.1, loads_line hlines.1]
    rintro (hstops | ⟨l', f', hstep, h⟩)
    · exact Or.inl hstops
    · refine Or.inr ⟨l', f', hstep, ih hlines.2 ?_ h⟩
      rintro ⟨l'', f'', hreach⟩
      exact hblocked ⟨l'', f'', l', f', hstep, hreach⟩

theorem loads_last (hline : ShortLine line) :
    Loads host (.ofText line) l f r ↔ r = finish l f := loads_end (getline_last hline) rfl

theorem loads_nil : Loads host (.ofText []) l f r ↔ r = finish l f :=
  loads_last ⟨List.not_mem_nil, by decide⟩

/-- After a line that is too long the loop cannot end. -/
theorem not_loads_failed : ¬Loads host ⟨rest, false, true⟩ l f r := by
  rintro ⟨fuel, h⟩
  -- every turn reads an empty line, which is skipped, and leaves the stream as it is
  induction fuel generalizing f with
  | zero => cases h
  | succ fuel ih =>
    rw [loadLoop_turn (getline_failed _ _) rfl] at h
    exact ih h

theorem loads_long (hline : '\n' ∉ line) (hlen : line.length+1 = MAX_RC_LINE-1) {c : Char}
    (hc : c ≠ '\n') : Loads host (.ofText (line ++ c :: rest)) l f r ↔ Stops host line l f r := by
  rw [loads_turn (getline_long hline hlen hc rest) rfl]
  exact or_iff_left fun ⟨_, _, _, h⟩ => not_loads_failed h

end Reaches

end S3Dhcpd.RcFile
