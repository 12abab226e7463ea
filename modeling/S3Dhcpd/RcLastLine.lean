import S3Dhcpd.RcFates
import S3Dhcpd.RcKeeps
import S3Dhcpd.RcPairs

/-! What becomes of a last line without a terminator. -/
namespace S3Dhcpd.RcFile

/-- A line that may as well be absent at the end of a text: it neither changes a key nor whether a
block is open, or the load fails for an open block in any case, or the line is `.end`. An include is
not among them. -/
def Idle (host : Host) (l : Loader HashApprc) (f : Frame) (last : List Char) : Prop :=
  match lineKind (bufOf last) with
  | .skipped | .flips | .ends => True
  | .included => False
  | .opens => f.lev ≠ 0 ∧ f.lev+1 < MAX_IGNORE ∧
    ∃ b, expandCondition host l.rc (leftover (overwrite last f.read_buf)) ((bufOf last).drop 3) =
      .ok b
  | .closes => 2 ≤ f.lev
  | .key => doIgnore f = true ∨ ∃ key val, HandsOn host l.rc (bufOf last) key val ∧
    if f.lev = 0 then isArrayKey host key = false ∧
      l.rc.value (String.ofList key) = some (String.ofList val)
    else Takes host l.rc key val

variable {σ : Type} [KeyTable σ] {host : Host} {l l' : Loader σ} {f f' : Frame} {last : List Char}

/-- Two ends of a load come to the same when both find an open block, or neither does and the keys
are the same. -/
theorem fate_finish : fate (finish l' f') = fate (finish l f) ↔
    (f'.lev ≠ 0 ∧ f.lev ≠ 0) ∨ (f'.lev = 0 ∧ f.lev = 0 ∧
      KeyTable.value l'.rc = KeyTable.value l.rc) := by
  rw [finish, finish]
  split_ifs with h h' h'
  · simp [fate_locate, h, h']
  · simp [fate, h, h']
  · simp [fate, h, h']
  · simp only [not_not] at h h'
    simp [fate, h, h']

section Errors
variable {rc : σ} {line buf name cond : List Char} {behind : Option (List Char)}

theorem refusal_ne (e : HashTableException) : refusal e ≠ .unclosedIf := by
  cases e <;> exact fun h => by cases h

theorem mapError_unclosed {α : Type} (r : Except HashTableException α) :
    r.mapError refusal ≠ .error .unclosedIf := by
  cases r with
  | error e => exact fun h => refusal_ne e (Except.error.inj h)
  | ok a => exact fun h => by cases h

theorem seekKey_unclosed (key : String) : seekKey rc key ≠ .error .unclosedIf :=
  mapError_unclosed _

theorem insertKey_unclosed (key val : List Char) : insertKey rc key val ≠ .error .unclosedIf :=
  mapError_unclosed _

/-- Only the end of the loop complains of an open block. -/
theorem expandVar_unclosed : expandVar host rc name ≠ .error .unclosedIf := by
  rw [expandVar]
  generalize (if name.head? = some '$' then 1 else 0 : ℕ) = env
  dsimp only
  split
  · exact fun h => by cases h
  · split
    · rename_i e hseek
      exact fun h => seekKey_unclosed _ (hseek.trans (congrArg _ (Except.error.inj h)))
    · split
      · exact fun h => by cases h
      · exact fun h => by cases h

theorem trim_unclosed : trim host line ≠ .error .unclosedIf := by
  intro h
  rw [trim] at h
  split_ifs at h
  cases h

theorem splitCondition_unclosed : splitCondition cond ≠ .error .unclosedIf := by
  intro h
  rw [splitCondition] at h
  split at h
  · cases h
  · split_ifs at h
    split at h <;> cases h

theorem rightSide_unclosed {found : Option (List Char)} :
    rightSide behind found ≠ .error .unclosedIf := by
  intro h
  rw [rightSide.eq_def] at h
  split at h
  · cases h
  · split at h <;> cases h

theorem sideValue_unclosed : sideValue host rc line ≠ .error .unclosedIf := by
  rw [sideValue.eq_def]
  split
  · exact bind_ne_error expandVar_unclosed fun a h => by cases h
  · exact fun h => by cases h

theorem expandConditionLoop_unclosed (fuel : ℕ) :
    expandConditionLoop host rc fuel behind cond ≠ .error .unclosedIf := by
  induction fuel generalizing behind cond with
  | zero => exact fun h => by cases h
  | succ fuel ih =>
    rw [expandConditionLoop]
    refine bind_ne_error splitCondition_unclosed ?_
    rintro ⟨lh, condition, found⟩
    refine bind_ne_error rightSide_unclosed fun rh => ?_
    have hsides (rh : List Char) (condition : Bool) : (do
        let lh ← trim host lh
        let rh ← trim host rh
        let c ← sideValue host rc lh
        pure (if condition then c == rh else c != rh)) ≠
          (.error .unclosedIf : Except LoadError Bool) := by
      refine bind_ne_error trim_unclosed fun lh => ?_
      refine bind_ne_error trim_unclosed fun rh => ?_
      exact bind_ne_error sideValue_unclosed fun c h => by cases h
    dsimp only
    -- behind `&&` and behind `||` there may be a condition, or nothing
    split
    · refine bind_ne_error ih fun r => ?_
      rw [pure_bind]
      dsimp only
      split
      · exact bind_ne_error ih fun r => hsides _ _
      · exact hsides _ _
    · rw [pure_bind]
      dsimp only
      split
      · exact bind_ne_error ih fun r => hsides _ _
      · exact hsides _ _

theorem addLoop_unclosed {s : List Char} {n skip : ℕ} {st : AddState} :
    addLoop host rc line s n skip st ≠ .error .unclosedIf := by
  induction s generalizing n skip st with
  | nil =>
    intro h
    rw [addLoop] at h
    cases h
  | cons c s ih =>
    cases n with
    | zero =>
      intro h
      rw [addLoop] at h
      · cases h
      · exact fun h => List.cons_ne_nil _ _ h
    | succ n =>
      cases skip with
      | succ skip =>
        rw [addLoop]
        exact ih
      | zero =>
        rw [addLoop]
        split_ifs
        · exact ih
        · exact ih
        · exact fun h => by cases h
        · exact ih
        · exact ih
        · cases hvar : expandVar host rc s with
          | error e => exact fun h => expandVar_unclosed (hvar.trans (congrArg _ (Except.error.inj h)))
          | ok res => exact ih
        · exact ih
        · exact ih

theorem add2_unclosed {key val : List Char} : add2 host rc key val ≠ .error .unclosedIf := by
  rw [add2]
  split_ifs
  · exact fun h => by cases h
  · refine bind_ne_error (seekKey_unclosed _) fun found => ?_
    refine bind_ne_error (insertKey_unclosed _ _) fun rc => ?_
    split_ifs
    · exact fun h => by cases h
    · exact insertKey_unclosed _ _
  · exact insertKey_unclosed _ _

theorem addLine_unclosed : addLine host rc buf ≠ .error .unclosedIf := by
  intro h
  rw [addLine] at h
  split_ifs at h
  · cases h
  · cases hloop : addLoop host rc buf buf (buf.rdropWhile isTrimmed).length 0 ⟨[], [], false, 0⟩ with
    | error e =>
      rw [hloop] at h
      exact addLoop_unclosed (hloop.trans (congrArg _ (Except.error.inj h)))
    | ok st =>
      rw [hloop] at h
      dsimp only at h
      split_ifs at h
      · cases h
      · cases h
      · exact add2_unclosed h

end Errors

section Ends
variable {r : Except LoadError (Loader σ)} {e : LoadError} {is : IStream}
  {o : Except LoadError (String → Option String)} {lines : List (List Char)}

/-- A load that is over finds an open block or ends normally. -/
theorem finish_ne_error (he : e ≠ .unclosedIf) : .error e ≠ fate (finish l f) := by
  rw [finish]
  split_ifs
  · rw [fate_locate]
    exact fun h => he (Except.error.inj h)
  · exact fun h => by cases h

theorem LoadsTo.eq_iff {text : List Char} {o' : Except LoadError (String → Option String)}
    (h : LoadsTo host text l f o) : LoadsTo host text l f o' ↔ o = o' :=
  ⟨h.unique, fun heq => heq ▸ h⟩

theorem loadsTo_step (hline : ShortLine last) (hstep : Step host last l f l' f') :
    LoadsTo host (last ++ ['\n']) l f (fate (finish l f)) ↔
      (f'.lev ≠ 0 ∧ f.lev ≠ 0) ∨ (f'.lev = 0 ∧ f.lev = 0 ∧
        KeyTable.value l'.rc = KeyTable.value l.rc) := by
  have hload : LoadsTo host (last ++ ['\n']) l f (fate (finish l' f')) :=
    ⟨_, (loads_step hline hstep).mpr (loads_nil.mpr rfl), rfl⟩
  rw [hload.eq_iff, fate_finish]

theorem not_loadsTo_error (hline : ShortLine last) (hstops : Stops host last l f (.error e))
    (he : e.inner ≠ .unclosedIf) : ¬LoadsTo host (last ++ ['\n']) l f (fate (finish l f)) := by
  have hload : LoadsTo host (last ++ ['\n']) l f (.error e.inner) :=
    ⟨_, loads_stops hline hstops, rfl⟩
  rw [hload.eq_iff]
  exact finish_ne_error he

/-- An exception of the line is not the one of an open block. -/
theorem not_loadsTo_throw (hline : ShortLine last)
    (hturn : turn host l (f.nextLine last) last = .throw e) (he : e ≠ .unclosedIf) :
    ¬LoadsTo host (last ++ ['\n']) l f (fate (finish l f)) :=
  not_loadsTo_error hline (.throw hturn) (by rwa [inner_locate])

theorem same_levels (l : Loader σ) (f : Frame) :
    (f.lev ≠ 0 ∧ f.lev ≠ 0) ∨ (f.lev = 0 ∧ f.lev = 0 ∧
      KeyTable.value l.rc = KeyTable.value l.rc) := by
  rcases eq_or_ne f.lev 0 with h | h
  · exact Or.inr ⟨h, h, rfl⟩
  · exact Or.inl ⟨h, h⟩

theorem same_level {v v' : String → Option String} :
    (f.lev ≠ 0 ∧ f.lev ≠ 0) ∨ (f.lev = 0 ∧ f.lev = 0 ∧ v' = v) ↔ f.lev ≠ 0 ∨ v' = v := by
  rcases eq_or_ne f.lev 0 with h | h
  · simp [h]
  · simp [h]

theorem loadsTo_opens (hline : ShortLine last) (hkind : lineKind (bufOf last) = .opens) :
    LoadsTo host (last ++ ['\n']) l f (fate (finish l f)) ↔ f.lev ≠ 0 ∧ f.lev+1 < MAX_IGNORE ∧
      ∃ b, expandCondition host l.rc (leftover (overwrite last f.read_buf)) ((bufOf last).drop 3) =
        .ok b := by
  cases hcond : expandCondition host l.rc (leftover (overwrite last f.read_buf))
      ((bufOf last).drop 3) with
  | error e =>
    have hturn : turn host l (f.nextLine last) last = .throw e := by
      rw [turn, hkind]
      dsimp only [Frame.nextLine]
      rw [hcond]
    have he : e ≠ .unclosedIf := by
      rintro rfl
      exact expandConditionLoop_unclosed _ hcond
    refine iff_of_false (not_loadsTo_throw hline hturn he) ?_
    rintro ⟨_, _, b, hb⟩
    cases hb
  | ok b =>
    by_cases hlev : f.lev+1 < MAX_IGNORE
    · rw [loadsTo_step hline (.next (turn_opens hkind hcond hlev))]
      constructor
      · rintro (⟨_, h⟩ | ⟨h, _⟩)
        · exact ⟨h, hlev, b, rfl⟩
        · exact absurd h (Nat.succ_ne_zero _)
      · exact fun h => Or.inl ⟨Nat.succ_ne_zero _, h.1⟩
    · have hturn : turn host l (f.nextLine last) last = .throw .fault := by
        rw [turn, hkind]
        dsimp only [Frame.nextLine]
        rw [hcond]
        exact if_neg hlev
      refine iff_of_false (not_loadsTo_throw hline hturn fun h => by cases h) ?_
      exact fun h => hlev h.2.1

theorem loadsTo_key (hline : ShortLine last) (hkind : lineKind (bufOf last) = .key) :
    LoadsTo host (last ++ ['\n']) l f (fate (finish l f)) ↔ doIgnore f = true ∨
      ∃ rc, addLine host l.rc (bufOf last) = .ok rc ∧
        (f.lev ≠ 0 ∨ KeyTable.value rc = KeyTable.value l.rc) := by
  by_cases hignore : doIgnore f = true
  · rw [loadsTo_step hline (.next (turn_ignored hkind hignore))]
    exact iff_of_true (same_levels l f) (Or.inl hignore)
  · rw [or_iff_right hignore]
    have hactive : doIgnore (f.nextLine last) = false := Bool.not_eq_true _ ▸ hignore
    cases hadd : addLine host l.rc (bufOf last) with
    | error e =>
      have hturn : turn host l (f.nextLine last) last = .throw e := by
        rw [turn_key hkind hactive, hadd]
      have he : e ≠ .unclosedIf := by
        rintro rfl
        exact addLine_unclosed hadd
      refine iff_of_false (not_loadsTo_throw hline hturn he) ?_
      rintro ⟨rc, hrc, _⟩
      cases hrc
    | ok rc =>
      have hturn : turn host l (f.nextLine last) last = .next { l with rc } (f.nextLine last) := by
        rw [turn_key hkind hactive, hadd]
      rw [loadsTo_step hline (.next hturn)]
      refine same_level.trans ⟨fun h => ⟨rc, rfl, h⟩, ?_⟩
      rintro ⟨rc', hrc, h⟩
      cases hrc
      exact h

end Ends

section Fates
variable {l l' : Loader HashApprc} {f f' : Frame} {lines : List (List Char)}

/-- A load keeps no section. -/
theorem Reaches.keyst (h : Reaches host lines newLoader f l' f') : l'.rc.keyst = none := by
  refine h.keeps (P := fun rc => rc.keyst = none) ?_ rfl
  intro rc key val rc' hrc hadd
  have hinsert {rc rc' : HashApprc} {key val : List Char} (hrc : rc.keyst = none)
      (h : insertKey rc key val = .ok rc') : rc'.keyst = none :=
    (HashApprc.insert_keyst (mapError_ok.mp h)).trans hrc
  by_cases harray : isArrayKey host key = true
  · obtain ⟨_, _, rc₁, _, helement, _, hcounter⟩ := (add2_array harray).mp hadd
    exact (HashApprc.insert_keyst hcounter).trans ((HashApprc.insert_keyst helement).trans hrc)
  · rw [add2_key (eq_false_of_ne_true harray)] at hadd
    exact hinsert hrc hadd

/-- The terminator of a line that is no include changes nothing exactly when the line is idle. -/
theorem loadsTo_idle (hline : ShortLine last) (hkind : lineKind (bufOf last) ≠ .included)
    (hkeyst : l.rc.keyst = none) :
    LoadsTo host (last ++ ['\n']) l f (fate (finish l f)) ↔ Idle host l f last := by
  rw [Idle]
  cases hkind' : lineKind (bufOf last) with
  | skipped =>
    dsimp only
    rw [loadsTo_step hline (.next (turn_skipped hkind'))]
    exact iff_true_intro (same_levels l f)
  | flips =>
    dsimp only
    rw [loadsTo_step hline (.next (turn_flips hkind'))]
    exact iff_true_intro (same_levels l f)
  | ends =>
    dsimp only
    refine iff_true_intro ⟨_, loads_stops hline (.leave (turn_ends hkind')), ?_⟩
    exact fate_finish.mpr (same_levels l f)
  | closes =>
    dsimp only
    by_cases hlev : f.lev = 0
    · have hturn : turn host l (f.nextLine last) last = .throw .unmatchedEndif :=
        turn_unmatched hkind' hlev
      refine iff_of_false (not_loadsTo_throw hline hturn fun h => by cases h) ?_
      omega
    · rw [loadsTo_step hline (.next (turn_closes hkind' hlev))]
      dsimp only [Frame.nextLine]
      omega
  | opens => exact loadsTo_opens hline hkind'
  | key =>
    rw [loadsTo_key hline hkind']
    refine or_congr_right ?_
    calc (∃ rc, addLine host l.rc (bufOf last) = .ok rc ∧
          (f.lev ≠ 0 ∨ KeyTable.value rc = KeyTable.value l.rc))
      _ ↔ ∃ key val, HandsOn host l.rc (bufOf last) key val ∧
          ∃ rc, add2 host l.rc key val = .ok rc ∧
            (f.lev ≠ 0 ∨ KeyTable.value rc = KeyTable.value l.rc) := by
        constructor
        · rintro ⟨rc, hadd, hsame⟩
          obtain ⟨key, val, hhands, hadd⟩ := addLine_ok hadd
          exact ⟨key, val, hhands, rc, hadd, hsame⟩
        · rintro ⟨key, val, hhands, rc, hadd, hsame⟩
          exact ⟨rc, hhands.addLine.trans hadd, hsame⟩
      _ ↔ _ := by
        refine exists_congr fun key => exists_congr fun val => and_congr_right fun _ => ?_
        split_ifs with hlev
        · rw [← add2_same hkeyst]
          simp only [hlev, ne_eq, not_true_eq_false, false_or]
          rfl
        · rw [← add2_ok_iff hkeyst]
          simp only [hlev, ne_eq, not_false_eq_true, true_or, and_true]
  | included => exact absurd hkind' hkind

/-- The terminator decides nothing else: it is looked at in the state to which the other lines
lead. -/
theorem sameFate_reaches (hlines : ∀ line ∈ lines, ShortLine line) (hlast : ShortLine last)
    (hreach : Reaches host lines l f l' f') :
    SameFate host (unlines lines ++ (last ++ [])) (unlines lines ++ (last ++ ['\n'])) l f ↔
      LoadsTo host (last ++ ['\n']) l' f' (fate (finish l' f')) := by
  rw [List.append_nil]
  simp only [SameFate, LoadsTo, loads_reaches hlines hreach, loads_last hlast]
  constructor
  · exact fun h => (h _).mp ⟨_, rfl, rfl⟩
  · rintro h o
    constructor
    · rintro ⟨_, rfl, rfl⟩
      exact h
    · intro ho
      exact ⟨_, rfl, LoadsTo.unique h ho⟩

/-- When the loop does not come to the last line, it is not looked at. -/
theorem sameFate_blocked (hlines : ∀ line ∈ lines, ShortLine line)
    (hreach : ¬∃ l' f', Reaches host lines l f l' f') (text text' : List Char) :
    SameFate host (unlines lines ++ text) (unlines lines ++ text') l f := by
  intro o
  constructor
  · rintro ⟨r, hr, ho⟩
    exact ⟨r, loads_blocked hlines hreach _ hr, ho⟩
  · rintro ⟨r, hr, ho⟩
    exact ⟨r, loads_blocked hlines hreach _ hr, ho⟩

/-- A last line without a terminator is as good as one with it when it is idle in the state to which
the other lines lead, and, unless it is an include, only then. -/
theorem last_line_counts (hlines : ∀ line ∈ lines, '\n' ∉ line ∧ line.length < 1000)
    (hlast : '\n' ∉ last ∧ last.length < 1000) :
    ((∀ l' f', Reaches host lines newLoader .initial l' f' → Idle host l' f' last) →
      SameFate host (unlines lines ++ last) (unlines lines ++ last ++ ['\n']) newLoader
        .initial) ∧
    (lineKind (bufOf last) ≠ .included →
      SameFate host (unlines lines ++ last) (unlines lines ++ last ++ ['\n']) newLoader .initial →
      ∀ l' f', Reaches host lines newLoader .initial l' f' → Idle host l' f' last) := by
  have hshort (line : List Char) (h : '\n' ∉ line ∧ line.length < 1000) : ShortLine line :=
    ⟨h.1, h.2.trans (by decide)⟩
  have hlines (line : List Char) (h : line ∈ lines) : ShortLine line := hshort line (hlines line h)
  have hlast := hshort last hlast
  have hidle {l' : Loader HashApprc} {f' : Frame} (h : lineKind (bufOf last) ≠ .included)
      (hreach : Reaches host lines newLoader .initial l' f') :
      SameFate host (unlines lines ++ last) (unlines lines ++ last ++ ['\n']) newLoader .initial ↔
        Idle host l' f' last := by
    have hsame := sameFate_reaches hlines hlast hreach
    rw [List.append_nil, ← List.append_assoc] at hsame
    rw [hsame, loadsTo_idle hlast h hreach.keyst]
  constructor
  · intro h
    by_cases hreach : ∃ l' f', Reaches host lines (newLoader : Loader HashApprc) .initial l' f'
    · obtain ⟨l', f', hreach⟩ := hreach
      refine (hidle (fun hkind => ?_) hreach).mpr (h l' f' hreach)
      have hidle := h l' f' hreach
      rw [Idle, hkind] at hidle
      exact hidle
    · rw [List.append_assoc]
      exact sameFate_blocked hlines hreach last (last ++ ['\n'])
  · exact fun hkind hsame l' f' hreach => (hidle hkind hreach).mp hsame

theorem last_line_lost : ¬∀ (host : Host) (lines : List (List Char)) (last : List Char),
    (∀ line ∈ lines, '\n' ∉ line ∧ line.length < 1000) → '\n' ∉ last ∧ last.length < 1000 →
    SameFate host (unlines lines ++ last) (unlines lines ++ last ++ ['\n']) newLoader
      .initial := by
  intro h
  have hsame := h bareHost [] "abc=1".toList (fun _ h => absurd h List.not_mem_nil) (by decide)
  have hline : ShortLine "abc=1".toList := by decide
  have hload := (sameFate_reaches (fun _ h => absurd h List.not_mem_nil) hline ⟨rfl, rfl⟩).mp hsame
  have hidle := (loadsTo_idle hline (by decide) rfl).mp hload
  rw [Idle, show lineKind (bufOf "abc=1".toList) = .key from rfl] at hidle
  -- the line is not ignored, and an empty table has no key
  rcases hidle with hignore | ⟨key, val, _, hvalue⟩
  · cases hignore
  · cases (HashApprc.value_new _).symm.trans hvalue.2

/-- A comment needs no terminator; an `.if` does, since nothing closes it. -/
theorem last_line_counts_example :
    SameFate bareHost (unlines ["abc=1".toList] ++ "# end".toList)
      (unlines ["abc=1".toList] ++ "# end".toList ++ ['\n']) newLoader .initial ∧
    ¬SameFate bareHost (unlines [] ++ ".if 1 == 1".toList)
      (unlines [] ++ ".if 1 == 1".toList ++ ['\n']) newLoader .initial := by
  have hlines : ∀ line ∈ ["abc=1".toList], '\n' ∉ line ∧ line.length < 1000 := by decide
  have hlast : '\n' ∉ "# end".toList ∧ "# end".toList.length < 1000 := by decide
  have hopens : '\n' ∉ ".if 1 == 1".toList ∧ ".if 1 == 1".toList.length < 1000 := by decide
  refine ⟨(last_line_counts hlines hlast).1 fun _ _ _ => trivial, fun hsame => ?_⟩
  have hidle := (last_line_counts (fun _ h => absurd h List.not_mem_nil) hopens).2 (by decide) hsame
    newLoader .initial ⟨rfl, rfl⟩
  exact absurd rfl hidle.1

end Fates

end S3Dhcpd.RcFile
