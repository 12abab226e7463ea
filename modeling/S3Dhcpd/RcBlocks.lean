import S3Dhcpd.RcFates

/-! Well nested texts, what their blocks mean, and that the flags of the loop implement it. -/
namespace S3Dhcpd.RcFile

/-- The lines of a well nested text. A `fork` is a block with an `.else`. -/
inductive Block where
  | nil
  | plain (line : List Char) (next : Block)
  | branch (opening : List Char) (body : Block) (closing : List Char) (next : Block)
  | fork (opening : List Char) (body : Block) (flip : List Char) (other : Block)
      (closing : List Char) (next : Block)

namespace Block

def lines : Block → List (List Char)
  | .nil => []
  | .plain line next => line :: next.lines
  | .branch opening body closing next =>
    opening :: (body.lines ++ closing :: next.lines)
  | .fork opening body flip other closing next =>
    opening :: (body.lines ++ flip :: (other.lines ++ closing :: next.lines))

def depth : Block → ℕ
  | .nil => 0
  | .plain _ next => next.depth
  | .branch _ body _ next => max (body.depth+1) next.depth
  | .fork _ body _ other _ next => max (max body.depth other.depth+1) next.depth

/-- The line fits in the buffer and is of one of the kinds. -/
def Fits (kinds : List LineKind) (line : List Char) : Prop :=
  ShortLine line ∧ lineKind (bufOf line) ∈ kinds

instance (kinds : List LineKind) (line : List Char) : Decidable (Fits kinds line) :=
  inferInstanceAs (Decidable (_ ∧ _))

def WellNested : Block → Prop
  | .nil => True
  | .plain line next => Fits [.skipped, .key] line ∧ next.WellNested
  | .branch opening body closing next =>
    Fits [.opens] opening ∧ body.WellNested ∧ Fits [.closes] closing ∧ next.WellNested
  | .fork opening body flip other closing next =>
    Fits [.opens] opening ∧ body.WellNested ∧ Fits [.flips] flip ∧ other.WellNested ∧
      Fits [.closes] closing ∧ next.WellNested

/-- What a text means where it is `active`: the key lines whose branches are all taken, in order,
and the table with them. Every condition is evaluated, at its place, with what the lines in front of
it have left in the buffer. -/
def taken {σ : Type} [KeyTable σ] (host : Host) :
    Block → Bool → List Char → σ → Except LoadError (List (List Char) × σ)
  | .nil, _, _, rc => .ok ([], rc)
  | .plain line next, active, read_buf, rc =>
    if lineKind (bufOf line) = .key ∧ active then do
      let rc ← addLine host rc (bufOf line)
      let (added, rc) ← next.taken host active (overwrite line read_buf) rc
      pure (line :: added, rc)
    else next.taken host active (overwrite line read_buf) rc
  | .branch opening body closing next, active, read_buf, rc => do
    let read_buf := overwrite opening read_buf
    let b ← expandCondition host rc (leftover read_buf) ((bufOf opening).drop 3)
    let (added, rc) ← body.taken host (active && b) read_buf rc
    let read_buf := bufferAfter (body.lines ++ [closing]) read_buf
    let (behind, rc) ← next.taken host active read_buf rc
    pure (added ++ behind, rc)
  | .fork opening body flip other closing next, active, read_buf, rc => do
    let read_buf := overwrite opening read_buf
    let b ← expandCondition host rc (leftover read_buf) ((bufOf opening).drop 3)
    let (added, rc) ← body.taken host (active && b) read_buf rc
    let read_buf := bufferAfter (body.lines ++ [flip]) read_buf
    let (added', rc) ← other.taken host (active && !b) read_buf rc
    let read_buf := bufferAfter (other.lines ++ [closing]) read_buf
    let (behind, rc) ← next.taken host active read_buf rc
    pure (added ++ (added' ++ behind), rc)

instance decidableWellNested : ∀ b : Block, Decidable b.WellNested
  | .nil => inferInstanceAs (Decidable True)
  | .plain _ next =>
    have := next.decidableWellNested
    inferInstanceAs (Decidable (_ ∧ _))
  | .branch _ body _ next =>
    have := body.decidableWellNested
    have := next.decidableWellNested
    inferInstanceAs (Decidable (_ ∧ _ ∧ _ ∧ _))
  | .fork _ body _ other _ next =>
    have := body.decidableWellNested
    have := other.decidableWellNested
    have := next.decidableWellNested
    inferInstanceAs (Decidable (_ ∧ _ ∧ _ ∧ _ ∧ _ ∧ _))

end Block

variable {σ : Type} [KeyTable σ] {host : Host} {l : Loader σ} {f f' f'' : Frame} {rc rc' : σ}
  {line read_buf : List Char} {b active : Bool} {added : List (List Char)}
  {block body next : Block}

section Lines

theorem Block.WellNested.shortLines (h : block.WellNested) :
    ∀ line ∈ block.lines, ShortLine line := by
  induction block with
  | nil => exact fun line h => absurd h List.not_mem_nil
  | plain line next ih => exact List.forall_mem_cons.mpr ⟨h.1.1, ih h.2⟩
  | branch opening body closing next ihbody ihnext =>
    obtain ⟨hopening, hbody, hclosing, hnext⟩ := h
    refine List.forall_mem_cons.mpr ⟨hopening.1, ?_⟩
    refine List.forall_mem_append.mpr ⟨ihbody hbody, ?_⟩
    exact List.forall_mem_cons.mpr ⟨hclosing.1, ihnext hnext⟩
  | fork opening body flip other closing next ihbody ihother ihnext =>
    obtain ⟨hopening, hbody, hflip, hother, hclosing, hnext⟩ := h
    refine List.forall_mem_cons.mpr ⟨hopening.1, ?_⟩
    refine List.forall_mem_append.mpr ⟨ihbody hbody, ?_⟩
    refine List.forall_mem_cons.mpr ⟨hflip.1, ?_⟩
    refine List.forall_mem_append.mpr ⟨ihother hother, ?_⟩
    exact List.forall_mem_cons.mpr ⟨hclosing.1, ihnext hnext⟩

/-- The table is the old one with the lines added to it. -/
theorem Block.foldlM_taken (h : block.taken host active read_buf rc = .ok (added, rc')) :
    added.foldlM (fun rc line => addLine host rc (bufOf line)) rc = .ok rc' := by
  induction block generalizing active read_buf rc added rc' with
  | nil =>
    cases h
    rfl
  | plain line next ih =>
    rw [taken] at h
    split_ifs at h with hkey
    · obtain ⟨rc₁, hadd, h⟩ := bind_eq_ok.mp h
      obtain ⟨⟨behind, rc₂⟩, hnext, h⟩ := bind_eq_ok.mp h
      cases h
      rw [List.foldlM_cons, hadd]
      exact ih hnext
    · exact ih h
  | branch opening body closing next ihbody ihnext =>
    obtain ⟨b, _, h⟩ := bind_eq_ok.mp h
    obtain ⟨⟨added, rc₁⟩, hbody, h⟩ := bind_eq_ok.mp h
    obtain ⟨⟨behind, rc₂⟩, hnext, h⟩ := bind_eq_ok.mp h
    cases h
    rw [List.foldlM_append, ihbody hbody]
    exact ihnext hnext
  | fork opening body flip other closing next ihbody ihother ihnext =>
    obtain ⟨b, _, h⟩ := bind_eq_ok.mp h
    obtain ⟨⟨added, rc₁⟩, hbody, h⟩ := bind_eq_ok.mp h
    obtain ⟨⟨added', rc₂⟩, hother, h⟩ := bind_eq_ok.mp h
    obtain ⟨⟨behind, rc₃⟩, hnext, h⟩ := bind_eq_ok.mp h
    cases h
    rw [List.foldlM_append, ihbody hbody]
    exact (List.foldlM_append ..).trans ((congrArg (· >>= _) (ihother hother)).trans
      (ihnext hnext))

end Lines

section Flags

/-- The frame in the branch of an `.if`. -/
def Frame.enter (f : Frame) (b : Bool) : Frame :=
  { f with ignore := Function.update f.ignore (f.lev+1) (!b), lev := f.lev+1 }

@[simp] theorem Frame.enter_self (f : Frame) (b : Bool) : (f.enter b).ignore (f.lev+1) = !b :=
  Function.update_self ..

theorem Frame.enter_below (b : Bool) {i : ℕ} (hi : i ≤ f.lev) :
    (f.enter b).ignore i = f.ignore i := Function.update_of_ne (Nat.ne_of_lt (Nat.lt_succ_of_le hi)) ..

theorem not_doIgnore_enter (f : Frame) (b : Bool) :
    (!doIgnore (f.enter b)) = (!doIgnore f && b) := by
  have hor : doIgnore (f.enter b) = (doIgnore f || !b) := by
    rw [Bool.eq_iff_iff, Bool.or_eq_true, doIgnore_iff, doIgnore_iff]
    constructor
    · rintro ⟨i, hi, hignore⟩
      rcases Nat.le_succ_iff.mp hi with hle | rfl
      · rw [f.enter_below b hle] at hignore
        exact Or.inl ⟨i, hle, hignore⟩
      · rw [f.enter_self] at hignore
        exact Or.inr hignore
    · rintro (⟨i, hi, hignore⟩ | hb)
      · exact ⟨i, Nat.le_succ_of_le hi, (f.enter_below b hi).trans hignore⟩
      · exact ⟨f.lev+1, le_rfl, (f.enter_self b).trans hb⟩
  rw [hor, Bool.not_or, Bool.not_not]

theorem Frame.Agrees.trans (h : f.Agrees f') (h' : f'.Agrees f'') : f.Agrees f'' :=
  ⟨h.lev.trans h'.lev, fun i hi => (h.ignore i hi).trans (h'.ignore i (h.lev ▸ hi))⟩

theorem step_opens (hline : Block.Fits [.opens] line)
    (hcond : expandCondition host l.rc (leftover (overwrite line f.read_buf))
      ((bufOf line).drop 3) = .ok b) (hlev : f.lev+1 < MAX_IGNORE) :
    Step host line l f l ((f.nextLine line).enter b) :=
  .next (turn_opens (List.mem_singleton.mp hline.2) hcond hlev)

/-- An `.else` leads into the other branch. -/
theorem step_flips (hline : Block.Fits [.flips] line) (hagrees : (f.enter b).Agrees f') :
    ∃ f'', Step host line l f' l f'' ∧ (f.enter (!b)).Agrees f'' := by
  have hlev : f'.lev = f.lev+1 := hagrees.lev.symm
  refine ⟨_, .next (turn_flips (List.mem_singleton.mp hline.2)), hlev.symm, fun i hi => ?_⟩
  dsimp only [Frame.nextLine]
  rw [hlev]
  rcases Nat.le_succ_iff.mp hi with hle | rfl
  -- the flags of the levels outside are those of `f` in both branches
  · rw [Function.update_of_ne (by omega), ← hagrees.ignore i hi, f.enter_below _ hle,
      f.enter_below _ hle]
  · have hself : f'.ignore (f.lev+1) = !b :=
      (hagrees.ignore (f.lev+1) le_rfl).symm.trans (f.enter_self b)
    rw [Function.update_self, hself]
    exact f.enter_self _

/-- An `.endif` leads out of a branch. -/
theorem step_closes (hline : Block.Fits [.closes] line) (hagrees : (f.enter b).Agrees f') :
    ∃ f'', Step host line l f' l f'' ∧ f.Agrees f'' := by
  have hlev : f'.lev = f.lev+1 := hagrees.lev.symm
  have hopen : (f'.nextLine line).lev ≠ 0 := hlev.trans_ne (Nat.succ_ne_zero _)
  refine ⟨_, .next (turn_closes (List.mem_singleton.mp hline.2) hopen), ?_, fun i hi => ?_⟩
  · dsimp only [Frame.nextLine]
    rw [hlev, Nat.add_sub_cancel]
  · exact (f.enter_below b hi).symm.trans (hagrees.ignore i (Nat.le_succ_of_le hi))

end Flags

section Runs

/-- A plain line adds its key where it is active. -/
theorem step_plain (hline : Block.Fits [.skipped, .key] line) (hdone : Block.taken host
    (.plain line next) (!doIgnore f) f.read_buf l.rc = .ok (added, rc')) :
    ∃ rc₁ added', Step host line l f { l with rc := rc₁ } (f.nextLine line) ∧
      next.taken host (!doIgnore f) (overwrite line f.read_buf) rc₁ = .ok (added', rc') := by
  rw [Block.taken] at hdone
  split_ifs at hdone with hkey
  · obtain ⟨hkey, hactive⟩ := hkey
    obtain ⟨rc₁, hadd, hdone⟩ := bind_eq_ok.mp hdone
    obtain ⟨⟨behind, rc₂⟩, hnext, hdone⟩ := bind_eq_ok.mp hdone
    cases hdone
    have hignore : doIgnore (f.nextLine line) = false := by
      rw [← Bool.not_eq_true']
      exact hactive
    refine ⟨rc₁, behind, .next ?_, hnext⟩
    rw [turn_key hkey hignore, hadd]
  · refine ⟨l.rc, added, .next ?_, hdone⟩
    rcases List.mem_cons.mp hline.2 with hskipped | hmem
    · exact turn_skipped hskipped
    · have hkind := List.mem_singleton.mp hmem
      have hignore : doIgnore f = true := by
        by_contra hactive
        exact hkey ⟨hkind, by rw [Bool.not_eq_true] at hactive; rw [hactive]; rfl⟩
      exact turn_ignored hkind hignore

/-- The flags implement the blocks: the loop runs through a block, adds what it means and leaves the
flags of the levels outside as they are. -/
theorem reaches_block (hnested : block.WellNested) (hdepth : f.lev+block.depth < MAX_IGNORE)
    (h : block.taken host (!doIgnore f) f.read_buf l.rc = .ok (added, rc')) :
    ∃ f', Reaches host block.lines l f { l with rc := rc' } f' ∧ f.Agrees f' := by
  -- on the block; what is behind a branch starts from flags that agree with those in front of it
  induction block generalizing l f added rc' with
  | nil =>
    cases h
    exact ⟨f, ⟨rfl, rfl⟩, .refl f⟩
  | plain line next ih =>
    obtain ⟨rc₁, added', hstep, hnext⟩ := step_plain hnested.1 h
    obtain ⟨f', hreach, hagrees⟩ := @ih { l with rc := rc₁ } (f.nextLine line) _ _
      hnested.2 hdepth hnext
    exact ⟨f', ⟨_, _, hstep, hreach⟩, hagrees.lev, hagrees.ignore⟩
  | branch opening body closing next ihbody ihnext =>
    obtain ⟨hopening, hbody, hclosing, hnext⟩ := hnested
    obtain ⟨b, hcond, h⟩ := bind_eq_ok.mp h
    obtain ⟨⟨added, rc₁⟩, hbodied, h⟩ := bind_eq_ok.mp h
    obtain ⟨⟨behind, rc₂⟩, hbehind, h⟩ := bind_eq_ok.mp h
    cases h
    rw [Block.depth] at hdepth
    -- inside the branch the text is active where it is outside and the branch is taken
    rw [← not_doIgnore_enter] at hbodied
    obtain ⟨f₁, hreach, hagrees⟩ := @ihbody l ((f.nextLine opening).enter b) _ _ hbody
      (by dsimp only [Frame.enter, Frame.nextLine]; omega) hbodied
    have hagrees : (f.enter b).Agrees f₁ := ⟨hagrees.lev, hagrees.ignore⟩
    obtain ⟨f₂, hclose, hagrees⟩ :=
      @step_closes _ _ host { l with rc := rc₁ } f f₁ closing b hclosing hagrees
    have hbuffer : f₂.read_buf =
        bufferAfter (body.lines ++ [closing]) (overwrite opening f.read_buf) :=
      (reaches_append.mpr ⟨_, _, hreach, hclose.reaches⟩).buffer_eq
    rw [hagrees.doIgnore, ← hbuffer] at hbehind
    obtain ⟨f₃, hreach', hagrees'⟩ := @ihnext { l with rc := rc₁ } f₂ _ _ hnext
      (by rw [← hagrees.lev]; omega) hbehind
    refine ⟨f₃, ⟨l, _, step_opens hopening hcond (by omega), ?_⟩, hagrees.trans hagrees'⟩
    exact reaches_append.mpr ⟨_, _, hreach, _, _, hclose, hreach'⟩
  | fork opening body flip other closing next ihbody ihother ihnext =>
    obtain ⟨hopening, hbody, hflip, hother, hclosing, hnext⟩ := hnested
    obtain ⟨b, hcond, h⟩ := bind_eq_ok.mp h
    obtain ⟨⟨added, rc₁⟩, hbodied, h⟩ := bind_eq_ok.mp h
    obtain ⟨⟨added', rc₂⟩, hothered, h⟩ := bind_eq_ok.mp h
    obtain ⟨⟨behind, rc₃⟩, hbehind, h⟩ := bind_eq_ok.mp h
    cases h
    rw [Block.depth] at hdepth
    rw [← not_doIgnore_enter] at hbodied hothered
    obtain ⟨f₁, hreach, hagrees⟩ := @ihbody l ((f.nextLine opening).enter b) _ _ hbody
      (by dsimp only [Frame.enter, Frame.nextLine]; omega) hbodied
    have hagrees : (f.enter b).Agrees f₁ := ⟨hagrees.lev, hagrees.ignore⟩
    -- the `.else` makes the frame one of the other branch
    obtain ⟨f₂, helse, hagrees⟩ :=
      @step_flips _ _ host { l with rc := rc₁ } f f₁ flip b hflip hagrees
    have hbuffer : f₂.read_buf =
        bufferAfter (body.lines ++ [flip]) (overwrite opening f.read_buf) :=
      (reaches_append.mpr ⟨_, _, hreach, helse.reaches⟩).buffer_eq
    rw [hagrees.doIgnore, ← hbuffer] at hothered
    obtain ⟨f₃, hreach', hagrees'⟩ := @ihother { l with rc := rc₁ } f₂ _ _ hother
      (by rw [← hagrees.lev]; dsimp only [Frame.enter]; omega) hothered
    obtain ⟨f₄, hclose, hagrees⟩ :=
      @step_closes _ _ host { l with rc := rc₂ } f f₃ closing (!b) hclosing (hagrees.trans hagrees')
    have hbuffer' : f₄.read_buf = bufferAfter (other.lines ++ [closing]) f₂.read_buf :=
      (reaches_append.mpr ⟨_, _, hreach', hclose.reaches⟩).buffer_eq
    rw [hagrees.doIgnore, ← hbuffer, ← hbuffer'] at hbehind
    obtain ⟨f₅, hreach'', hagrees'⟩ := @ihnext { l with rc := rc₂ } f₄ _ _ hnext
      (by rw [← hagrees.lev]; omega) hbehind
    refine ⟨f₅, ⟨l, _, step_opens hopening hcond (by omega), ?_⟩, hagrees.trans hagrees'⟩
    refine reaches_append.mpr ⟨_, _, hreach, _, _, helse, ?_⟩
    exact reaches_append.mpr ⟨_, _, hreach', _, _, hclose, hreach''⟩

/-- Loading a well nested text adds exactly the key lines whose branches are all taken, in order. -/
theorem loads_taken (hnested : block.WellNested) (hdepth : block.depth ≤ 29)
    (h : block.taken host true [] l.rc = .ok (added, rc')) :
    Loads host (.ofText (unlines block.lines)) l .initial (.ok { l with rc := rc' }) ∧
      added.foldlM (fun rc line => addLine host rc (bufOf line)) l.rc = .ok rc' := by
  refine ⟨?_, block.foldlM_taken h⟩
  have hlev : Frame.initial.lev+block.depth < MAX_IGNORE := by
    rw [Frame.initial, MAX_IGNORE, Nat.zero_add]
    omega
  obtain ⟨f', hreach, hagrees⟩ := @reaches_block _ _ host l .initial rc' added block hnested hlev h
  have hclosed : ¬f'.lev ≠ 0 := fun h => h hagrees.lev.symm
  rw [← List.append_nil (unlines block.lines), loads_reaches hnested.shortLines hreach, loads_nil,
    finish, if_neg hclosed]

/-- A block in the branch that is taken. -/
def exampleBlock : Block :=
  .branch ".if 1 == 1".toList
    (.fork " .if 1 == 2".toList (.plain "abc=1".toList .nil) " .else".toList
      (.plain "abc=2".toList .nil) " .endif".toList .nil)
    ".endif".toList (.plain "xyz=3".toList .nil)

set_option maxRecDepth 4000 in
theorem loads_taken_example :
    Loads bareHost (.ofText (unlines exampleBlock.lines)) bareLoader .initial
      (.ok ⟨(bareLoader.rc.store "abc".toList "2".toList).store "xyz".toList "3".toList, 0⟩) ∧
    ["abc=2".toList, "xyz=3".toList].foldlM
      (fun rc line => addLine bareHost rc (bufOf line)) bareLoader.rc =
        .ok ((bareLoader.rc.store "abc".toList "2".toList).store "xyz".toList "3".toList) :=
  @loads_taken _ _ bareHost bareLoader _ _ exampleBlock (by decide) (by decide) rfl

end Runs

end S3Dhcpd.RcFile
