import S3Dhcpd.RcRuns
import S3Dhcpd.RcScan

/-! What loading does to the table: it keeps what `_add2` keeps. -/
namespace S3Dhcpd.RcFile

variable {σ : Type} [KeyTable σ] {host : Host} {is : IStream} {l l' : Loader σ} {f f' : Frame}
  {rc rc' : σ} {line buf fname : List Char} {lines : List (List Char)}

/-- What a turn does to the table. -/
def Turn.Adds (host : Host) (rc : σ) (buf : List Char) : Turn σ → Prop
  | .next l' _ => l'.rc = rc ∨ lineKind (bufOf buf) = .key ∧ addLine host rc (bufOf buf) = .ok l'.rc
  | .nested l' _ _ => l'.rc = rc
  | .leave l' _ => l'.rc = rc
  | .throw _ => True

theorem turn_adds : (turn host l f buf).Adds host l.rc buf := by
  rw [turn]
  cases hkind : lineKind (bufOf buf) with
  | skipped => exact Or.inl rfl
  | ends => exact rfl
  | flips => exact Or.inl rfl
  | included =>
    dsimp only
    split_ifs
    · trivial
    · split
      · trivial
      · exact rfl
  | opens =>
    dsimp only
    split
    · trivial
    · split_ifs
      · exact Or.inl rfl
      · trivial
  | closes =>
    dsimp only
    split_ifs
    · trivial
    · exact Or.inl rfl
  | key =>
    dsimp only
    split_ifs
    · exact Or.inl rfl
    · split
      · trivial
      · rename_i hadd
        exact Or.inr ⟨hkind, hadd⟩

theorem openFile_adds (h : openFile host l fname = .ok (l', is)) :
    addPair host l.rc ".file-[]".toList fname = .ok l'.rc := by
  rw [openFile] at h
  split at h
  · cases h
  · split at h
    · cases h
    · rename_i hadd
      cases h
      exact hadd

omit [KeyTable σ] in
theorem finish_rc (h : finish l f = .ok l') : l'.rc = l.rc := by
  rw [finish] at h
  split_ifs at h
  cases h
  rfl

theorem addLine_keeps {P : σ → Prop}
    (hadd : ∀ rc key val rc', P rc → add2 host rc key val = .ok rc' → P rc') (hrc : P rc)
    (h : addLine host rc line = .ok rc') : P rc' := by
  obtain ⟨key, val, _, hadded⟩ := addLine_ok h
  exact hadd rc key val rc' hrc hadded

/-- What `_add2` keeps, a load keeps. -/
theorem Loads.keeps {P : σ → Prop}
    (hadd : ∀ rc key val rc', P rc → add2 host rc key val = .ok rc' → P rc')
    (h : Loads host is l f (.ok l')) (hl : P l.rc) : P l'.rc := by
  refine Loads.induct (P := fun _ l _ r => ∀ l', r = .ok l' → P l.rc → P l'.rc)
    ?eof ?leave ?throw ?unopened ?failed ?next ?included h l' rfl hl
  case eof =>
    intro is read_buf is' l f _ _ l' h hl
    rwa [finish_rc h]
  case leave =>
    intro is read_buf is' l f l₁ f₁ _ _ hturn l' h hl
    have hadds := @turn_adds _ _ host l (f.nextLine read_buf) read_buf
    rw [hturn] at hadds
    rw [finish_rc h, hadds]
    exact hl
  case throw =>
    intro is read_buf is' l f e _ _ _ l' h
    cases h
  case unopened =>
    intro is read_buf is' l f l₁ fname f₁ e _ _ _ _ l' h
    cases h
  case failed =>
    intro is read_buf is' l f l₁ fname f₁ l₂ is₂ e _ _ _ _ _ _ l' h
    cases h
  case next =>
    intro is read_buf is' l f l₁ f₁ r _ _ hturn ih l' h hl
    have hadds := @turn_adds _ _ host l (f.nextLine read_buf) read_buf
    rw [hturn] at hadds
    refine ih l' h ?_
    rcases hadds with hsame | ⟨_, hadded⟩
    · rwa [hsame]
    · exact addLine_keeps hadd hl hadded
  case included =>
    intro is read_buf is' l f l₁ fname f₁ l₂ is₂ l₃ r _ _ hturn hopen _ hnested hrest l' h hl
    have hadds := @turn_adds _ _ host l (f.nextLine read_buf) read_buf
    rw [hturn] at hadds
    have hl₁ : P l₁.rc := by rwa [show l₁.rc = l.rc from hadds]
    exact hrest l' h (hnested l₃ rfl (addLine_keeps hadd hl₁ (openFile_adds hopen)))

theorem Step.keeps {P : σ → Prop}
    (hadd : ∀ rc key val rc', P rc → add2 host rc key val = .ok rc' → P rc')
    (h : Step host line l f l' f') (hl : P l.rc) : P l'.rc := by
  cases h with
  | next hturn =>
    have hadds := @turn_adds _ _ host l (f.nextLine line) line
    rw [hturn] at hadds
    rcases hadds with hsame | ⟨_, hadded⟩
    · rwa [hsame]
    · exact addLine_keeps hadd hl hadded
  | @included l₁ l₂ _ _ _ _ hturn hopen hload =>
    have hadds := @turn_adds _ _ host l (f.nextLine line) line
    rw [hturn] at hadds
    have hl₁ : P l₁.rc := by rwa [show l₁.rc = l.rc from hadds]
    exact hload.keeps hadd (addLine_keeps hadd hl₁ (openFile_adds hopen))

theorem Reaches.keeps {P : σ → Prop}
    (hadd : ∀ rc key val rc', P rc → add2 host rc key val = .ok rc' → P rc')
    (h : Reaches host lines l f l' f') (hl : P l.rc) : P l'.rc := by
  induction lines generalizing l f with
  | nil => rwa [h.1]
  | cons line lines ih =>
    obtain ⟨l₁, f₁, hstep, h⟩ := h
    exact ih h (hstep.keeps hadd hl)

end S3Dhcpd.RcFile
