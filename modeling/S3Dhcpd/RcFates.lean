import S3Dhcpd.RcBuffer

/-! When two loads come to the same: they leave the same table, fail with the same exception but for
the line number, or both hang. -/
namespace S3Dhcpd.RcFile

variable {σ : Type} [KeyTable σ] {host : Host} {is : IStream} {l l' : Loader σ} {f f' : Frame}
  {r : Except LoadError (Loader σ)} {line text text' : List Char} {n : ℕ}

/-- What the outermost `load` caught. -/
def LoadError.inner : LoadError → LoadError
  | .located _ e => e
  | e => e

theorem inner_locate (line : ℕ) (e : LoadError) : (locate line e).inner = e := by
  cases e <;> rfl

def fate : Except LoadError (Loader σ) → Except LoadError (String → Option String)
  | .error e => .error e.inner
  | .ok l => .ok (KeyTable.value l.rc)

theorem fate_locate (line : ℕ) (e : LoadError) :
    fate (.error (locate line e) : Except LoadError (Loader σ)) = .error e :=
  congrArg Except.error (inner_locate line e)

def LoadsTo (host : Host) (text : List Char) (l : Loader σ) (f : Frame)
    (o : Except LoadError (String → Option String)) : Prop :=
  ∃ r, Loads host (.ofText text) l f r ∧ fate r = o

theorem LoadsTo.unique {o o' : Except LoadError (String → Option String)}
    (h : LoadsTo host text l f o) (h' : LoadsTo host text l f o') : o = o' := by
  obtain ⟨r, hr, rfl⟩ := h
  obtain ⟨r', hr', rfl⟩ := h'
  rw [hr.unique hr']

def SameFate (host : Host) (text text' : List Char) (l : Loader σ) (f : Frame) : Prop :=
  ∀ o, LoadsTo host text l f o ↔ LoadsTo host text' l f o

section Agreement

/-- The frames differ in the line number and in flags above the current level. -/
structure Frame.Agrees (f f' : Frame) : Prop where
  lev : f.lev = f'.lev
  ignore : ∀ i ≤ f.lev, f.ignore i = f'.ignore i

theorem Frame.Agrees.refl (f : Frame) : f.Agrees f := ⟨rfl, fun _ _ => rfl⟩

theorem Frame.Agrees.symm (h : f.Agrees f') : f'.Agrees f :=
  ⟨h.lev.symm, fun i hi => (h.ignore i (h.lev ▸ hi)).symm⟩

theorem doIgnore_iff : doIgnore f = true ↔ ∃ i ≤ f.lev, f.ignore i = true := by
  simp only [doIgnore, List.any_eq_true, List.mem_range, Nat.lt_succ_iff]

theorem Frame.Agrees.doIgnore (h : f.Agrees f') : doIgnore f = doIgnore f' := by
  rw [Bool.eq_iff_iff, doIgnore_iff, doIgnore_iff, ← h.lev]
  refine exists_congr fun i => and_congr_right fun hi => ?_
  rw [h.ignore i hi]

theorem Frame.Agrees.update (h : f.Agrees f') {lev : ℕ} (hlev : lev ≤ f.lev+1) (b : Bool)
    {line line' : ℕ} {read_buf read_buf' : List Char} :
    Frame.Agrees ⟨line, Function.update f.ignore lev b, lev, read_buf⟩
      ⟨line', Function.update f'.ignore lev b, lev, read_buf'⟩ := by
  refine ⟨rfl, fun i hi => ?_⟩
  dsimp only at hi ⊢
  rw [Function.update_apply, Function.update_apply]
  split_ifs with heq
  · rfl
  · exact h.ignore i (by omega)

/-- Besides, the buffers are the same from index `n` on. -/
structure Frame.AgreesFrom (n : ℕ) (f f' : Frame) : Prop extends f.Agrees f' where
  read_buf : f.read_buf.drop n = f'.read_buf.drop n

theorem Frame.AgreesFrom.symm (h : f.AgreesFrom n f') : f'.AgreesFrom n f :=
  ⟨h.toAgrees.symm, h.read_buf.symm⟩

theorem Frame.AgreesFrom.nextLine (h : f.AgreesFrom n f') (line : List Char) :
    (f.nextLine line).AgreesFrom n (f'.nextLine line) :=
  ⟨⟨h.lev, h.ignore⟩, overwrite_drop h.read_buf⟩

inductive Turn.Agrees (n : ℕ) : Turn σ → Turn σ → Prop where
  | next (l : Loader σ) {f f' : Frame} (h : f.AgreesFrom n f') : Agrees n (.next l f) (.next l f')
  | nested (l : Loader σ) (fname : List Char) {f f' : Frame} (h : f.AgreesFrom n f') :
      Agrees n (.nested l fname f) (.nested l fname f')
  | leave (l : Loader σ) {f f' : Frame} (h : f.Agrees f') : Agrees n (.leave l f) (.leave l f')
  | throw (e : LoadError) : Agrees n (.throw e) (.throw e)

section Turns
variable {t t' : Turn σ} {fname : List Char} {e : LoadError}
omit [KeyTable σ]

theorem Turn.Agrees.to_next (h : t.Agrees n t') (ht : t = .next l f) :
    ∃ f', t' = .next l f' ∧ f.AgreesFrom n f' := by
  subst ht
  cases h with
  | next _ h => exact ⟨_, rfl, h⟩

theorem Turn.Agrees.to_nested (h : t.Agrees n t') (ht : t = .nested l fname f) :
    ∃ f', t' = .nested l fname f' ∧ f.AgreesFrom n f' := by
  subst ht
  cases h with
  | nested _ _ h => exact ⟨_, rfl, h⟩

theorem Turn.Agrees.to_leave (h : t.Agrees n t') (ht : t = .leave l f) :
    ∃ f', t' = .leave l f' ∧ f.Agrees f' := by
  subst ht
  cases h with
  | leave _ h => exact ⟨_, rfl, h⟩

theorem Turn.Agrees.to_throw (h : t.Agrees n t') (ht : t = .throw e) : t' = .throw e := by
  subst ht
  cases h with
  | throw _ => rfl

end Turns

/-- A turn looks at the levels up to the current one, and at what its condition reads. -/
theorem turn_agrees (h : f.AgreesFrom n f') (hreads : ReadsOld line → n ≤ line.length+1) :
    (turn host l (f.nextLine line) line).Agrees n (turn host l (f'.nextLine line) line) := by
  have hnext := h.nextLine line
  have hlev : (f.nextLine line).lev = (f'.nextLine line).lev := hnext.lev
  rw [turn, turn]
  cases hkind : lineKind (bufOf line) with
  | skipped => exact .next l hnext
  | included =>
    dsimp only
    split_ifs
    · exact .throw _
    · cases includeFile host l.rc (bufOf line) with
      | error e => exact .throw e
      | ok fname => exact .nested _ fname hnext
  | opens =>
    dsimp only
    rw [Frame.nextLine, Frame.nextLine, ← expandCondition_overwrite hkind hreads h.read_buf]
    cases expandCondition host l.rc (leftover (overwrite line f.read_buf))
      ((bufOf line).drop 3) with
    | error e => exact .throw e
    | ok b =>
      dsimp only
      rw [← h.lev]
      split_ifs
      · exact .next l ⟨h.update le_rfl _, hnext.read_buf⟩
      · exact .throw _
  | closes =>
    dsimp only
    rw [← hlev]
    split_ifs
    · exact .throw _
    · refine .next l ⟨⟨rfl, fun i hi => h.ignore i ?_⟩, hnext.read_buf⟩
      dsimp only [Frame.nextLine] at hi
      omega
  | flips =>
    dsimp only
    rw [← hlev, ← hnext.ignore _ le_rfl]
    exact .next l ⟨hnext.toAgrees.update (by omega) _, hnext.read_buf⟩
  | ends => exact .leave l hnext.toAgrees
  | key =>
    dsimp only
    rw [← hnext.doIgnore]
    split_ifs
    · exact .next l hnext
    · cases addLine host l.rc (bufOf line) with
      | error e => exact .throw e
      | ok rc => exact .next _ hnext

theorem finish_agrees (h : f.Agrees f') : fate (finish l f) = fate (finish l f') := by
  rw [finish, finish, ← h.lev]
  split_ifs
  · rw [fate_locate, fate_locate]
  · rfl

/-- Line numbers, old flags and what is not read of the buffer do not decide how a load ends. -/
theorem loads_agrees (hreads : is.ReadsFrom n) (hagrees : f.AgreesFrom n f')
    (h : Loads host is l f r) : ∃ r', Loads host is l f' r' ∧ fate r' = fate r := by
  -- the included files start with fresh frames, so their loads are the same
  refine Loads.induct (P := fun is l f r => is.ReadsFrom n → ∀ f', f.AgreesFrom n f' →
    ∃ r', Loads host is l f' r' ∧ fate r' = fate r) ?eof ?leave ?throw ?unopened ?failed ?next
    ?included h hreads f' hagrees
  case eof =>
    intro is read_buf is' l f hread heof hreads f' hagrees
    exact ⟨_, (loads_end hread heof).mpr rfl, finish_agrees hagrees.toAgrees.symm⟩
  case leave =>
    intro is read_buf is' l f l' f₁ hread heof hturn hreads f' hagrees
    obtain ⟨hline, _⟩ := hreads.next hread heof
    obtain ⟨f₂, hturn', hleave⟩ := (turn_agrees hagrees hline).to_leave hturn
    exact ⟨_, (loads_turn hread heof).mpr (Or.inl (.leave hturn')), finish_agrees hleave.symm⟩
  case throw =>
    intro is read_buf is' l f e hread heof hturn hreads f' hagrees
    obtain ⟨hline, _⟩ := hreads.next hread heof
    have hturn' := (turn_agrees hagrees hline).to_throw hturn
    refine ⟨_, (loads_turn hread heof).mpr (Or.inl (.throw hturn')), ?_⟩
    rw [fate_locate, fate_locate]
  case unopened =>
    intro is read_buf is' l f l₁ fname f₁ e hread heof hturn hopen hreads f' hagrees
    obtain ⟨hline, _⟩ := hreads.next hread heof
    obtain ⟨f₂, hturn', _⟩ := (turn_agrees hagrees hline).to_nested hturn
    refine ⟨_, (loads_turn hread heof).mpr (Or.inl (.unopened hturn' hopen)), ?_⟩
    rw [fate_locate, fate_locate]
  case failed =>
    intro is read_buf is' l f l₁ fname f₁ l₂ is₂ e hread heof hturn hopen hload _ hreads f' hagrees
    obtain ⟨hline, _⟩ := hreads.next hread heof
    obtain ⟨f₂, hturn', _⟩ := (turn_agrees hagrees hline).to_nested hturn
    refine ⟨_, (loads_turn hread heof).mpr (Or.inl (.failed hturn' hopen hload)), ?_⟩
    rw [fate_locate, fate_locate]
  case next =>
    intro is read_buf is' l f l₁ f₁ r hread heof hturn ih hreads f' hagrees
    obtain ⟨hline, hrest⟩ := hreads.next hread heof
    obtain ⟨f₂, hturn', hnext⟩ := (turn_agrees hagrees hline).to_next hturn
    obtain ⟨r', hr', hfate⟩ := ih hrest f₂ hnext
    exact ⟨r', (loads_turn hread heof).mpr (Or.inr ⟨_, _, .next hturn', hr'⟩), hfate⟩
  case included =>
    intro is read_buf is' l f l₁ fname f₁ l₂ is₂ l' r hread heof hturn hopen hload _ ih hreads f'
      hagrees
    obtain ⟨hline, hrest⟩ := hreads.next hread heof
    obtain ⟨f₂, hturn', hnested⟩ := (turn_agrees hagrees hline).to_nested hturn
    obtain ⟨r', hr', hfate⟩ := ih hrest f₂ hnested
    exact ⟨r', (loads_turn hread heof).mpr
      (Or.inr ⟨_, _, .included hturn' hopen hload, hr'⟩), hfate⟩

theorem loadsTo_agrees (hreads : ReadsFrom n text) (hagrees : f.AgreesFrom n f')
    (o : Except LoadError (String → Option String)) :
    LoadsTo host text l f o ↔ LoadsTo host text l f' o := by
  have himp {f f' : Frame} (hagrees : f.AgreesFrom n f') (h : LoadsTo host text l f o) :
      LoadsTo host text l f' o := by
    obtain ⟨r, hr, rfl⟩ := h
    obtain ⟨r', hr', hfate⟩ := loads_agrees (Or.inr hreads) hagrees hr
    exact ⟨r', hr', hfate⟩
  exact ⟨himp hagrees, himp hagrees.symm⟩

end Agreement

end S3Dhcpd.RcFile
