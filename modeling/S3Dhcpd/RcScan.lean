import S3Dhcpd.RcLine

/-! What `_add` does with the pieces of a line, and when it hands a key and a value on. -/
namespace S3Dhcpd.RcFile

variable {σ : Type} [KeyTable σ] {host : Host} {rc rc' : σ}
  {line s rest key val front trail : List Char} {st st' : AddState} {c : Char} {n skip : ℕ}

/-- The characters that mean something to `_add` wherever they stand. -/
def ACTIVE : List Char := ['\\', '{', '}', '$']

/-- `_add` hands the key and the value of a line on to `_add2`. -/
structure HandsOn (host : Host) (rc : σ) (line key val : List Char) : Prop where
  nonblank : (line.rdropWhile isTrimmed).length ≠ 0
  reads : addLoop host rc line line (line.rdropWhile isTrimmed).length 0 ⟨[], [], false, 0⟩ =
    .ok ⟨key, val, true, 0⟩

theorem HandsOn.addLine (h : HandsOn host rc line key val) :
    addLine host rc line = add2 host rc key val := by
  rw [RcFile.addLine, if_neg h.nonblank, h.reads]
  rfl

theorem addLine_ok (h : addLine host rc line = .ok rc') :
    ∃ key val, HandsOn host rc line key val ∧ add2 host rc key val = .ok rc' := by
  rw [addLine] at h
  split_ifs at h with hlen
  cases hloop : addLoop host rc line line (line.rdropWhile isTrimmed).length 0
      ⟨[], [], false, 0⟩ with
  | error e =>
    rw [hloop] at h
    cases h
  | ok st =>
    rw [hloop] at h
    dsimp only at h
    split_ifs at h with htag hlit
    obtain ⟨stKey, stVal, inVal, lit⟩ := st
    rw [Bool.not_eq_true, Bool.not_eq_false'] at htag
    rw [not_not] at hlit
    dsimp only at htag hlit h
    subst htag hlit
    exact ⟨stKey, stVal, ⟨hlen, hloop⟩, h⟩

section Put

@[simp] theorem AddState.put_nil (st : AddState) : st.put [] = st := by
  rw [AddState.put, List.append_nil, List.append_nil]
  split_ifs <;> rfl

theorem AddState.put_put (st : AddState) (text text' : List Char) :
    (st.put text).put text' = st.put (text ++ text') := by
  simp only [AddState.put]
  split_ifs <;> simp_all

@[simp] theorem AddState.put_lit (st : AddState) (text : List Char) :
    (st.put text).lit = st.lit := by
  rw [AddState.put]
  split_ifs <;> rfl

@[simp] theorem AddState.put_inVal (st : AddState) (text : List Char) :
    (st.put text).inVal = st.inVal := by
  rw [AddState.put]
  split_ifs <;> rfl

end Put

section Pieces

@[simp] theorem addLoop_end : addLoop host rc line s 0 skip st = .ok st := by
  cases s <;> rw [addLoop]
  exact List.cons_ne_nil _ _

theorem addLoop_skip : addLoop host rc line (s ++ rest) (s.length+n) s.length st =
    addLoop host rc line rest n 0 st := by
  induction s with
  | nil => rw [List.nil_append, List.length_nil, Nat.zero_add]
  | cons c s ih =>
    rw [List.cons_append, List.length_cons, Nat.add_right_comm, addLoop, ih]

theorem addLoop_open : addLoop host rc line ('{' :: s) (n+1) 0 st =
    addLoop host rc line s n 0 { st with lit := st.lit+1 } := by
  rw [addLoop, if_neg (by decide), if_pos rfl]

theorem addLoop_close (h : st.lit ≠ 0) : addLoop host rc line ('}' :: s) (n+1) 0 st =
    addLoop host rc line s n 0 { st with lit := st.lit-1 } := by
  rw [addLoop, if_neg (by decide), if_neg (by decide), if_pos rfl, if_neg h]

theorem addLoop_blank (hc : isBlankOrTab c = true) (hlit : st.lit = 0) (hkey : st.inVal = false) :
    addLoop host rc line (c :: s) (n+1) 0 st = addLoop host rc line s n 0 st := by
  have hne {x : Char} (hx : isBlankOrTab x = false) : c ≠ x := by
    rintro rfl
    rw [hc] at hx
    cases hx
  rw [addLoop, if_neg (hne rfl), if_neg (hne rfl), if_neg (hne rfl),
    if_pos ⟨hc, hlit, by rw [hkey]; rfl⟩]

theorem addLoop_tag (hlit : st.lit = 0) (hkey : st.inVal = false) :
    addLoop host rc line ('=' :: s) (n+1) 0 st =
      addLoop host rc line s n (s.takeWhile isBlankOrTab).length { st with inVal := true } := by
  rw [addLoop, if_neg (by decide), if_neg (by decide), if_neg (by decide),
    if_neg (fun h => absurd h.1 (by decide)), if_neg (by decide),
    if_pos ⟨rfl, hlit, by rw [hkey]; rfl⟩]

theorem addLoop_keep (hc : c ∉ ACTIVE)
    (hkey : st.lit = 0 → st.inVal = false → isBlankOrTab c = false ∧ c ≠ '=') :
    addLoop host rc line (c :: s) (n+1) 0 st = addLoop host rc line s n 0 (st.put [c]) := by
  simp only [ACTIVE, List.mem_cons, List.not_mem_nil, or_false, not_or] at hc
  obtain ⟨hescape, hopen, hclose, hvar⟩ := hc
  have hblank : ¬(isBlankOrTab c = true ∧ st.lit = 0 ∧ (!st.inVal) = true) := by
    rintro ⟨hc, hlit, hval⟩
    rw [(hkey hlit (by simpa using hval)).1] at hc
    cases hc
  have htag : ¬(c = '=' ∧ st.lit = 0 ∧ (!st.inVal) = true) := by
    rintro ⟨hc, hlit, hval⟩
    exact (hkey hlit (by simpa using hval)).2 hc
  rw [addLoop, if_neg hescape, if_neg hopen, if_neg hclose, if_neg hblank, if_neg hvar,
    if_neg htag]

/-- Blanks and tabs in a key are dropped. -/
theorem addLoop_blanks (hs : ∀ c ∈ s, isBlankOrTab c = true) (hlit : st.lit = 0)
    (hkey : st.inVal = false) : addLoop host rc line (s ++ rest) (s.length+n) 0 st =
      addLoop host rc line rest n 0 st := by
  induction s with
  | nil => rw [List.nil_append, List.length_nil, Nat.zero_add]
  | cons c s ih =>
    rw [List.forall_mem_cons] at hs
    rw [List.cons_append, List.length_cons, Nat.add_right_comm, addLoop_blank hs.1 hlit hkey,
      ih hs.2]

/-- What means nothing to `_add` is kept: in a value, in a literal, and without blanks, tabs and `=`
in a key. -/
theorem addLoop_keeps (hs : ∀ c ∈ s, c ∉ ACTIVE)
    (hkey : st.lit = 0 → st.inVal = false → ∀ c ∈ s, isBlankOrTab c = false ∧ c ≠ '=') :
    addLoop host rc line (s ++ rest) (s.length+n) 0 st =
      addLoop host rc line rest n 0 (st.put s) := by
  -- on the text; the depth and the stream stay what they are
  induction s generalizing st with
  | nil => rw [List.nil_append, List.length_nil, Nat.zero_add, st.put_nil]
  | cons c s ih =>
    rw [List.forall_mem_cons] at hs
    rw [List.cons_append, List.length_cons, Nat.add_right_comm,
      addLoop_keep hs.1 fun hlit hval => hkey hlit hval c List.mem_cons_self, ih hs.2, st.put_put,
      List.singleton_append]
    intro hlit hval x hx
    rw [st.put_lit] at hlit
    rw [st.put_inVal] at hval
    exact hkey hlit hval x (List.mem_cons_of_mem _ hx)

/-- A literal is kept as a whole. -/
theorem addLoop_literal (hs : ∀ c ∈ s, c ∉ ACTIVE) (hlit : st.lit = 0) :
    addLoop host rc line ('{' :: (s ++ '}' :: rest)) (s.length+2+n) 0 st =
      addLoop host rc line rest n 0 (st.put s) := by
  have hn : s.length+2+n = s.length+(n+1)+1 := by omega
  have hopened : ({ st with lit := st.lit+1 } : AddState).lit ≠ 0 := Nat.succ_ne_zero _
  rw [hn, addLoop_open, addLoop_keeps hs fun hzero => absurd hzero hopened,
    addLoop_close (by rw [AddState.put_lit]; exact hopened)]
  -- the depth is what it was in front of the literal
  congr 1
  simp only [AddState.put, hlit]
  split_ifs <;> rfl

end Pieces

section Turns

/-- What the loop does with a character, with `s` behind it: how many more it reads along, and the
streams afterwards. -/
inductive ReadsChar (host : Host) (rc : σ) :
    Char → List Char → AddState → ℕ → AddState → Prop where
  | escape {s : List Char} {st : AddState} :
      ReadsChar host rc '\\' s st 1 (st.put (escaped s.head?))
  | opens {s : List Char} {st : AddState} :
      ReadsChar host rc '{' s st 0 { st with lit := st.lit+1 }
  | closes {s : List Char} {st : AddState} (hlit : st.lit ≠ 0) :
      ReadsChar host rc '}' s st 0 { st with lit := st.lit-1 }
  | blank {c : Char} {s : List Char} {st : AddState} (hc : isBlankOrTab c = true) :
      ReadsChar host rc c s st 0 st
  | expand {s res : List Char} {st : AddState} {vlen : ℕ}
      (hvar : expandVar host rc s = .ok (res, vlen)) :
      ReadsChar host rc '$' s st (vlen-1) (st.put res)
  | tag {s : List Char} {st : AddState} (hkey : st.inVal = false) :
      ReadsChar host rc '=' s st (s.takeWhile isBlankOrTab).length { st with inVal := true }
  | keep {c : Char} {s : List Char} {st : AddState} (hc : c ∉ ACTIVE) :
      ReadsChar host rc c s st 0 (st.put [c])

theorem addLoop_cases (h : addLoop host rc line (c :: s) (n+1) 0 st = .ok st') :
    ∃ skip st₁, ReadsChar host rc c s st skip st₁ ∧
      addLoop host rc line s n skip st₁ = .ok st' := by
  rw [addLoop] at h
  split_ifs at h with hescape hopen hclose hlit hblank hdollar htag
  · subst hescape
    exact ⟨_, _, .escape, h⟩
  · subst hopen
    exact ⟨_, _, .opens, h⟩
  · subst hclose
    exact ⟨_, _, .closes hlit, h⟩
  · exact ⟨_, _, .blank hblank.1, h⟩
  · subst hdollar
    cases hvar : expandVar host rc s with
    | error e =>
      rw [hvar] at h
      cases h
    | ok expanded =>
      rw [hvar] at h
      exact ⟨_, _, .expand hvar, h⟩
  · obtain ⟨rfl, _, hkey⟩ := htag
    exact ⟨_, _, .tag (by simpa using hkey), h⟩
  · refine ⟨_, _, .keep ?_, h⟩
    simp only [ACTIVE, List.mem_cons, List.not_mem_nil, or_false, not_or]
    exact ⟨hescape, hopen, hclose, hdollar⟩

/-- The induction along the characters of a line that is read to its end. -/
theorem addLoop_induct {P : List Char → ℕ → AddState → Prop}
    (ends : ∀ s skip, P s skip st')
    (skips : ∀ c s skip st, P s skip st → P (c :: s) (skip+1) st)
    (reads : ∀ c s st skip st₁, ReadsChar host rc c s st skip st₁ → P s skip st₁ → P (c :: s) 0 st)
    (h : addLoop host rc line s n skip st = .ok st') : P s skip st := by
  induction s generalizing n skip st with
  | nil =>
    rw [addLoop] at h
    obtain rfl := Except.ok.inj h
    exact ends _ _
  | cons c s ih =>
    cases n with
    | zero =>
      rw [addLoop_end] at h
      obtain rfl := Except.ok.inj h
      exact ends _ _
    | succ n =>
      cases skip with
      | succ skip =>
        rw [addLoop] at h
        exact skips _ _ _ _ (ih h)
      | zero =>
        obtain ⟨skip, st₁, hreads, hrest⟩ := addLoop_cases h
        exact reads _ _ _ _ _ hreads (ih hrest)

end Turns

section Sides
variable {keyText valText before behind : List Char}

/-- The text is read as the key, whatever follows it. -/
def ReadsKey (keyText key : List Char) : Prop :=
  ∀ {σ : Type} [KeyTable σ] (host : Host) (rc : σ) (line rest : List Char) (n : ℕ),
    addLoop host rc line (keyText ++ rest) (keyText.length+n) 0 ⟨[], [], false, 0⟩ =
      addLoop host rc line rest n 0 ⟨key, [], false, 0⟩

/-- The text is read as the value, and no end of it is cut off. -/
structure ReadsValue (valText val : List Char) : Prop where
  first : ∀ c, valText.head? = some c → isBlankOrTab c = false
  last : ∀ c, valText.getLast? = some c → isTrimmed c = false
  reads : ∀ {σ : Type} [KeyTable σ] (host : Host) (rc : σ) (line rest key : List Char),
    addLoop host rc line (valText ++ rest) valText.length 0 ⟨key, [], true, 0⟩ =
      .ok ⟨key, val, true, 0⟩

theorem readsKey_plain (hk : ∀ c ∈ key, c ∉ ACTIVE ∧ isBlankOrTab c = false ∧ c ≠ '=') :
    ReadsKey key key := by
  intro σ _ host rc line rest n
  rw [addLoop_keeps (fun c hc => (hk c hc).1) fun _ _ c hc => (hk c hc).2]
  rfl

theorem readsKey_literal (hk : ∀ c ∈ key, c ∉ ACTIVE) : ReadsKey ('{' :: (key ++ ['}'])) key := by
  intro σ _ host rc line rest n
  have hn : ('{' :: (key ++ ['}'])).length = key.length+2 := by simp
  rw [hn, List.cons_append, List.append_assoc, List.singleton_append, addLoop_literal hk rfl]
  rfl

theorem readsValue_plain (hv : ∀ c ∈ val, c ∉ ACTIVE)
    (hfirst : ∀ c, val.head? = some c → isBlankOrTab c = false)
    (hlast : ∀ c, val.getLast? = some c → isTrimmed c = false) : ReadsValue val val := by
  refine ⟨hfirst, hlast, fun {σ} _ host rc line rest key => ?_⟩
  have hkeeps := @addLoop_keeps _ _ host rc line val rest ⟨key, [], true, 0⟩ 0 hv
    fun _ h => by cases h
  rw [Nat.add_zero] at hkeeps
  rw [hkeeps, addLoop_end]
  rfl

theorem readsValue_literal (hv : ∀ c ∈ val, c ∉ ACTIVE) :
    ReadsValue ('{' :: (val ++ ['}'])) val := by
  refine ⟨fun c hc => ?_, fun c hc => ?_, fun {σ} _ host rc line rest key => ?_⟩
  · cases hc
    rfl
  · rw [← List.cons_append, List.getLast?_concat] at hc
    cases hc
    rfl
  · have hliteral := @addLoop_literal _ _ host rc line val rest ⟨key, [], true, 0⟩ 0 hv rfl
    have hn : ('{' :: (val ++ ['}'])).length = val.length+2+0 := by simp
    rw [hn, List.cons_append, List.append_assoc, List.singleton_append, hliteral, addLoop_end]
    rfl

/-- Trailing blanks do not count. -/
theorem rdropWhile_trail (htrail : ∀ c ∈ trail, isTrimmed c = true)
    (hfront : ∀ c, front.getLast? = some c → isTrimmed c = false) :
    (front ++ trail).rdropWhile isTrimmed = front := by
  induction trail using List.reverseRecOn with
  | nil =>
    rw [List.append_nil]
    rcases List.eq_nil_or_concat' front with rfl | ⟨front, c, rfl⟩
    · rfl
    · rw [List.rdropWhile_concat_neg]
      rw [hfront c List.getLast?_concat]
      decide
  | append_singleton trail c ih =>
    rw [← List.append_assoc, List.rdropWhile_concat_pos _ _ _ (htrail c (by simp)),
      ih fun x hx => htrail x (List.mem_append_left _ hx)]

theorem blank_trimmed_of (h : isBlankOrTab c = true) : isTrimmed c = true := by
  rw [isTrimmed, h]
  rfl

/-- A line of a key, a tag and a value, with blanks and tabs between them and at its end. -/
theorem handsOn_sides (hk : ReadsKey keyText key) (hv : ReadsValue valText val)
    (hbefore : ∀ c ∈ before, isBlankOrTab c = true) (hbehind : ∀ c ∈ behind, isBlankOrTab c = true)
    (htrail : ∀ c ∈ trail, isBlankOrTab c = true) :
    HandsOn host rc (keyText ++ (before ++ '=' :: (behind ++ (valText ++ trail)))) key val := by
  have htag (n : ℕ) (line rest : List Char) :
      addLoop host rc line (keyText ++ (before ++ '=' :: rest))
          (keyText.length+(before.length+(n+1))) 0 ⟨[], [], false, 0⟩ =
        addLoop host rc line rest n (rest.takeWhile isBlankOrTab).length ⟨key, [], true, 0⟩ := by
    rw [hk, addLoop_blanks hbefore rfl rfl, addLoop_tag rfl rfl]
  cases valText with
  | nil =>
    -- the blanks behind the tag are at the end of the line
    have hval : val = [] := by
      have hreads := hv.reads host rc [] [] []
      rw [List.length_nil, addLoop_end, Except.ok.injEq, AddState.mk.injEq] at hreads
      exact hreads.2.1.symm
    have hfront : (keyText ++ (before ++ '=' :: (behind ++ ([] ++ trail)))).rdropWhile isTrimmed =
        keyText ++ (before ++ ['=']) := by
      have hsplit : keyText ++ (before ++ '=' :: (behind ++ ([] ++ trail))) =
          keyText ++ (before ++ ['=']) ++ (behind ++ trail) := by simp
      rw [hsplit]
      refine rdropWhile_trail (fun c hc => ?_) fun c hc => ?_
      · exact blank_trimmed_of ((List.mem_append.mp hc).elim (hbehind c) (htrail c))
      · rw [← List.append_assoc, List.getLast?_concat] at hc
        cases hc
        rfl
    have hlen : (keyText ++ (before ++ ['='])).length = keyText.length+(before.length+(0+1)) := by
      simp
    refine ⟨?_, ?_⟩
    · rw [hfront, hlen]
      omega
    · rw [hfront, hlen, htag, addLoop_end, hval]
  | cons c text =>
    have hfront : (keyText ++ (before ++ '=' :: (behind ++ (c :: text ++ trail)))).rdropWhile
        isTrimmed = keyText ++ (before ++ '=' :: (behind ++ c :: text)) := by
      have hsplit : keyText ++ (before ++ '=' :: (behind ++ (c :: text ++ trail))) =
          keyText ++ (before ++ '=' :: (behind ++ c :: text)) ++ trail := by simp
      rw [hsplit]
      refine rdropWhile_trail (fun x hx => blank_trimmed_of (htrail x hx)) fun x hx => hv.last x ?_
      have hend : keyText ++ (before ++ '=' :: (behind ++ c :: text)) =
          (keyText ++ (before ++ '=' :: behind)) ++ c :: text := by simp
      rwa [hend, List.getLast?_append_of_ne_nil _ (List.cons_ne_nil c text)] at hx
    have hlen : (keyText ++ (before ++ '=' :: (behind ++ c :: text))).length =
        keyText.length+(before.length+(behind.length+(c :: text).length+1)) := by simp
    have hskip : ((behind ++ (c :: text ++ trail)).takeWhile isBlankOrTab).length =
        behind.length := by
      rw [List.takeWhile_append_of_pos hbehind, List.cons_append,
        List.takeWhile_cons_of_neg (by rw [hv.first c rfl]; decide), List.append_nil]
    refine ⟨?_, ?_⟩
    · rw [hfront, hlen]
      omega
    · rw [hfront, hlen, htag, hskip, addLoop_skip, hv.reads]

end Sides

end S3Dhcpd.RcFile
