import S3Dhcpd.RcArrays
import S3Dhcpd.RcKeeps
import S3Dhcpd.RcTermination

/-! What a load can write into the table: the names and texts that `_add2` stores, and the active
characters that the scanner lets through. -/
namespace S3Dhcpd.RcFile

variable {host : Host} {is : IStream} {l l' : Loader Apprc} {f f' : Frame} {rc rc' : Apprc}
  {key val name text line s rest buf fname : List Char} {lines : List (List Char)}
  {st st' : AddState} {n skip : ℕ}

/-- `_add2` may store the text under the name. -/
inductive Writes (host : Host) (key val : List Char) : List Char → List Char → Prop where
  | plain (harray : isArrayKey host key = false) : Writes host key val key val
  | element (harray : isArrayKey host key = true) (hlen : 3 ≤ key.length) (count : ℤ) :
      Writes host key val (key.take (key.length-3) ++ '-' :: decimal2 count) val
  | counter (harray : isArrayKey host key = true) (hlen : 3 ≤ key.length) (count : ℤ) :
      Writes host key val (counterName (key.take (key.length-3))) (decimal count)

section Tables

/-- What the table holds afterwards it has held before, or it has been written. -/
theorem add2_writes (h : add2 host rc key val = .ok rc') {k x : String}
    (hx : rc'.value k = some x) : rc.value k = some x ∨
      ∃ name text, Writes host key val name text ∧ k = String.ofList name ∧
        x = String.ofList text := by
  have hstore {rc : Apprc} {name text : List Char}
      (hx : (rc.store name text).value k = some x) :
      rc.value k = some x ∨ k = String.ofList name ∧ x = String.ofList text := by
    rw [Apprc.value_store] at hx
    split_ifs at hx with hk
    · exact Or.inr ⟨hk, (Option.some.inj hx).symm⟩
    · exact Or.inl hx
  rw [add2_apprc] at h
  split_ifs at h with harray
  · dsimp only at h
    split_ifs at h with hfault
    have hlen : 3 ≤ key.length := Nat.not_lt.mp fun hshort => hfault (Or.inl hshort)
    obtain rfl := Except.ok.inj h
    rcases hstore hx with hx | ⟨hk, hx⟩
    · rcases hstore hx with hx | ⟨hk, hx⟩
      · exact Or.inl hx
      · exact Or.inr ⟨_, _, .element harray hlen _, hk, hx⟩
    · exact Or.inr ⟨_, _, .counter harray hlen _, hk, hx⟩
  · obtain rfl := Except.ok.inj h
    rcases hstore hx with hx | ⟨hk, hx⟩
    · exact Or.inl hx
    · exact Or.inr ⟨_, _, .plain (eq_false_of_ne_true harray), hk, hx⟩

/-- The tables that loading a text, or a file, into an empty `dsApprc` produces. -/
inductive Produced (host : Host) : Apprc → Prop where
  | text {text : List Char} {l : Loader Apprc}
      (h : Loads host (.ofText text) bareLoader .initial (.ok l)) : Produced host l.rc
  | file {fname : List Char} {is : IStream} {l l' : Loader Apprc}
      (hopen : openFile host bareLoader fname = .ok (l, is))
      (h : Loads host is l .initial (.ok l')) : Produced host l'.rc

theorem Produced.keeps {P : Apprc → Prop}
    (hadd : ∀ rc key val rc', P rc → add2 host rc key val = .ok rc' → P rc')
    (h : Produced host rc) (hempty : P .empty) : P rc := by
  cases h with
  | text h => exact h.keeps hadd hempty
  | file hopen h =>
    obtain ⟨key, val, _, hadded⟩ := addLine_ok (openFile_adds hopen)
    exact h.keeps hadd (hadd _ _ _ _ hempty hadded)

/-- What is stored is the element of an array, or its counter, and no array key itself. -/
theorem Writes.not_array (h : Writes host key val name text) : ¬"-[]".toList <:+ name := by
  have hlast {s : List Char} (h : "-[]".toList <:+ s) : s.getLast? = some ']' := by
    obtain ⟨stem, rfl⟩ := h
    exact List.getLast?_append_of_ne_nil _ (by decide)
  cases h with
  | plain harray =>
    rintro ⟨stem, rfl⟩
    have htrue := isArrayKey_arrayKey host stem
    rw [arrayKey, harray] at htrue
    cases htrue
  | element harray hlen count =>
    intro hsuffix
    have hend := hlast hsuffix
    rw [List.getLast?_append_of_ne_nil _ (List.cons_ne_nil _ _)] at hend
    rcases List.mem_cons.mp (List.mem_of_getLast? hend) with hdash | hdigit
    · exact absurd hdash (by decide)
    · rcases decimal2_char hdigit with hdash | hdigit
      · exact absurd hdash (by decide)
      · exact absurd hdigit (by decide)
  | counter harray hlen count =>
    intro hsuffix
    have hend := hlast hsuffix
    rw [counterName, List.getLast?_append_of_ne_nil _ (by decide)] at hend
    exact absurd hend (by decide)

/-- Under a key that does not end with the brackets nothing else is stored. -/
theorem Writes.plain_of (h : Writes host key val name text) (hkey : ¬"-[]".toList <:+ key) :
    isArrayKey host key = false ∧ name = key ∧ text = val := by
  cases h with
  | plain harray => exact ⟨harray, rfl, rfl⟩
  | element harray hlen count =>
    rw [isArrayKey_plain hlen hkey] at harray
    cases harray
  | counter harray hlen count =>
    rw [isArrayKey_plain hlen hkey] at harray
    cases harray

theorem Writes.name_char (h : Writes host key val name text) {c : Char} (hc : c ∈ name) :
    c ∈ key ∨ c ∈ "-count".toList ∨ c.isDigit = true := by
  cases h with
  | plain harray => exact Or.inl hc
  | element harray hlen count =>
    rcases List.mem_append.mp hc with hc | hc
    · exact Or.inl (List.mem_of_mem_take hc)
    · rcases List.mem_cons.mp hc with rfl | hc
      · exact Or.inr (Or.inl (by decide))
      · rcases decimal2_char hc with rfl | hdigit
        · exact Or.inr (Or.inl (by decide))
        · exact Or.inr (Or.inr hdigit)
  | counter harray hlen count =>
    rcases List.mem_append.mp hc with hc | hc
    · exact Or.inl (List.mem_of_mem_take hc)
    · exact Or.inr (Or.inl hc)

/-- No array key is stored as it is. -/
theorem Produced.not_array (h : Produced host rc) {x : String}
    (hx : rc.value (String.ofList s) = some x) : ¬"-[]".toList <:+ s := by
  have hempty : ∀ s x, Apprc.empty.value (String.ofList s) = some x → ¬"-[]".toList <:+ s := by
    intro s x hx
    cases hx
  refine h.keeps (P := fun rc => ∀ s x, rc.value (String.ofList s) = some x →
    ¬"-[]".toList <:+ s) (fun rc key val rc' hrc hadd s x hx => ?_) hempty s x hx
  rcases add2_writes hadd hx with hold | ⟨name, text, hwrites, hname, _⟩
  · exact hrc s x hold
  · rw [String.ofList_injective hname]
    exact hwrites.not_array

end Tables

section Weights

/-- Twice the backslashes, and the braces. -/
def weight (s : List Char) : ℕ := 2*s.count '\\'+s.count '{'+s.count '}'

/-- Both streams. -/
def AddState.out (st : AddState) : List Char := st.stKey ++ st.stVal

theorem weight_append (s rest : List Char) : weight (s ++ rest) = weight s+weight rest := by
  rw [weight, weight, weight, List.count_append, List.count_append, List.count_append]
  omega

theorem weight_eq_zero : weight s = 0 ↔ '\\' ∉ s ∧ '{' ∉ s ∧ '}' ∉ s := by
  rw [weight, ← List.count_eq_zero, ← List.count_eq_zero, ← List.count_eq_zero]
  omega

theorem AddState.weight_put (st : AddState) (text : List Char) :
    weight (st.put text).out = weight st.out+weight text := by
  rw [AddState.put]
  split_ifs
  · rw [AddState.out, AddState.out, ← List.append_assoc, weight_append]
  · rw [AddState.out, AddState.out, weight_append, weight_append, weight_append]
    dsimp only
    omega

/-- An escape weighs no more than the backslashes in it. -/
theorem weight_escaped (s : List Char) :
    weight (escaped s.head?)+(s.drop 1).count '\\' ≤ s.count '\\'+1 := by
  cases s with
  | nil => decide
  | cons c s =>
    have hc : weight (escaped (some c)) ≤ [c].count '\\'+1 := by
      unfold escaped
      split
      · exact Nat.zero_le _
      · exact Nat.zero_le _
      · exact Nat.zero_le _
      · exact Nat.le_add_left 1 _
      · exact Nat.le_add_left 1 _
      · rename_i heq
        obtain rfl := Option.some.inj heq
        decide
      · exact Nat.zero_le _
    have hcons : (c :: s).count '\\' = [c].count '\\'+s.count '\\' := by
      rw [← List.singleton_append, List.count_append]
    rw [List.head?_cons, List.drop_one, List.tail_cons, hcons]
    omega

/-- A character weighs no more than the backslashes that it takes from the line. -/
theorem ReadsChar.weight_le {c : Char} {st₁ : AddState} (h : ReadsChar host rc c s st skip st₁)
    (hvar : c ≠ '$') :
    weight st₁.out+(s.drop skip).count '\\' ≤ weight st.out+(c :: s).count '\\' := by
  have hdrop (skip : ℕ) : (s.drop skip).count '\\' ≤ s.count '\\' :=
    (List.drop_sublist skip s).count_le _
  have hcons : s.count '\\' ≤ (c :: s).count '\\' := List.count_le_count_cons
  cases h with
  | escape =>
    have hpair := weight_escaped s
    rw [st.weight_put, List.count_cons_self]
    omega
  | opens => exact Nat.add_le_add_left ((hdrop 0).trans hcons) _
  | closes hlit => exact Nat.add_le_add_left ((hdrop 0).trans hcons) _
  | blank hc => exact Nat.add_le_add_left ((hdrop 0).trans hcons) _
  | expand hvar' => exact absurd rfl hvar
  | tag hkey => exact Nat.add_le_add_left ((hdrop _).trans hcons) _
  | keep hc =>
    have hnone : weight [c] = 0 := by
      simp only [ACTIVE, List.mem_cons, List.not_mem_nil, or_false, not_or] at hc
      rw [weight_eq_zero, List.mem_singleton, List.mem_singleton, List.mem_singleton]
      exact ⟨Ne.symm hc.1, Ne.symm hc.2.1, Ne.symm hc.2.2.1⟩
    rw [st.weight_put, hnone]
    exact Nat.add_le_add_left ((hdrop 0).trans hcons) _

/-- An active character is let through where it is escaped; a backslash takes two. -/
theorem addLoop_weight (hs : '$' ∉ s) (h : addLoop host rc line s n skip st = .ok st') :
    weight st'.out ≤ weight st.out+(s.drop skip).count '\\' := by
  refine addLoop_induct (P := fun s skip st => '$' ∉ s →
    weight st'.out ≤ weight st.out+(s.drop skip).count '\\') ?ends ?skips ?reads h hs
  case ends =>
    intro s skip _
    exact Nat.le_add_right _ _
  case skips =>
    intro c s skip st ih hs
    rw [List.drop_succ_cons]
    exact ih fun hmem => hs (List.mem_cons_of_mem _ hmem)
  case reads =>
    intro c s st skip st₁ hreads ih hs
    rw [List.mem_cons, not_or] at hs
    calc
      weight st'.out ≤ weight st₁.out+(s.drop skip).count '\\' := ih hs.2
      _ ≤ weight st.out+(c :: s).count '\\' := hreads.weight_le (Ne.symm hs.1)

theorem HandsOn.weight_le (h : HandsOn host rc line key val) (hline : '$' ∉ line) :
    weight (key ++ val) ≤ line.count '\\' := by
  have hle : weight (key ++ val) ≤ weight []+line.count '\\' := addLoop_weight hline h.reads
  have hnil : weight [] = 0 := rfl
  rwa [hnil, Nat.zero_add] at hle

theorem Writes.weight_le (h : Writes host key val name text) :
    weight (name ++ text) ≤ weight (key ++ val) := by
  have hdigits {s : List Char} (hs : ∀ c ∈ s, c = '-' ∨ c.isDigit = true) : weight s = 0 := by
    have habsent {x : Char} (hx : x ≠ '-') (hdigit : x.isDigit = false) : x ∉ s := by
      intro hmem
      rcases hs x hmem with heq | htrue
      · exact hx heq
      · rw [hdigit] at htrue
        cases htrue
    exact weight_eq_zero.mpr ⟨habsent (by decide) rfl, habsent (by decide) rfl,
      habsent (by decide) rfl⟩
  -- the prefix of an array is a part of its key
  have hstem : weight (key.take (key.length-3)) ≤ weight key := by
    have hsplit := weight_append (key.take (key.length-3)) (key.drop (key.length-3))
    rw [List.take_append_drop] at hsplit
    omega
  cases h with
  | plain harray => exact le_rfl
  | element harray hlen count =>
    have hindex : weight ('-' :: decimal2 count) = 0 := by
      refine hdigits fun c hc => ?_
      rcases List.mem_cons.mp hc with rfl | hc
      · exact Or.inl rfl
      · exact decimal2_char hc
    rw [weight_append, weight_append, weight_append, hindex]
    omega
  | counter harray hlen count =>
    have hnumber : weight (decimal count) = 0 := hdigits fun c hc => decimal_char hc
    have hcount : weight "-count".toList = 0 := by decide
    rw [counterName, weight_append, weight_append, weight_append, hcount, hnumber]
    omega

end Weights

section Lines
variable {front key' val' : List Char}

theorem HandsOn.unique (h : HandsOn host rc line key val) (h' : HandsOn host rc line key' val') :
    key = key' ∧ val = val' := by
  have hsame := h.reads.symm.trans h'.reads
  rw [Except.ok.injEq, AddState.mk.injEq] at hsame
  exact ⟨hsame.1, hsame.2.1⟩

theorem AddState.put_stKey (hval : st.inVal = true) (text : List Char) :
    (st.put text).stKey = st.stKey := by
  rw [AddState.put, if_pos hval]

theorem ReadsChar.stKey_eq {c : Char} {st₁ : AddState} (h : ReadsChar host rc c s st skip st₁)
    (hval : st.inVal = true) : st₁.stKey = st.stKey ∧ st₁.inVal = true := by
  have hput (text : List Char) : (st.put text).stKey = st.stKey ∧ (st.put text).inVal = true :=
    ⟨AddState.put_stKey hval text, (st.put_inVal text).trans hval⟩
  cases h with
  | escape => exact hput _
  | opens => exact ⟨rfl, hval⟩
  | closes hlit => exact ⟨rfl, hval⟩
  | blank hc => exact ⟨rfl, hval⟩
  | expand hvar => exact hput _
  | tag hkey => exact ⟨rfl, rfl⟩
  | keep hc => exact hput _

/-- Behind the tag the key does not change. -/
theorem addLoop_stKey (hval : st.inVal = true) (h : addLoop host rc line s n skip st = .ok st') :
    st'.stKey = st.stKey := by
  refine addLoop_induct (P := fun _ _ st => st.inVal = true → st'.stKey = st.stKey)
    (fun _ _ _ => rfl) (fun _ _ _ _ ih => ih) (fun c s st skip st₁ hreads ih hval => ?_) h hval
  obtain ⟨hsame, hval₁⟩ := hreads.stKey_eq hval
  exact (ih hval₁).trans hsame

/-- In front of the tag blanks and tabs are dropped. -/
theorem addLoop_front {σ : Type} [KeyTable σ] {rc : σ} (hs : ∀ c ∈ s, c ∉ ACTIVE ∧ c ≠ '=')
    (hlit : st.lit = 0) (hkey : st.inVal = false) :
    addLoop host rc line (s ++ rest) (s.length+n) 0 st =
      addLoop host rc line rest n 0 (st.put (s.filter fun c => !isBlankOrTab c)) := by
  induction s generalizing st with
  | nil => rw [List.nil_append, List.length_nil, Nat.zero_add, List.filter_nil, st.put_nil]
  | cons c s ih =>
    rw [List.forall_mem_cons] at hs
    obtain ⟨hc, hs⟩ := hs
    rw [List.cons_append, List.length_cons, Nat.add_right_comm]
    by_cases hblank : isBlankOrTab c = true
    · rw [addLoop_blank hblank hlit hkey, ih hs hlit hkey,
        List.filter_cons_of_neg (by rw [hblank]; decide)]
    · rw [Bool.not_eq_true] at hblank
      rw [addLoop_keep hc.1 fun _ _ => ⟨hblank, hc.2⟩, ih hs ((st.put_lit _).trans hlit)
        ((st.put_inVal _).trans hkey), st.put_put, List.filter_cons_of_pos (by rw [hblank]; rfl)]
      rfl

/-- A text without active characters is read as a key without its blanks and tabs. -/
theorem readsKey_front (hs : ∀ c ∈ s, c ∉ ACTIVE ∧ c ≠ '=') :
    ReadsKey s (s.filter fun c => !isBlankOrTab c) := by
  intro σ _ host rc line rest n
  rw [addLoop_front hs rfl rfl]
  rfl

/-- The tag is not cut off. -/
theorem tag_stays (front rest : List Char) :
    front.length < ((front ++ '=' :: rest).rdropWhile isTrimmed).length := by
  induction rest using List.reverseRecOn with
  | nil =>
    rw [List.rdropWhile_concat_neg _ _ _ (by decide), List.length_append]
    exact Nat.lt_succ_self _
  | append_singleton rest c ih =>
    rw [← List.cons_append, ← List.append_assoc, List.rdropWhile_concat]
    split_ifs
    · exact ih
    · rw [List.length_append, List.length_append, List.length_cons]
      omega

/-- What stands in front of the tag is the key. -/
theorem HandsOn.key_eq (h : HandsOn host rc (front ++ '=' :: rest) key val)
    (hfront : ReadsKey front key') : key = key' := by
  obtain ⟨n, hn⟩ := Nat.exists_eq_add_of_lt (tag_stays front rest)
  have hreads := h.reads
  rw [hn, Nat.add_assoc, hfront, addLoop_tag rfl rfl] at hreads
  exact addLoop_stKey rfl hreads

/-- The line may store the text under the name. -/
def Assigned (host : Host) (buf name text : List Char) : Prop :=
  ∃ (rc : Apprc) (key val : List Char), HandsOn host rc buf key val ∧ Writes host key val name text

theorem Stops.ok_rc (h : Stops host line l f (.ok l')) : l'.rc = l.rc := by
  generalize hr : (Except.ok l' : Except LoadError (Loader Apprc)) = r at h
  cases h with
  | leave hturn =>
    obtain ⟨_, rfl, _⟩ := leave_of_turn hturn
    exact finish_rc hr.symm
  | throw _ => cases hr
  | unopened _ _ => cases hr
  | failed _ _ _ => cases hr

/-- Without includes, what a load adds to the table comes from lines that it reads as keys. -/
theorem loads_assigned
    (hlines : ∀ line ∈ lines, '\n' ∉ line ∧ lineKind (bufOf line) ≠ .included)
    (h : Loads host (.ofText (unlines lines)) l f (.ok l')) {k x : String}
    (hx : l'.rc.value k = some x) : l.rc.value k = some x ∨
      ∃ line ∈ lines, ShortLine line ∧ lineKind (bufOf line) = .key ∧
        ∃ name text, Assigned host (bufOf line) name text ∧ k = String.ofList name ∧
          x = String.ofList text := by
  -- on the lines; without includes a step is a turn
  induction lines generalizing l f with
  | nil =>
    rw [unlines_nil, loads_nil] at h
    rw [finish_rc h.symm] at hx
    exact Or.inl hx
  | cons line lines ih =>
    rw [List.forall_mem_cons] at hlines
    obtain ⟨⟨hnewline, hkind⟩, hlines⟩ := hlines
    rw [unlines_cons] at h
    rcases text_cases line with hshort | ⟨first, more, rfl, _⟩ | ⟨long, c, more, post, rfl, hlen,
      hlong, _⟩
    · rcases (loads_line hshort).mp h with hstops | ⟨l₁, f₁, hstep, h⟩
      · rw [hstops.ok_rc] at hx
        exact Or.inl hx
      · rcases ih hlines h with hold | ⟨line', hmem, hwritten⟩
        · cases hstep with
          | included hturn _ _ => exact absurd (nested_of_turn hturn).1 hkind
          | next hturn =>
            have hadds := @turn_adds _ _ host l (f.nextLine line) line
            rw [hturn] at hadds
            rcases hadds with hsame | ⟨hkey, hadded⟩
            · rw [hsame] at hold
              exact Or.inl hold
            · obtain ⟨key, val, hhands, hadded⟩ := addLine_ok hadded
              rcases add2_writes hadded hold with hold | ⟨name, text, hwrites, hk, hx⟩
              · exact Or.inl hold
              · exact Or.inr ⟨line, List.mem_cons_self, hshort, hkey, name, text,
                  ⟨_, key, val, hhands, hwrites⟩, hk, hx⟩
        · exact Or.inr ⟨line', List.mem_cons_of_mem _ hmem, hwritten⟩
    · exact absurd (List.mem_append_right _ List.mem_cons_self) hnewline
    · -- a line that is too long ends the load, if at all
      rw [List.mem_append, List.mem_cons, not_or, not_or] at hlong
      rw [List.append_assoc, List.cons_append, loads_long hlong.1 (by rw [hlen]; rfl)
        (Ne.symm hlong.2.1)] at h
      rw [h.ok_rc] at hx
      exact Or.inl hx

end Lines

end S3Dhcpd.RcFile
