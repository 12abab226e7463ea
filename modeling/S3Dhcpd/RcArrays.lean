import S3Dhcpd.RcEscapes

/-! Array keys: the elements and the counter that `_add2` stores for them, over runs of lines. -/
namespace S3Dhcpd.RcFile

variable {host : Host} {rc rc' : Apprc} {p q k v : List Char} {i j n : ℕ}
  {line : List Char} {lines : List (List Char)} {a : List Char × List Char}
  {adds done all : List (List Char × List Char)}

/-- `seek(key, idx)`. The buffer for the name has room for eight digits. -/
def seekIndex (rc : Apprc) (key : List Char) (idx : ℤ) : Except LoadError (Option String) :=
  let nk := key ++ '-' :: decimal2 idx
  if nk.length+1 > key.length+10 then .error .fault else .ok (rc.seek (String.ofList nk))

def arrayKey (p : List Char) : List Char := p ++ "-[]".toList

def counterName (p : List Char) : List Char := p ++ "-count".toList

def elementName (p : List Char) (i : ℕ) : List Char := p ++ '-' :: decimal2 i

section Names

theorem decimal2_nat (n : ℕ) : decimal2 n = decimal n ∨ decimal2 n = '0' :: decimal n := by
  rw [decimal2]
  split_ifs
  · exact Or.inr rfl
  · exact Or.inl rfl

theorem decimal2_digit {c : Char} (hc : c ∈ decimal2 n) : c.isDigit = true := by
  rcases decimal2_nat n with h | h
  · rw [h] at hc
    exact decimal_digit hc
  · rw [h] at hc
    rcases List.mem_cons.mp hc with rfl | hc
    · rfl
    · exact decimal_digit hc

theorem decimal_char {count : ℤ} {c : Char} (hc : c ∈ decimal count) :
    c = '-' ∨ c.isDigit = true := by
  rw [decimal] at hc
  split_ifs at hc
  · rcases List.mem_cons.mp hc with rfl | hc
    · exact Or.inl rfl
    · exact Or.inr (Nat.isDigit_of_mem_toDigits (by decide) (by decide) hc)
  · exact Or.inr (Nat.isDigit_of_mem_toDigits (by decide) (by decide) hc)

theorem decimal2_char {count : ℤ} {c : Char} (hc : c ∈ decimal2 count) :
    c = '-' ∨ c.isDigit = true := by
  rw [decimal2] at hc
  split_ifs at hc
  · rcases List.mem_cons.mp hc with rfl | hc
    · exact Or.inr rfl
    · exact decimal_char hc
  · exact decimal_char hc

theorem decimal2_ne_nil : decimal2 n ≠ [] := by
  rcases decimal2_nat n with h | h
  · rw [h, decimal_nat]
    exact Nat.toDigits_ne_nil
  · rw [h]
    exact List.cons_ne_nil _ _

theorem decimal2_value (n : ℕ) : Nat.ofDigitChars 10 (decimal2 n) 0 = n := by
  rcases decimal2_nat n with h | h
  · rw [h, decimal_nat, Nat.ofDigitChars_ten_toDigits]
  · rw [h, Nat.ofDigitChars_cons, decimal_nat]
    exact Nat.ofDigitChars_ten_toDigits

theorem decimal2_injective (h : decimal2 i = decimal2 j) : i = j := by
  rw [← decimal2_value i, h, decimal2_value]

/-- Eight digits are enough for the numbers below a hundred million. -/
theorem decimal2_length : (decimal2 n).length ≤ 8 ↔ n < 10^8 := by
  rw [decimal2]
  split_ifs with hsmall
  · have hn : n < 10 := by omega
    rw [List.length_cons, decimal_nat, Nat.toDigits_of_lt_base hn, List.length_singleton]
    omega
  · rw [decimal_nat]
    exact Nat.length_toDigits_le_iff (by decide) (by decide)

/-- The names behind the last delimiters. -/
theorem last_section {back back' : List Char} (hback : '-' ∉ back) (hback' : '-' ∉ back')
    (h : p ++ '-' :: back = q ++ '-' :: back') : p = q ∧ back = back' := by
  have hreverse := congrArg List.reverse h
  simp only [List.reverse_append, List.reverse_cons, List.append_assoc, List.singleton_append]
    at hreverse
  have hcut {s : List Char} (hs : '-' ∉ s) (rest : List Char) :
      (s.reverse ++ '-' :: rest).takeWhile (· ≠ '-') = s.reverse :=
    takeWhile_to (fun hmem => hs (List.mem_reverse.mp hmem)) rest
  have hsame := congrArg (List.takeWhile (· ≠ '-')) hreverse
  rw [hcut hback, hcut hback', List.reverse_inj] at hsame
  subst hsame
  have hrest := (List.cons.inj (List.append_cancel_left hreverse)).2
  exact ⟨List.reverse_inj.mp hrest, rfl⟩

theorem elementName_injective (h : elementName p i = elementName q j) : p = q ∧ i = j := by
  have habsent (n : ℕ) : '-' ∉ decimal2 n := fun hmem => absurd (decimal2_digit hmem) (by decide)
  obtain ⟨hstem, hindex⟩ := last_section (habsent i) (habsent j) h
  exact ⟨hstem, decimal2_injective hindex⟩

theorem counterName_injective (h : counterName p = counterName q) : p = q :=
  List.append_cancel_right h

theorem arrayKey_injective (h : arrayKey p = arrayKey q) : p = q := List.append_cancel_right h

theorem elementName_ne_counter : elementName p i ≠ counterName q := by
  intro h
  have habsent : '-' ∉ decimal2 i := fun hmem => absurd (decimal2_digit hmem) (by decide)
  obtain ⟨_, hindex⟩ := last_section habsent (by decide : '-' ∉ "count".toList) h
  have hc : 'c' ∈ decimal2 i := by
    rw [hindex]
    decide
  exact absurd (decimal2_digit hc) (by decide)

end Names

/-- The values that the array key of a prefix appends, in order. -/
def appended (p : List Char) (adds : List (List Char × List Char)) : List (List Char) :=
  (adds.filter fun a => a.1 = arrayKey p).map Prod.snd

/-- The prefix of an array key. -/
def Prefix (adds : List (List Char × List Char)) (p : List Char) : Prop :=
  ∃ v, (arrayKey p, v) ∈ adds

/-- A key that is neither the counter of an array nor one of its elements, nor looks like one. -/
def Ordinary (adds : List (List Char × List Char)) (k : List Char) : Prop :=
  ∀ p, Prefix adds p → k ≠ counterName p ∧
    ∀ digits, digits ≠ [] → (∀ c ∈ digits, c.isDigit = true) → k ≠ p ++ '-' :: digits

/-- Array keys and ordinary keys, in any order. -/
def Interleaved (adds : List (List Char × List Char)) : Prop :=
  ∀ a ∈ adds, (∃ p, a.1 = arrayKey p) ∨ Ordinary adds a.1

/-- The lines assign these values to these keys, each in the table that it meets. -/
def Assigns (host : Host) :
    Apprc → List (List Char) → List (List Char × List Char) → Prop
  | _, [], [] => True
  | rc, line :: lines, a :: adds => HandsOn host rc line a.1 a.2 ∧
      ∀ rc', add2 host rc a.1 a.2 = .ok rc' → Assigns host rc' lines adds
  | _, _, _ => False

/-- `_add2` for one key and value after the other. -/
def addAll (host : Host) (rc : Apprc) (adds : List (List Char × List Char)) :
    Except LoadError Apprc := adds.foldlM (fun rc a => add2 host rc a.1 a.2) rc

theorem Assigns.addAll (h : Assigns host rc lines adds) :
    lines.foldlM (addLine host) rc = addAll host rc adds := by
  induction lines generalizing rc adds with
  | nil =>
    cases adds with
    | nil => rfl
    | cons a adds => exact h.elim
  | cons line lines ih =>
    cases adds with
    | nil => exact h.elim
    | cons a adds =>
      obtain ⟨hline, hlines⟩ := h
      rw [RcFile.addAll, List.foldlM_cons, List.foldlM_cons, hline.addLine]
      cases hadd : add2 host rc a.1 a.2 with
      | error e => rfl
      | ok rc' => exact ih (hlines rc' hadd)

section Runs

/-- The memory in front of its copy makes no array of the key. -/
def Unmistaken (host : Host) (k : List Char) : Prop :=
  ¬"-[]".toList <:+ k → isArrayKey host k = false

/-- The table after the assignments in `done`, as far as the arrays are concerned. -/
structure Collected (all done : List (List Char × List Char)) (rc : Apprc) : Prop where
  keyst : rc.keyst = none
  counter : ∀ q, Prefix all q → rc.value (String.ofList (counterName q)) =
    if (appended q done).length = 0 then none
    else some (String.ofList (decimal (appended q done).length))
  element : ∀ q, Prefix all q → ∀ i, rc.value (String.ofList (elementName q i)) =
    (appended q done)[i]?.map String.ofList
  bounded : ∀ q, (appended q done).length < 2^31

theorem appended_concat (q : List Char) (done : List (List Char × List Char))
    (a : List Char × List Char) : appended q (done ++ [a]) =
      appended q done ++ if a.1 = arrayKey q then [a.2] else [] := by
  rw [appended, List.filter_append, List.map_append, ← appended]
  split_ifs with hkey
  · rw [List.filter_singleton, decide_eq_true hkey]
    rfl
  · rw [List.filter_singleton, decide_eq_false hkey]
    rfl

theorem appended_append (q : List Char) (done rest : List (List Char × List Char)) :
    appended q (done ++ rest) = appended q done ++ appended q rest := by
  rw [appended, List.filter_append, List.map_append]
  rfl

theorem isArrayKey_arrayKey (host : Host) (p : List Char) : isArrayKey host (arrayKey p) = true :=
  isArrayKey_append host p '-' '[' ']'

theorem Apprc.seek_value (h : rc.keyst = none) (key : String) : rc.seek key = rc.value key := by
  rw [Apprc.seek, h]
  split
  · rename_i heq
    cases heq
  · rfl

/-- An array key stores the element behind the last one, and counts it. -/
theorem add2_arrayKey (hcount : rc.seek (String.ofList (counterName q)) =
      if n = 0 then none else some (String.ofList (decimal n))) (hn : n < 2^31) (v : List Char) :
    add2 host rc (arrayKey q) v = if n+1 = 2^31 then .error .fault
      else .ok ((rc.store (elementName q n) v).store (counterName q) (decimal (n+1 : ℕ))) := by
  have hlen : (arrayKey q).length = q.length+3 := List.length_append
  have hstem : (arrayKey q).take ((arrayKey q).length-3) = q := by
    rw [hlen, Nat.add_sub_cancel]
    exact List.take_left
  rw [counterName] at hcount
  have hlong : ¬(arrayKey q).length < 3 := by omega
  -- without a counter the count is zero, else the counter's number is read back
  have hread : ((rc.seek (String.ofList (q ++ "-count".toList))).map Apprc.atoi).getD 0 =
      (n : ℤ) := by
    rw [hcount]
    split_ifs with hzero
    · exact (congrArg Nat.cast hzero).symm
    · exact atoi_decimal (by omega) (by omega)
  have hmax : (n : ℤ) = 2^31-1 ↔ n+1 = 2^31 := by omega
  rw [add2_apprc, if_pos (isArrayKey_arrayKey host q), hstem]
  simp only [hread, hlong, false_or, hmax]
  rfl

/-- A key that is no array is stored, or taken for one because it is short. -/
theorem add2_ordinary (hk : ¬"-[]".toList <:+ k) (v : List Char) : add2 host rc k v =
    if isArrayKey host k = true then .error .fault else .ok (rc.store k v) := by
  rw [add2_apprc]
  split_ifs with harray
  · -- only in front of a short key can there be other memory
    have hshort : k.length < 3 := by
      by_contra hlong
      rw [isArrayKey_plain (by omega) hk] at harray
      cases harray
    dsimp only
    rw [if_pos (Or.inl hshort)]
  · rfl

/-- One more value of an array. -/
theorem Collected.array (h : Collected all done rc) (hq : Prefix all q)
    (hadd : add2 host rc (arrayKey q) v = .ok rc') :
    Collected all (done ++ [(arrayKey q, v)]) rc' := by
  have hseek := h.counter q hq
  rw [← Apprc.seek_value h.keyst] at hseek
  rw [add2_arrayKey hseek (h.bounded q)] at hadd
  split_ifs at hadd with hmax
  obtain rfl := Except.ok.inj hadd
  have hlt := h.bounded q
  -- nothing is appended for other prefixes
  have happended (q' : List Char) : appended q' (done ++ [(arrayKey q, v)]) =
      appended q' done ++ if q = q' then [v] else [] := by
    rw [appended_concat]
    congr 1
    exact if_congr ⟨arrayKey_injective, congrArg arrayKey⟩ rfl rfl
  refine ⟨h.keyst, fun q' hq' => ?_, fun q' hq' i => ?_, fun q' => ?_⟩
  · rw [Apprc.value_store, Apprc.value_store, happended]
    by_cases hsame : q = q'
    · subst hsame
      rw [if_pos rfl, if_pos rfl, List.length_append, List.length_singleton,
        if_neg (Nat.succ_ne_zero _)]
    · rw [if_neg fun heq => hsame (counterName_injective (String.ofList_injective heq)).symm,
        if_neg fun heq => elementName_ne_counter (String.ofList_injective heq).symm,
        if_neg hsame, List.append_nil, h.counter q' hq']
  · rw [Apprc.value_store, Apprc.value_store, happended,
      if_neg fun heq => elementName_ne_counter (String.ofList_injective heq)]
    by_cases hsame : q = q'
    · subst hsame
      rw [if_pos rfl, h.element q hq i]
      -- an old element, the new one, and none yet
      rcases lt_trichotomy i (appended q done).length with hi | rfl | hi
      · rw [if_neg fun heq => hi.ne (elementName_injective (String.ofList_injective heq)).2,
          List.getElem?_append_left hi]
      · rw [if_pos rfl, List.getElem?_concat_length]
        rfl
      · rw [if_neg fun heq => hi.ne' (elementName_injective (String.ofList_injective heq)).2,
          List.getElem?_eq_none hi.le, List.getElem?_eq_none]
        rw [List.length_append, List.length_singleton]
        omega
    · rw [if_neg fun heq => hsame (elementName_injective (String.ofList_injective heq)).1.symm,
        if_neg hsame, List.append_nil, h.element q' hq' i]
  · rw [happended]
    by_cases hsame : q = q'
    · subst hsame
      rw [if_pos rfl, List.length_append, List.length_singleton]
      omega
    · rw [if_neg hsame, List.append_nil]
      exact h.bounded q'

/-- An ordinary key changes no array. -/
theorem Collected.ordinary (h : Collected all done rc) (hk : Ordinary all k)
    (harray : ¬"-[]".toList <:+ k) (hadd : add2 host rc k v = .ok rc') :
    Collected all (done ++ [(k, v)]) rc' := by
  rw [add2_ordinary harray] at hadd
  split_ifs at hadd
  obtain rfl := Except.ok.inj hadd
  have happended (q : List Char) : appended q (done ++ [(k, v)]) = appended q done := by
    rw [appended_concat, if_neg, List.append_nil]
    rintro rfl
    exact harray (List.suffix_append q _)
  refine ⟨h.keyst, fun q hq => ?_, fun q hq i => ?_, fun q => ?_⟩
  · rw [Apprc.value_store, if_neg fun heq => (hk q hq).1 (String.ofList_injective heq).symm,
      happended, h.counter q hq]
  · have hother : k ≠ elementName q i :=
      (hk q hq).2 (decimal2 i) decimal2_ne_nil fun _ => decimal2_digit
    rw [Apprc.value_store, if_neg fun heq => hother (String.ofList_injective heq).symm, happended,
      h.element q hq i]
  · rw [happended]
    exact h.bounded q

/-- What an interleaving may assign to. -/
def Assignable (all : List (List Char × List Char)) (k : List Char) : Prop :=
  (∃ p, k = arrayKey p ∧ Prefix all p) ∨ Ordinary all k ∧ ¬"-[]".toList <:+ k

theorem Interleaved.assignable (h : Interleaved adds) (ha : a ∈ adds) : Assignable adds a.1 := by
  by_cases harray : "-[]".toList <:+ a.1
  · obtain ⟨p, hp⟩ := harray
    refine Or.inl ⟨p, hp.symm, a.2, ?_⟩
    rw [arrayKey, hp]
    exact ha
  · rcases h a ha with ⟨p, hp⟩ | hk
    · rw [hp] at harray
      exact absurd (List.suffix_append p _) harray
    · exact Or.inr ⟨hk, harray⟩

theorem Collected.step (h : Collected all done rc) (ha : Assignable all a.1)
    (hadd : add2 host rc a.1 a.2 = .ok rc') : Collected all (done ++ [a]) rc' := by
  obtain ⟨k, v⟩ := a
  rcases ha with ⟨p, rfl, hp⟩ | ⟨hk, harray⟩
  · exact h.array hp hadd
  · exact h.ordinary hk harray hadd

/-- When an assignment fails. -/
theorem Collected.ok_iff (h : Collected all done rc) (ha : Assignable all a.1) :
    (∃ rc', add2 host rc a.1 a.2 = .ok rc') ↔
      (∀ q, (appended q (done ++ [a])).length < 2^31) ∧ Unmistaken host a.1 := by
  obtain ⟨k, v⟩ := a
  constructor
  · rintro ⟨rc', hadd⟩
    refine ⟨(h.step ha hadd).bounded, fun harray => ?_⟩
    rw [add2_ordinary harray] at hadd
    split_ifs at hadd with hmistaken
    exact eq_false_of_ne_true hmistaken
  · rintro ⟨hbounded, hplain⟩
    rcases ha with ⟨p, rfl, hp⟩ | ⟨hk, harray⟩
    · have hseek := h.counter p hp
      rw [← Apprc.seek_value h.keyst] at hseek
      have hlt := hbounded p
      rw [appended_concat, if_pos rfl, List.length_append, List.length_singleton] at hlt
      exact ⟨_, by rw [add2_arrayKey hseek (h.bounded p), if_neg hlt.ne]⟩
    · exact ⟨_, by rw [add2_ordinary harray, if_neg (by rw [hplain harray]; decide)]⟩

theorem appended_le (q : List Char) (done rest : List (List Char × List Char)) :
    (appended q done).length ≤ (appended q (done ++ rest)).length := by
  rw [appended_append, List.length_append]
  exact Nat.le_add_right _ _

/-- The run over the rest of the assignments. -/
theorem Collected.run (h : Collected all done rc) (hrest : ∀ a ∈ adds, Assignable all a.1) :
    (∀ rc', addAll host rc adds = .ok rc' → Collected all (done ++ adds) rc') ∧
    ((∃ rc', addAll host rc adds = .ok rc') ↔
      (∀ q, (appended q (done ++ adds)).length < 2^31) ∧ ∀ a ∈ adds, Unmistaken host a.1) := by
  -- on the assignments that are left
  induction adds generalizing done rc with
  | nil =>
    rw [List.append_nil]
    refine ⟨fun rc' hrun => ?_, fun _ => ⟨h.bounded, fun a ha => absurd ha List.not_mem_nil⟩,
      fun _ => ⟨rc, rfl⟩⟩
    obtain rfl := Except.ok.inj hrun
    exact h
  | cons a adds ih =>
    rw [List.forall_mem_cons] at hrest
    obtain ⟨ha, hrest⟩ := hrest
    have hcons : done ++ a :: adds = done ++ [a] ++ adds := by simp
    have hunfold : addAll host rc (a :: adds) =
        add2 host rc a.1 a.2 >>= fun rc' => addAll host rc' adds := by
      rw [addAll, List.foldlM_cons]
      rfl
    rw [hcons, hunfold, List.forall_mem_cons]
    cases hadd : add2 host rc a.1 a.2 with
    | error e =>
      have hfails (rc' : Apprc) : (Except.error e >>= fun rc => addAll host rc adds) ≠ .ok rc' := by
        intro hrun
        cases hrun
      refine ⟨fun rc' hrun => absurd hrun (hfails rc'), ?_, ?_⟩
      · rintro ⟨rc', hrun⟩
        exact absurd hrun (hfails rc')
      rintro ⟨hbounded, hplain, _⟩
      obtain ⟨rc', hok⟩ := (h.ok_iff ha).mpr
        ⟨fun q => (appended_le q _ adds).trans_lt (hbounded q), hplain⟩
      rw [hadd] at hok
      cases hok
    | ok rc' =>
      have hstep := h.step ha hadd
      have hplain := ((h.ok_iff ha).mp ⟨rc', hadd⟩).2
      obtain ⟨hcollected, hok⟩ := ih hstep hrest
      refine ⟨hcollected, ?_⟩
      change (∃ rc'', addAll host rc' adds = .ok rc'') ↔ _
      rw [hok]
      exact ⟨fun hrun => ⟨hrun.1, hplain, hrun.2⟩, fun hrun => ⟨hrun.1, hrun.2.2⟩⟩

theorem collected_empty (all : List (List Char × List Char)) : Collected all [] .empty :=
  ⟨rfl, fun _ _ => rfl, fun _ _ _ => rfl, fun _ => Nat.two_pow_pos 31⟩

end Runs

section Arrays

/-- Looking up an element of a prefix ends inside the buffer for its name for the first hundred
million. -/
theorem seekIndex_eq (h : rc.keyst = none) : seekIndex rc p i =
    if i < 10^8 then .ok (rc.value (String.ofList (elementName p i))) else .error .fault := by
  have hlen : (p ++ '-' :: decimal2 i).length+1 > p.length+10 ↔ ¬i < 10^8 := by
    rw [← decimal2_length, List.length_append, List.length_cons]
    omega
  rw [seekIndex]
  simp only [hlen]
  split_ifs
  · rw [Apprc.seek_value h]
    rfl
  · rfl

/-- The lines are read, and then an index below the number of the values appended under a prefix
finds that value, every other finds none, and the counter tells the number. -/
def AppendsTo (host : Host) (lines : List (List Char)) (adds : List (List Char × List Char))
    (p : List Char) (i : ℕ) : Prop :=
  ∃ rc, lines.foldlM (addLine host) Apprc.empty = .ok rc ∧
    seekIndex rc p i = .ok ((appended p adds)[i]?.map String.ofList) ∧
    rc.seek (String.ofList (counterName p)) =
      some (String.ofList (decimal (appended p adds).length))

/-- Array keys append in every interleaving, exactly as long as the name of the element fits its
buffer, no counter overflows, and no short key is taken for an array. -/
theorem arrays_append (hlines : Assigns host .empty lines adds) (hadds : Interleaved adds)
    (hp : Prefix adds p) : AppendsTo host lines adds p i ↔
      i < 10^8 ∧ (∀ q, (appended q adds).length < 2^31) ∧
        ∀ a ∈ adds, ¬"-[]".toList <:+ a.1 → isArrayKey host a.1 = false := by
  obtain ⟨hcollected, hok⟩ := @Collected.run host Apprc.empty adds [] adds (collected_empty adds)
    fun a ha => hadds.assignable ha
  rw [List.nil_append] at hcollected hok
  rw [AppendsTo, hlines.addAll]
  constructor
  · rintro ⟨rc, hrun, helement, _⟩
    refine ⟨?_, hok.mp ⟨rc, hrun⟩⟩
    rw [seekIndex_eq (hcollected rc hrun).keyst] at helement
    split_ifs at helement with hi
    exact hi
  · rintro ⟨hi, hbounded, hplain⟩
    obtain ⟨rc, hrun⟩ := hok.mpr ⟨hbounded, hplain⟩
    have h := hcollected rc hrun
    refine ⟨rc, hrun, ?_, ?_⟩
    · rw [seekIndex_eq h.keyst, if_pos hi, h.element p hp i]
    · obtain ⟨v, hv⟩ := hp
      have hlen : (appended p adds).length ≠ 0 := by
        rw [appended, List.length_map, ne_eq, List.length_eq_zero_iff]
        exact List.ne_nil_of_mem (List.mem_filter.mpr ⟨hv, decide_eq_true rfl⟩)
      rw [Apprc.seek_value h.keyst, h.counter p ⟨v, hv⟩, if_neg hlen]

/-- The name of the element behind a hundred million others does not fit its buffer. -/
theorem element_name_overflows : ¬∀ (host : Host) (lines : List (List Char))
    (adds : List (List Char × List Char)) (p : List Char) (i : ℕ),
    (∀ q, Prefix adds q → q.head? ≠ some '-') → Assigns host .empty lines adds →
    Interleaved adds → Prefix adds p → AppendsTo host lines adds p i := by
  intro h
  have honly {q : List Char} (hq : Prefix [("aa-[]".toList, ['x'])] q) : q = "aa".toList := by
    obtain ⟨v, hv⟩ := hq
    exact arrayKey_injective (congrArg Prod.fst (List.mem_singleton.mp hv))
  have hline : HandsOn bareHost Apprc.empty "aa-[]=x".toList "aa-[]".toList ['x'] :=
    ⟨by decide, rfl⟩
  obtain ⟨rc, hrun, helement, _⟩ := h bareHost ["aa-[]=x".toList] [("aa-[]".toList, ['x'])]
    "aa".toList (10^8) (fun q hq => by rw [honly hq]; decide) ⟨hline, fun _ _ => trivial⟩
    (fun a ha => Or.inl ⟨"aa".toList, congrArg Prod.fst (List.mem_singleton.mp ha)⟩)
    ⟨['x'], List.mem_singleton_self _⟩
  have hkeyst : rc.keyst = none := by
    obtain rfl : _ = rc := Except.ok.inj hrun
    rfl
  rw [seekIndex_eq hkeyst, if_neg (lt_irrefl _)] at helement
  cases helement

/-- An array with an ordinary key between its values. -/
theorem arrays_append_example : AppendsTo bareHost
    ["p-[] = a".toList, "key = b".toList, "p-[] = c".toList]
    [("p-[]".toList, ['a']), ("key".toList, ['b']), ("p-[]".toList, ['c'])] "p".toList 1 := by
  have hlines : Assigns bareHost .empty
      ["p-[] = a".toList, "key = b".toList, "p-[] = c".toList]
      [("p-[]".toList, ['a']), ("key".toList, ['b']), ("p-[]".toList, ['c'])] := by
    refine ⟨⟨by decide, rfl⟩, fun rc' hadd => ?_⟩
    obtain rfl : _ = rc' := Except.ok.inj hadd
    refine ⟨⟨by decide, rfl⟩, fun rc' hadd => ?_⟩
    obtain rfl : _ = rc' := Except.ok.inj hadd
    exact ⟨⟨by decide, rfl⟩, fun _ _ => trivial⟩
  have honly {q : List Char}
      (hq : Prefix [("p-[]".toList, ['a']), ("key".toList, ['b']), ("p-[]".toList, ['c'])] q) :
      q = "p".toList := by
    obtain ⟨v, hv⟩ := hq
    simp only [List.mem_cons, List.not_mem_nil, or_false, Prod.mk.injEq] at hv
    rcases hv with ⟨hkey, _⟩ | ⟨hkey, _⟩ | ⟨hkey, _⟩
    · exact arrayKey_injective hkey
    · have hend := congrArg List.getLast? hkey
      rw [arrayKey, List.getLast?_append_of_ne_nil _ (by decide)] at hend
      exact absurd hend (by decide)
    · exact arrayKey_injective hkey
  have hadds : Interleaved
      [("p-[]".toList, ['a']), ("key".toList, ['b']), ("p-[]".toList, ['c'])] := by
    intro a ha
    simp only [List.mem_cons, List.not_mem_nil, or_false] at ha
    rcases ha with rfl | rfl | rfl
    · exact Or.inl ⟨"p".toList, rfl⟩
    · refine Or.inr fun q hq => ?_
      rw [honly hq]
      refine ⟨by decide, fun digits _ _ heq => ?_⟩
      exact absurd (List.cons.inj heq).1 (by decide)
    · exact Or.inl ⟨"p".toList, rfl⟩
  refine (arrays_append hlines hadds ⟨['a'], List.mem_cons_self⟩).mpr ⟨by decide, fun q => ?_, ?_⟩
  · rw [appended, List.length_map]
    exact (List.length_filter_le _ _).trans_lt (by decide)
  · intro a ha harray
    simp only [List.mem_cons, List.not_mem_nil, or_false] at ha
    rcases ha with rfl | rfl | rfl
    · exact absurd (List.suffix_append "p".toList _) harray
    · rfl
    · exact absurd (List.suffix_append "p".toList _) harray

end Arrays

end S3Dhcpd.RcFile
