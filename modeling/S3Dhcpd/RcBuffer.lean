import S3Dhcpd.RcRuns

/-! What a condition that ends at its operator reads: what an earlier, longer line has left in the
buffer. -/
namespace S3Dhcpd.RcFile

variable {σ : Type} [KeyTable σ] {host : Host} {rc : σ} {is is' : IStream} {n : ℕ}
  {line cond b b' : List Char} {behind : Option (List Char)}

/-- The condition of the line ends at its operator, in front of what is left in the buffer. -/
def ReadsOld (line : List Char) : Prop :=
  '\x00' ∉ line ∧ lineKind (bufOf line) = .opens ∧
    ∃ lh condition, splitCondition ((bufOf line).drop 3) = .ok (lh, condition, none)

/-- The lines of the text, as the loop reads them, read old characters from index `n` on only. -/
def ReadsFrom (n : ℕ) (text : List Char) : Prop :=
  ∀ pre line rest, text = pre ++ (line ++ rest) → (pre = [] ∨ pre.getLast? = some '\n') →
    '\n' ∉ line → rest ≠ [] → (rest.head? = some '\n' ∨ line.length = MAX_RC_LINE-2) →
    ReadsOld line → n ≤ line.length+1

/-- A stream that has failed delivers empty lines. -/
def IStream.ReadsFrom (n : ℕ) (is : IStream) : Prop := is.fail = true ∨ RcFile.ReadsFrom n is.rest

section Buffers

/-- Buffers that are the same from an index on are so from a later one on. -/
theorem drop_of_drop {m : ℕ} (hnm : n ≤ m) (h : b.drop n = b'.drop n) : b.drop m = b'.drop m := by
  rw [← Nat.add_sub_cancel' hnm, ← List.drop_drop, ← List.drop_drop, h]

theorem overwrite_drop (h : b.drop n = b'.drop n) :
    (overwrite line b).drop n = (overwrite line b').drop n := by
  have hsplit (b : List Char) : (overwrite line b).drop n =
      (line ++ ['\x00']).drop n ++ b.drop (line.length+1+(n-(line.length+1))) := by
    rw [overwrite, List.append_cons, List.drop_append, List.drop_drop, List.length_append,
      List.length_singleton]
  rw [hsplit, hsplit, drop_of_drop (by omega) h]

theorem dropWhile_zero (hzero : '\x00' ∉ line) (rest : List Char) :
    (line ++ '\x00' :: rest).dropWhile (· ≠ '\x00') = '\x00' :: rest := by
  rw [List.dropWhile_append_of_pos, List.dropWhile_cons_of_neg (by simp)]
  intro c hc
  exact decide_eq_true fun h => hzero (h ▸ hc)

theorem leftover_overwrite (h : b.drop (line.length+1) =
    b'.drop (line.length+1)) : leftover (overwrite line b) = leftover (overwrite line b') := by
  rw [leftover, leftover, overwrite, overwrite, h]

theorem takeWhile_zero (line rest : List Char) :
    (line ++ '\x00' :: rest).takeWhile (· ≠ '\x00') = line.takeWhile (· ≠ '\x00') := by
  rw [List.takeWhile_append, List.takeWhile_cons_of_neg (by simp), List.append_nil]
  split_ifs with hall
  · exact (List.IsPrefix.eq_of_length (List.takeWhile_prefix _) hall).symm
  · rfl

/-- A zero in the line ends the text that could be read behind it as well. -/
theorem leftover_of_zero (hzero : '\x00' ∈ line) (b b' : List Char) :
    leftover (overwrite line b) = leftover (overwrite line b') := by
  obtain ⟨front, back, rfl, hfront⟩ := List.eq_append_cons_of_mem hzero
  have hleft (b : List Char) : leftover (overwrite (front ++ '\x00' :: back) b) =
      some (back.takeWhile (· ≠ '\x00')) := by
    rw [leftover, overwrite, List.append_assoc, List.cons_append, dropWhile_zero hfront]
    cases back with
    | nil => rfl
    | cons c back => exact congrArg some (takeWhile_zero (c :: back) _)
  rw [hleft, hleft]

end Buffers

section Conditions

/-- What is behind the condition does not matter unless it ends at its operator. -/
theorem expandCondition_behind {behind' : Option (List Char)}
    (h : ¬∃ lh condition, splitCondition cond = .ok (lh, condition, none)) :
    expandCondition host rc behind cond = expandCondition host rc behind' cond := by
  obtain ⟨fuel, hfuel⟩ : ∃ fuel, cond.length+MAX_RC_LINE = fuel+1 := ⟨_, rfl⟩
  rw [expandCondition, expandCondition, hfuel, expandConditionLoop, expandConditionLoop]
  cases hsplit : splitCondition cond with
  | error e => rfl
  | ok split =>
    obtain ⟨lh, condition, found⟩ := split
    cases found with
    | none => exact absurd ⟨lh, condition, hsplit⟩ h
    | some rh => rfl

/-- Of two buffers a condition reads the same, when they differ only below what it may read. -/
theorem expandCondition_overwrite (hkind : lineKind (bufOf line) = .opens)
    (hreads : ReadsOld line → n ≤ line.length+1)
    (h : b.drop n = b'.drop n) :
    expandCondition host rc (leftover (overwrite line b)) ((bufOf line).drop 3) =
      expandCondition host rc (leftover (overwrite line b')) ((bufOf line).drop 3) := by
  by_cases hzero : '\x00' ∈ line
  · rw [leftover_of_zero hzero b b']
  · by_cases hold : ∃ lh condition, splitCondition ((bufOf line).drop 3) = .ok (lh, condition, none)
    · rw [leftover_overwrite (drop_of_drop (hreads ⟨hzero, hkind, hold⟩) h)]
    · exact expandCondition_behind hold

end Conditions

section Streams

/-- What is read is the rest of a line, or the beginning of one that is too long. -/
theorem getline_cases (h : getline (MAX_RC_LINE-1) is = (line, is')) (heof : is'.eof = false) :
    (line = [] ∧ is'.fail = true) ∨
    is.fail = false ∧ '\n' ∉ line ∧ (is.rest = line ++ '\n' :: is'.rest ∨
      is.rest = line ++ is'.rest ∧ line.length = MAX_RC_LINE-2 ∧ is'.rest ≠ [] ∧
        is'.fail = true) := by
  rw [getline] at h
  split_ifs at h with hstate
  · cases h
    exact Or.inl ⟨rfl, rfl⟩
  · rw [Bool.not_eq_true, Bool.or_eq_false_iff] at hstate
    have hsplit : is.rest.takeWhile (· ≠ '\n') ++ is.rest.dropWhile (· ≠ '\n') = is.rest :=
      List.takeWhile_append_dropWhile
    have hline : '\n' ∉ is.rest.takeWhile (· ≠ '\n') := fun h => by
      simpa using List.mem_takeWhile_imp h
    have hnext := List.head?_dropWhile_not (· ≠ '\n') is.rest
    generalize is.rest.takeWhile (· ≠ '\n') = front at h hsplit hline
    generalize is.rest.dropWhile (· ≠ '\n') = back at hsplit hnext
    rw [← hsplit] at h ⊢
    refine Or.inr ⟨hstate.2, ?_⟩
    dsimp only at h
    split_ifs at h with hlen
    · rw [List.drop_left] at h
      cases back with
      | nil =>
        cases h
        cases heof
      | cons c rest =>
        cases h
        have hc : c = '\n' := by simpa using hnext
        exact ⟨hline, Or.inl (by rw [hc])⟩
    · cases h
      rw [MAX_RC_LINE] at hlen ⊢
      have hcut : (front.take 1022 ++ (front ++ back).drop 1022) = front ++ back := by
        rw [← List.take_append_of_le_length (by omega), List.take_append_drop]
      refine ⟨fun h => hline (List.mem_of_mem_take h), Or.inr ⟨hcut.symm, ?_, ?_, rfl⟩⟩
      · rw [List.length_take]
        omega
      · rw [ne_eq, List.drop_eq_nil_iff, List.length_append]
        omega

/-- What holds of the lines of a stream holds of the line that is read and of those behind it. -/
theorem IStream.ReadsFrom.next (h : is.ReadsFrom n)
    (hread : getline (MAX_RC_LINE-1) is = (line, is')) (heof : is'.eof = false) :
    (ReadsOld line → n ≤ line.length+1) ∧ is'.ReadsFrom n := by
  rcases getline_cases hread heof with ⟨rfl, hfail⟩ | ⟨hfail, hline, hrest⟩
  · refine ⟨fun hold => ?_, Or.inl hfail⟩
    cases hold.2.1
  · have h : RcFile.ReadsFrom n is.rest := h.resolve_left (by rw [hfail]; decide)
    rcases hrest with hrest | ⟨hrest, hlen, hne, hfail'⟩
    · refine ⟨h [] line _ hrest (Or.inl rfl) hline (List.cons_ne_nil _ _) (Or.inl rfl), Or.inr ?_⟩
      intro pre line' rest heq hpre
      refine h (line ++ '\n' :: pre) line' rest (by rw [hrest, heq]; simp) (Or.inr ?_)
      rcases hpre with rfl | hpre
      · simp
      · rw [List.getLast?_append, List.getLast?_cons, hpre]
        rfl
    · exact ⟨h [] line _ hrest (Or.inl rfl) hline hne (Or.inr hlen), Or.inl hfail'⟩

/-- The first line of a text is read up to its terminator. -/
theorem line_unique {first text rest : List Char} (hfirst : ShortLine first) (hline : '\n' ∉ line)
    (hend : rest.head? = some '\n' ∨ line.length = MAX_RC_LINE-2)
    (h : first ++ '\n' :: text = line ++ rest) : line = first := by
  have htake := congrArg (List.takeWhile (· ≠ '\n')) h
  have hwhole {s rest : List Char} (hs : '\n' ∉ s) :
      (s ++ rest).takeWhile (· ≠ '\n') = s ++ rest.takeWhile (· ≠ '\n') :=
    List.takeWhile_append_of_pos fun c hc => decide_eq_true fun h => hs (h ▸ hc)
  rw [hwhole hfirst.1, hwhole hline, List.takeWhile_cons_of_neg (by simp), List.append_nil] at htake
  suffices hnil : rest.takeWhile (· ≠ '\n') = [] by rw [htake, hnil, List.append_nil]
  rcases hend with hend | hend
  · rw [← List.head?_eq_none_iff, List.head?_takeWhile, hend]
    rfl
  · have hlen := congrArg List.length htake
    have hshort := hfirst.2
    rw [List.length_append, hend] at hlen
    rw [hlen, MAX_RC_LINE] at hshort
    exact List.eq_nil_of_length_eq_zero (by omega)

theorem readsFrom_line {first text : List Char} (hfirst : ShortLine first)
    (hreads : ReadsOld first → n ≤ first.length+1) (htext : ReadsFrom n text) :
    ReadsFrom n (first ++ '\n' :: text) := by
  intro pre line rest h hpre hline hne hend hold
  rcases hpre with rfl | hpre
  · rw [List.nil_append] at h
    obtain rfl := line_unique hfirst hline hend h
    exact hreads hold
  · obtain ⟨before, rfl⟩ := List.getLast?_eq_some_iff.mp hpre
    rw [List.append_assoc, List.singleton_append] at h
    have hnot : ¬before ++ ['\n'] <+: first :=
      fun hbehind => hfirst.1 (hbehind.subset (List.mem_append_right _ List.mem_cons_self))
    have hbefore : before ++ ['\n'] <+: first ++ '\n' :: text :=
      ⟨line ++ rest, by rw [h, List.append_assoc, List.singleton_append]⟩
    -- the first line is in front of what is read, since it has no terminator in it
    have hprefix : first <+: before := by
      rcases List.prefix_or_prefix_of_prefix (List.prefix_append _ _) hbefore with hle | hge
      · exact (List.prefix_concat_iff.mp hle).resolve_left fun heq => hnot (heq ▸ List.prefix_rfl)
      · exact absurd hge hnot
    obtain ⟨mid, rfl⟩ := hprefix
    rw [List.append_assoc, List.append_cancel_left_eq] at h
    cases mid with
    | nil =>
      obtain rfl := (List.cons_inj_right _).mp h
      exact htext [] line rest rfl (Or.inl rfl) hline hne hend hold
    | cons c mid =>
      obtain ⟨rfl, rfl⟩ := List.cons.inj h
      refine htext (mid ++ ['\n']) line rest (by simp) (Or.inr ?_) hline hne hend hold
      exact List.getLast?_concat

/-- Where no line is an `.if`, nothing old is read. -/
theorem readsFrom_unlines {lines : List (List Char)}
    (h : ∀ line ∈ lines, ShortLine line ∧ lineKind (bufOf line) ≠ .opens) :
    ReadsFrom n (unlines lines) := by
  induction lines with
  | nil =>
    intro pre line rest h _ _ hne
    exact absurd (List.append_eq_nil_iff.mp (List.append_eq_nil_iff.mp h.symm).2).2 hne
  | cons line lines ih =>
    rw [List.forall_mem_cons] at h
    rw [unlines_cons]
    exact readsFrom_line h.1.1 (fun hold => absurd hold.2.1 h.1.2) (ih h.2)

end Streams

end S3Dhcpd.RcFile
