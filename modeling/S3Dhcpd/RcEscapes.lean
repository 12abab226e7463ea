import Mathlib.Data.List.GetD
import S3Dhcpd.RcLoad
import S3Dhcpd.RcPairs
import S3Dhcpd.RcScan

/-! Keys and values written with escapes, and what is stored of them. -/
namespace S3Dhcpd.RcFile

variable {σ : Type} [KeyTable σ] {host : Host} {rc : σ} {st : AddState} {c : Char}
  {s k v rest line : List Char}

/-- A printable ASCII character. -/
def Printable (c : Char) : Prop := 32 ≤ c.toNat ∧ c.toNat ≤ 126

instance (c : Char) : Decidable (Printable c) := inferInstanceAs (Decidable (_ ∧ _))

/-- The characters that mean something to `_add`. -/
def SPECIAL : List Char := [' ', '=', '$', '{', '}', '\\']

def escapeChar (c : Char) : List Char := if c ∈ SPECIAL then ['\\', c] else [c]

def escape (s : List Char) : List Char := s.flatMap escapeChar

/-- The characters whose escapes run into the misspelled label. -/
def LOST : List Char := [' ', '=', '$']

def kept (s : List Char) : List Char := s.filter (· ∉ LOST)

section Scanner

@[simp] theorem escape_cons (c : Char) (s : List Char) : escape (c :: s) = escapeChar c ++ escape s :=
  List.flatMap_cons

theorem kept_cons (c : Char) (s : List Char) :
    kept (c :: s) = (if c ∈ LOST then [] else [c]) ++ kept s := by
  by_cases hlost : c ∈ LOST
  · rw [kept, List.filter_cons_of_neg (by simpa using hlost), if_pos hlost, List.nil_append, kept]
  · rw [kept, List.filter_cons_of_pos (by simpa using hlost), if_neg hlost, kept]
    rfl

/-- An escape of a special character, of which all but three are handled. -/
theorem escaped_special (hc : c ∈ SPECIAL) :
    escaped (some c) = if c ∈ LOST then [] else [c] := by
  simp only [SPECIAL, List.mem_cons, List.not_mem_nil, or_false] at hc
  rcases hc with rfl | rfl | rfl | rfl | rfl | rfl <;> rfl

/-- Of a character without an escape nothing is special. -/
theorem plain_char (hprint : Printable c) (hplain : c ∉ SPECIAL) :
    c ≠ '\\' ∧ c ≠ '\x7b' ∧ c ≠ '\x7d' ∧ isBlankOrTab c = false ∧ c ≠ '$' ∧ c ≠ '=' ∧ c ∉ LOST := by
  have hne {x : Char} (hx : x ∈ SPECIAL) : c ≠ x := fun h => hplain (h ▸ hx)
  have hblank : isBlankOrTab c = false := by
    have htab : c ≠ '\t' := by
      rintro rfl
      exact absurd hprint (by decide)
    rw [isBlankOrTab, beq_eq_false_iff_ne.mpr (hne (by decide)), beq_eq_false_iff_ne.mpr htab]
    rfl
  have hlost : c ∉ LOST := fun h => hplain ((show LOST ⊆ SPECIAL by decide) h)
  exact ⟨hne (by decide), hne (by decide), hne (by decide), hblank, hne (by decide),
    hne (by decide), hlost⟩

theorem addLoop_char {n : ℕ} (hprint : Printable c) :
    addLoop host rc line (escapeChar c ++ rest) ((escapeChar c).length+n) 0 st =
      addLoop host rc line rest n 0 (st.put (if c ∈ LOST then [] else [c])) := by
  by_cases hspecial : c ∈ SPECIAL
  · rw [escapeChar, if_pos hspecial, ← escaped_special hspecial]
    change addLoop host rc line ('\\' :: c :: rest) (2+n) 0 st = _
    rw [Nat.add_comm 2 n, addLoop, if_pos rfl, addLoop]
    rfl
  · obtain ⟨hescape, hopen, hclose, hblank, hvar, htag, hlost⟩ := plain_char hprint hspecial
    rw [escapeChar, if_neg hspecial, if_neg hlost]
    change addLoop host rc line (c :: rest) (1+n) 0 st = _
    rw [Nat.add_comm 1 n, addLoop, if_neg hescape, if_neg hopen, if_neg hclose, hblank,
      if_neg (by simp), if_neg hvar, if_neg (by simp [htag])]

/-- What the loop keeps of an escaped text. -/
theorem addLoop_escape {n : ℕ} (hprint : ∀ c ∈ s, Printable c) :
    addLoop host rc line (escape s ++ rest) ((escape s).length+n) 0 st =
      addLoop host rc line rest n 0 (st.put (kept s)) := by
  induction s generalizing st with
  | nil => rw [kept, List.filter_nil, st.put_nil, escape, List.flatMap_nil, List.nil_append,
      List.length_nil, Nat.zero_add]
  | cons c s ih =>
    rw [List.forall_mem_cons] at hprint
    rw [escape_cons, List.append_assoc, List.length_append, Nat.add_assoc,
      addLoop_char hprint.1, ih hprint.2, st.put_put, kept_cons]

theorem Printable.not_trimmed (hprint : Printable c) (hblank : c ≠ ' ') : isTrimmed c = false := by
  have hcontrol {x : Char} (hx : ¬Printable x) : c ≠ x := fun h => hx (h ▸ hprint)
  rw [isTrimmed, isBlankOrTab, beq_eq_false_iff_ne.mpr hblank,
    beq_eq_false_iff_ne.mpr (hcontrol (x := '\t') (by decide)),
    beq_eq_false_iff_ne.mpr (hcontrol (x := '\n') (by decide))]
  rfl

/-- Nothing is cut off behind the value. -/
theorem escape_end (hv : v ≠ []) (hprint : ∀ c ∈ v, Printable c) (hend : v.getLast? ≠ some ' ')
    (pre : List Char) : (pre ++ escape v).rdropWhile isTrimmed = pre ++ escape v := by
  obtain ⟨front, c, rfl⟩ := (List.eq_nil_or_concat' v).resolve_left hv
  have hc : Printable c := hprint c (List.mem_append_right _ List.mem_cons_self)
  have hblank : c ≠ ' ' := by
    rintro rfl
    exact hend List.getLast?_concat
  -- with an escape or without, the last character of the line is that of the value
  obtain ⟨sign, hsign⟩ : ∃ sign, escapeChar c = sign ++ [c] := by
    rw [escapeChar]
    split_ifs
    · exact ⟨['\\'], rfl⟩
    · exact ⟨[], rfl⟩
  have hlast : pre ++ escape (front ++ [c]) = pre ++ (escape front ++ sign) ++ [c] := by
    rw [escape, List.flatMap_append, List.flatMap_singleton, hsign, escape]
    simp only [List.append_assoc]
  rw [hlast, List.rdropWhile_concat_neg]
  rw [hc.not_trimmed hblank]
  decide

theorem escape_front (hprint : ∀ c ∈ v, Printable c) : (escape v).takeWhile isBlankOrTab = [] := by
  cases v with
  | nil => rfl
  | cons c v =>
    rw [escape_cons, escapeChar]
    split_ifs with hspecial
    · rfl
    · have hblank := (plain_char (hprint c List.mem_cons_self) hspecial).2.2.2.1
      exact List.takeWhile_cons_of_neg (by rw [hblank]; decide)

/-- `_add` hands on what it keeps of the key and of the value. -/
theorem addLine_escape (hk : ∀ c ∈ k, Printable c) (hv : ∀ c ∈ v, Printable c) (hne : v ≠ [])
    (hend : v.getLast? ≠ some ' ') :
    addLine host rc (escape k ++ '=' :: escape v) = add2 host rc (kept k) (kept v) := by
  have hlen : ((escape k ++ '=' :: escape v).rdropWhile isTrimmed).length =
      (escape k).length+((escape v).length+1) := by
    rw [List.append_cons, escape_end hne hv hend, ← List.append_cons, List.length_append,
      List.length_cons]
  have htag (st : AddState) (hlit : st.lit = 0) (hkey : st.inVal = false) (line : List Char) :
      addLoop host rc line ('=' :: escape v) ((escape v).length+1) 0 st =
        .ok ({ st with inVal := true }.put (kept v)) := by
    have hvalue := @addLoop_escape _ _ host rc { st with inVal := true } v [] line 0 hv
    rw [List.append_nil, Nat.add_zero] at hvalue
    have hblank : isBlankOrTab '=' = false := rfl
    rw [addLoop, if_neg (by decide), if_neg (by decide), if_neg (by decide), hblank,
      if_neg (by simp), if_neg (by decide), if_pos (by simp [hlit, hkey]), escape_front hv,
      List.length_nil, hvalue, addLoop]
  rw [addLine, hlen, if_neg (by omega), addLoop_escape hk, htag _ rfl rfl]
  rfl

end Scanner

section Stored

theorem isArrayKey_append (host : Host) (stem : List Char) (a b c : Char) :
    isArrayKey host (stem ++ [a, b, c]) = (a == '-' && b == '[' && c == ']') := by
  have hchar {i : ℤ} {j : ℕ} (hi : i = stem.length+j) :
      keyChar host (stem ++ [a, b, c]) i = [a, b, c].getD j '\x00' := by
    subst hi
    rw [keyChar, if_neg (by omega)]
    have hj : ((stem.length:ℤ)+(j:ℤ)).toNat = stem.length+j := by omega
    rw [hj, List.getD_append_right _ _ _ _ (Nat.le_add_right _ _), Nat.add_sub_cancel_left]
  have hlen : ((stem ++ [a, b, c]).length:ℤ) = stem.length+3 := by
    rw [List.length_append]
    rfl
  rw [isArrayKey, hlen, hchar (j := 0) (by omega), hchar (j := 1) (by omega),
    hchar (j := 2) (by omega)]
  rfl

/-- A key that does not end with the brackets is no array. -/
theorem isArrayKey_plain (hlen : 3 ≤ k.length) (harray : ¬"-[]".toList <:+ k) :
    isArrayKey host k = false := by
  obtain ⟨stem, a, b, c, rfl⟩ : ∃ stem a b c, k = stem ++ [a, b, c] := by
    have hdrop : (k.drop (k.length-3)).length = 3 := by
      rw [List.length_drop]
      omega
    obtain ⟨a, b, c, habc⟩ := List.length_eq_three.mp hdrop
    exact ⟨k.take (k.length-3), a, b, c, by rw [← habc, List.take_append_drop]⟩
  rw [isArrayKey_append]
  by_contra h
  rw [Bool.not_eq_false, Bool.and_eq_true, Bool.and_eq_true, beq_iff_eq, beq_iff_eq,
    beq_iff_eq] at h
  obtain ⟨⟨rfl, rfl⟩, rfl⟩ := h
  exact harray ⟨stem, rfl⟩

theorem kept_eq_self : kept s = s ↔ ∀ c ∈ s, c ∉ LOST := by
  rw [kept, List.filter_eq_self]
  simp only [decide_eq_true_eq]

/-- Where nothing is lost, the line leads to the insertion of the key with the value, in every
table. -/
theorem addLine_kept (hlen : 3 ≤ k.length) (hk : ∀ c ∈ k, Printable c) (hne : v ≠ [])
    (hv : ∀ c ∈ v, Printable c) (hend : v.getLast? ≠ some ' ') (harray : ¬"-[]".toList <:+ k)
    (hkept : ∀ c ∈ k ++ v, c ∉ LOST) :
    addLine host rc (escape k ++ '=' :: escape v) = insertKey rc k v := by
  rw [List.forall_mem_append] at hkept
  rw [addLine_escape hk hv hne hend, kept_eq_self.mpr hkept.1, kept_eq_self.mpr hkept.2, add2,
    isArrayKey_plain hlen harray]
  rfl

end Stored

section Fresh
variable {rc rc' : HashApprc} {k' v' : List Char}

/-- The table has the key with the value, and no other. -/
def HoldsOnly (rc : HashApprc) (k v : List Char) : Prop :=
  ∀ x, rc.value x = if HashApprc.slotKey x = .ofText k then some (String.ofList v) else none

/-- The table keeps a printable text as it is. -/
theorem slotText_ofText (hs : ∀ c ∈ s, Printable c) :
    HashApprc.slotText (.ofText s) = String.ofList s := by
  have hbyte {c : Char} (hc : c ∈ s) : (byteOfChar c).toNat = c.toNat := by
    have hbound := (hs c hc).2
    rw [byteOfChar, BitVec.toNat_ofNat]
    exact Nat.mod_eq_of_lt (by omega)
  have hwhole : (CString.ofText s).1 = s.map byteOfChar := by
    refine List.takeWhile_eq_self_iff.mpr fun b hb => decide_eq_true ?_
    obtain ⟨c, hc, rfl⟩ := List.mem_map.mp hb
    intro hzero
    have hnat := hbyte hc
    rw [hzero] at hnat
    exact absurd (hs c hc).1 (by rw [← hnat]; decide)
  have hback : (s.map byteOfChar).map (fun b => Char.ofNat b.toNat) = s := by
    rw [List.map_map]
    conv_rhs => rw [← List.map_id s]
    refine List.map_congr_left fun c hc => ?_
    rw [Function.comp_apply, hbyte hc, Char.ofNat_toNat]
    rfl
  rw [HashApprc.slotText, hwhole, hback]

/-- Printable texts are told apart by the table. -/
theorem ofText_injective (hs : ∀ c ∈ s, Printable c) (hk : ∀ c ∈ k, Printable c)
    (h : CString.ofText s = .ofText k) : s = k := by
  have htext := congrArg HashApprc.slotText h
  rw [slotText_ofText hs, slotText_ofText hk] at htext
  exact String.ofList_injective htext

/-- An insertion into a new table stores the key only. -/
theorem holdsOnly_insert (h : HashApprc.new.insert k v = .ok rc') : HoldsOnly rc' k v := by
  intro x
  rw [HashApprc.insert_value h, HashApprc.value_new]

theorem HoldsOnly.key_eq (h : HoldsOnly rc k v) {key : List Char} {x : String}
    (hvalue : rc.value (String.ofList key) = some x) :
    CString.ofText key = .ofText k ∧ x = String.ofList v := by
  rw [h, HashApprc.slotKey_ofList] at hvalue
  split_ifs at hvalue with hkey
  exact ⟨hkey, (Option.some.inj hvalue).symm⟩

/-- What `_add2` stores in a new table tells the key and the value. -/
theorem add2_new (hk : ∀ c ∈ k, Printable c) (hk' : ∀ c ∈ k', Printable c)
    (h : add2 host .new k' v' = .ok rc) (honly : HoldsOnly rc k v) : k' = k ∧ v' = v := by
  by_cases harray : isArrayKey host k' = true
  · -- an array key stores two keys, an element and the counter
    exfalso
    obtain ⟨_, found, rc₁, hseek, helement, _, hcounter⟩ := (add2_array harray).mp h
    have hzero : (found.map Apprc.atoi).getD 0 = 0 := by
      rw [HashApprc.seek_value hseek, HashApprc.value_new]
      rfl
    rw [hzero] at helement hcounter
    have hstem : ∀ c ∈ k'.take (k'.length-3), Printable c :=
      fun c hc => hk' c (List.mem_of_mem_take hc)
    have hcount : rc.value (String.ofList (k'.take (k'.length-3) ++ "-count".toList)) =
        some (String.ofList (decimal (0+1))) := by
      rw [HashApprc.insert_value hcounter, HashApprc.slotKey_ofList, if_pos rfl]
    obtain ⟨x, hitem⟩ :
        ∃ x, rc.value (String.ofList (k'.take (k'.length-3) ++ '-' :: decimal2 0)) = some x := by
      rw [HashApprc.insert_value hcounter]
      split_ifs
      · exact ⟨_, rfl⟩
      · exact ⟨_, by rw [HashApprc.insert_value helement, HashApprc.slotKey_ofList, if_pos rfl]⟩
    have hsame := (honly.key_eq hitem).1.trans (honly.key_eq hcount).1.symm
    have hnames := ofText_injective
      (List.forall_mem_append.mpr ⟨hstem, forall_mem_of_all (by decide)⟩)
      (List.forall_mem_append.mpr ⟨hstem, forall_mem_of_all (by decide)⟩) hsame
    exact absurd (List.append_cancel_left hnames) (by decide)
  · rw [add2_key (eq_false_of_ne_true harray), insertKey, mapError_ok] at h
    have hvalue : rc.value (String.ofList k') = some (String.ofList v') := by
      rw [holdsOnly_insert h, HashApprc.slotKey_ofList, if_pos rfl]
    obtain ⟨hkey, hval⟩ := honly.key_eq hvalue
    exact ⟨ofText_injective hk' hk hkey, String.ofList_injective hval⟩

/-- A new table takes every key that does not start outside it. -/
theorem insert_new : (∃ rc', HashApprc.new.insert k v = .ok rc') ↔
    HashApprc.new.h.StartsInside (.ofText k) := by
  rw [HashApprc.insert_ok_iff]
  constructor
  · rintro (⟨j, hfinds⟩ | ⟨hinside, _⟩)
    · exact hfinds.1
    · exact hinside
  · intro hinside
    -- the first slot that is looked at is free
    refine Or.inl ⟨_, hinside, 0, ⟨?_, fun i hi => absurd hi (Nat.not_lt_zero i)⟩, ?_, rfl⟩
    · exact Probing.not_taken_of_none rfl
    · rw [Nat.zero_mul, Nat.add_zero, HashTable.start]
      have hlt := @HashTable.HFuncAddition_lt _ HashApprc.new.h (.ofText k)
      dsimp only
      have hsize : HashApprc.new.h.HSize = 256 := rfl
      omega

/-- An escaped key and value are stored as they are in a new table exactly when neither has a blank,
`=` or `$`, and the key does not start outside the table. -/
theorem escaping_faithful (hlen : 3 ≤ k.length) (hk : ∀ c ∈ k, Printable c) (hne : v ≠ [])
    (hv : ∀ c ∈ v, Printable c) (hend : v.getLast? ≠ some ' ') (harray : ¬"-[]".toList <:+ k) :
    (∃ rc, addLine host HashApprc.new (escape k ++ '=' :: escape v) = .ok rc ∧ HoldsOnly rc k v) ↔
      (∀ c ∈ k ++ v, c ∉ [' ', '=', '$']) ∧ HashApprc.new.h.StartsInside (.ofText k) := by
  constructor
  · rintro ⟨rc, hadd, honly⟩
    rw [addLine_escape hk hv hne hend] at hadd
    -- what is handed on is the key and the value without the characters that are lost
    have hprint : ∀ c ∈ kept k, Printable c := fun c hc => hk c (List.mem_of_mem_filter hc)
    obtain ⟨hkey, hvalue⟩ := add2_new hk hprint hadd honly
    rw [hkey, hvalue, add2_key (isArrayKey_plain hlen harray), insertKey, mapError_ok] at hadd
    exact ⟨List.forall_mem_append.mpr ⟨kept_eq_self.mp hkey, kept_eq_self.mp hvalue⟩,
      insert_new.mp ⟨rc, hadd⟩⟩
  · rintro ⟨hkept, hinside⟩
    obtain ⟨rc, hinsert⟩ := insert_new.mpr hinside
    refine ⟨rc, ?_, holdsOnly_insert hinsert⟩
    rw [addLine_kept hlen hk hne hv hend harray hkept, insertKey, mapError_ok]
    exact hinsert

theorem escape_drops_blank : ¬∀ (host : Host) (k v : List Char), 3 ≤ k.length →
    (∀ c ∈ k, Printable c) → v ≠ [] → (∀ c ∈ v, Printable c) → k.getLast? ≠ some ' ' →
    v.getLast? ≠ some ' ' → ¬"-[]".toList <:+ k →
    ∃ rc, addLine host HashApprc.new (escape k ++ '=' :: escape v) = .ok rc ∧
      HoldsOnly rc k v := by
  intro h
  have hkey : ∀ c ∈ "abc".toList, Printable c := forall_mem_of_all (by decide)
  have hval : ∀ c ∈ "a b".toList, Printable c := forall_mem_of_all (by decide)
  obtain ⟨rc, hadd, honly⟩ := h bareHost "abc".toList "a b".toList (by decide) hkey (by decide) hval
    (by decide) (by decide) (by decide)
  rw [addLine_escape hkey hval (by decide) (by decide)] at hadd
  exact absurd (add2_new hkey (forall_mem_of_all (by decide)) hadd honly).2 (by decide)

/-- Literals can be escaped. -/
theorem escaping_faithful_example :
    ∃ rc, addLine bareHost HashApprc.new
      (escape "a\x7bc".toList ++ '=' :: escape "x\\\x7d".toList) = .ok rc ∧
      HoldsOnly rc "a\x7bc".toList "x\\\x7d".toList := by
  have hkept : ("a\x7bc".toList ++ "x\\\x7d".toList).all (· ∉ [' ', '=', '$']) = true := by decide
  exact (escaping_faithful (by decide) (forall_mem_of_all (by decide)) (by decide)
    (forall_mem_of_all (by decide)) (by decide) (by decide)).mpr
      ⟨forall_mem_of_all hkept, Or.inl (by decide)⟩

end Fresh

end S3Dhcpd.RcFile
