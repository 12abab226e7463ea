import S3Dhcpd.RcEscapes
import S3Dhcpd.RcRuns

/-! Lines that are read as they are written: a plain key, and a plain value or a literal. -/
namespace S3Dhcpd.RcFile

variable {host : Host} {k v s lead before behind trail valText : List Char} {c : Char}

def Blanks (s : List Char) : Prop := ∀ c ∈ s, isBlankOrTab c = true

instance (s : List Char) : Decidable (Blanks s) := inferInstanceAs (Decidable (∀ _ ∈ _, _))

/-- A key without characters that mean something. -/
structure PlainKey (k : List Char) : Prop where
  long : 3 ≤ k.length
  plain : ∀ c ∈ k, Printable c ∧ c ∉ [' ', '=', '\\', '{', '}', '$']
  first : ∀ c, k.head? = some c → c ∉ ['.', '#', ';']
  array : ¬"-[]".toList <:+ k

/-- What may stand in a line, without characters that mean something. -/
structure PlainText (v : List Char) : Prop where
  plain : ∀ c ∈ v, c ∉ ACTIVE
  newline : '\n' ∉ v
  zero : '\x00' ∉ v

/-- The line as it is written, with blanks and tabs in front of the key, around the tag and at the
end. -/
def writtenLine (lead k before behind valText trail : List Char) : List Char :=
  lead ++ (k ++ (before ++ '=' :: (behind ++ (valText ++ trail))))

/-- Where no flag of a conditional is set, loading goes on behind the line with a table that has the
value under the key, and is the same under every other. -/
def Stores (host : Host) (line key val : List Char) : Prop :=
  ∀ (l : Loader Apprc) (f : Frame), doIgnore f = false → ∃ rc : Apprc,
    (∀ rest r, Loads host (.ofText (line ++ '\n' :: rest)) l f r ↔
      Loads host (.ofText rest) { l with rc } (f.nextLine line) r) ∧
    rc.value (String.ofList key) = some (String.ofList val) ∧
    ∀ x, x ≠ String.ofList key → rc.value x = l.rc.value x

theorem lineKind_key (h : c ∉ ['.', '#', ';']) : lineKind (c :: s) = .key := by
  simp only [List.mem_cons, List.not_mem_nil, or_false, not_or] at h
  obtain ⟨hdot, hhash, hsemicolon⟩ := h
  have hother (directive : List Char) : ('.' :: directive).isPrefixOf (c :: s) = false := by
    rw [List.isPrefixOf, beq_eq_false_iff_ne.mpr (Ne.symm hdot), Bool.false_and]
  have hkeyword {directive : List Char} (h : directive.head? = some '.') :
      ¬directive.isPrefixOf (c :: s) = true := by
    cases directive with
    | nil => cases h
    | cons x directive =>
      obtain rfl := Option.some.inj h
      rw [hother]
      decide
  simp only [lineKind]
  rw [if_neg (not_or.mpr ⟨hhash, hsemicolon⟩), if_neg (hkeyword rfl), if_neg (hkeyword rfl),
    if_neg (hkeyword rfl), if_neg (hkeyword rfl), if_neg (hkeyword rfl)]

theorem Blanks.absent (h : Blanks s) {x : Char} (hx : isBlankOrTab x = false) : x ∉ s := by
  intro hmem
  rw [h x hmem] at hx
  cases hx

theorem bufOf_lead (hlead : Blanks lead) (hs : '\x00' ∉ s)
    (hfirst : ∀ c, s.head? = some c → isBlankOrTab c = false) : bufOf (lead ++ s) = s := by
  have hzero : '\x00' ∉ lead ++ s := by
    rw [List.mem_append, not_or]
    exact ⟨hlead.absent rfl, hs⟩
  rw [bufOf, takeWhile_absent hzero, List.dropWhile_append_of_pos hlead]
  cases s with
  | nil => rfl
  | cons c s => rw [List.dropWhile_cons_of_neg (by rw [hfirst c rfl]; decide)]

theorem PlainKey.char (hk : PlainKey k) (hc : c ∈ k) :
    c ∉ ACTIVE ∧ isBlankOrTab c = false ∧ c ≠ '=' := by
  obtain ⟨hprint, hplain⟩ := hk.plain c hc
  simp only [List.mem_cons, List.not_mem_nil, or_false, not_or] at hplain
  obtain ⟨hblank, htag, hescape, hopen, hclose, hvar⟩ := hplain
  have htab : c ≠ '\t' := by
    rintro rfl
    exact absurd hprint (by decide)
  refine ⟨?_, ?_, htag⟩
  · simp only [ACTIVE, List.mem_cons, List.not_mem_nil, or_false, not_or]
    exact ⟨hescape, hopen, hclose, hvar⟩
  · rw [isBlankOrTab, beq_eq_false_iff_ne.mpr hblank, beq_eq_false_iff_ne.mpr htab]
    rfl

theorem PlainKey.absent (hk : PlainKey k) {x : Char} (hx : ¬Printable x) : x ∉ k :=
  fun hmem => hx (hk.plain x hmem).1

/-- A line that hands its key and its value on, whatever has been loaded. -/
structure SetsKey (line key val : List Char) : Prop where
  short : ShortLine line
  kind : lineKind (bufOf line) = .key
  hands : ∀ {σ : Type} [KeyTable σ] (host : Host) (rc : σ), HandsOn host rc (bufOf line) key val
  plain : ∀ host, isArrayKey host key = false

/-- Every way to write the value has the same effect. -/
theorem assigns_written (hk : PlainKey k) (hv : ReadsValue valText v) (hnewline : '\n' ∉ valText)
    (hzero : '\x00' ∉ valText) (hlead : Blanks lead) (hbefore : Blanks before)
    (hbehind : Blanks behind) (htrail : Blanks trail)
    (hlen : (writtenLine lead k before behind valText trail).length < 1000) :
    SetsKey (writtenLine lead k before behind valText trail) k v := by
  obtain ⟨c, k', rfl⟩ := List.exists_cons_of_length_pos (lt_of_lt_of_le (by decide) hk.long)
  have habsent {x : Char} (hx : isBlankOrTab x = false) (hkey : x ∉ c :: k') (htag : x ≠ '=')
      (hval : x ∉ valText) : x ∉ c :: k' ++ (before ++ '=' :: (behind ++ (valText ++ trail))) := by
    simp only [List.mem_append, List.mem_cons, not_or] at hkey ⊢
    exact ⟨hkey, hbefore.absent hx, htag, hbehind.absent hx, hval, htrail.absent hx⟩
  have hbuf : bufOf (writtenLine lead (c :: k') before behind valText trail) =
      c :: k' ++ (before ++ '=' :: (behind ++ (valText ++ trail))) := by
    refine bufOf_lead hlead (habsent rfl (hk.absent (by decide)) (by decide) hzero) ?_
    intro x hx
    obtain rfl := Option.some.inj hx
    exact (hk.char List.mem_cons_self).2.1
  refine ⟨⟨?_, hlen.trans (by decide)⟩, ?_, fun host rc => ?_, fun host => ?_⟩
  · rw [writtenLine, List.mem_append, not_or]
    exact ⟨hlead.absent rfl, habsent rfl (hk.absent (by decide)) (by decide) hnewline⟩
  · rw [hbuf]
    exact lineKind_key (hk.first c rfl)
  · rw [hbuf]
    exact handsOn_sides (readsKey_plain fun x hx => hk.char hx) hv hbefore hbehind htrail
  · exact isArrayKey_plain hk.long hk.array

section Turn
variable {σ : Type} [KeyTable σ] {l : Loader σ} {f : Frame} {line key val : List Char}

/-- Where no flag is set, the line leads to an insertion. -/
theorem SetsKey.turn (h : SetsKey line key val) (hactive : doIgnore f = false) {rc : σ}
    (hput : KeyTable.put l.rc key val = .ok rc) :
    RcFile.turn host l f line = .next { l with rc } f := by
  rw [turn_key h.kind hactive, (h.hands host l.rc).addLine, add2_key (h.plain host), insertKey,
    hput]
  rfl

/-- A finite map takes the key. -/
theorem SetsKey.stores (h : SetsKey line key val) : Stores host line key val := by
  intro l f hactive
  have hactive' : doIgnore (f.nextLine line) = false := hactive
  have hturn : RcFile.turn host l (f.nextLine line) line =
      .next { l with rc := l.rc.store key val } (f.nextLine line) := h.turn hactive' rfl
  refine ⟨l.rc.store key val, fun rest r => loads_step h.short (.next hturn), ?_, fun x hx => ?_⟩
  · rw [Apprc.value_store, if_pos rfl]
  · rw [Apprc.value_store, if_neg hx]

end Turn

/-- A value that neither begins nor ends with a blank or a tab is stored as it is written, and any
text is as a literal. -/
theorem written_stored (hk : PlainKey k) (hv : PlainText v) (hlead : Blanks lead)
    (hbefore : Blanks before) (hbehind : Blanks behind) (htrail : Blanks trail) :
    ((∀ c, v.head? = some c → isBlankOrTab c = false) →
      (∀ c, v.getLast? = some c → isBlankOrTab c = false) →
      (writtenLine lead k before behind v trail).length < 1000 →
      Stores host (writtenLine lead k before behind v trail) k v) ∧
    ((writtenLine lead k before behind ('{' :: (v ++ ['}'])) trail).length < 1000 →
      Stores host (writtenLine lead k before behind ('{' :: (v ++ ['}'])) trail) k v) := by
  constructor
  · intro hfirst hlast hlen
    refine (assigns_written hk (readsValue_plain hv.plain hfirst fun c hc => ?_) hv.newline hv.zero
      hlead hbefore hbehind htrail hlen).stores
    have hnewline : c ≠ '\n' := fun h => hv.newline (h ▸ List.mem_of_getLast? hc)
    rw [isTrimmed, hlast c hc, beq_eq_false_iff_ne.mpr hnewline]
    rfl
  · intro hlen
    have habsent {x : Char} (hx : x ∉ v) (hopen : x ≠ '{') (hclose : x ≠ '}') :
        x ∉ '{' :: (v ++ ['}']) := by
      simp only [List.mem_cons, List.mem_append, List.not_mem_nil, or_false, not_or]
      exact ⟨hopen, hx, hclose⟩
    exact (assigns_written hk (readsValue_literal hv.plain)
      (habsent hv.newline (by decide) (by decide)) (habsent hv.zero (by decide) (by decide))
      hlead hbefore hbehind htrail hlen).stores

theorem plainKey_abc : PlainKey "abc".toList where
  long := by decide
  plain := forall_mem_of_all (by decide)
  first := by
    rintro c hc
    obtain rfl := Option.some.inj hc
    decide
  array := by decide

/-- A tab in front of a value is one of those around the tag. -/
theorem leading_tab_lost : ¬∀ (host : Host) (k v lead before behind trail : List Char), PlainKey k →
    PlainText v → Blanks lead → Blanks before → Blanks behind → Blanks trail →
    v.head? ≠ some ' ' → v.getLast? ≠ some ' ' →
    (writtenLine lead k before behind v trail).length < 1000 →
    Stores host (writtenLine lead k before behind v trail) k v := by
  intro h
  have hnone : Blanks [] := fun _ h => absurd h List.not_mem_nil
  have hvalue : PlainText ['\t', 'x'] := ⟨forall_mem_of_all (by decide), by decide, by decide⟩
  obtain ⟨rc, hload, hstored, _⟩ := h bareHost "abc".toList ['\t', 'x'] [] [] [] [] plainKey_abc
    hvalue hnone hnone hnone hnone (by decide) (by decide) (by decide) bareLoader .initial rfl
  have hread : Loads bareHost (.ofText ("abc=\tx".toList ++ '\n' :: [])) bareLoader .initial
      (.ok ⟨Apprc.empty.store "abc".toList ['x'], 0⟩) := ⟨2, rfl⟩
  have hleft := loads_nil.mp ((hload [] _).mp hread)
  obtain rfl : Apprc.empty.store "abc".toList ['x'] = rc :=
    congrArg Loader.rc (Except.ok.inj hleft)
  rw [Apprc.value_store, if_pos rfl, Option.some.injEq] at hstored
  exact absurd (String.ofList_injective hstored) (by decide)

/-- A value with a tag in it, and a literal with blanks at its ends. -/
theorem written_stored_example :
    Stores bareHost (writtenLine [' '] "abc".toList [' '] ['\t', ' '] "x=y".toList [' '])
      "abc".toList "x=y".toList ∧
    Stores bareHost
      (writtenLine [] "abc".toList [' '] [' '] ('{' :: (" x = y ".toList ++ ['}'])) [])
      "abc".toList " x = y ".toList := by
  have hends (c : Char) (hc : some 'x' = some c ∨ some 'y' = some c) : isBlankOrTab c = false := by
    rcases hc with hc | hc
    · obtain rfl := Option.some.inj hc
      rfl
    · obtain rfl := Option.some.inj hc
      rfl
  have hplain : PlainText "x=y".toList := ⟨forall_mem_of_all (by decide), by decide, by decide⟩
  have hliteral : PlainText " x = y ".toList :=
    ⟨forall_mem_of_all (by decide), by decide, by decide⟩
  have hnone : Blanks [] := fun _ h => absurd h List.not_mem_nil
  exact ⟨(written_stored plainKey_abc hplain (forall_mem_of_all (by decide))
    (forall_mem_of_all (by decide)) (forall_mem_of_all (by decide))
    (forall_mem_of_all (by decide))).1 (fun c hc => hends c (Or.inl hc))
      (fun c hc => hends c (Or.inr hc)) (by decide),
    (written_stored plainKey_abc hliteral hnone (forall_mem_of_all (by decide))
      (forall_mem_of_all (by decide)) hnone).2 (by decide)⟩

end S3Dhcpd.RcFile
