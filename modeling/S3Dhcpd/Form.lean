import Mathlib.Data.List.Chain
import S3Dhcpd.Tools

/-! `dsForm::vform`. A C text is the list of its characters, without the terminator. -/
namespace S3Dhcpd.Form

/-- What `va_arg` takes. A `double` is given by its texts in fixed notation. -/
inductive Arg where
  | int (n : BitVec 32)
  | long (n : BitVec 64)
  | str (s : Option (List Char))
  | double (fixed : ℕ → List Char)

/-- The stream. The width of an insertion is given with it, as every insertion resets it; the fill
character stays. -/
structure Os where
  text : List Char
  fill : Char

/-- `os << setw(width) << s` -/
def Os.insert (os : Os) (width : ℤ) (s : List Char) : Os :=
  { os with text := os.text ++ List.replicate (width-s.length).toNat os.fill ++ s }

/-- `va_arg(ap, int)`; without an argument of that type it is undefined behaviour. -/
def argInt : List Arg → Option (BitVec 32 × List Arg)
  | .int n :: ap => some (n, ap)
  | _ => none

def argLong : List Arg → Option (BitVec 64 × List Arg)
  | .long n :: ap => some (n, ap)
  | _ => none

def argStr : List Arg → Option (Option (List Char) × List Arg)
  | .str s :: ap => some (s, ap)
  | _ => none

def argDouble : List Arg → Option ((ℕ → List Char) × List Arg)
  | .double fixed :: ap => some (fixed, ap)
  | _ => none

/-- `os << dec` -/
def decText (n : ℤ) : List Char := (toString n).toList

/-- `os << hex`, where a negative number is converted to an unsigned one. -/
def hexText {w : ℕ} (n : BitVec w) : List Char := Nat.toDigits 16 n.toNat

/-- What stands between the percent sign and the letter. -/
structure Spec where
  left : Bool
  fill : Char
  width : ℤ
  long : Bool

/-- Whether the character is next, and what is left behind it. -/
def skipChar (c : Char) (fptr : List Char) : Bool × List Char :=
  if fptr.head? = some c then (true, fptr.tail) else (false, fptr)

/-- The digits of a width; a width that does not fit in `int` is undefined behaviour. -/
def readWidth : List Char → ℤ → Option (ℤ × List Char)
  | [], width => some (width, [])
  | c :: fptr, width =>
    if c.isDigit then
      if max width 0*10+(c.toNat-48) < 2^31 then readWidth fptr (max width 0*10+(c.toNat-48))
      else none
    else some (width, c :: fptr)

def readSpec (fptr : List Char) (ap : List Arg) : Option (Spec × List Char × List Arg) := do
  let (left, fptr) := skipChar '-' fptr
  let (zero, fptr) := skipChar '0' fptr
  let (point, fptr) := skipChar '.' fptr
  let fill := if zero || point then '0' else ' '
  let (star, fptr) := skipChar '*' fptr
  let (width, fptr, ap) ←
    if star then do
      let (n, ap) ← argInt ap
      pure (n.toInt, fptr, ap)
    else do
      let (width, fptr) ← readWidth fptr (-1)
      pure (width, fptr, ap)
  let (long, fptr) := skipChar 'l' fptr
  return (⟨left, fill, width, long⟩, fptr, ap)

/-- `os << id` or `os << ld`, in the base of the stream. -/
def putNumber (os : Os) (spec : Spec) (ap : List Arg)
    (render : {w : ℕ} → BitVec w → List Char) : Option (Os × List Arg) := do
  let os := { os with fill := spec.fill }
  if spec.long then
    let (ld, ap) ← argLong ap
    return (os.insert spec.width (render ld), ap)
  else
    let (id, ap) ← argInt ap
    return (os.insert spec.width (render id), ap)

/-- The `switch`. -/
def putArg (strerror : List Char) (os : Os) (spec : Spec) (c : Char) (ap : List Arg) :
    Option (Os × List Arg) :=
  match c with
  | 'c' => do
    let (c, ap) ← argInt ap
    return (os.insert 0 [Char.ofNat (c.toNat%256)], ap)
  | 's' => do
    let (s, ap) ← argStr ap
    let s := s.getD "(null)".toList
    -- the stream is not told to adjust left, the blanks are written by hand
    if spec.left then
      return ({ os with
        text := os.text ++ s ++ List.replicate (spec.width-s.length).toNat ' ' }, ap)
    else return (os.insert spec.width s, ap)
  | 'd' => putNumber os spec ap fun n => decText n.toInt
  | 'X' => putNumber os spec ap fun n => (hexText n).map Char.toUpper
  | 'p' => putNumber os spec ap hexText
  | 'x' => putNumber os spec ap hexText
  | 'f' => do
    let (fixed, ap) ← argDouble ap
    return (os.insert 0 (fixed (if spec.width ≥ 0 then spec.width.toNat else 6)), ap)
  | 'm' => some (os.insert 0 strerror, ap)
  -- another letter takes no argument and writes nothing
  | _ => some (os, ap)

/-- A conversion, behind its percent sign. At the end of the format `++fptr` leaves it. -/
def convert (strerror : List Char) (os : Os) (fptr : List Char) (ap : List Arg) :
    Option (Os × List Char × List Arg) := do
  let (spec, fptr, ap) ← readSpec fptr ap
  match fptr with
  -- the terminator is stepped over
  | [] => none
  | c :: fptr =>
    let (os, ap) ← putArg strerror os spec c ap
    return (os, fptr, ap)

/-- The loop, with as many rounds as the format has characters. Behind a conversion the next
character is copied in the same round. -/
def vformLoop (strerror : List Char) : ℕ → Os → List Char → List Arg → Option (Os × List Arg)
  | 0, os, _, ap => some (os, ap)
  | n+1, os, fptr, ap => do
    let (os, fptr, ap) ← match fptr with
      | '%' :: fptr => convert strerror os fptr ap
      | _ => some (os, fptr, ap)
    match fptr with
    | [] => return (os, ap)
    | c :: fptr => vformLoop strerror n (os.insert 0 [c]) fptr ap

/-- `vform`, with the arguments that are left. -/
def vform (strerror : List Char) (os : Os) (format : List Char) (ap : List Arg) :
    Option (Os × List Arg) :=
  vformLoop strerror (format.length+1) os format ap

/-- A conversion without flags and width, with its argument. -/
inductive Conversion where
  | s (a : Option (List Char))
  | d (n : BitVec 32)
  | c (n : BitVec 32)
  | x (n : BitVec 32)

namespace Conversion

def letter : Conversion → Char
  | .s _ => 's'
  | .d _ => 'd'
  | .c _ => 'c'
  | .x _ => 'x'

def arg : Conversion → Arg
  | .s a => .str a
  | .d n => .int n
  | .c n => .int n
  | .x n => .int n

/-- The rendering of the argument. -/
def text : Conversion → List Char
  | .s a => a.getD "(null)".toList
  | .d n => decText n.toInt
  | .c n => [Char.ofNat (n.toNat%256)]
  | .x n => hexText n

end Conversion

/-- What a format is put together of. -/
inductive Piece where
  | literal (text : List Char) (plain : '%' ∉ text)
  | conversion (k : Conversion)

namespace Piece

def format : Piece → List Char
  | literal text _ => text
  | conversion k => ['%', k.letter]

def args : Piece → List Arg
  | literal _ _ => []
  | conversion k => [k.arg]

def text : Piece → List Char
  | literal text _ => text
  | conversion k => k.text

end Piece

/-- The format writes every piece, and takes one argument for each conversion. -/
def Compositional (strerror : List Char) (pieces : List Piece) : Prop :=
  ∀ (os : Os) (more : List Arg), ∃ os', vform strerror os (pieces.flatMap Piece.format)
    (pieces.flatMap Piece.args ++ more) = some (os', more) ∧
      os'.text = os.text ++ pieces.flatMap Piece.text

/-- A character of a literal, or a conversion. -/
abbrev Item := Char ⊕ Conversion

def Piece.items : Piece → List Item
  | literal text _ => text.map Sum.inl
  | conversion k => [Sum.inr k]

/-- No conversion stands directly behind another one. -/
def Separated (pieces : List Piece) : Prop :=
  (pieces.flatMap Piece.items).IsChain fun item next => item.isLeft ∨ next.isLeft

section Items
variable {strerror : List Char} {os os' : Os} {fptr fptr' : List Char} {ap ap' more : List Arg}
  {items : List Item} {n : ℕ}

def itemFormat : Item → List Char
  | .inl c => [c]
  | .inr k => ['%', k.letter]

def itemArgs : Item → List Arg
  | .inl _ => []
  | .inr k => [k.arg]

def itemText : Item → List Char
  | .inl c => [c]
  | .inr k => k.text

/-- Its letter is no flag. -/
theorem readSpec_letter (k : Conversion) (fptr : List Char) (ap : List Arg) :
    readSpec (k.letter :: fptr) ap = some (⟨false, ' ', -1, false⟩, k.letter :: fptr, ap) := by
  cases k <;> rfl

theorem convert_reads (strerror : List Char) (os : Os) (k : Conversion) (fptr : List Char)
    (ap : List Arg) : ∃ os', convert strerror os (k.letter :: fptr) (k.arg :: ap) =
      some (os', fptr, ap) ∧ os'.text = os.text ++ k.text := by
  have hpad (width : ℤ) (h : width ≤ 0) (os : Os) (s : List Char) :
      (os.insert width s).text = os.text ++ s := by
    have hnone : (width-s.length).toNat = 0 := by omega
    rw [Os.insert, hnone, List.replicate_zero, List.append_nil]
  cases k with
  | s a => exact ⟨_, rfl, hpad (-1) (by decide) os _⟩
  | d n => exact ⟨_, rfl, hpad (-1) (by decide) _ _⟩
  | c n => exact ⟨_, rfl, hpad 0 (by decide) os _⟩
  | x n => exact ⟨_, rfl, hpad (-1) (by decide) _ _⟩

/-- It takes one argument, whatever is there. -/
theorem convert_takes (k : Conversion)
    (h : convert strerror os (k.letter :: fptr) ap = some (os', fptr', ap')) :
    fptr' = fptr ∧ ap.length = ap'.length+1 := by
  rw [convert, readSpec_letter] at h
  cases ap with
  | nil => cases k <;> cases h
  | cons a ap => cases k <;> cases a <;> cases h <;> exact ⟨rfl, rfl⟩

theorem letter_ne (k : Conversion) : k.letter ≠ '%' := by
  cases k <;> exact of_decide_eq_true rfl

/-- The second half of a round. -/
def copyNext (strerror : List Char) (n : ℕ) (os : Os) (fptr : List Char) (ap : List Arg) :
    Option (Os × List Arg) :=
  match fptr with
  | [] => some (os, ap)
  | c :: fptr => vformLoop strerror n (os.insert 0 [c]) fptr ap

theorem vformLoop_plain (h : ∀ c, fptr.head? = some c → c ≠ '%') :
    vformLoop strerror (n+1) os fptr ap = copyNext strerror n os fptr ap := by
  cases fptr with
  | nil => rfl
  | cons c fptr =>
    have hc : c ≠ '%' := h c rfl
    rw [vformLoop]
    · rfl
    · intro rest heq
      exact hc (List.cons.inj heq).1

theorem vformLoop_conversion : vformLoop strerror (n+1) os ('%' :: fptr) ap =
    (convert strerror os fptr ap).bind fun r => copyNext strerror n r.1 r.2.1 r.2.2 := rfl

/-- Without conversions that stand together every item is written. -/
theorem items_written (hchars : ∀ c, .inl c ∈ items → c ≠ '%')
    (hchain : items.IsChain fun item next => item.isLeft ∨ next.isLeft)
    (hn : (items.flatMap itemFormat).length < n) :
    ∃ os', vformLoop strerror n os (items.flatMap itemFormat) (items.flatMap itemArgs ++ more) =
      some (os', more) ∧ os'.text = os.text ++ items.flatMap itemText := by
  -- on the items, with more rounds than characters left
  induction items generalizing os n with
  | nil =>
    obtain ⟨n, rfl⟩ := Nat.exists_eq_succ_of_ne_zero (Nat.ne_of_gt (Nat.zero_lt_of_lt hn))
    exact ⟨os, rfl, by simp⟩
  | cons item items ih =>
    obtain ⟨n, rfl⟩ := Nat.exists_eq_succ_of_ne_zero (Nat.ne_of_gt (Nat.zero_lt_of_lt hn))
    rw [List.flatMap_cons, List.length_append] at hn
    have hchars' : ∀ c, .inl c ∈ items → c ≠ '%' := fun c hc =>
      hchars c (List.mem_cons_of_mem _ hc)
    have hchain' := hchain.tail
    simp only [List.flatMap_cons]
    cases item with
    | inl c =>
      have hc : c ≠ '%' := hchars c List.mem_cons_self
      obtain ⟨os', hrun, htext⟩ := @ih (os.insert 0 [c]) n hchars' hchain' (by
        rw [itemFormat, List.length_singleton] at hn
        omega)
      refine ⟨os', ?_, ?_⟩
      · rw [itemFormat, itemArgs, List.nil_append, List.singleton_append, vformLoop_plain]
        · exact hrun
        · rintro x hx
          obtain rfl := Option.some.inj hx
          exact hc
      · rw [htext, itemText]
        simp [Os.insert]
    | inr k =>
      obtain ⟨os₁, hconvert, htext₁⟩ := convert_reads strerror os k (items.flatMap itemFormat)
        (items.flatMap itemArgs ++ more)
      have hlen : (items.flatMap itemFormat).length < n+1 := by
        omega
      obtain ⟨os', hrun, htext⟩ := @ih os₁ (n+1) hchars' hchain' hlen
      -- what follows is a character, so its round is the second half of this one
      have hfirst : ∀ c, (items.flatMap itemFormat).head? = some c → c ≠ '%' := by
        intro c hc
        cases items with
        | nil => cases hc
        | cons next items =>
          rcases next with x | k'
          · obtain rfl := Option.some.inj hc
            exact hchars' x List.mem_cons_self
          · exact absurd (List.isChain_cons_cons.mp hchain).1 (by simp)
      rw [vformLoop_plain hfirst] at hrun
      refine ⟨os', ?_, ?_⟩
      · change vformLoop strerror (n+1) os ('%' :: (k.letter :: items.flatMap itemFormat))
          (k.arg :: (items.flatMap itemArgs ++ more)) = _
        rw [vformLoop_conversion, hconvert]
        exact hrun
      · rw [htext, htext₁, itemText, List.append_assoc]

/-- The loop takes at most one argument for each conversion, and fewer when two stand together. Of
the second one the percent sign is copied. -/
theorem items_take (hchars : ∀ c, .inl c ∈ items → c ≠ '%')
    (hn : (items.flatMap itemFormat).length < n) :
    (vformLoop strerror n os (items.flatMap itemFormat) ap = some (os', ap') →
      ap.length ≤ ap'.length+(items.flatMap itemArgs).length ∧
      (ap.length = ap'.length+(items.flatMap itemArgs).length →
        items.IsChain fun item next => item.isLeft ∨ next.isLeft)) ∧
    (copyNext strerror n os (items.flatMap itemFormat) ap = some (os', ap') →
      ap.length ≤ ap'.length+(items.flatMap itemArgs).length ∧
      (ap.length = ap'.length+(items.flatMap itemArgs).length →
        (items.IsChain fun item next => item.isLeft ∨ next.isLeft) ∧
          ∀ item, items.head? = some item → item.isLeft)) := by
  -- on the items, for a whole round and for the second half of one together
  induction items generalizing os n ap with
  | nil =>
    obtain ⟨n, rfl⟩ := Nat.exists_eq_succ_of_ne_zero (Nat.ne_of_gt (Nat.zero_lt_of_lt hn))
    refine ⟨fun h => ?_, fun h => ?_⟩
    · obtain ⟨rfl, rfl⟩ := Prod.mk.inj (Option.some.inj h)
      exact ⟨Nat.le_refl _, fun _ => .nil⟩
    · obtain ⟨rfl, rfl⟩ := Prod.mk.inj (Option.some.inj h)
      exact ⟨Nat.le_refl _, fun _ => ⟨.nil, fun _ h => by cases h⟩⟩
  | cons item items ih =>
    obtain ⟨n, rfl⟩ := Nat.exists_eq_succ_of_ne_zero (Nat.ne_of_gt (Nat.zero_lt_of_lt hn))
    rw [List.flatMap_cons, List.length_append] at hn
    have hchars' : ∀ c, .inl c ∈ items → c ≠ '%' := fun c hc =>
      hchars c (List.mem_cons_of_mem _ hc)
    cases item with
    | inl c =>
      have hc : c ≠ '%' := hchars c List.mem_cons_self
      rw [itemFormat, List.length_singleton] at hn
      have hcons (h : items.IsChain fun item next => item.isLeft ∨ next.isLeft) :
          (Sum.inl c :: items).IsChain fun item next => item.isLeft ∨ next.isLeft :=
        List.isChain_cons.mpr ⟨fun _ _ => Or.inl rfl, h⟩
      refine ⟨fun h => ?_, fun h => ?_⟩
      · have hfirst : ∀ x, (c :: items.flatMap itemFormat).head? = some x → x ≠ '%' := by
          rintro x hx
          obtain rfl := Option.some.inj hx
          exact hc
        change vformLoop strerror (n+1) os (c :: items.flatMap itemFormat) ap = _ at h
        rw [vformLoop_plain hfirst] at h
        obtain ⟨hle, hchain⟩ := (ih hchars' (by omega)).1 h
        exact ⟨hle, fun heq => hcons (hchain heq)⟩
      · obtain ⟨hle, hchain⟩ := (ih hchars' (by omega)).1 h
        exact ⟨hle, fun heq => ⟨hcons (hchain heq), by rintro _ ⟨⟩; rfl⟩⟩
    | inr k =>
      have hargs : ((Sum.inr k :: items).flatMap itemArgs).length =
          (items.flatMap itemArgs).length+1 := rfl
      rw [itemFormat, List.length_cons, List.length_singleton] at hn
      rw [hargs]
      refine ⟨fun h => ?_, fun h => ?_⟩
      · change (convert strerror os (k.letter :: items.flatMap itemFormat) ap).bind _ = _ at h
        obtain ⟨⟨os₁, fptr₁, ap₁⟩, hconvert, hrest⟩ := Option.bind_eq_some_iff.mp h
        obtain ⟨rfl, htaken⟩ := convert_takes k hconvert
        obtain ⟨hle, hchain⟩ := (ih hchars' (by omega)).2 hrest
        refine ⟨by omega, fun heq => ?_⟩
        obtain ⟨hchain, hfirst⟩ := hchain (by omega)
        exact List.isChain_cons.mpr ⟨fun next hnext => Or.inr (hfirst next hnext), hchain⟩
      · -- the letter is copied as well
        have hfirst : ∀ x, (k.letter :: items.flatMap itemFormat).head? = some x → x ≠ '%' := by
          rintro x hx
          obtain rfl := Option.some.inj hx
          exact letter_ne k
        change vformLoop strerror (n+1) _ (k.letter :: items.flatMap itemFormat) ap = _ at h
        rw [vformLoop_plain hfirst] at h
        obtain ⟨hle, _⟩ := (ih hchars' (by omega)).1 h
        exact ⟨by omega, fun heq => by omega⟩

end Items

section Pieces
variable {α : Type} {pieces : List Piece}

theorem pieces_items (f : Piece → List α) (g : Item → List α)
    (h : ∀ piece, f piece = piece.items.flatMap g) :
    pieces.flatMap f = (pieces.flatMap Piece.items).flatMap g := by
  rw [List.flatMap_assoc]
  exact congrArg (pieces.flatMap ·) (funext h)

theorem literal_items (text : List Char) (g : Item → List α) :
    (text.map Sum.inl).flatMap g = text.flatMap fun c => g (.inl c) := List.flatMap_map _ _ _

theorem format_items : pieces.flatMap Piece.format =
    (pieces.flatMap Piece.items).flatMap itemFormat := by
  refine pieces_items _ _ fun piece => ?_
  cases piece with
  | literal text plain => simp [Piece.format, Piece.items, literal_items, itemFormat]
  | conversion k => rfl

theorem args_items : pieces.flatMap Piece.args =
    (pieces.flatMap Piece.items).flatMap itemArgs := by
  refine pieces_items _ _ fun piece => ?_
  cases piece with
  | literal text plain => simp [Piece.args, Piece.items, literal_items, itemArgs]
  | conversion k => rfl

theorem text_items : pieces.flatMap Piece.text =
    (pieces.flatMap Piece.items).flatMap itemText := by
  refine pieces_items _ _ fun piece => ?_
  cases piece with
  | literal text plain => simp [Piece.text, Piece.items, literal_items, itemText]
  | conversion k => simp [Piece.text, Piece.items, itemText]

theorem items_plain : ∀ c, .inl c ∈ pieces.flatMap Piece.items → c ≠ '%' := by
  intro c hc
  obtain ⟨piece, _, hmem⟩ := List.mem_flatMap.mp hc
  cases piece with
  | literal text plain =>
    obtain ⟨x, hx, hxc⟩ := List.mem_map.mp hmem
    obtain rfl := Sum.inl.inj hxc
    exact fun h => plain (h ▸ hx)
  | conversion k => simp [Piece.items] at hmem

end Pieces

/-- A format is written piece by piece exactly if no conversion stands directly behind another. -/
theorem compositional_iff (strerror : List Char) (pieces : List Piece) :
    Compositional strerror pieces ↔ Separated pieces := by
  constructor
  · intro h
    -- no argument is left, so every conversion has taken its own
    obtain ⟨os', hrun, _⟩ := h ⟨[], ' '⟩ []
    rw [vform, format_items, args_items] at hrun
    refine ((items_take items_plain (Nat.lt_succ_self _)).1 hrun).2 ?_
    rw [List.append_nil, List.length_nil, Nat.zero_add]
  · intro h os more
    rw [vform, format_items, args_items, text_items]
    exact items_written items_plain h (Nat.lt_succ_self _)

/-- The second of two conversions that stand together is copied, and its argument is left. -/
theorem second_conversion_copied :
    (¬∀ strerror pieces, Compositional strerror pieces) ∧
    vform [] ⟨[], ' '⟩ "%s%d".toList [.str (some "a".toList), .int 7] =
      some (⟨"a%d".toList, ' '⟩, [.int 7]) := by
  have hrun : vform [] ⟨[], ' '⟩ "%s%d".toList [.str (some "a".toList), .int 7] =
      some (⟨"a%d".toList, ' '⟩, [.int 7]) := rfl
  refine ⟨fun h => ?_, hrun⟩
  obtain ⟨os', hall, _⟩ := h [] [.conversion (.s (some "a".toList)), .conversion (.d 7)]
    ⟨[], ' '⟩ []
  have heq := hrun.symm.trans hall
  cases heq

example : (vform [] ⟨[], ' '⟩ "%-4s|%03d".toList [.str (some ['a']), .int 7]).map (·.1.text) =
    some "a   |007".toList := by decide +kernel

end S3Dhcpd.Form
