import S3Dhcpd.OptionArea

/-! The array `_options` under the option loop of `marshall`, with every write to a slot. -/
namespace S3Dhcpd

/-- The slots of `_options`, those behind the array included, and the indices written to. -/
structure OptionSlots where
  slots : ℕ → DHCP_Option
  written : List ℕ

namespace OptionSlots

/-- The constructor of `DHCP_Packet` clears the array. -/
def zeroed : OptionSlots := ⟨fun _ => ⟨0, 0, []⟩, []⟩

def modify (a : OptionSlots) (i : ℕ) (f : DHCP_Option → DHCP_Option) : OptionSlots where
  slots := fun j => if j = i then f (a.slots i) else a.slots j
  written := i :: a.written

/-- The loops over the options look at the slot: none before it holds the end mark. -/
def Scanned (a : OptionSlots) (i : ℕ) : Prop := ∀ j < i, (a.slots j).code ≠ DHO_END

/-- The slots hold the options, and nothing has been written behind the one after them. -/
structure Filled (a : OptionSlots) (options : List DHCP_Option) : Prop where
  slots : ∀ i < options.length, options[i]? = some (a.slots i)
  written : ∀ i ∈ a.written, i ≤ options.length

@[simp] theorem slots_modify (a : OptionSlots) (i : ℕ) (f : DHCP_Option → DHCP_Option) :
    (a.modify i f).slots i = f (a.slots i) := if_pos rfl

theorem slots_modify_ne (a : OptionSlots) {i j : ℕ} (h : j ≠ i) (f : DHCP_Option → DHCP_Option) :
    (a.modify i f).slots j = a.slots j := if_neg h

theorem zeroed_filled : zeroed.Filled [] := ⟨by simp, by simp [zeroed]⟩

variable {a : OptionSlots} {options : List DHCP_Option}

theorem Filled.modify (h : a.Filled options) (f : DHCP_Option → DHCP_Option) :
    (a.modify options.length f).Filled options := by
  constructor
  · intro i hi
    rw [slots_modify_ne a hi.ne, h.slots i hi]
  · intro i hi
    rcases List.mem_cons.mp hi with rfl | hi
    · exact Nat.le_refl _
    · exact h.written i hi

theorem Filled.push (h : a.Filled options) : a.Filled (options ++ [a.slots options.length]) := by
  constructor
  · intro i hi
    rw [List.length_append, List.length_singleton] at hi
    rcases Nat.lt_succ_iff_lt_or_eq.mp hi with hi | rfl
    · rw [List.getElem?_append_left hi, h.slots i hi]
    · rw [List.getElem?_concat_length]
  · intro i hi
    rw [List.length_append]
    exact (h.written i hi).trans (Nat.le_add_right _ _)

end OptionSlots

section Loop
variable (buffer : ℕ → Byte) (pktlength : ℕ)

/-- The option loop of `marshall` on the array, with the index that it ends at. -/
def readSlots : ℕ → OptionSlots → ℕ → ℕ → OptionSlots × ℕ
  | 0, a, option_idx, _ => (a, option_idx)
  | fuel+1, a, option_idx, option_offset =>
    if (option_offset : ℤ) > pktlength-1 then (a, option_idx)
    else if option_idx = MAX_DHCP_OPTIONS then (a, option_idx)
    else if buffer option_offset = DHO_PAD then readSlots fuel a option_idx (option_offset+1)
    else
      let a := a.modify option_idx fun o => { o with code := buffer option_offset }
      if (a.slots option_idx).code = DHO_END then (a, option_idx)
      else
        let a := a.modify option_idx fun o => { o with length := buffer (option_offset+1) }
        let length := (a.slots option_idx).length
        let a := a.modify option_idx fun o =>
          { o with value := bytesAt buffer (option_offset+2) length.toNat }
        readSlots fuel a (option_idx+1) (option_offset+length.toNat+2)

/-- `_options` after the option part of `marshall`. -/
def marshallSlots : OptionSlots :=
  let (a, option_idx) := readSlots buffer pktlength pktlength .zeroed 0 240
  -- `// Make sure we have DHO_END`
  a.modify option_idx fun o => { o with code := DHO_END }

end Loop

section Spec
variable {buffer : ℕ → Byte} {pktlength fuel option_offset : ℕ} {a : OptionSlots}
  {options : List DHCP_Option}

/-- The loop fills the slots with the options that it reads. -/
theorem readSlots_filled (h : a.Filled options) :
    (readSlots buffer pktlength fuel a options.length option_offset).1.Filled
      (options ++ readOptions buffer pktlength fuel options.length option_offset) ∧
    (readSlots buffer pktlength fuel a options.length option_offset).2 =
      (options ++ readOptions buffer pktlength fuel options.length option_offset).length := by
  -- the invariant of the loop is that the slots in front of the index hold the options so far
  induction fuel generalizing a options option_offset with
  | zero => simpa [readSlots, readOptions] using h
  | succ fuel ih =>
    rw [readSlots, readOptions]
    split_ifs with hend hfull hpad hmark
    · simpa using h
    · simpa using h
    · exact ih h
    · simp only [OptionSlots.slots_modify, hmark, ↓reduceIte, List.append_nil, and_true]
      exact h.modify _
    · -- three writes to the slot after the options, which then holds one more
      have hstep := (((h.modify fun o => { o with code := buffer option_offset }).modify fun o =>
        { o with length := buffer (option_offset+1) }).modify fun o =>
        { o with value := bytesAt buffer (option_offset+2) (buffer (option_offset+1)).toNat }).push
      have hrest := @ih (option_offset+(buffer (option_offset+1)).toNat+2) _ _ hstep
      simp only [OptionSlots.slots_modify, List.length_append, List.length_singleton,
        List.append_assoc, List.singleton_append] at hrest
      simp only [OptionSlots.slots_modify, hmark, ↓reduceIte, List.length_append]
      exact hrest

theorem marshallSlots_filled :
    (marshallSlots buffer pktlength).Filled (readOptions buffer pktlength pktlength 0 240) ∧
    ((marshallSlots buffer pktlength).slots
      (readOptions buffer pktlength pktlength 0 240).length).code = DHO_END ∧
    (readOptions buffer pktlength pktlength 0 240).length ∈
      (marshallSlots buffer pktlength).written := by
  obtain ⟨hfilled, hidx⟩ := @readSlots_filled buffer pktlength pktlength 240 _ _
    OptionSlots.zeroed_filled
  simp only [List.length_nil, List.nil_append] at hfilled hidx
  have hslots : marshallSlots buffer pktlength =
      (readSlots buffer pktlength pktlength .zeroed 0 240).1.modify
        (readOptions buffer pktlength pktlength 0 240).length
          fun o => { o with code := DHO_END } := by
    rw [← hidx]
    rfl
  rw [hslots]
  refine ⟨hfilled.modify _, ?_, List.mem_cons_self⟩
  rw [OptionSlots.slots_modify]

theorem readOptions_length : (readOptions buffer pktlength pktlength 0 240).length =
    min MAX_DHCP_OPTIONS (optionArea buffer pktlength).length := by
  rw [readOptions_area (Nat.zero_le _), List.length_map, List.length_take, Nat.sub_zero, optionArea]

theorem marshallSlots_unmarked {i : ℕ}
    (hi : i < (readOptions buffer pktlength pktlength 0 240).length) :
    ((marshallSlots buffer pktlength).slots i).code ≠ DHO_END := by
  have hslot := marshallSlots_filled.1.slots i hi
  rw [readOptions_area (Nat.zero_le _)] at hslot
  obtain ⟨o, ho, hoption⟩ := List.mem_map.mp (List.mem_of_getElem? hslot)
  rw [← hoption]
  exact optionOffsets_mark (List.mem_of_mem_take ho)

/-- What `marshall` parses is what the slots hold. -/
theorem marshall_slots {p : DHCP_Packet} (h : marshall buffer pktlength = .ok p) :
    (marshallSlots buffer pktlength).Filled p.options ∧
    ((marshallSlots buffer pktlength).slots p.options.length).code = DHO_END := by
  rw [marshall_options h]
  exact ⟨marshallSlots_filled.1, marshallSlots_filled.2.1⟩

end Spec

/-- The writes of `marshall` stay in the array, and it ends up with an end mark that the loops over
the options stop at, exactly if the packet has fewer options than the array has slots. -/
theorem slots_in_range_iff (buffer : ℕ → Byte) (pktlength : ℕ) :
    ((∀ i ∈ (marshallSlots buffer pktlength).written, i < MAX_DHCP_OPTIONS) ∧
      (∃ i < MAX_DHCP_OPTIONS, ((marshallSlots buffer pktlength).slots i).code = DHO_END) ∧
      ∀ i, (marshallSlots buffer pktlength).Scanned i → i < MAX_DHCP_OPTIONS) ↔
    (optionArea buffer pktlength).length < MAX_DHCP_OPTIONS := by
  obtain ⟨hfilled, hmark, hwritten⟩ := @marshallSlots_filled buffer pktlength
  have hlength := @readOptions_length buffer pktlength
  constructor
  · rintro ⟨hrange, _, _⟩
    have hlast := hrange _ hwritten
    omega
  · intro hfew
    have hlast : (readOptions buffer pktlength pktlength 0 240).length < MAX_DHCP_OPTIONS := by
      omega
    refine ⟨fun i hi => (hfilled.written i hi).trans_lt hlast, ⟨_, hlast, hmark⟩, ?_⟩
    -- a loop that looks behind the array would have passed the mark
    intro i hi
    by_contra hbehind
    exact hi _ (hlast.trans_le (Nat.not_lt.mp hbehind)) hmark

/-- A packet of 32 options of no length and an end mark. -/
def crowdedBuffer (i : ℕ) : Byte :=
  if i < 240 then ([(236, 0x63), (237, 0x82), (238, 0x53), (239, 0x63)].lookup i).getD 0
  else if i < 304 then if i%2 = 0 then DHO_SUBNET else 0
  else DHO_END

/-- With 32 options the end mark goes behind the array, and no slot of the array holds one. -/
theorem crowded_packet_overflows :
    checkMagicCookie crowdedBuffer 305 = true ∧
    MAX_DHCP_OPTIONS ∈ (marshallSlots crowdedBuffer 305).written ∧
    (∀ i < MAX_DHCP_OPTIONS, ((marshallSlots crowdedBuffer 305).slots i).code ≠ DHO_END) ∧
    (marshallSlots crowdedBuffer 305).Scanned MAX_DHCP_OPTIONS := by
  have hlength : (readOptions crowdedBuffer 305 305 0 240).length = MAX_DHCP_OPTIONS := by
    decide +kernel
  have hunmarked : ∀ i < MAX_DHCP_OPTIONS,
      ((marshallSlots crowdedBuffer 305).slots i).code ≠ DHO_END :=
    fun i hi => marshallSlots_unmarked (hlength ▸ hi)
  refine ⟨by decide, ?_, hunmarked, hunmarked⟩
  rw [← hlength]
  exact marshallSlots_filled.2.2

end S3Dhcpd
