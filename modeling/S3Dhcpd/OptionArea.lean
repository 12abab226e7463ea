import S3Dhcpd.MainLoop
import S3Dhcpd.Wire

/-! The option area of a packet: what the option loop of `marshall` reads behind the packet, and
where it writes. -/
namespace S3Dhcpd

section Area
variable (buffer : ℕ → Byte) (pktlength : ℕ)

/-- The offsets at which the options of the area start, up to its end mark or the packet's end. -/
def optionOffsets : ℕ → ℕ → List ℕ
  | 0, _ => []
  | fuel+1, option_offset =>
    if (option_offset : ℤ) > pktlength-1 then []
    else if buffer option_offset = DHO_PAD then optionOffsets fuel (option_offset+1)
    else if buffer option_offset = DHO_END then []
    else option_offset ::
      optionOffsets fuel (option_offset+(buffer (option_offset+1)).toNat+2)

/-- The option ends where the packet does, or before. -/
def OptionInside (option_offset : ℕ) : Prop :=
  option_offset+2+(buffer (option_offset+1)).toNat ≤ pktlength

instance (option_offset : ℕ) : Decidable (OptionInside buffer pktlength option_offset) :=
  inferInstanceAs (Decidable (_ ≤ _))

def optionAt (option_offset : ℕ) : DHCP_Option :=
  ⟨buffer option_offset, buffer (option_offset+1),
    bytesAt buffer (option_offset+2) (buffer (option_offset+1)).toNat⟩

/-- The options of a packet, however many they are. -/
def optionArea : List ℕ := optionOffsets buffer pktlength pktlength 240

end Area

section Reading
variable {buffer buffer' : ℕ → Byte} {pktlength fuel option_idx option_offset : ℕ}

theorem bytesAt_eq_iff {offset n : ℕ} : bytesAt buffer' offset n = bytesAt buffer offset n ↔
    ∀ i < n, buffer' (offset+i) = buffer (offset+i) := by
  simp only [bytesAt, List.map_inj_left, List.mem_range]

theorem take_room {α : Type*} {x : α} {l : List α} (h : option_idx < MAX_DHCP_OPTIONS) :
    (x :: l).take (MAX_DHCP_OPTIONS-option_idx) =
      x :: l.take (MAX_DHCP_OPTIONS-(option_idx+1)) := by
  rw [← Nat.succ_pred_eq_of_pos (Nat.sub_pos_of_lt h), List.take_succ_cons, Nat.sub_add_eq]
  rfl

/-- `marshall` reads the options of the area as long as the array has room. -/
theorem readOptions_area (hidx : option_idx ≤ MAX_DHCP_OPTIONS) :
    readOptions buffer pktlength fuel option_idx option_offset =
      ((optionOffsets buffer pktlength fuel option_offset).take
        (MAX_DHCP_OPTIONS-option_idx)).map (optionAt buffer) := by
  -- turn by turn, the loop and the list of offsets stop and skip at the same places
  induction fuel generalizing option_idx option_offset with
  | zero => simp [readOptions, optionOffsets]
  | succ fuel ih =>
    rw [readOptions, optionOffsets]
    by_cases hend : (option_offset : ℤ) > pktlength-1
    · rw [if_pos hend, if_pos hend, List.take_nil, List.map_nil]
    rw [if_neg hend, if_neg hend]
    by_cases hfull : option_idx = MAX_DHCP_OPTIONS
    · rw [if_pos hfull, hfull, Nat.sub_self, List.take_zero, List.map_nil]
    rw [if_neg hfull]
    split_ifs
    · exact ih hidx
    · rw [List.take_nil, List.map_nil]
    · dsimp only
      rw [take_room (by omega), List.map_cons, ih (by omega)]
      rfl

theorem optionOffsets_mark {o : ℕ}
    (ho : o ∈ optionOffsets buffer pktlength fuel option_offset) : buffer o ≠ DHO_END := by
  induction fuel generalizing option_offset with
  | zero => simp [optionOffsets] at ho
  | succ fuel ih =>
    rw [optionOffsets] at ho
    split_ifs at ho with hend hpad hmark
    · simp at ho
    · exact ih ho
    · simp at ho
    · rcases List.mem_cons.mp ho with rfl | ho
      · exact hmark
      · exact ih ho

/-- Options that end inside the packet are read from the packet alone. -/
theorem readOptions_congr (hagree : ∀ i < pktlength, buffer' i = buffer i)
    (hinside : ∀ o ∈ (optionOffsets buffer pktlength fuel option_offset).take
      (MAX_DHCP_OPTIONS-option_idx), OptionInside buffer pktlength o)
    (hidx : option_idx ≤ MAX_DHCP_OPTIONS) :
    readOptions buffer' pktlength fuel option_idx option_offset =
      readOptions buffer pktlength fuel option_idx option_offset := by
  induction fuel generalizing option_idx option_offset with
  | zero => rfl
  | succ fuel ih =>
    rw [readOptions, readOptions]
    rw [optionOffsets] at hinside
    by_cases hend : (option_offset : ℤ) > pktlength-1
    · rw [if_pos hend, if_pos hend]
    rw [if_neg hend] at hinside
    rw [if_neg hend, if_neg hend]
    by_cases hfull : option_idx = MAX_DHCP_OPTIONS
    · rw [if_pos hfull, if_pos hfull]
    rw [if_neg hfull, if_neg hfull, hagree option_offset (by omega)]
    split_ifs at hinside ⊢
    · exact ih hinside hidx
    · rfl
    · rw [take_room (by omega), List.forall_mem_cons] at hinside
      obtain ⟨hhead, htail⟩ := hinside
      -- an option that ends inside the packet has its length byte there too
      have hhead : option_offset+2+(buffer (option_offset+1)).toNat ≤ pktlength := hhead
      have hlength : buffer' (option_offset+1) = buffer (option_offset+1) :=
        hagree _ (by omega)
      have hvalue : bytesAt buffer' (option_offset+2) (buffer (option_offset+1)).toNat =
          bytesAt buffer (option_offset+2) (buffer (option_offset+1)).toNat :=
        bytesAt_eq_iff.mpr fun i hi => hagree _ (by omega)
      simp only [hlength, hvalue]
      rw [ih htail (by omega)]

/-- The buffer with every byte behind the packet changed. -/
def overwritten (buffer : ℕ → Byte) (pktlength : ℕ) (i : ℕ) : Byte :=
  if i < pktlength then buffer i else ~~~buffer i

theorem overwritten_behind {i : ℕ} (hi : pktlength ≤ i) :
    overwritten buffer pktlength i ≠ buffer i := by
  have hflip : ∀ b : Byte, ~~~b ≠ b := forall_byte (by decide +kernel)
  rw [overwritten, if_neg (Nat.not_lt.mpr hi)]
  exact hflip (buffer i)

/-- If the bytes behind the packet make no difference, the options that are read end inside it. -/
theorem inside_of_overwritten
    (hsame : readOptions (overwritten buffer pktlength) pktlength fuel option_idx option_offset =
      readOptions buffer pktlength fuel option_idx option_offset)
    (hidx : option_idx ≤ MAX_DHCP_OPTIONS) :
    ∀ o ∈ (optionOffsets buffer pktlength fuel option_offset).take (MAX_DHCP_OPTIONS-option_idx),
      OptionInside buffer pktlength o := by
  induction fuel generalizing option_idx option_offset with
  | zero => simp [optionOffsets]
  | succ fuel ih =>
    rw [readOptions, readOptions] at hsame
    rw [optionOffsets]
    by_cases hend : (option_offset : ℤ) > pktlength-1
    · rw [if_pos hend]
      simp
    rw [if_neg hend, if_neg hend] at hsame
    rw [if_neg hend]
    by_cases hfull : option_idx = MAX_DHCP_OPTIONS
    · rw [hfull, Nat.sub_self, List.take_zero]
      simp
    have hcode : overwritten buffer pktlength option_offset = buffer option_offset :=
      if_pos (by omega)
    rw [if_neg hfull, if_neg hfull, hcode] at hsame
    split_ifs at hsame ⊢
    · exact ih hsame hidx
    · simp
    · simp only [List.cons.injEq, DHCP_Option.mk.injEq, true_and] at hsame
      obtain ⟨⟨hlength, hvalue⟩, htail⟩ := hsame
      rw [hlength] at hvalue htail
      rw [take_room (by omega), List.forall_mem_cons]
      refine ⟨?_, ih htail (by omega)⟩
      by_contra houtside
      rw [OptionInside] at houtside
      -- the length byte is the packet's, so the value reaches behind the packet
      have hbyte : option_offset+1 < pktlength := by
        by_contra hcut
        exact overwritten_behind (by omega) hlength
      exact overwritten_behind (by omega) (bytesAt_eq_iff.mp hvalue
        ((buffer (option_offset+1)).toNat-1) (by omega))

theorem packetAt_congr {options : List DHCP_Option}
    (hagree : ∀ i < 240, buffer' i = buffer i) : packetAt buffer' options = packetAt buffer options := by
  have hbytes : ∀ offset n, offset+n ≤ 240 → bytesAt buffer' offset n = bytesAt buffer offset n :=
    fun offset n hn => bytesAt_eq_iff.mpr fun i hi => hagree _ (by omega)
  have huint32 : ∀ offset, offset+4 ≤ 240 → uint32At buffer' offset = uint32At buffer offset := by
    intro offset hoffset
    rw [uint32At, hagree _ (by omega), hagree _ (by omega), hagree _ (by omega), hagree _ (by omega)]
    rfl
  have hshort : ∀ offset, offset+2 ≤ 240 → shortAt buffer' offset = shortAt buffer offset := by
    intro offset hoffset
    rw [shortAt, hagree _ (by omega), hagree _ (by omega)]
    rfl
  simp (disch := omega) only [packetAt, hagree, hbytes, huint32, hshort]

theorem checkMagicCookie_congr (hlen : 240 ≤ pktlength)
    (hagree : ∀ i < pktlength, buffer' i = buffer i) :
    checkMagicCookie buffer' pktlength = checkMagicCookie buffer pktlength := by
  have hcookie : bytesAt buffer' 236 4 = bytesAt buffer 236 4 :=
    bytesAt_eq_iff.mpr fun i hi => hagree _ (by omega)
  rw [checkMagicCookie, checkMagicCookie, hcookie]

/-- Two buffers with the same packet differ in what is parsed at most by the options. -/
theorem marshall_eq_iff (hcookie : checkMagicCookie buffer pktlength = true)
    (hagree : ∀ i < pktlength, buffer' i = buffer i) :
    marshall buffer' pktlength = marshall buffer pktlength ↔
      readOptions buffer' pktlength pktlength 0 240 = readOptions buffer pktlength pktlength 0 240 := by
  have hlen := cookie_length hcookie
  have hcookie' : checkMagicCookie buffer' pktlength = true := by
    rw [checkMagicCookie_congr hlen hagree, hcookie]
  rw [marshall_packetAt hcookie, marshall_packetAt hcookie',
    packetAt_congr fun i hi => hagree i (by omega)]
  constructor
  · intro h
    exact congrArg DHCP_Packet.options (Except.ok.inj h)
  · intro h
    rw [h]

end Reading

/-- What is in the buffer behind a packet changes nothing that is parsed, exactly if the options
that are read end inside the packet. -/
theorem packet_only_iff {buffer : ℕ → Byte} {pktlength : ℕ}
    (hcookie : checkMagicCookie buffer pktlength = true) :
    (∀ buffer', (∀ i < pktlength, buffer' i = buffer i) →
      marshall buffer' pktlength = marshall buffer pktlength) ↔
    ∀ o ∈ (optionArea buffer pktlength).take MAX_DHCP_OPTIONS, OptionInside buffer pktlength o := by
  constructor
  · intro hsame
    have hagree : ∀ i < pktlength, overwritten buffer pktlength i = buffer i :=
      fun i hi => if_pos hi
    exact inside_of_overwritten ((marshall_eq_iff hcookie hagree).mp (hsame _ hagree))
      (Nat.zero_le _)
  · intro hinside buffer' hagree
    exact (marshall_eq_iff hcookie hagree).mpr (readOptions_congr hagree hinside (Nat.zero_le _))

/-- A DISCOVER that ends with its end mark is parsed alone. -/
theorem packet_only_example :
    checkMagicCookie (exampleDatagram 100 DHCP_DISCOVER 1 0).buffer 244 = true ∧
    ∀ buffer' : ℕ → Byte, (∀ i < 244, buffer' i = (exampleDatagram 100 DHCP_DISCOVER 1 0).buffer i) →
      marshall buffer' 244 = marshall (exampleDatagram 100 DHCP_DISCOVER 1 0).buffer 244 := by
  refine ⟨by decide, (packet_only_iff (by decide)).mpr ?_⟩
  have harea : optionArea (exampleDatagram 100 DHCP_DISCOVER 1 0).buffer 244 = [240] := by
    decide +kernel
  rw [harea]
  decide +kernel

/-- A packet that ends behind the code byte of its only option: the rest of the option is what an
earlier packet left in the buffer. -/
theorem cut_option_reads_leftover :
    checkMagicCookie (exampleDatagram 100 DHCP_DISCOVER 1 0).buffer 241 = true ∧
    checkMagicCookie (exampleDatagram 100 DHCP_REQUEST 1 0).buffer 241 = true ∧
    (∀ i < 241, (exampleDatagram 100 DHCP_DISCOVER 1 0).buffer i =
      (exampleDatagram 100 DHCP_REQUEST 1 0).buffer i) ∧
    (marshall (exampleDatagram 100 DHCP_DISCOVER 1 0).buffer 241).map DHCP_Packet.options =
      .ok [⟨DHO_DHCP_MESSAGE_TYPE, 1, [DHCP_DISCOVER]⟩] ∧
    (marshall (exampleDatagram 100 DHCP_REQUEST 1 0).buffer 241).map DHCP_Packet.options =
      .ok [⟨DHO_DHCP_MESSAGE_TYPE, 1, [DHCP_REQUEST]⟩] ∧
    marshall (exampleDatagram 100 DHCP_DISCOVER 1 0).buffer 241 ≠
      marshall (exampleDatagram 100 DHCP_REQUEST 1 0).buffer 241 := by
  refine ⟨by decide, by decide, by decide +kernel, by decide +kernel, by decide +kernel, ?_⟩
  decide +kernel

end S3Dhcpd
