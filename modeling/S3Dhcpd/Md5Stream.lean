import S3Dhcpd.Md5

/-! A message appended in pieces has the digest of the whole message: its blocks, then those of the
padding, chained from the initial registers. -/
namespace S3Dhcpd
open ByteMemory BlockChaining

namespace Md5

/-- One bit, zeros up to 56 bytes mod 64, and the number of bits of a message of `n` bytes. -/
def padding (n : ℕ) : List Byte :=
  (0x80 :: List.replicate ((119-n%64)%64) 0) ++ (List.range 8).map (byteOf (BitVec.ofNat 64 (8*n)))

/-- The digest of a message. -/
def md5 (message : List Byte) : Digest :=
  digestOf (chain 64 md5Process initial (message ++ padding message.length))

/-- What the state says of the message that has been appended. -/
structure Appended (message : List Byte) (pms : md5_state_t) : Prop where
  count : pms.count.1.toNat+2^32*pms.count.2.toNat = 8*message.length%2^64
  abcd : pms.abcd = chain 64 md5Process initial message
  buf : Holds pms.buf 0 (rest 64 message)

/-- The blocks use up the padded message. -/
theorem padded_whole (message : List Byte) : 64 ∣ (message ++ padding message.length).length := by
  simp only [padding, List.length_append, List.length_cons, List.length_replicate, List.length_map,
    List.length_range]
  omega

section Counts
variable {c₀ c₁ : U32} {m : ℕ}

theorem and_63 (x : U32) : (x &&& 63).toNat = x.toNat%64 := by
  rw [BitVec.toNat_and]
  exact Nat.and_two_pow_sub_one_eq_mod _ 6

theorem shift_3 (x : U32) : (x >>> 3).toNat = x.toNat/8 := by
  rw [BitVec.toNat_ushiftRight, Nat.shiftRight_eq_div_pow]

/-- The number of pending bytes. -/
theorem offset_eq (h : c₀.toNat+2^32*c₁.toNat = 8*m%2^64) : ((c₀ >>> 3) &&& 63).toNat = m%64 := by
  rw [and_63, shift_3]
  omega

/-- The two words of the count are added with a carry. -/
theorem count_add (h : c₀.toNat+2^32*c₁.toNat = 8*m%2^64) (n : ℕ) :
    (c₀+BitVec.ofNat 32 n <<< 3).toNat+2^32*(if c₀+BitVec.ofNat 32 n <<< 3 < BitVec.ofNat 32 n <<< 3
      then c₁+BitVec.ofNat 32 (n >>> 29)+1 else c₁+BitVec.ofNat 32 (n >>> 29)).toNat =
        8*(m+n)%2^64 := by
  have hbits : (BitVec.ofNat 32 n <<< 3).toNat = 8*n%2^32 := by
    rw [BitVec.toNat_shiftLeft, BitVec.toNat_ofNat, Nat.shiftLeft_eq]
    omega
  have hhigh : (BitVec.ofNat 32 (n >>> 29)).toNat = n/2^29%2^32 := by
    rw [BitVec.toNat_ofNat, Nat.shiftRight_eq_div_pow]
  have hone : (1 : U32).toNat = 1 := rfl
  have hc₀ := c₀.isLt
  have hc₁ := c₁.isLt
  simp only [BitVec.lt_def, BitVec.toNat_add, hbits]
  split_ifs with hcarry
  · simp only [BitVec.toNat_add, hhigh, hone]
    omega
  · simp only [BitVec.toNat_add, hhigh]
    omega

theorem padding_zeros (h : c₀.toNat+2^32*c₁.toNat = 8*m%2^64) :
    ((((55 : U32)-(c₀ >>> 3)) &&& 63)+1).toNat = (119-m%64)%64+1 := by
  have hfifty : (55 : U32).toNat = 55 := rfl
  have hone : (1 : U32).toNat = 1 := rfl
  have hzeros : (((55 : U32)-(c₀ >>> 3)) &&& 63).toNat = (119-m%64)%64 := by
    rw [and_63, BitVec.toNat_sub, shift_3, hfifty]
    omega
  rw [BitVec.toNat_add, hzeros, hone]
  omega

theorem countByte_eq (h : c₀.toNat+2^32*c₁.toNat = 8*m%2^64) {i : ℕ} (hi : i < 8) :
    countByte (c₀, c₁) i = byteOf (BitVec.ofNat 64 (8*m)) i := by
  apply BitVec.eq_of_toNat_eq
  have hc₀ := c₀.isLt
  rw [countByte, byteOf, BitVec.toNat_setWidth, BitVec.toNat_ushiftRight, BitVec.extractLsb'_toNat,
    BitVec.toNat_ofNat, ← h, Nat.shiftRight_eq_div_pow, Nat.shiftRight_eq_div_pow]
  interval_cases i <;> simp <;> omega

end Counts

theorem fullBlocks_eq (abcd : Registers) (p : List Byte) :
    fullBlocks abcd p = (chain 64 md5Process abcd p, rest 64 p) := by
  induction abcd, p using fullBlocks.induct with
  | case1 abcd p hblock ih =>
    rw [fullBlocks, if_pos hblock, ih, ← chain_block (by decide) hblock,
      ← rest_block (by decide) hblock]
  | case2 abcd p hshort =>
    have hlt : p.length < 64 := Nat.lt_of_not_le hshort
    rw [fullBlocks, if_neg hshort, chain_short hlt, rest_short hlt]

/-- The piece and a pending part of a block are counted by an `int`. -/
def Countable (p : List Byte) : Prop := p.length+63 < 2^31

/-- `md5_append` on a piece that an `int` counts. -/
def appendPiece (pms : md5_state_t) (p : List Byte) : md5_state_t :=
  let offset := ((pms.count.1 >>> 3) &&& 63).toNat
  let nbits : U32 := BitVec.ofNat 32 p.length <<< 3
  if p.length ≤ 0 then pms
  else
    let count₁ := pms.count.2+BitVec.ofNat 32 (p.length >>> 29)
    let count₀ := pms.count.1+nbits
    let pms := { pms with count := (count₀, if count₀ < nbits then count₁+1 else count₁) }
    if offset ≠ 0 then
      let copy := if offset+p.length > 64 then 64-offset else p.length
      let pms := { pms with buf := write pms.buf offset (p.take copy) }
      if offset+copy < 64 then pms
      else appendBlocks { pms with abcd := md5Process pms.abcd (read pms.buf 0 64) } (p.drop copy)
    else appendBlocks pms p

section Int
variable {x y : U32}

theorem toInt_small (h : x.toNat < 2^31) : x.toInt = x.toNat := by
  rw [BitVec.toInt_eq_toNat_cond, if_pos (by omega)]

theorem toInt_sum (h : x.toNat+y.toNat < 2^31) : (x+y).toInt = (x.toNat+y.toNat : ℕ) := by
  have hnat : (x+y).toNat = x.toNat+y.toNat := by
    rw [BitVec.toNat_add, Nat.mod_eq_of_lt (by omega)]
  rw [toInt_small (by omega), hnat]

/-- `nbytes >> 29` -/
theorem shift_29 (h : x.toNat < 2^31) : x.sshiftRight 29 = BitVec.ofNat 32 (x.toNat >>> 29) := by
  have hpos : x.msb = false := by
    rw [BitVec.msb_eq_decide, decide_eq_false_iff_not]
    omega
  apply BitVec.eq_of_toNat_eq
  rw [BitVec.sshiftRight_eq_of_msb_false hpos, BitVec.toNat_ushiftRight, BitVec.toNat_ofNat,
    Nat.mod_eq_of_lt]
  rw [Nat.shiftRight_eq_div_pow]
  omega

/-- How much of a piece completes the pending block. -/
theorem copy_eq (hx : x.toNat < 64) (h : x.toNat+y.toNat < 2^31) :
    (if (x+y).toInt > 64 then 64-x else y).toNat =
      if x.toNat+y.toNat > 64 then 64-x.toNat else y.toNat := by
  have hsixty : (64 : U32).toNat = 64 := rfl
  rw [toInt_sum h]
  by_cases hlong : x.toNat+y.toNat > 64
  · rw [if_pos hlong, if_pos (by omega), BitVec.toNat_sub, hsixty]
    omega
  · rw [if_neg hlong, if_neg (by omega)]

/-- Where it ends. -/
theorem copy_end (hx : x.toNat < 64) (h : x.toNat+y.toNat < 2^31) :
    (x+(if (x+y).toInt > 64 then 64-x else y)).toInt =
      Nat.cast (x.toNat+if x.toNat+y.toNat > 64 then 64-x.toNat else y.toNat) := by
  have hcopy := copy_eq hx h
  rw [toInt_sum, hcopy]
  rw [hcopy]
  split_ifs <;> omega

theorem offset_lt (c : U32) : ((c >>> 3) &&& 63).toNat < 64 := by
  rw [and_63]
  exact Nat.mod_lt _ (by decide)

end Int

/-- No sum with the length of such a piece wraps around. -/
theorem md5Append_eq {pms : md5_state_t} {p : List Byte} (h : Countable p) :
    md5Append pms p = appendPiece pms p := by
  have hlength : p.length+63 < 2^31 := h
  have hnat : (BitVec.ofNat 32 p.length).toNat = p.length := by
    rw [BitVec.toNat_ofNat, Nat.mod_eq_of_lt (by omega)]
  have hoffset := offset_lt pms.count.1
  have hcopy := @copy_eq ((pms.count.1 >>> 3) &&& 63) (BitVec.ofNat 32 p.length) hoffset (by omega)
  have hend := @copy_end ((pms.count.1 >>> 3) &&& 63) (BitVec.ofNat 32 p.length) hoffset (by omega)
  have hshift := @shift_29 (BitVec.ofNat 32 p.length) (by omega)
  rw [hnat] at hcopy hend hshift
  simp only [md5Append, appendPiece]
  by_cases hempty : p.length ≤ 0
  · rw [if_pos hempty, toInt_small (by omega), if_pos (by omega)]
  rw [if_neg hempty, toInt_small (by omega), if_neg (by omega), hshift]
  by_cases hpending : (pms.count.1 >>> 3) &&& 63 = 0
  · rw [if_neg (not_not.mpr hpending), if_neg (not_not.mpr (by rw [hpending]; rfl))]
  have hpending_nat : ((pms.count.1 >>> 3) &&& 63).toNat ≠ 0 :=
    fun hzero => hpending (BitVec.eq_of_toNat_eq hzero)
  rw [if_pos hpending, if_pos hpending_nat, hcopy, hend]
  split_ifs <;> first | rfl | omega

/-- `md5_append` writes inside of `buf[64]`. -/
theorem appendPiece_outside (pms : md5_state_t) (p : List Byte) {i : ℕ} (hi : 64 ≤ i) :
    (appendPiece pms p).buf i = pms.buf i := by
  have hblocks (pms : md5_state_t) (p : List Byte) : (appendBlocks pms p).buf i = pms.buf i := by
    have hleft : (rest 64 p).length < 64 := rest_lt (by decide)
    simp only [appendBlocks, fullBlocks_eq]
    exact write_behind (by omega)
  have hoffset := offset_lt pms.count.1
  simp only [appendPiece]
  by_cases hempty : p.length ≤ 0
  · rw [if_pos hempty]
  rw [if_neg hempty]
  by_cases hpending : ((pms.count.1 >>> 3) &&& 63).toNat ≠ 0
  · -- the copy into a buffered block ends with the block
    rw [if_pos hpending]
    generalize hcopy : (if ((pms.count.1 >>> 3) &&& 63).toNat+p.length > 64 then
      64-((pms.count.1 >>> 3) &&& 63).toNat else p.length) = copy
    have hle : ((pms.count.1 >>> 3) &&& 63).toNat+copy ≤ 64 := by
      rw [← hcopy]
      split_ifs <;> omega
    have hbehind : write pms.buf ((pms.count.1 >>> 3) &&& 63).toNat (p.take copy) i = pms.buf i := by
      apply write_behind
      rw [List.length_take]
      omega
    by_cases hfits : ((pms.count.1 >>> 3) &&& 63).toNat+copy < 64
    · rw [if_pos hfits]
      exact hbehind
    · rw [if_neg hfits, hblocks]
      exact hbehind
  · rw [if_neg hpending, hblocks]

section Append
variable {message : List Byte} {pms : md5_state_t}

theorem appended_init (buf : ℕ → Byte) : Appended [] (md5Init buf) where
  count := rfl
  abcd := rfl
  buf := trivial

/-- With nothing pending, blocks are chained and what is left of them is kept. -/
theorem appendBlocks_appended {p : List Byte}
    (hcount : pms.count.1.toNat+2^32*pms.count.2.toNat = 8*message.length%2^64)
    (habcd : chain 64 md5Process pms.abcd p = chain 64 md5Process initial message)
    (hrest : rest 64 p = rest 64 message) : Appended message (appendBlocks pms p) := by
  simp only [appendBlocks, fullBlocks_eq]
  refine ⟨hcount, habcd, ?_⟩
  rw [← hrest]
  dsimp only
  exact holds_write

/-- The blocks of a longer message are chained to the registers. -/
theorem Appended.chain_behind (h : Appended message pms) (p : List Byte) :
    chain 64 md5Process initial (message ++ p) =
      chain 64 md5Process pms.abcd (rest 64 message ++ p) := by
  rw [h.abcd]
  exact chain_append (by decide) initial message p

section Buffered
variable {p : List Byte} {count : U32 × U32} {copy : ℕ}

/-- The buffered block is still not complete. -/
theorem Appended.pending (h : Appended message pms) (hfits : message.length%64+p.length < 64)
    (hcount : count.1.toNat+2^32*count.2.toNat = 8*(message ++ p).length%2^64) :
    Appended (message ++ p) ⟨count, pms.abcd, write pms.buf (message.length%64) p⟩ := by
  have hlength : (rest 64 message).length = message.length%64 := length_rest
  have hshort : (rest 64 message ++ p).length < 64 := by
    rw [List.length_append, hlength]
    exact hfits
  refine ⟨hcount, ?_, ?_⟩
  · rw [h.chain_behind p, chain_short hshort]
  · rw [rest_append (by decide), rest_short hshort]
    exact h.buf.write hlength

/-- The rest of the buffered block comes from the front of the piece. -/
theorem Appended.completes (h : Appended message pms) (hcopy : message.length%64+copy = 64)
    (hle : copy ≤ p.length)
    (hcount : count.1.toNat+2^32*count.2.toNat = 8*(message ++ p).length%2^64) :
    Appended (message ++ p) (appendBlocks ⟨count,
      md5Process pms.abcd (read (write pms.buf (message.length%64) (p.take copy)) 0 64),
      write pms.buf (message.length%64) (p.take copy)⟩ (p.drop copy)) := by
  have hlength : (rest 64 message).length = message.length%64 := length_rest
  have htake : (rest 64 message ++ p).take 64 = rest 64 message ++ p.take copy := by
    rw [List.take_append, hlength, List.take_of_length_le (by omega)]
    congr 2
    omega
  have hdrop : (rest 64 message ++ p).drop 64 = p.drop copy := by
    rw [List.drop_append, hlength, List.drop_of_length_le (by omega), List.nil_append]
    congr 1
    omega
  have hblock : 64 ≤ (rest 64 message ++ p).length := by
    rw [List.length_append, hlength]
    omega
  have hread : read (write pms.buf (message.length%64) (p.take copy)) 0 64 =
      rest 64 message ++ p.take copy := by
    have hfilled : Holds (write pms.buf (message.length%64) (p.take copy)) 0
        (rest 64 message ++ p.take copy) := h.buf.write hlength
    have hholds := hfilled.read
    rwa [List.length_append, hlength, List.length_take, Nat.min_eq_left hle, hcopy] at hholds
  apply appendBlocks_appended hcount
  · rw [hread, h.chain_behind p, chain_block (by decide) hblock, htake, hdrop]
  · rw [rest_append (by decide) message p, rest_block (by decide) hblock, hdrop]

end Buffered

/-- One call of `md5_append`, in the order of its branches. -/
theorem Appended.append (h : Appended message pms) {p : List Byte} (hp : Countable p) :
    Appended (message ++ p) (md5Append pms p) := by
  rw [md5Append_eq hp]
  have hcount := count_add h.count p.length
  rw [← List.length_append] at hcount
  simp only [appendPiece, offset_eq h.count]
  by_cases hempty : p.length ≤ 0
  · obtain rfl : p = [] := List.eq_nil_of_length_eq_zero (Nat.le_zero.mp hempty)
    rw [if_pos hempty, List.append_nil]
    exact h
  rw [if_neg hempty]
  by_cases hpending : message.length%64 ≠ 0
  · rw [if_pos hpending]
    by_cases hfits : message.length%64+p.length < 64
    · have hcopy : (if message.length%64+p.length > 64 then 64-message.length%64 else p.length) =
          p.length := if_neg (by omega)
      rw [hcopy, List.take_length, if_pos hfits]
      exact h.pending hfits hcount
    · have hcopy : (if message.length%64+p.length > 64 then 64-message.length%64 else p.length) =
          64-message.length%64 := by
        split_ifs <;> omega
      rw [hcopy, if_neg (by omega)]
      exact h.completes (by omega) (by omega) hcount
  · rw [if_neg hpending]
    have hnone : rest 64 message = [] := by
      apply List.eq_nil_of_length_eq_zero
      rw [length_rest]
      exact not_not.mp hpending
    refine appendBlocks_appended hcount ?_ ?_
    · rw [h.chain_behind p, hnone, List.nil_append]
    · rw [rest_append (by decide) message p, hnone, List.nil_append]

theorem appended_pieces (buf : ℕ → Byte) {pieces : List (List Byte)}
    (hpieces : ∀ p ∈ pieces, Countable p) :
    Appended pieces.flatten (pieces.foldl md5Append (md5Init buf)) := by
  induction pieces using List.reverseRecOn with
  | nil => exact appended_init buf
  | append_singleton pieces piece ih =>
    rw [List.forall_mem_append, List.forall_mem_singleton] at hpieces
    rw [List.foldl_append, List.foldl_cons, List.foldl_nil, List.flatten_append,
      List.flatten_singleton]
    exact (ih hpieces.1).append hpieces.2

/-- The padding is appended like any other piece. -/
theorem Appended.finish (h : Appended message pms) : md5Finish pms = md5 message := by
  have hzeros : pad.take ((((55 : U32)-(pms.count.1 >>> 3)) &&& 63)+1).toNat =
      0x80 :: List.replicate ((119-message.length%64)%64) 0 := by
    rw [padding_zeros h.count, pad, List.take_succ_cons, List.take_replicate,
      Nat.min_eq_left (by omega)]
  have hdata : (List.range 8).map (countByte pms.count) =
      (List.range 8).map (byteOf (BitVec.ofNat 64 (8*message.length))) := by
    apply List.map_congr_left
    intro i hi
    exact countByte_eq h.count (List.mem_range.mp hi)
  have hzeros_countable : Countable (0x80 :: List.replicate ((119-message.length%64)%64) 0) := by
    rw [Countable, List.length_cons, List.length_replicate]
    omega
  have hdata_countable :
      Countable ((List.range 8).map (byteOf (BitVec.ofNat 64 (8*message.length)))) := by
    rw [Countable, List.length_map, List.length_range]
    decide
  have hall := ((h.append hzeros_countable).append hdata_countable).abcd
  rw [List.append_assoc] at hall
  simp only [md5Finish, hzeros, hdata]
  rw [hall]
  rfl

end Append

theorem pieces_outside (buf : ℕ → Byte) {pieces : List (List Byte)}
    (hpieces : ∀ p ∈ pieces, Countable p) {i : ℕ} (hi : 64 ≤ i) :
    (pieces.foldl md5Append (md5Init buf)).buf i = buf i := by
  induction pieces using List.reverseRecOn with
  | nil => rfl
  | append_singleton pieces piece ih =>
    rw [List.forall_mem_append, List.forall_mem_singleton] at hpieces
    rw [List.foldl_append, List.foldl_cons, List.foldl_nil, md5Append_eq hpieces.2,
      appendPiece_outside _ _ hi, ih hpieces.1]

/-- Whatever the pieces, as long as an `int` counts each of them behind a pending block, and
whatever stood in the block buffer, the digest is that of the message, whose padding completes its
last block, and nothing is written behind the buffer. -/
theorem digest_of_pieces (buf : ℕ → Byte) {pieces : List (List Byte)}
    (hpieces : ∀ p ∈ pieces, Countable p) :
    md5Finish (pieces.foldl md5Append (md5Init buf)) = md5 pieces.flatten ∧
      rest 64 (pieces.flatten ++ padding pieces.flatten.length) = [] ∧
      ∀ i, 64 ≤ i → (pieces.foldl md5Append (md5Init buf)).buf i = buf i :=
  ⟨(appended_pieces buf hpieces).finish, rest_whole (padded_whole _),
    fun _ hi => pieces_outside buf hpieces hi⟩

/-- Three pieces, the second of which completes a block. -/
theorem digest_of_pieces_example :
    md5Finish ([textBytes "abc", List.replicate 70 0, []].foldl md5Append (md5Init fun _ => 1)) =
        md5 [textBytes "abc", List.replicate 70 0, []].flatten ∧
      rest 64 ([textBytes "abc", List.replicate 70 0, []].flatten ++
        padding [textBytes "abc", List.replicate 70 0, []].flatten.length) = [] ∧
      ∀ i, 64 ≤ i → ([textBytes "abc", List.replicate 70 0, []].foldl md5Append
        (md5Init fun _ => 1)).buf i = 1 := by
  have hpieces : ∀ p ∈ [textBytes "abc", List.replicate 70 0, []], Countable p := by
    simp [Countable, textBytes]
  exact digest_of_pieces (fun _ => 1) hpieces

example : (md5 (textBytes "abc")).1 = [0x90, 0x01, 0x50, 0x98, 0x3c, 0xd2, 0x4f, 0xb0,
    0xd6, 0x96, 0x3f, 0x7d, 0x28, 0xe1, 0x7f, 0x72] := by decide +kernel

end Md5

end S3Dhcpd
