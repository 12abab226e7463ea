import Mathlib.Algebra.Ring.Divisibility.Basic
import Mathlib.Data.List.GetD
import S3Dhcpd.ByteMemory
import S3Dhcpd.Tools

/-! The put area of `dsStrstream`: a block that is replaced by a larger one when it is full. -/
namespace S3Dhcpd

/-- An allocated block of memory. -/
structure Block where
  size : ℕ
  bytes : ℕ → Byte

/-- Outside of the block a write is undefined behaviour. -/
def Block.write (block : Block) (offset : ℕ) (l : List Byte) : Option Block :=
  if offset+l.length ≤ block.size then
    some { block with bytes := ByteMemory.write block.bytes offset l }
  else none

/-- Outside of the block a read is undefined behaviour. -/
def Block.read (block : Block) (offset n : ℕ) : Option (List Byte) :=
  if offset+n ≤ block.size then some (ByteMemory.read block.bytes offset n) else none

/-- `dsStrstreambuf`. The pointers are offsets into the block, at whose beginning `pbase()`,
`eback()` and `egptr()` stand. -/
structure Strstreambuf where
  flags : BitVec 64
  segSize : ℕ
  overflowCnt : ℤ
  block : Block
  gptr : ℕ
  pptr : ℕ
  epptr : ℕ

namespace Strstreambuf

def DS_SEGMENT_SIZE : ℕ := 64
def DS_IO_FROZEN : BitVec 64 := 1
def DS_IO_STATIC : BitVec 64 := 2
def DS_IO_CONSTANT : BitVec 64 := 4
def DS_IO_NOTMOVABLE : BitVec 64 := DS_IO_FROZEN ||| DS_IO_STATIC ||| DS_IO_CONSTANT
def DS_IO_EOF : ℤ := -1
def DS_IO_NOT_EOF : ℤ := 0

/-- A value narrowed to `int`. -/
def intOf (n : ℤ) : ℤ := (BitVec.ofInt 32 n).toInt

/-- The constructor that allocates; `heap n` is what stands in the `n`th block before it is used. -/
def new (heap : ℕ → ℕ → Byte) (size : ℕ) : Option Strstreambuf := do
  let ptr ← Block.write ⟨size+1, heap 0⟩ 0 (List.replicate (size+1) 0)
  return ⟨0, DS_SEGMENT_SIZE, 0, ptr, 0, 0, size⟩

/-- What `overflow` does when the block is full. An `int` that overflows and a block of a negative
size are undefined behaviour. -/
def expand (heap : ℕ → ℕ → Byte) (b : Strstreambuf) : Option Strstreambuf := do
  let oldSize := intOf b.epptr
  let oldGetOffset := intOf b.gptr
  let overflowCnt := b.overflowCnt+1
  let newSize := intOf (oldSize+overflowCnt*b.segSize)
  if overflowCnt = 2^31 ∨ newSize+1 = 2^31 ∨ oldSize < 0 ∨ newSize < 0 ∨ oldGetOffset < 0 then none
  else
    let text ← b.block.read 0 oldSize.toNat
    let newBuf ← Block.write ⟨newSize.toNat+1, heap overflowCnt.toNat⟩ 0 text
    let newBuf ← newBuf.write oldSize.toNat (List.replicate (newSize+1-oldSize).toNat 0)
    return { b with
      overflowCnt, block := newBuf, gptr := oldGetOffset.toNat, pptr := oldSize.toNat,
      epptr := newSize.toNat }

/-- `*pptr() = ch; pbump(1);` -/
def append (b : Strstreambuf) (ch : Byte) : Option Strstreambuf := do
  let block ← b.block.write b.pptr [ch]
  return { b with block, pptr := b.pptr+1 }

def overflow (heap : ℕ → ℕ → Byte) (b : Strstreambuf) (ch : ℤ) : Option (ℤ × Strstreambuf) :=
  if ch = DS_IO_EOF then some (DS_IO_NOT_EOF, b)
  else do
    let b ← if b.pptr = b.epptr ∧ b.flags &&& DS_IO_NOTMOVABLE = 0 ∧ b.segSize > 0 then
        b.expand heap
      else some b
    if b.pptr ≠ b.epptr then return (ch, ← b.append (BitVec.ofInt 8 ch))
    else return (DS_IO_EOF, b)

/-- `sputc` of the standard library. -/
def sputc (heap : ℕ → ℕ → Byte) (b : Strstreambuf) (c : Byte) : Option (ℤ × Strstreambuf) := do
  if b.pptr < b.epptr then return (c.toNat, ← b.append c)
  else b.overflow heap c.toNat

def pcount (b : Strstreambuf) : ℕ := b.pptr

/-- Memory from `eback()` on. -/
def str (b : Strstreambuf) : ℕ → Byte := b.block.bytes

section Contents
variable {b : Strstreambuf} {contents : List Byte} {k : ℕ}

/-- The size of the put area after `k` expansions. -/
def bufferSize : ℕ → ℕ
  | 0 => DS_SEGMENT_SIZE
  | k+1 => bufferSize k+(k+1)*DS_SEGMENT_SIZE

/-- After `k` expansions the buffer has the contents, and zeros from there to its end and one byte
farther. -/
structure Keeps (k : ℕ) (contents : List Byte) (b : Strstreambuf) : Prop where
  flags : b.flags = 0
  segSize : b.segSize = DS_SEGMENT_SIZE
  overflowCnt : b.overflowCnt = k
  gptr : b.gptr = 0
  pptr : b.pptr = contents.length
  epptr : b.epptr = bufferSize k
  size : b.block.size = bufferSize k+1
  room : contents.length ≤ bufferSize k
  bytes : ∀ i ≤ bufferSize k, b.block.bytes i = contents.getD i 0

theorem bufferSize_strictMono : StrictMono bufferSize := by
  apply strictMono_nat_of_lt_succ
  intro k
  rw [bufferSize]
  have hpos : 0 < (k+1)*DS_SEGMENT_SIZE := Nat.mul_pos k.succ_pos (by decide)
  exact Nat.lt_add_of_pos_right hpos

theorem dvd_bufferSize (k : ℕ) : DS_SEGMENT_SIZE ∣ bufferSize k := by
  induction k with
  | zero => exact dvd_rfl
  | succ k ih => exact dvd_add ih (dvd_mul_left _ _)

theorem intOf_of_lt {n : ℕ} (h : n < 2^31) : intOf n = n := by
  rw [intOf, BitVec.toInt_ofInt]
  exact Int.bmod_eq_of_le (by omega) (by omega)

theorem write_ok {block : Block} {offset : ℕ} {l : List Byte} (h : offset+l.length ≤ block.size) :
    block.write offset l =
      some { block with bytes := ByteMemory.write block.bytes offset l } := if_pos h

theorem keeps_new (heap : ℕ → ℕ → Byte) :
    ∃ b, new heap DS_SEGMENT_SIZE = some b ∧ Keeps 0 [] b := by
  have hfits : 0+(List.replicate (DS_SEGMENT_SIZE+1) (0 : Byte)).length ≤ DS_SEGMENT_SIZE+1 := by
    simp
  refine ⟨_, by rw [new, write_ok hfits]; rfl, rfl, rfl, rfl, rfl, rfl, rfl, rfl, by simp, ?_⟩
  intro i hi
  have hin : i < DS_SEGMENT_SIZE+1 := Nat.lt_succ_of_le hi
  simp [ByteMemory.write, hin]

theorem Keeps.append (h : Keeps k contents b) (c : Byte) (hroom : contents.length < bufferSize k) :
    ∃ b', b.append c = some b' ∧ Keeps k (contents ++ [c]) b' := by
  have hfits : b.pptr+[c].length ≤ b.block.size := by
    rw [h.pptr, h.size, List.length_singleton]
    omega
  refine ⟨{ b with
      block := { b.block with bytes := ByteMemory.write b.block.bytes b.pptr [c] }
      pptr := b.pptr+1 }, by rw [Strstreambuf.append, write_ok hfits]; rfl, h.flags, h.segSize,
    h.overflowCnt, h.gptr, ?_, h.epptr, h.size, ?_, fun i hi => ?_⟩
  · rw [List.length_append, List.length_singleton, h.pptr]
  · rw [List.length_append, List.length_singleton]
    exact hroom
  · dsimp only
    rw [h.pptr]
    -- in front of the new character, at it, and behind it
    rcases lt_trichotomy i contents.length with hlt | rfl | hgt
    · rw [ByteMemory.write_before hlt, h.bytes i hi, List.getD_append _ _ _ _ hlt]
    · rw [ByteMemory.write_head, List.getD_append_right _ _ _ _ (Nat.le_refl _), Nat.sub_self]
      rfl
    · have hlen : (contents ++ [c]).length ≤ i := by simpa using Nat.succ_le_of_lt hgt
      rw [ByteMemory.write_behind (by simpa using Nat.succ_le_of_lt hgt), h.bytes i hi,
        List.getD_eq_default _ _ hgt.le, List.getD_eq_default _ _ hlen]

/-- The contents are copied and cleared memory follows them. -/
theorem copied_bytes {junk : ℕ → Byte} {n i : ℕ} (hi : i < contents.length+n) :
    ByteMemory.write (ByteMemory.write junk 0 contents) contents.length (List.replicate n 0) i =
      contents.getD i 0 := by
  rcases Nat.lt_or_ge i contents.length with hlt | hge
  · rw [ByteMemory.write_before hlt, ByteMemory.write, if_pos (Nat.zero_le i), Nat.sub_zero,
      List.getElem?_eq_getElem hlt, Option.getD_some, List.getD_eq_getElem _ _ hlt]
  · have hin : i-contents.length < (List.replicate n (0 : Byte)).length := by
      rw [List.length_replicate]
      omega
    rw [ByteMemory.write, if_pos hge, List.getElem?_eq_getElem hin, List.getElem_replicate,
      Option.getD_some, List.getD_eq_default _ _ hge]

theorem Keeps.holds (h : Keeps k contents b) :
    ByteMemory.Holds b.block.bytes 0 (contents ++ [0]) := by
  have hroom := h.room
  rw [ByteMemory.holds_iff_read]
  apply List.ext_getElem
  · rw [ByteMemory.length_read]
  · intro i hi hi'
    have hlen : i < contents.length+1 := by simpa using hi'
    simp only [ByteMemory.read, List.getElem_map, List.getElem_range, Nat.zero_add]
    rw [h.bytes i (by omega)]
    rcases Nat.lt_succ_iff_lt_or_eq.mp hlen with hlt | rfl
    · rw [List.getD_eq_getElem _ _ hlt, List.getElem_append_left hlt]
    · rw [List.getD_eq_default _ _ (Nat.le_refl _), List.getElem_concat_length rfl]

theorem Keeps.read (h : Keeps k contents b) : b.block.read 0 contents.length = some contents := by
  have hroom := h.room
  have hholds := (ByteMemory.holds_append.mp h.holds).1
  rw [Block.read, if_pos (by rw [h.size]; omega), hholds.read]

/-- Expansion keeps the contents, the position and the zeros. -/
theorem Keeps.expand (h : Keeps k contents b) (heap : ℕ → ℕ → Byte)
    (hfull : contents.length = bufferSize k) (hfit : bufferSize (k+1) < 2^31) :
    ∃ b', b.expand heap = some b' ∧ Keeps (k+1) contents b' := by
  have hlt : bufferSize k < bufferSize (k+1) := bufferSize_strictMono k.lt_succ_self
  have hdvd : 64 ∣ bufferSize (k+1) := dvd_bufferSize (k+1)
  have hold : intOf b.epptr = contents.length := by
    rw [h.epptr, hfull, intOf_of_lt (hlt.trans hfit)]
  have hget : intOf b.gptr = 0 := by
    rw [h.gptr]
    rfl
  have hnew : intOf ((contents.length : ℤ)+((k : ℤ)+1)*b.segSize) = bufferSize (k+1) := by
    rw [h.segSize, hfull, ← intOf_of_lt hfit, bufferSize]
    push_cast
    rfl
  have hcnt : k+1 ≤ bufferSize (k+1) := by
    calc
      k+1 ≤ (k+1)*DS_SEGMENT_SIZE := Nat.le_mul_of_pos_right (k+1) (by decide)
      _ ≤ bufferSize (k+1) := Nat.le_add_left _ _
  -- a size is a multiple of the segment's, so it is not the largest `int`
  have hdefined : ¬((k : ℤ)+1 = 2^31 ∨ (bufferSize (k+1) : ℤ)+1 = 2^31 ∨
      (contents.length : ℤ) < 0 ∨ (bufferSize (k+1) : ℤ) < 0 ∨ (0 : ℤ) < 0) := by
    omega
  -- what the second `memset` clears, one byte behind the put area included
  let cleared := bufferSize (k+1)+1-contents.length
  have hcleared : ((bufferSize (k+1) : ℤ)+1-contents.length).toNat = cleared := by
    omega
  have hall : contents.length+cleared = bufferSize (k+1)+1 := by
    omega
  have hcopy : Block.write ⟨bufferSize (k+1)+1, heap (k+1)⟩ 0 contents =
      some ⟨bufferSize (k+1)+1, ByteMemory.write (heap (k+1)) 0 contents⟩ :=
    write_ok (by dsimp only; omega)
  have hclear (bytes : ℕ → Byte) :
      Block.write ⟨bufferSize (k+1)+1, bytes⟩ contents.length (List.replicate cleared 0) =
        some ⟨bufferSize (k+1)+1,
          ByteMemory.write bytes contents.length (List.replicate cleared 0)⟩ := by
    apply write_ok
    rw [List.length_replicate, hall]
  refine ⟨⟨b.flags, b.segSize, k+1, ⟨bufferSize (k+1)+1, ByteMemory.write (ByteMemory.write
    (heap (k+1)) 0 contents) contents.length (List.replicate cleared 0)⟩, 0, contents.length,
    bufferSize (k+1)⟩, ?_, h.flags, h.segSize, by push_cast; rfl, rfl, rfl, rfl, rfl,
    hfull.le.trans hlt.le, fun i hi => copied_bytes (by omega)⟩
  simp only [Strstreambuf.expand, hold, hget, h.overflowCnt, hnew, if_neg hdefined,
    Int.toNat_natCast, h.read, hcleared]
  rw [show ((k : ℤ)+1).toNat = k+1 by omega]
  simp only [Option.bind_eq_bind, Option.bind_some, hcopy, hclear]
  rfl

/-- One more character: there is room for it, or the buffer is expanded. -/
theorem Keeps.sputc (h : Keeps k contents b) (heap : ℕ → ℕ → Byte) (c : Byte) {K : ℕ}
    (hneed : contents.length+1 ≤ bufferSize K)
    (hfit : bufferSize K < 2^31) :
    ∃ b' k', b.sputc heap c = some ((c.toNat : ℤ), b') ∧ Keeps k' (contents ++ [c]) b' := by
  rcases h.room.lt_or_eq with hroom | hfull
  · obtain ⟨b', happend, hkeeps⟩ := h.append c hroom
    have hlt : b.pptr < b.epptr := by rwa [h.pptr, h.epptr]
    refine ⟨b', k, ?_, hkeeps⟩
    rw [Strstreambuf.sputc, if_pos hlt, happend]
    rfl
  · -- the next size is one of those up to `K`, which fit in `int`
    have hnext : k+1 ≤ K := bufferSize_strictMono.lt_iff_lt.mp (by omega)
    have hfits : bufferSize (k+1) < 2^31 := by
      calc
        bufferSize (k+1) ≤ bufferSize K := bufferSize_strictMono.monotone hnext
        _ < 2^31 := hfit
    have hgrows : bufferSize k < bufferSize (k+1) := bufferSize_strictMono k.lt_succ_self
    obtain ⟨b', hexpand, hkeeps'⟩ := h.expand heap hfull hfits
    obtain ⟨b'', happend, hkeeps⟩ := hkeeps'.append c (by omega)
    have hlt : ¬b.pptr < b.epptr := by
      rw [h.pptr, h.epptr]
      omega
    have heof : (c.toNat : ℤ) ≠ DS_IO_EOF := by
      rw [DS_IO_EOF]
      omega
    have hmovable : b.pptr = b.epptr ∧ b.flags &&& DS_IO_NOTMOVABLE = 0 ∧ b.segSize > 0 := by
      rw [h.pptr, h.epptr, h.flags, h.segSize]
      exact ⟨hfull, by decide, by decide⟩
    have hspace : b'.pptr ≠ b'.epptr := by
      rw [hkeeps'.pptr, hkeeps'.epptr]
      omega
    have hchar : BitVec.ofInt 8 (c.toNat : ℤ) = c := by
      rw [BitVec.ofInt_natCast, BitVec.ofNat_toNat, BitVec.setWidth_eq]
    refine ⟨b'', k+1, ?_, hkeeps⟩
    rw [Strstreambuf.sputc, if_neg hlt, overflow, if_neg heof, if_pos hmovable, hexpand]
    simp only [Option.bind_eq_bind, Option.bind_some, if_pos hspace, hchar, happend]
    rfl

end Contents

end Strstreambuf

/-- `dsStrstream`, with the bit that stops an output stream. -/
structure Strstream where
  sb : Strstreambuf
  bad : Bool

namespace Strstream

def new (heap : ℕ → ℕ → Byte) : Option Strstream := do
  let sb ← Strstreambuf.new heap Strstreambuf.DS_SEGMENT_SIZE
  return ⟨sb, false⟩

/-- The insertion of one character. -/
def put (heap : ℕ → ℕ → Byte) (s : Strstream) (c : Byte) : Option Strstream :=
  if s.bad then some s
  else do
    let (r, sb) ← s.sb.sputc heap c
    return ⟨sb, r = Strstreambuf.DS_IO_EOF⟩

def pcount (s : Strstream) : ℕ := s.sb.pcount

def str (s : Strstream) : ℕ → Byte := s.sb.str

section Run
variable {s : Strstream} {contents : List Byte} {k K : ℕ}

open Strstreambuf in
/-- No character is lost by a run of insertions. -/
theorem keeps_run (heap : ℕ → ℕ → Byte) (chars : List Byte) (h : Keeps k contents s.sb)
    (hgood : s.bad = false) (hneed : contents.length+chars.length ≤ bufferSize K)
    (hfit : bufferSize K < 2^31) :
    ∃ s' k', chars.foldlM (put heap) s = some s' ∧ s'.bad = false ∧
      Keeps k' (contents ++ chars) s'.sb := by
  -- on the characters that are left; `K` bounds them together with the contents
  induction chars generalizing s contents k with
  | nil =>
    rw [List.append_nil]
    exact ⟨s, k, rfl, hgood, h⟩
  | cons c chars ih =>
    rw [List.length_cons] at hneed
    obtain ⟨sb, k', hput, hkeeps⟩ := h.sputc heap c (K := K) (by omega) hfit
    have heof : (c.toNat : ℤ) ≠ DS_IO_EOF := by
      rw [DS_IO_EOF]
      omega
    have hstep : put heap s c = some ⟨sb, false⟩ := by
      rw [put, hgood, if_neg (by decide), hput]
      simp only [Option.bind_eq_bind, Option.bind_some, decide_eq_false heof]
      rfl
    obtain ⟨s', k'', hrun, hgood', hkeeps'⟩ := ih (s := ⟨sb, false⟩) hkeeps rfl
      (by rw [List.length_append, List.length_singleton]; omega)
    rw [List.append_assoc, List.singleton_append] at hkeeps'
    refine ⟨s', k'', ?_, hgood', hkeeps'⟩
    rw [List.foldlM_cons, hstep]
    exact hrun

end Run

open Strstreambuf in
/-- Whatever is inserted into a new stream stands in its buffer, with a zero behind it; every write
is within its block. -/
theorem inserted_kept (heap : ℕ → ℕ → Byte) (chars : List Byte)
    (hfit : ∃ k, chars.length ≤ bufferSize k ∧ bufferSize k < 2^31) :
    ∃ s, (new heap >>= fun s => chars.foldlM (put heap) s) = some s ∧ s.bad = false ∧
      s.pcount = chars.length ∧ ByteMemory.Holds s.str 0 (chars ++ [0]) ∧
      s.sb.block.size = s.sb.epptr+1 ∧ s.pcount ≤ s.sb.epptr := by
  obtain ⟨K, hneed, hfit⟩ := hfit
  obtain ⟨sb, hnew, hkeeps⟩ := keeps_new heap
  obtain ⟨s, k, hrun, hgood, hkept⟩ := keeps_run heap chars (s := ⟨sb, false⟩) hkeeps rfl
    (by rwa [List.length_nil, Nat.zero_add]) hfit
  rw [List.nil_append] at hkept
  refine ⟨s, ?_, hgood, hkept.pptr, hkept.holds, ?_, ?_⟩
  · rw [new, hnew]
    exact hrun
  · rw [hkept.size, hkept.epptr]
  · rw [pcount, Strstreambuf.pcount, hkept.pptr, hkept.epptr]
    exact hkept.room

/-- One character more than the first block has room for. -/
theorem inserted_kept_example : ∃ s, (new (fun _ _ => 0xAA) >>= fun s =>
    (List.replicate 65 (0x41 : Byte)).foldlM (put fun _ _ => 0xAA) s) = some s ∧ s.bad = false ∧
      s.pcount = 65 ∧ ByteMemory.Holds s.str 0 (List.replicate 65 (0x41 : Byte) ++ [0]) ∧
      s.sb.block.size = s.sb.epptr+1 ∧ s.pcount ≤ s.sb.epptr :=
  inserted_kept (fun _ _ => 0xAA) (List.replicate 65 0x41) ⟨1, by decide, by decide⟩

end Strstream

end S3Dhcpd
