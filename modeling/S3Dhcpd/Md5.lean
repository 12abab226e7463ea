import S3Dhcpd.BlockChaining
import S3Dhcpd.RadiusPacket

/-! `md5.c`: the digest of a message that is appended in pieces. -/
namespace S3Dhcpd
open ByteMemory BlockChaining

def T_MASK : U32 := 0xFFFFFFFF

/-- The digest buffer `abcd[4]`. -/
@[ext] structure Registers where
  a : U32
  b : U32
  c : U32
  d : U32
deriving DecidableEq

/-- `md5_state_t` -/
structure md5_state_t where
  count : U32 × U32
  abcd : Registers
  buf : ℕ → Byte

namespace Md5

def ROTATE_LEFT (x : U32) (n : ℕ) : U32 := (x <<< n) ||| (x >>> (32-n))

def F (x y z : U32) : U32 := (x &&& y) ||| (~~~x &&& z)
def G (x y z : U32) : U32 := (x &&& z) ||| (y &&& ~~~z)
def H (x y z : U32) : U32 := x ^^^ y ^^^ z
def I (x y z : U32) : U32 := y ^^^ (x ||| ~~~z)

/-- `SET(a, b, c, d, k, s, Ti)`. The operations take turns at the registers, so the result is turned
for the next one. -/
def SET (f : U32 → U32 → U32 → U32) (X : ℕ → U32) (r : Registers) (op : ℕ × ℕ × U32) : Registers :=
  let t := r.a + f r.b r.c r.d + X op.1 + op.2.2
  ⟨r.d, ROTATE_LEFT t op.2.1 + r.b, r.b, r.c⟩

/-- The arguments `k`, `s` and `Ti` of the operations. -/
def round1 : List (ℕ × ℕ × U32) :=
  [(0, 7, T_MASK ^^^ 0x28955b87), (1, 12, T_MASK ^^^ 0x173848a9), (2, 17, 0x242070db),
    (3, 22, T_MASK ^^^ 0x3e423111), (4, 7, T_MASK ^^^ 0x0a83f050), (5, 12, 0x4787c62a),
    (6, 17, T_MASK ^^^ 0x57cfb9ec), (7, 22, T_MASK ^^^ 0x02b96afe), (8, 7, 0x698098d8),
    (9, 12, T_MASK ^^^ 0x74bb0850), (10, 17, T_MASK ^^^ 0x0000a44e),
    (11, 22, T_MASK ^^^ 0x76a32841), (12, 7, 0x6b901122), (13, 12, T_MASK ^^^ 0x02678e6c),
    (14, 17, T_MASK ^^^ 0x5986bc71), (15, 22, 0x49b40821)]

def round2 : List (ℕ × ℕ × U32) :=
  [(1, 5, T_MASK ^^^ 0x09e1da9d), (6, 9, T_MASK ^^^ 0x3fbf4cbf), (11, 14, 0x265e5a51),
    (0, 20, T_MASK ^^^ 0x16493855), (5, 5, T_MASK ^^^ 0x29d0efa2), (10, 9, 0x02441453),
    (15, 14, T_MASK ^^^ 0x275e197e), (4, 20, T_MASK ^^^ 0x182c0437), (9, 5, 0x21e1cde6),
    (14, 9, T_MASK ^^^ 0x3cc8f829), (3, 14, T_MASK ^^^ 0x0b2af278), (8, 20, 0x455a14ed),
    (13, 5, T_MASK ^^^ 0x561c16fa), (2, 9, T_MASK ^^^ 0x03105c07), (7, 14, 0x676f02d9),
    (12, 20, T_MASK ^^^ 0x72d5b375)]

def round3 : List (ℕ × ℕ × U32) :=
  [(5, 4, T_MASK ^^^ 0x0005c6bd), (8, 11, T_MASK ^^^ 0x788e097e), (11, 16, 0x6d9d6122),
    (14, 23, T_MASK ^^^ 0x021ac7f3), (1, 4, T_MASK ^^^ 0x5b4115bb), (4, 11, 0x4bdecfa9),
    (7, 16, T_MASK ^^^ 0x0944b49f), (10, 23, T_MASK ^^^ 0x4140438f), (13, 4, 0x289b7ec6),
    (0, 11, T_MASK ^^^ 0x155ed805), (3, 16, T_MASK ^^^ 0x2b10cf7a), (6, 23, 0x04881d05),
    (9, 4, T_MASK ^^^ 0x262b2fc6), (12, 11, T_MASK ^^^ 0x1924661a), (15, 16, 0x1fa27cf8),
    (2, 23, T_MASK ^^^ 0x3b53a99a)]

def round4 : List (ℕ × ℕ × U32) :=
  [(0, 6, T_MASK ^^^ 0x0bd6ddbb), (7, 10, 0x432aff97), (14, 15, T_MASK ^^^ 0x546bdc58),
    (5, 21, T_MASK ^^^ 0x036c5fc6), (12, 6, 0x655b59c3), (3, 10, T_MASK ^^^ 0x70f3336d),
    (10, 15, T_MASK ^^^ 0x00100b82), (1, 21, T_MASK ^^^ 0x7a7ba22e), (8, 6, 0x6fa87e4f),
    (15, 10, T_MASK ^^^ 0x01d3191f), (6, 15, T_MASK ^^^ 0x5cfebceb), (13, 21, 0x4e0811a1),
    (4, 6, T_MASK ^^^ 0x08ac817d), (11, 10, T_MASK ^^^ 0x42c50dca), (2, 15, 0x2ad7d2bb),
    (9, 21, T_MASK ^^^ 0x14792c6e)]

/-- `X[k]`, read from a little-endian block. -/
def blockWord (data : List Byte) (k : ℕ) : U32 :=
  uint32 (data.getD (4*k) 0) (data.getD (4*k+1) 0) (data.getD (4*k+2) 0) (data.getD (4*k+3) 0)

/-- What `md5_process` does to the registers. -/
def md5Process (abcd : Registers) (data : List Byte) : Registers :=
  let X := blockWord data
  let r := round1.foldl (SET F X) abcd
  let r := round2.foldl (SET G X) r
  let r := round3.foldl (SET H X) r
  let r := round4.foldl (SET I X) r
  ⟨abcd.a+r.a, abcd.b+r.b, abcd.c+r.c, abcd.d+r.d⟩

def initial : Registers :=
  ⟨0x67452301, T_MASK ^^^ 0x10325476, T_MASK ^^^ 0x67452301, 0x10325476⟩

/-- The block buffer keeps what stood in it. -/
def md5Init (buf : ℕ → Byte) : md5_state_t := ⟨(0, 0), initial, buf⟩

/-- `for (; left >= 64; p += 64, left -= 64)`: the registers, and what is left. -/
def fullBlocks (abcd : Registers) (p : List Byte) : Registers × List Byte :=
  if p.length ≥ 64 then fullBlocks (md5Process abcd (p.take 64)) (p.drop 64) else (abcd, p)
termination_by p.length
decreasing_by
  rw [List.length_drop]
  omega

/-- The blocks behind the buffered one, and the final partial block. -/
def appendBlocks (pms : md5_state_t) (p : List Byte) : md5_state_t :=
  let (abcd, p) := fullBlocks pms.abcd p
  { pms with abcd, buf := write pms.buf 0 p }

/-- `md5_append`; `int nbytes` is the length of the list, and sums with it wrap around. -/
def md5Append (pms : md5_state_t) (p : List Byte) : md5_state_t :=
  let nbytes : U32 := BitVec.ofNat 32 p.length
  let offset := (pms.count.1 >>> 3) &&& 63
  let nbits := nbytes <<< 3
  if nbytes.toInt ≤ 0 then pms
  else
    -- Update the message length
    let count₁ := pms.count.2+nbytes.sshiftRight 29
    let count₀ := pms.count.1+nbits
    let pms := { pms with count := (count₀, if count₀ < nbits then count₁+1 else count₁) }
    if offset ≠ 0 then
      -- Process an initial partial block
      let copy := if (offset+nbytes).toInt > 64 then 64-offset else nbytes
      let pms := { pms with buf := write pms.buf offset.toNat (p.take copy.toNat) }
      if (offset+copy).toInt < 64 then pms
      else
        appendBlocks { pms with abcd := md5Process pms.abcd (read pms.buf 0 64) }
          (p.drop copy.toNat)
    else appendBlocks pms p

def pad : List Byte := 0x80 :: List.replicate 63 0

/-- `count[i >> 2] >> ((i & 3) << 3)`, narrowed to a byte. -/
def countByte (count : U32 × U32) (i : ℕ) : Byte :=
  ((if i >>> 2 = 0 then count.1 else count.2) >>> ((i &&& 3) <<< 3)).setWidth 8

/-- `abcd[k]` -/
def register (abcd : Registers) : ℕ → U32
  | 0 => abcd.a
  | 1 => abcd.b
  | 2 => abcd.c
  | _ => abcd.d

def registerByte (abcd : Registers) (i : ℕ) : Byte :=
  (register abcd (i >>> 2) >>> ((i &&& 3) <<< 3)).setWidth 8

def digestOf (abcd : Registers) : Digest := List.Vector.ofFn fun i => registerByte abcd i

def md5Finish (pms : md5_state_t) : Digest :=
  -- Save the length before padding
  let data := (List.range 8).map (countByte pms.count)
  -- Pad to 56 bytes mod 64
  let pms := md5Append pms (pad.take ((((55 : U32)-(pms.count.1 >>> 3)) &&& 63)+1).toNat)
  -- Append the length
  let pms := md5Append pms data
  digestOf pms.abcd

end Md5

end S3Dhcpd
