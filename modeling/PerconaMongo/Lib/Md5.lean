-- MD5 (RFC 1321) as an incremental implementation computes it: a state of four words, the
-- length of the input so far and the bytes of a block not yet full. Appending runs the
-- compression function over each block that fills; finishing pads the input with 0x80, zeros
-- up to 56 bytes mod 64 and the length in bits, and reads the four words out low byte first.

namespace md5

/-- The four words that the compression function updates. -/
structure Abcd where
  a : UInt32
  b : UInt32
  c : UInt32
  d : UInt32
  deriving DecidableEq, Repr

def rotateLeft (x n : UInt32) : UInt32 := (x <<< n) ||| (x >>> (32 - n))

def F (x y z : UInt32) : UInt32 := (x &&& y) ||| (~~~x &&& z)

def G (x y z : UInt32) : UInt32 := (x &&& z) ||| (y &&& ~~~z)

def H (x y z : UInt32) : UInt32 := x ^^^ y ^^^ z

def I (x y z : UInt32) : UInt32 := y ^^^ (x ||| ~~~z)

/-- One operation, `a = b + ((a + f(b, c, d) + X[k] + T) <<< s)` for `op = (k, s, T)`. The
next operation takes `d, a, b, c` for its `a, b, c, d`, so the words turn once per operation
and are back in their places after every four. -/
def set (f : UInt32 → UInt32 → UInt32 → UInt32) (X : List UInt32) (r : Abcd)
    (op : Nat × UInt32 × UInt32) : Abcd :=
  let t := r.a + f r.b r.c r.d + X.getD op.1 0 + op.2.2
  ⟨r.d, rotateLeft t op.2.1 + r.b, r.b, r.c⟩

/-- The sixteen operations of the first round, each as `(k, s, T)`. -/
def round1 : List (Nat × UInt32 × UInt32) :=
  [(0, 7, 0xd76aa478), (1, 12, 0xe8c7b756), (2, 17, 0x242070db), (3, 22, 0xc1bdceee),
   (4, 7, 0xf57c0faf), (5, 12, 0x4787c62a), (6, 17, 0xa8304613), (7, 22, 0xfd469501),
   (8, 7, 0x698098d8), (9, 12, 0x8b44f7af), (10, 17, 0xffff5bb1), (11, 22, 0x895cd7be),
   (12, 7, 0x6b901122), (13, 12, 0xfd987193), (14, 17, 0xa679438e), (15, 22, 0x49b40821)]

def round2 : List (Nat × UInt32 × UInt32) :=
  [(1, 5, 0xf61e2562), (6, 9, 0xc040b340), (11, 14, 0x265e5a51), (0, 20, 0xe9b6c7aa),
   (5, 5, 0xd62f105d), (10, 9, 0x02441453), (15, 14, 0xd8a1e681), (4, 20, 0xe7d3fbc8),
   (9, 5, 0x21e1cde6), (14, 9, 0xc33707d6), (3, 14, 0xf4d50d87), (8, 20, 0x455a14ed),
   (13, 5, 0xa9e3e905), (2, 9, 0xfcefa3f8), (7, 14, 0x676f02d9), (12, 20, 0x8d2a4c8a)]

def round3 : List (Nat × UInt32 × UInt32) :=
  [(5, 4, 0xfffa3942), (8, 11, 0x8771f681), (11, 16, 0x6d9d6122), (14, 23, 0xfde5380c),
   (1, 4, 0xa4beea44), (4, 11, 0x4bdecfa9), (7, 16, 0xf6bb4b60), (10, 23, 0xbebfbc70),
   (13, 4, 0x289b7ec6), (0, 11, 0xeaa127fa), (3, 16, 0xd4ef3085), (6, 23, 0x04881d05),
   (9, 4, 0xd9d4d039), (12, 11, 0xe6db99e5), (15, 16, 0x1fa27cf8), (2, 23, 0xc4ac5665)]

def round4 : List (Nat × UInt32 × UInt32) :=
  [(0, 6, 0xf4292244), (7, 10, 0x432aff97), (14, 15, 0xab9423a7), (5, 21, 0xfc93a039),
   (12, 6, 0x655b59c3), (3, 10, 0x8f0ccc92), (10, 15, 0xffeff47d), (1, 21, 0x85845dd1),
   (8, 6, 0x6fa87e4f), (15, 10, 0xfe2ce6e0), (6, 15, 0xa3014314), (13, 21, 0x4e0811a1),
   (4, 6, 0xf7537e82), (11, 10, 0xbd3af235), (2, 15, 0x2ad7d2bb), (9, 21, 0xeb86d391)]

/-- The sixteen words of a block, each read low byte first. -/
def wordsOf (block : List UInt8) : List UInt32 :=
  (List.range 16).map fun i =>
    let xp := fun j => (block.getD (4 * i + j) 0).toUInt32
    xp 0 + (xp 1 <<< 8) + (xp 2 <<< 16) + (xp 3 <<< 24)

/-- The compression function: the four rounds over one block, added to the words they
started from. -/
def process (abcd : Abcd) (block : List UInt8) : Abcd :=
  let X := wordsOf block
  let r := round1.foldl (set F X) abcd
  let r := round2.foldl (set G X) r
  let r := round3.foldl (set H X) r
  let r := round4.foldl (set I X) r
  ⟨abcd.a + r.a, abcd.b + r.b, abcd.c + r.c, abcd.d + r.d⟩

/-- The first `n` blocks of `bytes` through `process`, and the bytes after them. -/
def processBlocks : Nat → Abcd → List UInt8 → Abcd × List UInt8
  | 0, abcd, bytes => (abcd, bytes)
  | n + 1, abcd, bytes => processBlocks n (process abcd (bytes.take 64)) (bytes.drop 64)

theorem processBlocks_snd (n : Nat) (abcd : Abcd) (bytes : List UInt8) :
    (processBlocks n abcd bytes).2 = bytes.drop (64 * n) := by
  induction n generalizing abcd bytes with
  | zero => rfl
  | succ n ih =>
    rw [processBlocks, ih, List.drop_drop]
    congr 1
    omega

/-- What is left of `bytes` after its full blocks. -/
theorem length_drop_blocks (bytes : List UInt8) :
    (bytes.drop (64 * (bytes.length / 64))).length = bytes.length % 64 := by
  rw [List.length_drop]
  omega

/-- The state of the incremental computation: the number of bytes appended so far, the four
words, and the bytes of the last block, which is never full. -/
structure State where
  length : Nat
  abcd : Abcd
  buf : List UInt8
  buf_length : buf.length = length % 64

def init : State := ⟨0, ⟨0x67452301, 0xefcdab89, 0x98badcfe, 0x10325476⟩, [], rfl⟩

/-- Append `data`: each block that fills, first the partial one and then those of `data`,
goes through `process`; what is left waits in `buf`. -/
def State.append (st : State) (data : List UInt8) : State :=
  let bytes := st.buf ++ data
  let n := bytes.length / 64
  ⟨st.length + data.length, (processBlocks n st.abcd bytes).1, (processBlocks n st.abcd bytes).2,
    by rw [processBlocks_snd, length_drop_blocks, List.length_append, st.buf_length]; omega⟩

/-- The digest: the length in bits as eight bytes low first, the padding that brings the input
to 56 bytes mod 64 (taken from the low word of the bit count, as `count[0]`), those eight
bytes, and then the four words low byte first. -/
def State.finish (st : State) : List UInt8 :=
  let count : UInt64 := UInt64.ofNat (8 * st.length)
  let data := (List.range 8).map fun i => (count >>> (8 * i).toUInt64).toUInt8
  let padLen : UInt32 := (((55 : UInt32) - (count.toUInt32 >>> 3)) &&& 63) + 1
  let st := (st.append (0x80 :: List.replicate (padLen.toNat - 1) 0)).append data
  [st.abcd.a, st.abcd.b, st.abcd.c, st.abcd.d].flatMap fun w =>
    (List.range 4).map fun i => (w >>> (8 * i).toUInt32).toUInt8

/-- The MD5 digest of a message. -/
def digest (msg : List UInt8) : List UInt8 := (init.append msg).finish

end md5
