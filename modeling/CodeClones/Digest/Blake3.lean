import CodeClones.Digest.Hex

/-!
# BLAKE3 digests

The input is cut into chunks of 1024 bytes, a chunk into blocks of 64 bytes. Chunks are the leaves
of a binary tree whose left subtree always holds the largest power of two chunks that leaves some
for the right; the root node is compressed with its own flag.
-/

namespace CodeClones.Digest.Blake3

/-- Eight words that stand for a compressed subtree. -/
abbrev Chain := Vector UInt32 8

/-- The sixteen words of a message block or of the compression state. -/
abbrev Block := Vector UInt32 16

/-- The chain at the start of every chunk. -/
def initial : Chain :=
  #v[0x6A09E667, 0xBB67AE85, 0x3C6EF372, 0xA54FF53A, 0x510E527F, 0x9B05688C, 0x1F83D9AB, 0x5BE0CD19]

def flagChunkStart : UInt32 := 1
def flagChunkEnd : UInt32 := 2
def flagParent : UInt32 := 4
def flagRoot : UInt32 := 8

/-- Mixes two message words into one column or diagonal of the state. -/
def mix (s : Block) (a b c d : Fin 16) (x y : UInt32) : Block :=
  let va := s[a] + s[b] + x
  let vd := rotateRight (s[d] ^^^ va) 16
  let vc := s[c] + vd
  let vb := rotateRight (s[b] ^^^ vc) 12
  let va := va + vb + y
  let vd := rotateRight (vd ^^^ va) 8
  let vc := vc + vd
  let vb := rotateRight (vb ^^^ vc) 7
  (((s.set a va).set b vb).set c vc).set d vd

/-- Mixes a whole message block into the state, columns first. -/
def round (s m : Block) : Block :=
  let s := mix s 0 4 8 12 m[0] m[1]
  let s := mix s 1 5 9 13 m[2] m[3]
  let s := mix s 2 6 10 14 m[4] m[5]
  let s := mix s 3 7 11 15 m[6] m[7]
  let s := mix s 0 5 10 15 m[8] m[9]
  let s := mix s 1 6 11 12 m[10] m[11]
  let s := mix s 2 7 8 13 m[12] m[13]
  mix s 3 4 9 14 m[14] m[15]

/-- The order in which the next round takes the message words. -/
def permute (m : Block) : Block :=
  #v[m[2], m[6], m[3], m[10], m[7], m[0], m[4], m[13], m[1], m[11], m[12], m[5], m[9], m[14],
    m[15], m[8]]

/-- A number of rounds with the message words permuted in between. -/
def rounds : Nat → Block → Block → Block
  | 0, s, _ => s
  | n + 1, s, m => rounds n (round s m) (permute m)

/-- A node whose compression is pending, so that the root flag can still be added. -/
structure Node where
  chain : Chain
  block : Block
  counter : UInt64
  length : UInt32
  flags : UInt32

/-- The chain that a node passes on, after adding `extra` to its flags. -/
def Node.compress (n : Node) (extra : UInt32) : Chain :=
  let h := n.chain
  let s : Block :=
    #v[h[0], h[1], h[2], h[3], h[4], h[5], h[6], h[7], 0x6A09E667, 0xBB67AE85, 0x3C6EF372,
      0xA54FF53A, n.counter.toUInt32, (n.counter >>> 32).toUInt32, n.length, n.flags ||| extra]
  let s := rounds 7 s n.block
  #v[s[0] ^^^ s[8], s[1] ^^^ s[9], s[2] ^^^ s[10], s[3] ^^^ s[11], s[4] ^^^ s[12], s[5] ^^^ s[13],
    s[6] ^^^ s[14], s[7] ^^^ s[15]]

/-- The byte at an index, and zero past the end. -/
def byteAt (bytes : ByteArray) (stop i : Nat) : UInt32 :=
  if i < stop then (bytes.get! i).toUInt32 else 0

/-- Sixteen little-endian words from `start`, padded with zeros from `stop` on. -/
def blockAt (bytes : ByteArray) (start stop : Nat) : Block :=
  Vector.ofFn fun i =>
    let offset := start + 4 * i.val
    byteAt bytes stop offset ||| (byteAt bytes stop (offset + 1) <<< 8) |||
      (byteAt bytes stop (offset + 2) <<< 16) ||| (byteAt bytes stop (offset + 3) <<< 24)

/-- The last node of the chunk between two offsets, given the chain and flags so far. -/
def chunk (bytes : ByteArray) (counter : UInt64) (chain : Chain) (flags : UInt32)
    (start stop : Nat) : Node :=
  let length := min 64 (stop - start)
  let node (extra : UInt32) : Node :=
    ⟨chain, blockAt bytes start stop, counter, length.toUInt32, flags ||| extra⟩
  if stop - start ≤ 64 then node flagChunkEnd
  else chunk bytes counter ((node 0).compress 0) 0 (start + 64) stop
termination_by stop - start

/-- The largest power of two times 1024 that is below `length`, from the candidate `size` on. -/
def leftLength (length size : Nat) : Nat :=
  if 0 < size ∧ 2 * size < length then leftLength length (2 * size) else size
termination_by length - size

theorem le_leftLength (length size : Nat) : size ≤ leftLength length size := by
  fun_induction leftLength length size with
  | case1 size _ ih => omega
  | case2 size _ => exact Nat.le_refl _

theorem leftLength_lt {length size : Nat} (h : size < length) : leftLength length size < length := by
  fun_induction leftLength length size with
  | case1 size hs ih => exact ih hs.2
  | case2 size _ => exact h

/-- The root node of the subtree over the bytes between two offsets. -/
def subtree (bytes : ByteArray) (start stop : Nat) (counter : UInt64) : Node :=
  if h : stop - start ≤ 1024 then chunk bytes counter initial flagChunkStart start stop
  else
    let left := leftLength (stop - start) 1024
    have _hpos := le_leftLength (stop - start) 1024
    have _hlt := leftLength_lt (Nat.lt_of_not_le h)
    let l := (subtree bytes start (start + left) counter).compress 0
    let r := (subtree bytes (start + left) stop (counter + (left / 1024).toUInt64)).compress 0
    ⟨initial, l ++ r, 0, 64, flagParent⟩
termination_by stop - start
decreasing_by
  · omega
  · omega

/-- The 32 bytes of the digest. -/
def hash (bytes : ByteArray) : List UInt8 :=
  ((subtree bytes 0 bytes.size 0).compress flagRoot).toList.flatMap littleEndian32

/-- The digest of bytes as text. -/
def hexOf (bytes : ByteArray) : String := hexOfBytes (hash bytes)

/-- The digest of the UTF-8 form of a text, as text. -/
def hexOfText (s : String) : String := hexOf s.toUTF8

end CodeClones.Digest.Blake3
