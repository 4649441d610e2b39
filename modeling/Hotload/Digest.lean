/-!
# Digests

The BLAKE3 digest of a byte string: the bytes are cut into chunks of 1024, every chunk is
compressed block by block, and the chaining values of the chunks are joined as the leaves of a
binary tree whose left subtrees are complete.

* `Digest.ofBytes`: the digest.
* `Digest.hex`: its 64 hexadecimal digits.
-/

namespace Hotload

/-- A digest of 32 bytes as eight words. -/
structure Digest where
  words : List UInt32
deriving DecidableEq, Repr

namespace Digest

/-- The initial chaining value. -/
def initial : Array UInt32 :=
  #[0x6a09e667, 0xbb67ae85, 0x3c6ef372, 0xa54ff53a, 0x510e527f, 0x9b05688c, 0x1f83d9ab,
    0x5be0cd19]

/-- How the words of a block are permuted between two rounds. -/
def permutation : List Nat := [2, 6, 3, 10, 7, 0, 4, 13, 1, 11, 12, 5, 9, 14, 15, 8]

/-- The words are rotated to the right. -/
def rotateRight (x : UInt32) (n : UInt32) : UInt32 := (x >>> n) ||| (x <<< (32 - n))

/-- Mixes two words of a message into four words of the state. -/
def mix (s : Array UInt32) (a b c d : Nat) (x y : UInt32) : Array UInt32 :=
  let va := s[a]! + s[b]! + x
  let vd := rotateRight (s[d]! ^^^ va) 16
  let vc := s[c]! + vd
  let vb := rotateRight (s[b]! ^^^ vc) 12
  let va := va + vb + y
  let vd := rotateRight (vd ^^^ va) 8
  let vc := vc + vd
  let vb := rotateRight (vb ^^^ vc) 7
  (((s.set! a va).set! b vb).set! c vc).set! d vd

/-- Mixes the sixteen words of a block into the columns and then the diagonals of the state. -/
def round (s m : Array UInt32) : Array UInt32 :=
  let s := mix s 0 4 8 12 m[0]! m[1]!
  let s := mix s 1 5 9 13 m[2]! m[3]!
  let s := mix s 2 6 10 14 m[4]! m[5]!
  let s := mix s 3 7 11 15 m[6]! m[7]!
  let s := mix s 0 5 10 15 m[8]! m[9]!
  let s := mix s 1 6 11 12 m[10]! m[11]!
  let s := mix s 2 7 8 13 m[12]! m[13]!
  mix s 3 4 9 14 m[14]! m[15]!

/-- So many rounds, the block being permuted after each. -/
def rounds : Nat → Array UInt32 → Array UInt32 → Array UInt32
  | 0, s, _ => s
  | n + 1, s, m => rounds n (round s m) (permutation.map (m[·]!)).toArray

/-- What the compressed block is. -/
structure Flags where
  chunkStart : Bool
  chunkEnd : Bool
  parent : Bool
  root : Bool

/-- The flags as a word. -/
def Flags.word (f : Flags) : UInt32 :=
  (if f.chunkStart then 1 else 0) + (if f.chunkEnd then 2 else 0) + (if f.parent then 4 else 0) +
    (if f.root then 8 else 0)

/-- Compresses a block of so many bytes into a chaining value. -/
def compress (chaining block : Array UInt32) (counter : Nat) (length : Nat) (flags : Flags) :
    Array UInt32 :=
  let s := chaining ++ initial.extract 0 4 ++
    #[UInt32.ofNat counter, UInt32.ofNat (counter / Nat.pow 2 32), UInt32.ofNat length, flags.word]
  let s := rounds 7 s block
  (Array.range 8).map fun i => s[i]! ^^^ s[i + 8]!

/-- Four bytes as a word, the lowest first. Bytes from `stop` on count as zero. -/
def word (bytes : ByteArray) (stop i : Nat) : UInt32 :=
  let byte (j : Nat) : UInt32 := if i + j < stop then (bytes[i + j]?.getD 0).toUInt32 else 0
  byte 0 ||| (byte 1 <<< 8) ||| (byte 2 <<< 16) ||| (byte 3 <<< 24)

/-- The sixteen words of a block that starts at a byte. Bytes from `stop` on count as zero. -/
def blockAt (bytes : ByteArray) (stop start : Nat) : Array UInt32 :=
  (Array.range 16).map fun i => word bytes stop (start + 4 * i)

/-- The number of bytes in a chunk. -/
def chunkSize : Nat := 1024

/-- The number of bytes in a block. -/
def blockSize : Nat := 64

/-- Compresses blocks from a byte on into a chunk's chaining value; the count bounds them. -/
def blocks (bytes : ByteArray) (counter : Nat) (root : Bool) (first stop : Nat) :
    Nat → Nat → Array UInt32 → Array UInt32
  | 0, _, chaining => chaining
  | bound + 1, start, chaining =>
    let last := stop ≤ start + blockSize
    let flags : Flags := ⟨start == first, last, false, root && last⟩
    let chaining :=
      compress chaining (blockAt bytes stop start) counter (min blockSize (stop - start)) flags
    if last then chaining else blocks bytes counter root first stop bound (start + blockSize) chaining

/-- The chaining value of a chunk; `root` if it is the only one. -/
def chunk (bytes : ByteArray) (counter : Nat) (root : Bool) : Array UInt32 :=
  let first := counter * chunkSize
  let stop := min bytes.size (first + chunkSize)
  blocks bytes counter root first stop (chunkSize / blockSize) first initial

/-- The chaining value above two others. -/
def parent (left right : Array UInt32) (root : Bool) : Array UInt32 :=
  compress initial (left ++ right) 0 blockSize ⟨false, false, true, root⟩

/-- The largest power of two below a number of chunks. -/
def leftChunks (count : Nat) : Nat := Nat.pow 2 (count - 1).log2

theorem leftChunks_lt {count : Nat} (h : 1 < count) : leftChunks count < count :=
  Nat.lt_of_le_of_lt (Nat.log2_self_le (by omega)) (Nat.sub_lt (by omega) (by decide))

theorem leftChunks_pos (count : Nat) : 0 < leftChunks count := Nat.pow_pos (by decide)

/-- The chaining value of so many chunks from one on. The left subtree is the largest complete one
that leaves a chunk for the right. -/
def tree (bytes : ByteArray) (first count : Nat) (root : Bool) : Array UInt32 :=
  if 1 < count then
    let left := leftChunks count
    parent (tree bytes first left false) (tree bytes (first + left) (count - left) false) root
  else chunk bytes first root
termination_by count
decreasing_by
  · exact leftChunks_lt (by assumption)
  · exact Nat.sub_lt (by omega) (leftChunks_pos count)

/-- The digest of bytes. -/
def ofBytes (bytes : ByteArray) : Digest :=
  let count := max 1 ((bytes.size + chunkSize - 1) / chunkSize)
  ⟨(tree bytes 0 count true).toList⟩

/-- The digest of a text in UTF-8. -/
def ofText (text : String) : Digest := ofBytes text.toUTF8

/-- The two hexadecimal digits of a byte. -/
def hexByte (n : Nat) : List Char := [Nat.digitChar (n / 16 % 16), Nat.digitChar (n % 16)]

/-- The bytes of a word in hexadecimal, the lowest first. -/
def hexWord (w : UInt32) : List Char :=
  hexByte w.toNat ++ hexByte (w.toNat / Nat.pow 2 8) ++ hexByte (w.toNat / Nat.pow 2 16) ++
    hexByte (w.toNat / Nat.pow 2 24)

/-- The 64 hexadecimal digits of a digest. -/
def hex (d : Digest) : String := String.ofList (d.words.flatMap hexWord)

/-- The first sixteen hexadecimal digits, by which messages name a digest. -/
def short (d : Digest) : String := String.ofList (d.hex.toList.take 16)

end Digest

end Hotload
