import StreamQuery.Bytes.LittleEndian
set_option autoImplicit false

/-!
# The 64-bit digest

Keys and values are spread over the 64-bit words by the seeded 64-bit XXH3 digest
of their canonical bytes, so that partial results built apart agree on every hash.
The digest treats texts by length: up to sixteen bytes, up to one hundred and
twenty-eight, up to two hundred and forty, and longer ones in stripes of
sixty-four bytes over eight lanes.
-/

namespace StreamQuery.Digest

/-! ## Constants -/

def prime32A : UInt64 := 0x9E3779B1
def prime32B : UInt64 := 0x85EBCA77
def prime32C : UInt64 := 0xC2B2AE3D
def primeA : UInt64 := 0x9E3779B185EBCA87
def primeB : UInt64 := 0xC2B2AE3D27D4EB4F
def primeC : UInt64 := 0x165667B19E3779F9
def primeD : UInt64 := 0x85EBCA77C2B2AE63
def primeE : UInt64 := 0x27D4EB2F165667C5
def primeMixA : UInt64 := 0x165667919E3779F9
def primeMixB : UInt64 := 0x9FB21C651E98DF25

/-- The secret bytes that inputs are mixed with. -/
def secret : Bytes := [
  0xb8, 0xfe, 0x6c, 0x39, 0x23, 0xa4, 0x4b, 0xbe, 0x7c, 0x01, 0x81, 0x2c, 0xf7, 0x21, 0xad, 0x1c,
  0xde, 0xd4, 0x6d, 0xe9, 0x83, 0x90, 0x97, 0xdb, 0x72, 0x40, 0xa4, 0xa4, 0xb7, 0xb3, 0x67, 0x1f,
  0xcb, 0x79, 0xe6, 0x4e, 0xcc, 0xc0, 0xe5, 0x78, 0x82, 0x5a, 0xd0, 0x7d, 0xcc, 0xff, 0x72, 0x21,
  0xb8, 0x08, 0x46, 0x74, 0xf7, 0x43, 0x24, 0x8e, 0xe0, 0x35, 0x90, 0xe6, 0x81, 0x3a, 0x26, 0x4c,
  0x3c, 0x28, 0x52, 0xbb, 0x91, 0xc3, 0x00, 0xcb, 0x88, 0xd0, 0x65, 0x8b, 0x1b, 0x53, 0x2e, 0xa3,
  0x71, 0x64, 0x48, 0x97, 0xa2, 0x0d, 0xf9, 0x4e, 0x38, 0x19, 0xef, 0x46, 0xa9, 0xde, 0xac, 0xd8,
  0xa8, 0xfa, 0x76, 0x3f, 0xe3, 0x9c, 0x34, 0x3f, 0xf9, 0xdc, 0xbb, 0xc7, 0xc7, 0x0b, 0x4f, 0x1d,
  0x8a, 0x51, 0xe0, 0x4b, 0xcd, 0xb4, 0x59, 0x31, 0xc8, 0x9f, 0x7e, 0xc9, 0xd9, 0x78, 0x73, 0x64,
  0xea, 0xc5, 0xac, 0x83, 0x34, 0xd3, 0xeb, 0xc3, 0xc5, 0x81, 0xa0, 0xff, 0xfa, 0x13, 0x63, 0xeb,
  0x17, 0x0d, 0xdd, 0x51, 0xb7, 0xf0, 0xda, 0x49, 0xd3, 0x16, 0x55, 0x26, 0x29, 0xd4, 0x68, 0x9e,
  0x2b, 0x16, 0xbe, 0x58, 0x7d, 0x47, 0xa1, 0xfc, 0x8f, 0xf8, 0xb8, 0xd1, 0x7a, 0xd0, 0x31, 0xce,
  0x45, 0xcb, 0x3a, 0x8f, 0x95, 0x16, 0x04, 0x28, 0xaf, 0xd7, 0xfb, 0xca, 0xbb, 0x4b, 0x40, 0x7e]

/-! ## Words -/

/-- The 64-bit word at the front of a byte string. -/
def word64 (bs : Bytes) : UInt64 := UInt64.ofNat (Bytes.toNat (bs.take 8))

/-- The 32-bit word at the front of a byte string. -/
def word32 (bs : Bytes) : UInt64 := UInt64.ofNat (Bytes.toNat (bs.take 4))

/-- The secret word that starts at a byte. -/
def secretAt (bs : Bytes) (start : Nat) : UInt64 := word64 (bs.drop start)

/-- The last bytes of a byte string. -/
def last (bs : Bytes) (n : Nat) : Bytes := bs.drop (bs.length - n)

def rotateLeft (x : UInt64) (n : UInt64) : UInt64 := (x <<< n) ||| (x >>> (64 - n))

/-- The word with its lowest `n` bytes in the opposite order. -/
def reverseBytes (n : Nat) (x : UInt64) : UInt64 :=
  UInt64.ofNat (Bytes.toNat (Bytes.ofNat n x.toNat).reverse)

/-- The two halves of the 128-bit product, folded by exclusive or. -/
def foldProduct (x y : UInt64) : UInt64 :=
  let p := x.toNat * y.toNat
  UInt64.ofNat p ^^^ UInt64.ofNat (p / 2 ^ 64)

/-! ## Final mixing -/

def avalancheShort (h : UInt64) : UInt64 :=
  let h := (h ^^^ (h >>> 33)) * primeB
  let h := (h ^^^ (h >>> 29)) * primeC
  h ^^^ (h >>> 32)

def avalanche (h : UInt64) : UInt64 :=
  let h := (h ^^^ (h >>> 37)) * primeMixA
  h ^^^ (h >>> 32)

def avalancheKeyed (h length : UInt64) : UInt64 :=
  let h := (h ^^^ rotateLeft h 49 ^^^ rotateLeft h 24) * primeMixB
  let h := (h ^^^ ((h >>> 35) + length)) * primeMixB
  h ^^^ (h >>> 28)

/-! ## Up to sixteen bytes -/

/-- One to three bytes: the first, the middle and the last one. -/
def digestTiny (bs : Bytes) (seed : UInt64) : UInt64 :=
  let byteAt (i : Nat) : UInt64 := (bs.getD i 0).toUInt64
  let n := bs.length
  let combined := (byteAt 0 <<< 16) ||| (byteAt (n / 2) <<< 24) ||| byteAt (n - 1)
    ||| (UInt64.ofNat n <<< 8)
  let flip := (word32 secret ^^^ word32 (secret.drop 4)) + seed
  avalancheShort (combined ^^^ flip)

/-- Four to eight bytes: the first and the last four. -/
def digestShort (bs : Bytes) (seed : UInt64) : UInt64 :=
  let seed := seed ^^^ (reverseBytes 4 seed <<< 32)
  let flip := (secretAt secret 8 ^^^ secretAt secret 16) - seed
  let input := word32 (last bs 4) + (word32 bs <<< 32)
  avalancheKeyed (input ^^^ flip) (UInt64.ofNat bs.length)

/-- Nine to sixteen bytes: the first and the last eight. -/
def digestMedium (bs : Bytes) (seed : UInt64) : UInt64 :=
  let low := word64 bs ^^^ ((secretAt secret 24 ^^^ secretAt secret 32) + seed)
  let high := word64 (last bs 8) ^^^ ((secretAt secret 40 ^^^ secretAt secret 48) - seed)
  avalanche (UInt64.ofNat bs.length + reverseBytes 8 low + high + foldProduct low high)

/-! ## Up to two hundred and forty bytes -/

/-- Mixes sixteen bytes with sixteen secret ones. -/
def mix (bs key : Bytes) (seed : UInt64) : UInt64 :=
  foldProduct (word64 bs ^^^ (word64 key + seed)) (word64 (bs.drop 8) ^^^ (secretAt key 8 - seed))

/-- Seventeen to one hundred and twenty-eight bytes: blocks from both ends inwards. -/
def digestPaired (bs : Bytes) (seed : UInt64) : UInt64 :=
  let n := bs.length
  let pair (i : Nat) : UInt64 :=
    mix (bs.drop (16 * i)) (secret.drop (32 * i)) seed
      + mix (last bs (16 * (i + 1))) (secret.drop (32 * i + 16)) seed
  let pairs := (List.range 4).filter fun i => decide (i = 0 ∨ 32 * i < n)
  avalanche (pairs.foldl (fun acc i => acc + pair i) (UInt64.ofNat n * primeA))

/-- One hundred and twenty-nine to two hundred and forty bytes: eight blocks, then the others. -/
def digestBlocks (bs : Bytes) (seed : UInt64) : UInt64 :=
  let n := bs.length
  let block (i start : Nat) : UInt64 := mix (bs.drop (16 * i)) (secret.drop start) seed
  let head := (List.range 8).foldl (fun acc i => acc + block i (16 * i)) (UInt64.ofNat n * primeA)
  let tail := (List.range (n / 16 - 8)).foldl (fun acc i => acc + block (i + 8) (16 * i + 3))
    (avalanche head)
  avalanche (tail + mix (last bs 16) (secret.drop 119) seed)

/-! ## Longer byte strings -/

/-- The secret under a seed: alternate words moved up and down by it. -/
def seededSecret (seed : UInt64) : Bytes :=
  (List.range 12).flatMap fun i =>
    Bytes.ofNat 8 (secretAt secret (16 * i) + seed).toNat
      ++ Bytes.ofNat 8 (secretAt secret (16 * i + 8) - seed).toNat

/-- The eight 64-bit words at the front of a byte string. -/
def words (bs : Bytes) : List UInt64 := (List.range 8).map fun i => word64 (bs.drop (8 * i))

/-- Swaps the words of each pair. -/
def swapPairs : List UInt64 → List UInt64
  | x :: y :: rest => y :: x :: swapPairs rest
  | rest => rest

/-- Absorbs a stripe of sixty-four bytes into the lanes. -/
def absorb (lanes : List UInt64) (stripe key : Bytes) : List UInt64 :=
  let data := words stripe
  let product (x k : UInt64) : UInt64 :=
    let keyed : UInt64 := x ^^^ k
    (keyed &&& (0xFFFFFFFF : UInt64)) * (keyed >>> 32)
  let crossed := List.zipWith (· + ·) lanes (swapPairs data)
  List.zipWith (· + ·) crossed (List.zipWith product data (words key))

/-- Scrambles the lanes at the end of a block. -/
def scramble (lanes : List UInt64) (key : Bytes) : List UInt64 :=
  let stir (lane k : UInt64) : UInt64 := (lane ^^^ (lane >>> 47) ^^^ k) * prime32A
  List.zipWith stir lanes (words key)

/-- Absorbs stripe `i` of the text; a block is sixteen stripes, after which the lanes are
scrambled. -/
def absorbStripe (bs key : Bytes) (lanes : List UInt64) (i : Nat) : List UInt64 :=
  let lanes := absorb lanes (bs.drop (64 * i)) (key.drop (8 * (i % 16)))
  if i % 16 = 15 then scramble lanes (key.drop 128) else lanes

/-- The lanes before the first stripe. -/
def initialLanes : List UInt64 :=
  [prime32C, primeA, primeB, primeC, primeD, prime32B, primeE, prime32A]

/-- Merges the lanes pairwise. -/
def mergeLanes : List UInt64 → Bytes → UInt64 → UInt64
  | x :: y :: rest, key, acc =>
    mergeLanes rest (key.drop 16) (acc + foldProduct (x ^^^ word64 key) (y ^^^ secretAt key 8))
  | _, _, acc => avalanche acc

/-- More than two hundred and forty bytes: every stripe but the last bytes, which are absorbed
once more as a stripe of their own. -/
def digestLong (bs : Bytes) (seed : UInt64) : UInt64 :=
  let n := bs.length
  let key := seededSecret seed
  let lanes := (List.range ((n - 1) / 64)).foldl (absorbStripe bs key) initialLanes
  let lanes := absorb lanes (last bs 64) (key.drop 121)
  mergeLanes lanes (key.drop 11) (UInt64.ofNat n * primeA)

/-- The digest of a byte string under a seed. -/
def digest (bs : Bytes) (seed : UInt64) : UInt64 :=
  let n := bs.length
  if n = 0 then avalancheShort (seed ^^^ (secretAt secret 56 ^^^ secretAt secret 64))
  else if n ≤ 3 then digestTiny bs seed
  else if n ≤ 8 then digestShort bs seed
  else if n ≤ 16 then digestMedium bs seed
  else if n ≤ 128 then digestPaired bs seed
  else if n ≤ 240 then digestBlocks bs seed
  else digestLong bs seed

end StreamQuery.Digest
