import ReflinkForest.Lib.Bytes

/-! SHA-1 and SHA-256 (FIPS 180-4) as executable functions on byte strings, over 32-bit words kept
as natural numbers below `2 ^ 32`. -/
namespace Sha
open Bytes

def word (n : ℕ) : ℕ := n % 2 ^ 32

def rotl (k x : ℕ) : ℕ := word (x <<< k) ||| (x >>> (32 - k))

def rotr (k x : ℕ) : ℕ := rotl (32 - k) x

def wnot (x : ℕ) : ℕ := 2 ^ 32 - 1 - x

/-- Message bytes with the terminator, zero fill and 64-bit length. -/
def pad (msg : Str) : Str :=
  msg ++ [0x80] ++ List.replicate ((119 - msg.length % 64) % 64) 0 ++ be 8 (8 * msg.length)

/-- Split into blocks of sixteen big-endian words. -/
def blocks : ℕ → Str → List (List ℕ)
  | 0, _ => []
  | n + 1, bs => words 16 bs :: blocks n (bs.drop 64)
where
  words : ℕ → Str → List ℕ
    | 0, _ => []
    | n + 1, bs => beNat (bs.take 4) :: words n (bs.drop 4)

def messageBlocks (msg : Str) : List (List ℕ) :=
  let padded := pad msg
  blocks (padded.length / 64) padded

/-- Extend a reversed schedule by `n` words, newest first. -/
def extend (next : List ℕ → ℕ) : ℕ → List ℕ → List ℕ
  | 0, ws => ws
  | n + 1, ws => extend next n (next ws :: ws)

/-- Words of a digest state as bytes. -/
def digest (n : ℕ) (state : List ℕ) : List.Vector UInt8 n :=
  sliceVec (state.flatMap (be 4)) 0 n

def k256 : List ℕ :=
  [0x428a2f98, 0x71374491, 0xb5c0fbcf, 0xe9b5dba5, 0x3956c25b, 0x59f111f1, 0x923f82a4, 0xab1c5ed5,
   0xd807aa98, 0x12835b01, 0x243185be, 0x550c7dc3, 0x72be5d74, 0x80deb1fe, 0x9bdc06a7, 0xc19bf174,
   0xe49b69c1, 0xefbe4786, 0x0fc19dc6, 0x240ca1cc, 0x2de92c6f, 0x4a7484aa, 0x5cb0a9dc, 0x76f988da,
   0x983e5152, 0xa831c66d, 0xb00327c8, 0xbf597fc7, 0xc6e00bf3, 0xd5a79147, 0x06ca6351, 0x14292967,
   0x27b70a85, 0x2e1b2138, 0x4d2c6dfc, 0x53380d13, 0x650a7354, 0x766a0abb, 0x81c2c92e, 0x92722c85,
   0xa2bfe8a1, 0xa81a664b, 0xc24b8b70, 0xc76c51a3, 0xd192e819, 0xd6990624, 0xf40e3585, 0x106aa070,
   0x19a4c116, 0x1e376c08, 0x2748774c, 0x34b0bcb5, 0x391c0cb3, 0x4ed8aa4a, 0x5b9cca4f, 0x682e6ff3,
   0x748f82ee, 0x78a5636f, 0x84c87814, 0x8cc70208, 0x90befffa, 0xa4506ceb, 0xbef9a3f7, 0xc67178f2]

def next256 (ws : List ℕ) : ℕ :=
  let w2 := ws.getD 1 0
  let w15 := ws.getD 14 0
  let s0 := rotr 7 w15 ^^^ rotr 18 w15 ^^^ (w15 >>> 3)
  let s1 := rotr 17 w2 ^^^ rotr 19 w2 ^^^ (w2 >>> 10)
  word (ws.getD 15 0 + s0 + ws.getD 6 0 + s1)

def round256 : List ℕ → ℕ × ℕ → List ℕ
  | [a, b, c, d, e, f, g, h], (k, w) =>
    let s1 := rotr 6 e ^^^ rotr 11 e ^^^ rotr 25 e
    let ch := (e &&& f) ^^^ (wnot e &&& g)
    let t1 := h + s1 + ch + k + w
    let s0 := rotr 2 a ^^^ rotr 13 a ^^^ rotr 22 a
    let maj := (a &&& b) ^^^ (a &&& c) ^^^ (b &&& c)
    [word (t1 + s0 + maj), a, b, c, word (d + t1), e, f, g]
  | state, _ => state

def compress256 (state block : List ℕ) : List ℕ :=
  let ws := (extend next256 48 block.reverse).reverse
  List.zipWith (fun x y => word (x + y)) state ((k256.zip ws).foldl round256 state)

def sha256 (msg : Str) : List.Vector UInt8 32 :=
  digest 32 ((messageBlocks msg).foldl compress256
    [0x6a09e667, 0xbb67ae85, 0x3c6ef372, 0xa54ff53a, 0x510e527f, 0x9b05688c, 0x1f83d9ab,
     0x5be0cd19])

example : (sha256 [0x61, 0x62, 0x63]).toList.take 4 = [0xba, 0x78, 0x16, 0xbf] := by
  decide +kernel

def next1 (ws : List ℕ) : ℕ :=
  rotl 1 (ws.getD 2 0 ^^^ ws.getD 7 0 ^^^ ws.getD 13 0 ^^^ ws.getD 15 0)

/-- One SHA-1 round; the schedule word carries its round number. -/
def round1 : List ℕ → ℕ × ℕ → List ℕ
  | [a, b, c, d, e], (t, w) =>
    let (f, k) :=
      if t < 20 then ((b &&& c) ||| (wnot b &&& d), 0x5a827999)
      else if t < 40 then (b ^^^ c ^^^ d, 0x6ed9eba1)
      else if t < 60 then ((b &&& c) ||| (b &&& d) ||| (c &&& d), 0x8f1bbcdc)
      else (b ^^^ c ^^^ d, 0xca62c1d6)
    [word (rotl 5 a + f + e + k + w), a, rotl 30 b, c, d]
  | state, _ => state

def compress1 (state block : List ℕ) : List ℕ :=
  let ws := (extend next1 64 block.reverse).reverse
  List.zipWith (fun x y => word (x + y)) state (((List.range 80).zip ws).foldl round1 state)

def sha1 (msg : Str) : List.Vector UInt8 20 :=
  digest 20 ((messageBlocks msg).foldl compress1
    [0x67452301, 0xefcdab89, 0x98badcfe, 0x10325476, 0xc3d2e1f0])

example : (sha1 [0x61, 0x62, 0x63]).toList.take 4 = [0xa9, 0x99, 0x3e, 0x36] := by
  decide +kernel
end Sha
