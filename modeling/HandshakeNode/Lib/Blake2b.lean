import HandshakeNode.Lib.LittleEndian

/-!
# BLAKE2b with a 32-byte digest

The hash function of RFC 7693 without a key, on 64-bit words that are natural numbers below
`2 ^ 64`. It computes, so results that hold for any hash function can be run with the real one.
-/

namespace Blake2b

open LittleEndian

def word (n : ℕ) : ℕ := n % 2 ^ 64

def rotr (x n : ℕ) : ℕ := word ((x >>> n) ||| (x <<< (64 - n)))

def iv : List ℕ :=
  [0x6a09e667f3bcc908, 0xbb67ae8584caa73b, 0x3c6ef372fe94f82b, 0xa54ff53a5f1d36f1,
    0x510e527fade682d1, 0x9b05688c2b3e6c1f, 0x1f83d9abfb41bd6b, 0x5be0cd19137e2179]

/-- The order in which the rounds take the words of a block; rounds ten and eleven repeat the
first two. -/
def sigma : List (List ℕ) :=
  [[0, 1, 2, 3, 4, 5, 6, 7, 8, 9, 10, 11, 12, 13, 14, 15],
    [14, 10, 4, 8, 9, 15, 13, 6, 1, 12, 0, 2, 11, 7, 5, 3],
    [11, 8, 12, 0, 5, 2, 15, 13, 10, 14, 3, 6, 7, 1, 9, 4],
    [7, 9, 3, 1, 13, 12, 11, 14, 2, 6, 5, 10, 4, 0, 15, 8],
    [9, 0, 5, 7, 2, 4, 10, 15, 14, 1, 11, 12, 6, 8, 3, 13],
    [2, 12, 6, 10, 0, 11, 8, 3, 4, 13, 7, 5, 15, 14, 1, 9],
    [12, 5, 1, 15, 14, 13, 4, 10, 0, 7, 6, 3, 9, 2, 8, 11],
    [13, 11, 7, 14, 12, 1, 3, 9, 5, 0, 15, 4, 8, 6, 2, 10],
    [6, 15, 14, 9, 11, 3, 0, 8, 12, 2, 13, 7, 1, 4, 10, 5],
    [10, 2, 8, 4, 7, 6, 1, 5, 15, 11, 9, 14, 3, 12, 13, 0],
    [0, 1, 2, 3, 4, 5, 6, 7, 8, 9, 10, 11, 12, 13, 14, 15],
    [14, 10, 4, 8, 9, 15, 13, 6, 1, 12, 0, 2, 11, 7, 5, 3]]

def mix (v : List ℕ) (a b c d x y : ℕ) : List ℕ :=
  let va := word (v.getD a 0 + v.getD b 0 + x)
  let vd := rotr (v.getD d 0 ^^^ va) 32
  let vc := word (v.getD c 0 + vd)
  let vb := rotr (v.getD b 0 ^^^ vc) 24
  let va := word (va + vb + y)
  let vd := rotr (vd ^^^ va) 16
  let vc := word (vc + vd)
  let vb := rotr (vb ^^^ vc) 63
  (((v.set a va).set b vb).set c vc).set d vd

def places : List (ℕ × ℕ × ℕ × ℕ) :=
  [(0, 4, 8, 12), (1, 5, 9, 13), (2, 6, 10, 14), (3, 7, 11, 15),
    (0, 5, 10, 15), (1, 6, 11, 12), (2, 7, 8, 13), (3, 4, 9, 14)]

def round (m v s : List ℕ) : List ℕ :=
  (places.zipIdx).foldl
    (fun v p => mix v p.1.1 p.1.2.1 p.1.2.2.1 p.1.2.2.2
      (m.getD (s.getD (2 * p.2) 0) 0) (m.getD (s.getD (2 * p.2 + 1) 0) 0)) v

/-- Take one block of 128 bytes into the state, `t` bytes having been read in all. -/
def compress (h : List ℕ) (block : List UInt8) (t : ℕ) (last : Bool) : List ℕ :=
  let m := (List.range 16).map fun i => leNat ((block.drop (8 * i)).take 8)
  let v := h ++ iv
  let v := v.set 12 (v.getD 12 0 ^^^ word t)
  let v := v.set 13 (v.getD 13 0 ^^^ word (t >>> 64))
  let v := if last then v.set 14 (v.getD 14 0 ^^^ (2 ^ 64 - 1)) else v
  let v := sigma.foldl (round m) v
  (List.range 8).map fun i => h.getD i 0 ^^^ v.getD i 0 ^^^ v.getD (i + 8) 0

def sum256 (s : List UInt8) : List UInt8 :=
  let blocks := max 1 ((s.length + 127) / 128)
  let init := iv.set 0 (iv.getD 0 0 ^^^ 0x01010020)
  let h := (List.range blocks).foldl
    (fun h i => compress h ((s.drop (128 * i)).take 128) (min s.length (128 * (i + 1)))
      (i + 1 = blocks)) init
  (h.take 4).flatMap (leBytes 8)

/-- The digest of `abc`. -/
example : sum256 [0x61, 0x62, 0x63] =
    [0xbd, 0xdd, 0x81, 0x3c, 0x63, 0x42, 0x39, 0x72, 0x31, 0x71, 0xef, 0x3f, 0xee, 0x98, 0x57, 0x9b,
      0x94, 0x96, 0x4e, 0x3b, 0xb1, 0xcb, 0x3e, 0x42, 0x72, 0x62, 0xc8, 0xc0, 0x68, 0xd5, 0x23,
      0x19] := by
  decide +kernel

end Blake2b
