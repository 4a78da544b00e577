namespace Redline.Digest

-- Fractional parts of the cube roots of the first eighty primes.
def roundConstants : List UInt64 :=
  [0x428a2f98d728ae22,0x7137449123ef65cd,0xb5c0fbcfec4d3b2f,0xe9b5dba58189dbbc,
    0x3956c25bf348b538,0x59f111f1b605d019,0x923f82a4af194f9b,0xab1c5ed5da6d8118,
    0xd807aa98a3030242,0x12835b0145706fbe,0x243185be4ee4b28c,0x550c7dc3d5ffb4e2,
    0x72be5d74f27b896f,0x80deb1fe3b1696b1,0x9bdc06a725c71235,0xc19bf174cf692694,
    0xe49b69c19ef14ad2,0xefbe4786384f25e3,0x0fc19dc68b8cd5b5,0x240ca1cc77ac9c65,
    0x2de92c6f592b0275,0x4a7484aa6ea6e483,0x5cb0a9dcbd41fbd4,0x76f988da831153b5,
    0x983e5152ee66dfab,0xa831c66d2db43210,0xb00327c898fb213f,0xbf597fc7beef0ee4,
    0xc6e00bf33da88fc2,0xd5a79147930aa725,0x06ca6351e003826f,0x142929670a0e6e70,
    0x27b70a8546d22ffc,0x2e1b21385c26c926,0x4d2c6dfc5ac42aed,0x53380d139d95b3df,
    0x650a73548baf63de,0x766a0abb3c77b2a8,0x81c2c92e47edaee6,0x92722c851482353b,
    0xa2bfe8a14cf10364,0xa81a664bbc423001,0xc24b8b70d0f89791,0xc76c51a30654be30,
    0xd192e819d6ef5218,0xd69906245565a910,0xf40e35855771202a,0x106aa07032bbd1b8,
    0x19a4c116b8d2d0c8,0x1e376c085141ab53,0x2748774cdf8eeb99,0x34b0bcb5e19b48a8,
    0x391c0cb3c5c95a63,0x4ed8aa4ae3418acb,0x5b9cca4f7763e373,0x682e6ff3d6b2b8a3,
    0x748f82ee5defb2fc,0x78a5636f43172f60,0x84c87814a1f0ab72,0x8cc702081a6439ec,
    0x90befffa23631e28,0xa4506cebde82bde9,0xbef9a3f7b2c67915,0xc67178f2e372532b,
    0xca273eceea26619c,0xd186b8c721c0c207,0xeada7dd6cde0eb1e,0xf57d4f7fee6ed178,
    0x06f067aa72176fba,0x0a637dc5a2c898a6,0x113f9804bef90dae,0x1b710b35131c471b,
    0x28db77f523047d84,0x32caab7b40c72493,0x3c9ebe0a15c9bebc,0x431d67c49c100d4c,
    0x4cc5d4becb3e42b6,0x597f299cfc657e2a,0x5fcb6fab3ad6faec,0x6c44198c4a475817]

structure State where
  a : UInt64
  b : UInt64
  c : UInt64
  d : UInt64
  e : UInt64
  f : UInt64
  g : UInt64
  h : UInt64
deriving DecidableEq, Inhabited

-- Fractional parts of the square roots of the first eight primes.
def initial : State :=
  ⟨0x6a09e667f3bcc908,0xbb67ae8584caa73b,0x3c6ef372fe94f82b,0xa54ff53a5f1d36f1,
    0x510e527fade682d1,0x9b05688c2b3e6c1f,0x1f83d9abfb41bd6b,0x5be0cd19137e2179⟩

def rotate (x : UInt64) (n : UInt64) : UInt64 := (x >>> n) ||| (x <<< (64 - n))

def mixSmall0 (x : UInt64) : UInt64 := rotate x 1 ^^^ rotate x 8 ^^^ (x >>> 7)

def mixSmall1 (x : UInt64) : UInt64 := rotate x 19 ^^^ rotate x 61 ^^^ (x >>> 6)

def mixLarge0 (x : UInt64) : UInt64 := rotate x 28 ^^^ rotate x 34 ^^^ rotate x 39

def mixLarge1 (x : UInt64) : UInt64 := rotate x 14 ^^^ rotate x 18 ^^^ rotate x 41

def word (bytes : List UInt8) : UInt64 := bytes.foldl (fun value b => (value <<< 8) ||| b.toUInt64) 0

def wordBytes (x : UInt64) : List UInt8 :=
  [56,48,40,32,24,16,8,0].map fun (shift : UInt64) => (x >>> shift).toUInt8

def groups (size : Nat) (bytes : List UInt8) : List (List UInt8) :=
  if _stop : bytes = [] ∨ size = 0 then []
  else bytes.take size :: groups size (bytes.drop size)
termination_by bytes.length
decreasing_by
  have filled : bytes.length ≠ 0 := fun empty => _stop (.inl (List.length_eq_zero_iff.mp empty))
  have sized : size ≠ 0 := fun zero => _stop (.inr zero)
  simp only [List.length_drop]
  omega

-- The schedule of a block, the latest word first.
def extend : Nat → List UInt64 → List UInt64
  | 0,past => past
  | more + 1,past =>
      extend more
        ((mixSmall1 (past.getD 1 0) + past.getD 6 0 + mixSmall0 (past.getD 14 0) + past.getD 15 0) :: past)

def schedule (block : List UInt8) : List UInt64 := (extend 64 ((groups 8 block).map word).reverse).reverse

def round (s : State) (constant scheduled : UInt64) : State :=
  let choice := (s.e &&& s.f) ^^^ (~~~s.e &&& s.g)
  let majority := (s.a &&& s.b) ^^^ (s.a &&& s.c) ^^^ (s.b &&& s.c)
  let first := s.h + mixLarge1 s.e + choice + constant + scheduled
  ⟨first + mixLarge0 s.a + majority,s.a,s.b,s.c,s.d + first,s.e,s.f,s.g⟩

def compress (s : State) (block : List UInt8) : State :=
  let t := (roundConstants.zip (schedule block)).foldl (fun t (constant,scheduled) => round t constant scheduled) s
  ⟨s.a + t.a,s.b + t.b,s.c + t.c,s.d + t.d,s.e + t.e,s.f + t.f,s.g + t.g,s.h + t.h⟩

def blockSize : Nat := 128

def padded (bytes : List UInt8) : List UInt8 :=
  bytes ++ 0x80 :: List.replicate ((blockSize - (bytes.length + 17) % blockSize) % blockSize) 0 ++
    List.replicate 8 0 ++ wordBytes (UInt64.ofNat (8 * bytes.length))

def State.bytes (s : State) : List UInt8 := [s.a,s.b,s.c,s.d,s.e,s.f,s.g,s.h].flatMap wordBytes

def sha512 (bytes : List UInt8) : List UInt8 := ((groups blockSize (padded bytes)).foldl compress initial).bytes

end Redline.Digest
