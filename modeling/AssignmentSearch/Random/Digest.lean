/-!
# Digests of bytes

The Secure Hash Algorithm with 64 bytes of output. Its constants are the first fraction bits of
square and cube roots of primes.
-/

namespace AssignmentSearch

namespace Digest

/-- The greatest number that adds bits below `2 ^ i` to `r` and whose power `k` is no more than
`n`. -/
def rootBits (k n : Nat) : Nat → Nat → Nat
  | 0, r => r
  | i + 1, r =>
    let s := r + Nat.pow 2 i
    rootBits k n i (if Nat.pow s k ≤ n then s else r)

/-- The first 64 fraction bits of the root of degree `k` of a small number. -/
def rootFraction (k p : Nat) : UInt64 := UInt64.ofNat (rootBits k (p * Nat.pow 2 (64 * k)) 70 0)

def isPrime (n : Nat) : Bool := 2 ≤ n && (List.range n).all fun d => d < 2 || n % d ≠ 0

/-- The primes below 410, which are 80. -/
def primes : List Nat := (List.range 410).filter isPrime

def constants : Array UInt64 := (primes.map (rootFraction 3)).toArray

structure State where
  a : UInt64
  b : UInt64
  c : UInt64
  d : UInt64
  e : UInt64
  f : UInt64
  g : UInt64
  h : UInt64

def initial : State :=
  let word (i : Nat) : UInt64 := rootFraction 2 (primes.getD i 2)
  ⟨word 0, word 1, word 2, word 3, word 4, word 5, word 6, word 7⟩

def turn (x : UInt64) (n : UInt64) : UInt64 := (x >>> n) ||| (x <<< (64 - n))

/-- Bytes as the digits of a number, the highest first. -/
def number (bytes : List UInt8) : Nat := bytes.foldl (fun n b => 256 * n + b.toNat) 0

def bytesOf : Nat → Nat → List UInt8
  | 0, _ => []
  | count + 1, n => bytesOf count (n / 256) ++ [UInt8.ofNat n]

def pieces {β : Type} (size : Nat) : Nat → List β → List (List β)
  | 0, _ => []
  | count + 1, items => items.take size :: pieces size count (items.drop size)

/-- Bytes filled up to whole blocks; their number of bits comes last. -/
def padded (bytes : List UInt8) : List UInt8 :=
  bytes ++ [0x80] ++ List.replicate ((239 - bytes.length % 128) % 128) 0 ++
    bytesOf 16 (8 * bytes.length)

def extend (w : Array UInt64) (i : Nat) : Array UInt64 :=
  let back (n : Nat) : UInt64 := w.getD (i + 16 - n) 0
  let x := back 15
  let y := back 2
  let s := turn x 1 ^^^ turn x 8 ^^^ (x >>> 7)
  let t := turn y 19 ^^^ turn y 61 ^^^ (y >>> 6)
  w.push (back 16 + s + back 7 + t)

def schedule (block : List UInt8) : Array UInt64 :=
  (List.range 64).foldl extend
    ((pieces 8 16 block).map fun bytes => UInt64.ofNat (number bytes)).toArray

def round (s : State) (k w : UInt64) : State :=
  let choice := (s.e &&& s.f) ^^^ (~~~s.e &&& s.g)
  let majority := (s.a &&& s.b) ^^^ (s.a &&& s.c) ^^^ (s.b &&& s.c)
  let x := s.h + (turn s.e 14 ^^^ turn s.e 18 ^^^ turn s.e 41) + choice + k + w
  let y := (turn s.a 28 ^^^ turn s.a 34 ^^^ turn s.a 39) + majority
  ⟨x + y, s.a, s.b, s.c, s.d + x, s.e, s.f, s.g⟩

def absorb (s : State) (block : List UInt8) : State :=
  let w := schedule block
  let t := (List.range 80).foldl (fun t i => round t (constants.getD i 0) (w.getD i 0)) s
  ⟨s.a + t.a, s.b + t.b, s.c + t.c, s.d + t.d, s.e + t.e, s.f + t.f, s.g + t.g, s.h + t.h⟩

def State.bytes (s : State) : List UInt8 :=
  [s.a, s.b, s.c, s.d, s.e, s.f, s.g, s.h].flatMap fun word => bytesOf 8 word.toNat

def ofBytes (bytes : List UInt8) : List UInt8 :=
  let whole := padded bytes
  ((pieces 128 (whole.length / 128) whole).foldl absorb initial).bytes

end Digest

end AssignmentSearch
