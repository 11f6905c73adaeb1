/-!
# Twisted feedback generator

A shift register of 624 words of 32 bits. It is seeded by an array of words and tempers each word
before it leaves the register.
-/

namespace AssignmentSearch

/-- The register and the position of the next word. -/
structure Twister where
  words : Array UInt32
  position : Nat

namespace Twister

def size : Nat := 624

def word (mt : Array UInt32) (i : Nat) : UInt32 := mt.getD i 0

def spread (seed : UInt32) : Array UInt32 :=
  (List.range (size - 1)).foldl (fun mt i =>
    let last := word mt i
    mt.push ((1812433253 : UInt32) * (last ^^^ (last >>> 30)) + UInt32.ofNat (i + 1))) #[seed]

/-- The position after `i`, which skips word 0 and first copies the last word there. -/
def advance (mt : Array UInt32) (i : Nat) : Array UInt32 × Nat :=
  if size ≤ i + 1 then (mt.setIfInBounds 0 (word mt (size - 1)), 1) else (mt, i + 1)

/-- One round of mixing a key into the register. -/
def mixKey (key : Array UInt32) : Array UInt32 × Nat × Nat → Nat → Array UInt32 × Nat × Nat
  | (mt, i, j), _ =>
    let last := word mt (i - 1)
    let mixed := (word mt i ^^^ ((last ^^^ (last >>> 30)) * 1664525)) + word key j + UInt32.ofNat j
    let (mt, i) := advance (mt.setIfInBounds i mixed) i
    (mt, i, if key.size ≤ j + 1 then 0 else j + 1)

/-- One round of stirring the register by the positions of its words. -/
def stir : Array UInt32 × Nat → Nat → Array UInt32 × Nat
  | (mt, i), _ =>
    let last := word mt (i - 1)
    let mixed := (word mt i ^^^ ((last ^^^ (last >>> 30)) * 1566083941)) - UInt32.ofNat i
    advance (mt.setIfInBounds i mixed) i

def ofKey (key : Array UInt32) : Twister :=
  let (mt, i, _) := (List.range (max size key.size)).foldl (mixKey key) (spread 19650218, 1, 0)
  let (mt, _) := (List.range (size - 1)).foldl stir (mt, i)
  ⟨mt.setIfInBounds 0 0x80000000, size⟩

/-- The words of 32 bits of a natural, lowest first. -/
def wordsOf (n : Nat) : List UInt32 :=
  if _ : n < UInt32.size then [UInt32.ofNat n]
  else UInt32.ofNat n :: wordsOf (n / UInt32.size)
  termination_by n
  decreasing_by
    simp only [UInt32.size] at *
    omega

/-- The register seeded by the magnitude of a number. -/
def ofSeed (seed : Nat) : Twister := ofKey (wordsOf seed).toArray

/-- One step of the feedback: the high bit of a word and the low bits of the next select a twist of
the word 397 places on. -/
def feed (mt : Array UInt32) (i : Nat) : Array UInt32 :=
  let joined := (word mt i &&& 0x80000000) ||| (word mt ((i + 1) % size) &&& 0x7fffffff)
  let twist : UInt32 := if joined &&& 1 = 1 then 0x9908b0df else 0
  mt.setIfInBounds i (word mt ((i + 397) % size) ^^^ (joined >>> 1) ^^^ twist)

def renew (mt : Array UInt32) : Array UInt32 := (List.range size).foldl feed mt

def temper (y : UInt32) : UInt32 :=
  let y := y ^^^ (y >>> 11)
  let y := y ^^^ ((y <<< 7) &&& 0x9d2c5680)
  let y := y ^^^ ((y <<< 15) &&& 0xefc60000)
  y ^^^ (y >>> 18)

def next (t : Twister) : UInt32 × Twister :=
  if t.position < size then (temper (word t.words t.position), ⟨t.words, t.position + 1⟩)
  else
    let mt := renew t.words
    (temper (word mt 0), ⟨mt, 1⟩)

/-- A natural below `2 ^ 53` out of the high bits of two words. -/
def next53 (t : Twister) : Nat × Twister :=
  let (a, t) := t.next
  let (b, t) := t.next
  ((a >>> 5).toNat * Nat.pow 2 26 + (b >>> 6).toNat, t)

theorem shiftRight_lt (a k : UInt32) (h : k.toNat < 32) :
    (a >>> k).toNat < Nat.pow 2 (32 - k.toNat) := by
  have ha := a.toNat_lt
  rw [Nat.pow_eq, UInt32.toNat_shiftRight, Nat.mod_eq_of_lt h, Nat.shiftRight_eq_div_pow,
    Nat.div_lt_iff_lt_mul (Nat.two_pow_pos _), ← Nat.pow_add,
    show 32 - k.toNat + k.toNat = 32 by omega]
  exact ha

theorem next53_lt (t : Twister) : t.next53.1 < Nat.pow 2 53 := by
  simp only [next53]
  generalize (next t).1 = a
  generalize (next (next t).2).1 = b
  simp only [Nat.pow_eq]
  have ha := shiftRight_lt a 5 (by decide)
  have hb := shiftRight_lt b 6 (by decide)
  simp only [show (5 : UInt32).toNat = 5 from rfl, show (6 : UInt32).toNat = 6 from rfl,
    Nat.pow_eq] at ha hb
  omega

end Twister

end AssignmentSearch
