import AssignmentSearch.Attempt
import AssignmentSearch.Datum.Scalar
import AssignmentSearch.Random.Seed
import AssignmentSearch.Random.Twister

/-!
# Random sources

A source hands out samples one by one and counts them. Positions in a list are made of samples by
scaling and flooring.
-/

namespace AssignmentSearch

/-- Where samples come from: a seeded generator, or a tape that holds them all. -/
inductive Supply (α : Type) where
  | generator (state : Twister)
  | tape (sample : Nat → Scalar α)

/-- A supply, the seed it was made with and the number of samples it has handed out. -/
structure Source (α : Type) where
  seed : Datum
  supply : Supply α
  drawn : Nat

namespace Source

variable {α : Type} [Quantity α]

/-- A generator with a seed; without a number it is seeded by `entropy`. -/
def seeded (seed : Datum) (entropy : Nat) : Except Fault (Source α) := do
  return ⟨seed, .generator (Twister.ofSeed (← Seed.number entropy seed)), 0⟩

def repeating (samples : List (Scalar α)) : Source α :=
  let tape := samples.toArray
  ⟨.null, .tape fun i => tape.getD (i % tape.size) (.real Quantity.zero), 0⟩

def text (s : Source α) : String := "UniformDistribution(seed=" ++ s.seed.text ++ ")"

def sample (s : Source α) : Scalar α × Source α :=
  match s.supply with
  | .generator t =>
    let (k, t) := t.next53
    (.real (Quantity.fraction k), ⟨s.seed, .generator t, s.drawn + 1⟩)
  | .tape f => (f s.drawn, ⟨s.seed, .tape f, s.drawn + 1⟩)

@[simp] theorem drawn_sample (s : Source α) : (sample s).2.drawn = s.drawn + 1 := by
  simp only [sample]
  split <;> rfl

def scaled (bound x : Scalar α) : Except Fault Int := do (← x.times "*" bound).floor

/-- The position that a sample selects among `bound`: the floor of the product, at most the last. -/
def position (bound : Int) (x : Scalar α) : Except Fault Int := do
  return min (← scaled (.whole bound) x) (bound - 1)

def draw : Attempt (Source α) (Scalar α) := Attempt.of fun s => let (x, s) := s.sample; (.ok x, s)

/-- A random position among `bound`. Without positions nothing is drawn. -/
def index (bound : Int) : Attempt (Source α) Int := do
  if bound ≤ 0 then throw (.emptyBound (.int bound))
  let x ← draw
  Attempt.lift (position bound x)

theorem start_index_of_nonpos {bound : Int} (h : bound ≤ 0) (s : Source α) :
    (index bound).start s = (.error (.emptyBound (.int bound)), s) := by
  simp only [index, h, if_true]
  rfl

theorem start_index_of_pos {bound : Int} (h : 0 < bound) (s : Source α) :
    (index bound).start s = (position bound s.sample.1, s.sample.2) := by
  simp only [index, show ¬ bound ≤ 0 by omega, if_false]
  rfl

/-- A random number below a bound that was entered: the floor of the product, or what is one less
than the bound if that is lower. For a whole number this is `index`. -/
def indexBelow [Printed α] : Scalar α → Attempt (Source α) (Scalar α)
  | .whole n => .whole <$> index n
  | bound => do
    if ← Attempt.lift bound.isAtMostZero then throw (.emptyBound bound.datum)
    let x ← draw
    let i ← Attempt.lift (scaled bound x)
    return if ← Attempt.lift ((Scalar.whole i).le bound.pred) then .whole i else bound.pred

end Source

end AssignmentSearch
