import AssignmentSearch.Datum.Convert

/-!
# Reasons and outcomes

Why a candidate was taken or left, and the summary of one step of a search.
-/

namespace AssignmentSearch

inductive Reason (α : Type) where
  /-- No candidate was tried. -/
  | untried
  | better
  /-- Its probability was zero. -/
  | impossible
  /-- The sample was no higher than the probability. -/
  | lucky (probability sample : α)
  /-- The sample was higher than the probability. -/
  | unlucky (probability sample : α)

namespace Reason

variable {α : Type}

def accepts : Reason α → Bool
  | better | lucky _ _ => true
  | untried | impossible | unlucky _ _ => false

variable [Printed α]

/-- The probability and the sample, with three significant digits. -/
def chances (probability sample : α) : String :=
  " (p=" ++ Printed.general 3 probability ++ ", r=" ++ Printed.general 3 sample ++ ")"

def text : Reason α → String
  | untried => ""
  | better => "candidate_better"
  | impossible => "probability_zero"
  | lucky p r => "candidate_worse_prob_accept" ++ chances p r
  | unlucky p r => "candidate_rejected" ++ chances p r

end Reason

/-- The summary of one step. -/
structure Outcome (α : Type) where
  iteration : Nat
  accepted : Bool
  /-- The reason of the last trial. -/
  reason : Reason α
  /-- The cost before the step. -/
  costBefore : α
  /-- The cost of the last candidate. -/
  candidateCost : α
  cost : α
  bestCost : α
  done : Bool

def Outcome.fields {α : Type} [Printed α] (o : Outcome α) : List (String × Datum) :=
  [("iteration", .int o.iteration), ("accepted", .bool o.accepted), ("reason", .str o.reason.text),
    ("current_cost_in", Printed.datum o.costBefore),
    ("candidate_cost", Printed.datum o.candidateCost), ("current_cost", Printed.datum o.cost),
    ("best_cost", Printed.datum o.bestCost), ("done", .bool o.done)]

end AssignmentSearch
