import AssignmentSearch.Datum.Json
import AssignmentSearch.Datum.JsonReader
import AssignmentSearch.Random.Source
import AssignmentSearch.Solution.Family
import AssignmentSearch.Strategy.Plan
import AssignmentSearch.Storage.Files
import AssignmentSearch.Mapping.LooseDraw
import AssignmentSearch.Item
import AssignmentSearch.Placement.Machine
import AssignmentSearch.Search.Basic
import AssignmentSearch.Search.Run
import AssignmentSearch.Placement.Landscape
import AssignmentSearch.Scenario.Check
import AssignmentSearch.Markup.Lexer
import AssignmentSearch.Markup.Value
import AssignmentSearch.Scenario.Source
import AssignmentSearch.Placement.Assembly
import AssignmentSearch.Session.Service
import AssignmentSearch.CommandLine.LogFolder
import AssignmentSearch.CommandLine.Arguments
import AssignmentSearch.CommandLine.Program
import AssignmentSearch.Main
import AssignmentSearch.Proofs.Search.BestSoFar
import AssignmentSearch.Proofs.Search.NearOptimal
import AssignmentSearch.Proofs.Solution.Operations
import AssignmentSearch.Proofs.Placement.Neutral
import AssignmentSearch.Proofs.Placement.Parameters
import AssignmentSearch.Proofs.Binary64.Product
import AssignmentSearch.Proofs.Strategy.Schedules
import AssignmentSearch.Proofs.Search.Steps
import AssignmentSearch.Proofs.Search.Stages
import AssignmentSearch.Proofs.Search.Endings
import AssignmentSearch.Proofs.Session.Requests
import AssignmentSearch.Proofs.Session.Conservation
import AssignmentSearch.Proofs.Placement.Complete
import AssignmentSearch.Proofs.Session.Placements
import AssignmentSearch.Proofs.Search.Shadows
import AssignmentSearch.Proofs.Search.Recording
import AssignmentSearch.Proofs.Search.Driving
import AssignmentSearch.Proofs.Placement.Accounting
import AssignmentSearch.Proofs.Placement.Plans
import AssignmentSearch.Proofs.Search.Over
import AssignmentSearch.Proofs.Random.Positions
import AssignmentSearch.Proofs.Session.Answers
import AssignmentSearch.Proofs.Session.Driving
import AssignmentSearch.Proofs.Search.Twins
import AssignmentSearch.Proofs.Session.Isolation
import AssignmentSearch.Proofs.Search.History
import AssignmentSearch.Proofs.Search.BestFile
import AssignmentSearch.Proofs.CommandLine.Unusable
import AssignmentSearch.Proofs.CommandLine.Pruning
import AssignmentSearch.Proofs.Solution.Rearrangements
import AssignmentSearch.Proofs.CommandLine.Overrides
import AssignmentSearch.Proofs.Solution.Summands
import AssignmentSearch.Proofs.Placement.ClosedForm
import AssignmentSearch.Proofs.Search.Trials
import AssignmentSearch.Proofs.Search.HillClimbing
import AssignmentSearch.Proofs.Strategy.Boltzmann
import AssignmentSearch.Proofs.Binary64.Differences
import AssignmentSearch.Proofs.Solution.Comparisons
import AssignmentSearch.Proofs.Search.Summaries
import AssignmentSearch.Proofs.Solution.Charges
import AssignmentSearch.Proofs.Search.Failures
import AssignmentSearch.Proofs.Search.Beginnings
import AssignmentSearch.Proofs.Placement.FirstPlacement
import AssignmentSearch.Proofs.Scenario.Consistency
import AssignmentSearch.Proofs.Scenario.JsonTexts
import AssignmentSearch.Proofs.Solution.Improvements
import AssignmentSearch.Proofs.Solution.Store
import AssignmentSearch.Proofs.Search.States
import AssignmentSearch.Proofs.Session.Successes
import AssignmentSearch.Proofs.Random.Evenness
