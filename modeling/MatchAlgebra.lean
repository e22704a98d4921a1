import MatchAlgebra.Plan.Outline
import MatchAlgebra.Algebra.Join
import MatchAlgebra.Algebra.Grouping
import MatchAlgebra.Session.Basic
import MatchAlgebra.Settings.Basic
import MatchAlgebra.Constraints.Set
import MatchAlgebra.Constraints.Report
import MatchAlgebra.Proofs.Order
import MatchAlgebra.Proofs.Sense
import MatchAlgebra.Proofs.Entries
import MatchAlgebra.Proofs.Bag
import MatchAlgebra.Proofs.Measure
import MatchAlgebra.Proofs.Accumulation
import MatchAlgebra.Proofs.Recipes
import MatchAlgebra.Proofs.Congruence
import MatchAlgebra.Proofs.Partition
import MatchAlgebra.Proofs.Reconcile
import MatchAlgebra.Proofs.Rows
import MatchAlgebra.Proofs.Recomputation
import MatchAlgebra.Proofs.History
import MatchAlgebra.Proofs.Bindings
import MatchAlgebra.Proofs.Terms
import MatchAlgebra.Proofs.Products
import MatchAlgebra.Proofs.Scopes
import MatchAlgebra.Proofs.Flattening
import MatchAlgebra.Proofs.Lockstep
import MatchAlgebra.Proofs.Meaning
import MatchAlgebra.Proofs.Chains
import MatchAlgebra.Proofs.Registry
import MatchAlgebra.Proofs.Building
import MatchAlgebra.Proofs.Groups
import MatchAlgebra.Proofs.Built
import MatchAlgebra.Proofs.Compilation
import MatchAlgebra.Proofs.Verification
import MatchAlgebra.Proofs.Slots
import MatchAlgebra.Proofs.Preview
import MatchAlgebra.Proofs.Hindsight
import MatchAlgebra.Proofs.Existence
import MatchAlgebra.Proofs.Twins
import MatchAlgebra.Proofs.Origins
import MatchAlgebra.Proofs.Typing
import MatchAlgebra.Proofs.Stages
import MatchAlgebra.Proofs.Alteration
import MatchAlgebra.Proofs.SideBySide
import MatchAlgebra.Proofs.Rebuilding
import MatchAlgebra.Proofs.Arity
import MatchAlgebra.Proofs.Limits
import MatchAlgebra.Proofs.Handles
import MatchAlgebra.Proofs.Justification
import MatchAlgebra.Proofs.Grouped
import MatchAlgebra.Proofs.Fusion
import MatchAlgebra.Proofs.Packing
import MatchAlgebra.Proofs.Merging
import MatchAlgebra.Proofs.Weights
import MatchAlgebra.Proofs.Reports
import MatchAlgebra.Proofs.Dependencies
import MatchAlgebra.Proofs.Renaming
import MatchAlgebra.Proofs.Renumbering
import MatchAlgebra.Proofs.Programs
import MatchAlgebra.Proofs.Interleaving
import MatchAlgebra.Proofs.JoinerOrder
import MatchAlgebra.Proofs.Unions
import MatchAlgebra.Proofs.Sharing
import MatchAlgebra.Proofs.Uniting
import MatchAlgebra.Proofs.Coherence
import MatchAlgebra.Proofs.Totals
import MatchAlgebra.Proofs.Joins
import MatchAlgebra.Proofs.Mirroring
import MatchAlgebra.Proofs.LookAlikes
import MatchAlgebra.Proofs.Renderings
import MatchAlgebra.Proofs.Failures
import MatchAlgebra.Proofs.Mentions
import MatchAlgebra.Proofs.Creations
import MatchAlgebra.Proofs.Introductions
import MatchAlgebra.Proofs.Names
import MatchAlgebra.Proofs.Tokens
import MatchAlgebra.Proofs.Deltas
