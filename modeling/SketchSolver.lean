import SketchSolver.Session.Editing
import SketchSolver.SettingsText
import SketchSolver.Sketch.Measure
import SketchSolver.Proofs.AscendingSets
import SketchSolver.Proofs.Equality.ForestRoots
import SketchSolver.Proofs.Equality.PairGroups
import SketchSolver.Proofs.SortedIds
import SketchSolver.Proofs.StoreFrame
import SketchSolver.Proofs.Equality.Merging
import SketchSolver.Proofs.Equality.Classes
import SketchSolver.Proofs.Equality.Grouping
import SketchSolver.Proofs.Expr.FrozenValue
import SketchSolver.Proofs.Expr.RoundTrip
import SketchSolver.Proofs.Newton.JacobianRows
import SketchSolver.Proofs.Newton.RunFrame
import SketchSolver.Proofs.Problem.Loading
import SketchSolver.Proofs.Problem.Phases
import SketchSolver.Proofs.Problem.Stage
import SketchSolver.Proofs.Problem.AloneStage
import SketchSolver.Proofs.Problem.Soundness
import SketchSolver.Proofs.Constraint.Demands
import SketchSolver.Proofs.Space.Numbering
import SketchSolver.Proofs.Space.Building
import SketchSolver.Proofs.Space.Rollback
import SketchSolver.Proofs.Problem.Scratch
import SketchSolver.Proofs.Problem.MainSystem
import SketchSolver.Proofs.Problem.Resolving
import SketchSolver.Proofs.Problem.Accounting
import SketchSolver.Proofs.Problem.Freedom
import SketchSolver.Proofs.Space.Preparing
import SketchSolver.Proofs.Space.Dragging
import SketchSolver.Proofs.StableSort
import SketchSolver.Proofs.Space.Removing
import SketchSolver.Proofs.Space.Rejection
import SketchSolver.Proofs.Session.Matching
import SketchSolver.Proofs.Session.Turns
import SketchSolver.Proofs.Session.Bench
import SketchSolver.Proofs.Session.Restoring
import SketchSolver.Proofs.Session.SharedNumbers
import SketchSolver.Proofs.Session.Unlocking
import SketchSolver.Proofs.Session.Deferring
import SketchSolver.Proofs.Expr.RealValues
import SketchSolver.Proofs.Expr.Affine
import SketchSolver.Proofs.Linear.LeastNorm
import SketchSolver.Proofs.Linear.RowRank
import SketchSolver.Proofs.Newton.OneStep
import SketchSolver.Proofs.Session.BatchOrder
import SketchSolver.Proofs.Session.Cancelling
import SketchSolver.Proofs.Session.Uprooting
import SketchSolver.Proofs.Constraint.Relations
import SketchSolver.Proofs.IdHistory
import SketchSolver.Proofs.Settings.RoundTrip
import SketchSolver.Proofs.Equality.ForestHistory
import SketchSolver.Proofs.Problem.LoneGroups
import SketchSolver.Proofs.Problem.QueuedGroups
import SketchSolver.Proofs.Problem.Isolation
import SketchSolver.Proofs.Problem.Crowds
import SketchSolver.Proofs.Expr.MentionedIds
import SketchSolver.Proofs.Expr.FrozenCopy
