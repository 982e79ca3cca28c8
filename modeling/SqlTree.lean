import SqlTree.Analysis.Scheduler
import SqlTree.Main
import SqlTree.Number.Shortest
import SqlTree.Output.Outline
import SqlTree.Proofs.Analysis.Outcomes
import SqlTree.Proofs.Binding.Models
import SqlTree.Proofs.Depth.Models
import SqlTree.Proofs.Dialects.Concurs
import SqlTree.Proofs.Dialects.Conservative
import SqlTree.Proofs.Dialects.Registered
import SqlTree.Proofs.Diverging.Aliases
import SqlTree.Proofs.Diverging.Limits
import SqlTree.Proofs.Diverging.Snippets
import SqlTree.Proofs.Errors.Furthest
import SqlTree.Proofs.Lexing.Blobs
import SqlTree.Proofs.Lexing.Faults
import SqlTree.Proofs.Lexing.Numbers
import SqlTree.Proofs.Lexing.Strings
import SqlTree.Proofs.Lockstep.Layout
import SqlTree.Proofs.Naming.Folded
import SqlTree.Proofs.Naming.Sources
import SqlTree.Proofs.Progress.Terminates
import SqlTree.Proofs.Reading.Choices
import SqlTree.Proofs.Reading.Nesting
import SqlTree.Proofs.Reading.Places
import SqlTree.Proofs.Reading.Standing
import SqlTree.Proofs.Scripts.Composed
import SqlTree.Proofs.Text.Marks
import SqlTree.Proofs.Tree.Leaves
import SqlTree.Proofs.Tree.Placeholders
import SqlTree.Proofs.Types.Captured
import SqlTree.Proofs.Types.Roundtrip
import SqlTree.Proofs.Writing.Texts
