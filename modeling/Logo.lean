import Logo.CommandLine.Run
import Logo.Main
import Logo.Pattern.Search
import Logo.Proofs.NameMap
import Logo.Proofs.Bindings.Scope
import Logo.Proofs.Execution.Discipline
import Logo.Proofs.Execution.Actions
import Logo.Proofs.Execution.Balance
import Logo.Proofs.Session.History
import Logo.Proofs.Scopes
import Logo.Proofs.Bindings.Stacks
import Logo.Proofs.Execution.Agreement
import Logo.Proofs.Execution.Purity
import Logo.Proofs.Program.LeftToRight
import Logo.Proofs.Program.Similar
import Logo.Proofs.Program.Rendering
import Logo.Proofs.Flock.Ahead
import Logo.Proofs.Execution.InStep
import Logo.Proofs.Execution.RunsAlike
import Logo.Proofs.OtherWords
import Logo.Proofs.Program.Derivation
import Logo.Proofs.Program.Printing
import Logo.Proofs.Binary64.Range
import Logo.Proofs.Number.Constants
import Logo.Proofs.Number.Denoted
import Logo.Proofs.Number.Faults
import Logo.Proofs.Flock.Callable
import Logo.Proofs.Turtle.Changes
import Logo.Proofs.Execution.Confined
import Logo.Proofs.Session.Escapes
import Logo.Proofs.Program.Parts
import Logo.Proofs.Program.Groups
import Logo.Proofs.Flock.Sound
import Logo.Proofs.Program.Complete
import Logo.Proofs.Execution.Operands
import Logo.Proofs.Execution.Safe
import Logo.Proofs.Selection
import Logo.Proofs.Session.Failures
import Logo.Proofs.Session.Unbroken
import Logo.Proofs.Source.Places
import Logo.Proofs.Token.Scanned
import Logo.Proofs.Program.Spans
import Logo.Proofs.Session.Located
import Logo.Proofs.Program.Joined
import Logo.Proofs.Session.Piecewise
import Logo.Proofs.Execution.Abreast
import Logo.Proofs.Marks
import Logo.Proofs.Flock.Apart
import Logo.Proofs.Execution.Solo
import Logo.Proofs.Turns
import Logo.Proofs.Execution.Invariant
import Logo.Proofs.Flock.Colors
import Logo.Proofs.Palette
import Logo.Proofs.Program.Resolved
import Logo.Proofs.Execution.Answered
import Logo.Proofs.Session.Scoped
import Logo.Proofs.Execution.Depth
import Logo.Proofs.Execution.Notified
import Logo.Proofs.Conditions
import Logo.Proofs.Addressing
import Logo.Proofs.Commands
import Logo.Proofs.Abbreviations
import Logo.Proofs.Execution.Laps
import Logo.Proofs.Loops
import Logo.Proofs.Turtle.Chronicle
import Logo.Proofs.Token.Cover
import Logo.Proofs.Source.Additions
import Logo.Proofs.Program.Nesting
import Logo.Proofs.CommandLine.Shown
import Logo.Proofs.Vocabulary.Classification
