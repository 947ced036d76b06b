import Ambient.Command.Desk
import Ambient.Declaration.Outline
import Ambient.Main
import Ambient.Proofs.Layout
import Ambient.Proofs.Shown
import Ambient.Proofs.Reading
import Ambient.Proofs.Lines
import Ambient.Proofs.Binds
import Ambient.Proofs.Sites
import Ambient.Proofs.Readability
import Ambient.Proofs.Parsers
import Ambient.Proofs.Words
import Ambient.Proofs.Scopes
import Ambient.Proofs.DeclaredBeforeUse
import Ambient.Proofs.TypeParameters
import Ambient.Proofs.Capture
import Ambient.Proofs.Hygiene
import Ambient.Proofs.Closedness
import Ambient.Proofs.Scanning
import Ambient.Proofs.Erasure
import Ambient.Proofs.Spans
import Ambient.Proofs.Lockstep
import Ambient.Proofs.LockstepTypes
import Ambient.Proofs.LockstepStatements
import Ambient.Proofs.Coverage
import Ambient.Proofs.Nesting
import Ambient.Proofs.Spacing
import Ambient.Proofs.Tracking
import Ambient.Proofs.Tiling
import Ambient.Proofs.Agreement
import Ambient.Proofs.AgreementGrammar
import Ambient.Proofs.Backtracking
import Ambient.Proofs.Literals
import Ambient.Proofs.Spelling
import Ambient.Proofs.Facing
import Ambient.Proofs.Rendering
import Ambient.Proofs.RoundTrip
import Ambient.Proofs.Writing
import Ambient.Proofs.FacingStatements
import Ambient.Proofs.StringLiterals
import Ambient.Proofs.Appending
import Ambient.Proofs.Correspondence
import Ambient.Proofs.Halting
import Ambient.Proofs.HaltingTypes
import Ambient.Proofs.HaltingStatements
import Ambient.Proofs.Failures
import Ambient.Proofs.Independence
import Ambient.Proofs.Attribution
import Ambient.Proofs.Variadic
import Ambient.Proofs.Room
import Ambient.Proofs.Nodes
import Ambient.Proofs.Depth
import Ambient.Proofs.NestingLimit
import Ambient.Proofs.JsonText
import Ambient.Proofs.Dump
import Ambient.Proofs.Runs
import Ambient.Proofs.Precedence
import Ambient.Proofs.Unions
import Ambient.Proofs.Parentheses
import Ambient.Proofs.Parts
import Ambient.Proofs.Recursion
import Ambient.Proofs.Members
import Ambient.Proofs.WordTokens
import Ambient.Proofs.Support
import Ambient.Proofs.Progress
import Ambient.Proofs.LiteralTokens
import Ambient.Proofs.Escapes
import Ambient.Proofs.Faults
import Ambient.Proofs.UsableNames
import Ambient.Proofs.Typesetting
import Ambient.Proofs.Courses
import Ambient.Proofs.NestingGuard
import Ambient.Proofs.FreshVariables
import Ambient.Proofs.NormalNames
