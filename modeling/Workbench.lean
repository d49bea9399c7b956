import Workbench.Server
import Workbench.Validation.Script
import Workbench.Proofs.Session
import Workbench.Proofs.Workspace.Afresh
import Workbench.Proofs.Workspace.Documents
import Workbench.Proofs.Workspace.Recorded
import Workbench.Proofs.Parser.Lossless
import Workbench.Proofs.Parser.Predictive
import Workbench.Proofs.Parser.WellFormed
import Workbench.Proofs.Parser.Blanks
import Workbench.Proofs.Parser.Features
import Workbench.Proofs.Workspace.Alone
import Workbench.Proofs.DomainModel.Names
import Workbench.Proofs.Workspace.Definitions
import Workbench.Proofs.DomainModel.RoundTrip
import Workbench.Proofs.Grammar.LeftRecursion
import Workbench.Proofs.Grammar.Sweeps
import Workbench.Proofs.Grammar.Agreement
import Workbench.Proofs.Grammar.Ranks
import Workbench.Proofs.Parser.Nesting
import Workbench.Proofs.Parser.Ranges
import Workbench.Proofs.Parser.Ownership
import Workbench.Proofs.Parser.Adoption
import Workbench.Proofs.Workspace.Updates
import Workbench.Proofs.Server.Desk
import Workbench.Proofs.Server.InTurn
import Workbench.Proofs.Parser.Owning
import Workbench.Proofs.Parser.Correspondence
import Workbench.Proofs.TypeHierarchy.Loops
import Workbench.Proofs.Linking.Resolution
import Workbench.Proofs.Parser.Safety
import Workbench.Proofs.Validation.Runner
import Workbench.Proofs.Parser.Growth
import Workbench.Proofs.DomainModel.Tokens
import Workbench.Proofs.DomainModel.Shape
import Workbench.Proofs.DomainModel.Drafts
import Workbench.Proofs.DomainModel.Finished
import Workbench.Proofs.DomainModel.Drawing
import Workbench.Proofs.DomainModel.Rules
import Workbench.Proofs.DomainModel.Tree
import Workbench.Proofs.Linking.Precedence
import Workbench.Proofs.DomainModel.Scoping
import Workbench.Proofs.DomainModel.LinkingErrors
import Workbench.Proofs.Lexer.Partition
import Workbench.Proofs.Lexer.Scanner
import Workbench.Proofs.Parser.NameRanges
import Workbench.Proofs.Parser.Garbage
import Workbench.Proofs.Lexer.Words
import Workbench.Proofs.Workspace.Edits
import Workbench.Proofs.Text.LineEnds
import Workbench.Proofs.Parser.Errors
import Workbench.Proofs.Parser.CleanRuns
import Workbench.Proofs.DomainModel.Inheritance
import Workbench.Proofs.Parser.Progress
import Workbench.Proofs.Text.Bounds
import Workbench.Proofs.Parser.Links
