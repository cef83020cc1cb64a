import SheetMarkup.Main
import SheetMarkup.Proofs.Attributes
import SheetMarkup.Proofs.Binding
import SheetMarkup.Proofs.Command.Arguments
import SheetMarkup.Proofs.Command.Files
import SheetMarkup.Proofs.Expr.ReadBack
import SheetMarkup.Proofs.Expr.Refusal
import SheetMarkup.Proofs.Hierarchy
import SheetMarkup.Proofs.Lexeme.Munch
import SheetMarkup.Proofs.Located
import SheetMarkup.Proofs.Source.Closers
import SheetMarkup.Proofs.Source.Continuation
import SheetMarkup.Proofs.Source.Lone
import SheetMarkup.Proofs.Source.Scan
import SheetMarkup.Proofs.Source.Sites
import SheetMarkup.Proofs.Template.Attribution
import SheetMarkup.Proofs.Template.Boundaries
import SheetMarkup.Proofs.Template.Calls
import SheetMarkup.Proofs.Template.Outline
import SheetMarkup.Proofs.Template.RoundTrip
import SheetMarkup.Proofs.Template.Skeleton
import SheetMarkup.Proofs.Template.Termination
import SheetMarkup.Proofs.Template.Wrapping
