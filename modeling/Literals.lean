import Literals.Main
import Literals.Cursor
import Literals.Proofs.Limit
import Literals.Proofs.Sessions
import Literals.Proofs.Unfinished
import Literals.Proofs.CorrectPrefix
import Literals.Proofs.Congruence
import Literals.Proofs.WellFormed
import Literals.Proofs.FoldErrors
import Literals.Proofs.EqualFolds
import Literals.Proofs.Construction
import Literals.Proofs.Unhashable
import Literals.Proofs.Formatting
import Literals.Proofs.ReadOnce
import Literals.Proofs.Integers
import Literals.Proofs.Strings
import Literals.Proofs.ShownLine
import Literals.Proofs.Decoding
import Literals.Proofs.Location
import Literals.Proofs.Lexing
import Literals.Proofs.NumeralTokens
import Literals.Proofs.PrintedTokens
import Literals.Proofs.Nearest
import Literals.Proofs.SeveralInputs
import Literals.Proofs.Carets
import Literals.Proofs.AcceptedSettings
import Literals.Proofs.CursorRuns
import Literals.Proofs.CursorRules
import Literals.Proofs.Account
import Literals.Proofs.Accounting
import Literals.Proofs.AccountedRules
import Literals.Proofs.Annotated
import Literals.Proofs.Progress
