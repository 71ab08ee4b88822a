import Betik.Main
import Betik.Proofs.Machine.Returns
import Betik.Proofs.OneFrame.Running
import Betik.Proofs.Comments.Inert
import Betik.Proofs.Token.Respelling
import Betik.Proofs.Token.Longest
import Betik.Proofs.Sequence.Run
import Betik.Proofs.Trace.Capacity
import Betik.Proofs.Trace.CallLimit
import Betik.Proofs.Trace.Prompts
import Betik.Proofs.Number.Equality
import Betik.Proofs.Lines.Errors
import Betik.Proofs.Syntax.Parentheses
import Betik.Proofs.Walk.End
import Betik.Proofs.Literals.Agreement
import Betik.Proofs.Chain.Running
import Betik.Proofs.Machine.Variables
import Betik.Proofs.Machine.Integers
import Betik.Proofs.Listing.Faithful
import Betik.Proofs.Listing.Tokens
