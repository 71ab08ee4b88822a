/-
The errors of reading a program.
-/
import Betik.Text.Located
import Betik.Token.Kind

namespace Betik

/-- Why a token list is no program.  `found` is what stands where something else
should. -/
inductive ParseError
  | emptyInput
  | beyondEndOfFile
  | expectedToken (line : Nat) (expected : TokenKind) (found : String)
  | expectedDataType (line : Nat) (found : String)
  | expectedExpr (line : Nat) (found : String)
  | unexpectedToken (line : Nat) (found : String)
  | invalidLiteral (line : Nat) (lexeme : String)
deriving DecidableEq, Repr

namespace ParseError

open Text

/-- The line of the offending token.  A list that just stops has none. -/
def line? : ParseError → Option Nat
  | emptyInput | beyondEndOfFile => none
  | expectedToken line .. | expectedDataType line _ | expectedExpr line _
  | unexpectedToken line _ | invalidLiteral line _ => some line

def message : ParseError → String
  | emptyInput => "Token list is empty; there is nothing to parse."
  | beyondEndOfFile => "Unexpected end of token stream."
  | expectedToken line expected found =>
    located line ("expected '" ++ expected.describe ++ "', but found '" ++ found ++ "'.")
  | expectedDataType line found =>
    located line ("expected a data type (" ++
      ", ".intercalate (DataType.all.map DataType.word) ++ "), but found '" ++ found ++ "'.")
  | expectedExpr line found =>
    located line ("expected expression, but found '" ++ found ++ "'.")
  | unexpectedToken line found =>
    located line ("invalid statement starting with '" ++ found ++ "'.")
  | invalidLiteral line lexeme => located line ("invalid literal '" ++ lexeme ++ "'.")

end ParseError
end Betik
