/-
The kinds of token.  A kind is either a fixed word or sign of the language, which
is spelled in one way, or a class of lexemes.
-/
import Betik.Operator

namespace Betik

inductive DataType
  | integer
  | decimal
  | text
  | boolean
deriving DecidableEq, Repr

namespace DataType

def all : List DataType :=
  [integer, decimal, text, boolean]

def word : DataType → String
  | integer => "tamsayı"
  | decimal => "ondalık"
  | text => "yazı"
  | boolean => "mantıksal"

theorem mem_all (t : DataType) : t ∈ all := by
  cases t <;> decide

end DataType

/-- How a truth value is written, in programs and in their output. -/
def truthWord (b : Bool) : String :=
  if b then "doğru" else "yanlış"

inductive Keyword
  | declare
  | typed
  | initially
  | cond
  | otherwise
  | loop
  | again
  | print
  | function
  | ret
  | truth (b : Bool)
  | connective (c : Connective)
  | dataType (t : DataType)
deriving DecidableEq, Repr

namespace Keyword

def all : List Keyword :=
  [declare, typed, initially, cond, otherwise, loop, again, print, function, ret,
    truth true, truth false, connective .or, connective .and] ++ DataType.all.map dataType

def spelling : Keyword → String
  | declare => "tanımla"
  | typed => "tür"
  | initially => "başlangıç"
  | cond => "ise"
  | otherwise => "değilse"
  | loop => "böyleyken"
  | again => "tekrar"
  | print => "yazdır"
  | function => "fonksiyon"
  | ret => "dön"
  | truth b => truthWord b
  | connective c => c.symbol
  | dataType t => t.word

/-- The name under which a listing of tokens shows the word. -/
def name : Keyword → String
  | declare => "Declare"
  | typed => "TypeOf"
  | initially => "Begin"
  | cond => "If"
  | otherwise => "Else"
  | loop => "While"
  | again => "Repeat"
  | print => "Print"
  | function => "Function"
  | ret => "Return"
  | truth true => "True"
  | truth false => "False"
  | connective .and => "And"
  | connective .or => "Or"
  | dataType .integer => "IntegerType"
  | dataType .decimal => "FloatType"
  | dataType .text => "TextType"
  | dataType .boolean => "BooleanType"

theorem mem_all (k : Keyword) : k ∈ all := by
  cases k with
  | truth b => cases b <;> decide
  | connective c => cases c <;> decide
  | dataType t => exact List.mem_append_right _ (List.mem_map_of_mem t.mem_all)
  | _ => decide

end Keyword

/-- The signs that are not operators. -/
inductive Mark
  | equals
  | leftParen
  | rightParen
  | leftBrace
  | rightBrace
  | dollar
  | comma
deriving DecidableEq, Repr

namespace Mark

def all : List Mark :=
  [equals, leftParen, rightParen, leftBrace, rightBrace, dollar, comma]

def spelling : Mark → String
  | equals => "="
  | leftParen => "("
  | rightParen => ")"
  | leftBrace => "\x7b"
  | rightBrace => "\x7d"
  | dollar => "$"
  | comma => ","

def name : Mark → String
  | equals => "Equals"
  | leftParen => "LeftParen"
  | rightParen => "RightParen"
  | leftBrace => "LeftBrace"
  | rightBrace => "RightBrace"
  | dollar => "Dollar"
  | comma => "Comma"

theorem mem_all (m : Mark) : m ∈ all := by
  cases m <;> decide

end Mark

namespace Operator

def name : Operator → String
  | add => "Plus"
  | subtract => "Minus"
  | multiply => "Asterisk"
  | divide => "Slash"
  | modulo => "Percent"
  | equal => "DoubleEq"
  | notEqual => "BangEq"
  | greater => "RightAngle"
  | greaterEq => "RightAngleEq"
  | less => "LeftAngle"
  | lessEq => "LeftAngleEq"

end Operator

/-- The kinds of token.  Source that starts no token is of an unknown kind. -/
inductive TokenKind
  | keyword (word : Keyword)
  | operator (op : Operator)
  | mark (sign : Mark)
  | integer
  | decimal
  | text
  | prompt
  | comment
  | name
  | endOfFile
  | unknown
deriving DecidableEq, Repr

namespace TokenKind

def all : List TokenKind :=
  Keyword.all.map keyword ++ Operator.all.map operator ++ Mark.all.map mark ++
    [integer, decimal, text, prompt, comment, name, endOfFile, unknown]

def spelling? : TokenKind → Option String
  | keyword word => some word.spelling
  | operator op => some op.symbol
  | mark sign => some sign.spelling
  | _ => none

def describe : TokenKind → String
  | keyword word => word.spelling
  | operator op => op.symbol
  | mark sign => sign.spelling
  | integer => "integer literal"
  | decimal => "float literal"
  | text => "string literal"
  | prompt => "input prompt"
  | comment => "comment"
  | name => "identifier"
  | endOfFile => "end of file"
  | unknown => "invalid character"

def label : TokenKind → String
  | keyword word => word.name
  | operator op => op.name
  | mark sign => sign.name
  | integer => "Integer"
  | decimal => "Float"
  | text => "String"
  | prompt => "InputPrompt"
  | comment => "Comment"
  | name => "Identifier"
  | endOfFile => "EndOfFile"
  | unknown => "Error"

def joiner? : TokenKind → Option Joiner
  | operator op => some (.operator op)
  | keyword (.connective c) => some (.connective c)
  | _ => none

theorem mem_all (kind : TokenKind) : kind ∈ all := by
  simp only [all, List.mem_append]
  cases kind with
  | keyword word => exact .inl (.inl (.inl (List.mem_map_of_mem word.mem_all)))
  | operator op => exact .inl (.inl (.inr (List.mem_map_of_mem op.mem_all)))
  | mark sign => exact .inl (.inr (List.mem_map_of_mem sign.mem_all))
  | _ => exact .inr (by simp)

end TokenKind
end Betik
