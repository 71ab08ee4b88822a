/-
The patterns of tokens.  A pattern looks at a character and at what follows it,
and says how many of the following characters belong to the token with it, so a
token always has at least one character.  The first pattern of the table that
matches decides.
-/
import Betik.Number.Reader
import Betik.Token.Kind

namespace Betik

/-- The letters of a name: the ASCII ones, the underscore, and the Turkish ones
outside ASCII. -/
def isNameStart (c : Char) : Bool :=
  ('a' ≤ c && c ≤ 'z') || ('A' ≤ c && c ≤ 'Z') || c == '_' ||
    "çğıöşüÇĞİÖŞÜ".toList.contains c

def isNameChar (c : Char) : Bool :=
  isNameStart c || Number.isDigit c

abbrev Pattern :=
  Char → List Char → Option Nat

namespace Pattern

def spelled (spelling : List Char) : Pattern := fun c cs =>
  match spelling with
  | [] => none
  | s :: ss => if s = c ∧ ss.isPrefixOf cs then some ss.length else none

/-- The given spelling as a whole word: a name that merely starts with it does
not match. -/
def word (spelling : List Char) : Pattern := fun c cs => do
  let more ← spelled spelling c cs
  if (cs[more]?).any isNameChar then none else some more

/-- From two question marks to the next two, with none between them. -/
def prompt : Pattern := fun c cs =>
  match c, cs with
  | '?', '?' :: body =>
    let text := body.takeWhile (· ≠ '?')
    if ['?', '?'].isPrefixOf (body.drop text.length) then some (text.length + 3) else none
  | _, _ => none

/-- From an at sign to the end of the line, which stays outside. -/
def comment : Pattern := fun c cs =>
  if c = '@' then some (cs.takeWhile (· ≠ '\n')).length else none

def integer : Pattern := fun c cs =>
  if Number.isDigit c then some (cs.takeWhile Number.isDigit).length else none

def decimal : Pattern := fun c cs => do
  let whole ← integer c cs
  match cs.drop whole with
  | '.' :: d :: ds => return whole + 2 + (← integer d ds)
  | _ => none

/-- From a quotation mark to the next one, over any number of lines.  Nothing in
between is special. -/
def text : Pattern := fun c cs =>
  let body := cs.takeWhile (· ≠ '"')
  if c = '"' ∧ body.length < cs.length then some (body.length + 1) else none

def name : Pattern := fun c cs =>
  if isNameStart c then some (cs.takeWhile isNameChar).length else none

end Pattern

namespace TokenKind

/-- Keywords come first, and signs of two characters before those they start
with. -/
def patterns : List (TokenKind × Pattern) :=
  Keyword.all.map (fun k => (keyword k, Pattern.word k.spelling.toList)) ++
  [(prompt, Pattern.prompt),
    (comment, Pattern.comment),
    (decimal, Pattern.decimal),
    (integer, Pattern.integer),
    (text, Pattern.text)] ++
  ([.operator .equal, .operator .notEqual, .operator .greaterEq, .operator .lessEq,
    .operator .greater, .operator .less, .mark .equals, .operator .add,
    .operator .subtract, .operator .multiply, .operator .divide, .operator .modulo,
    .mark .leftParen, .mark .rightParen, .mark .leftBrace, .mark .rightBrace,
    .mark .dollar, .mark .comma].map fun kind =>
      (kind, Pattern.spelled (kind.spelling?.getD "").toList)) ++
  [(name, Pattern.name)]

/-- The kind of the token that starts with a character, and how many of the
characters after it belong to it; `none` when no pattern matches. -/
def front? (c : Char) (cs : List Char) : Option (TokenKind × Nat) :=
  patterns.findSome? fun (kind, pattern) => (pattern c cs).map (kind, ·)

end TokenKind
end Betik
