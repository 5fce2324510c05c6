import Ginti.Fault
import Ginti.Pattern
import Ginti.Token
import Ginti.Vocabulary

namespace Ginti

/-- The rules that recognise lexemes. A rule sees only the text in front of it. -/
inductive Rule where
  | lineComment
  | blockComment
  | stringLiteral
  | charLiteral
  | number
  | operator
  | separator
  | keyword
  | identifier
  deriving DecidableEq, Repr

/-- The rules that match a pattern at once. The others look at the text first, for a quote or
    for a spelling. -/
def Rule.isPattern : Rule → Bool
  | lineComment | blockComment | number | identifier => true
  | stringLiteral | charLiteral | operator | separator | keyword => false

/-- What a rule says about the text in front of it. -/
inductive Verdict where
  /-- The rule does not apply. -/
  | pass
  /-- The text starts with a lexeme of this category. -/
  | accept (category : Category) (lexeme : List Char)
  /-- The text starts like a lexeme of the rule but is not one. -/
  | reject (fault : Fault)
  deriving DecidableEq, Repr

/-- The order in which rules are tried, and the order in which each of the fixed vocabularies is
    searched. -/
structure Precedence where
  rules : List Rule
  keywords : List Keyword
  operators : List Operator
  separators : List Separator
  deriving DecidableEq, Repr

/-- The order that defines the language. Comments come before operators because both start with
    a slash, and keywords before identifiers because a keyword in lower case is also a valid
    identifier. -/
def Precedence.standard : Precedence where
  rules :=
    [.lineComment, .blockComment, .stringLiteral, .charLiteral, .number, .operator, .separator,
      .keyword, .identifier]
  keywords := Keyword.all
  operators := Operator.all
  separators := Separator.all

namespace Verdict

/-- A match is accepted; without one the rule does not apply. -/
def ofMatch (category : Category) : Option (List Char) → Verdict
  | some lexeme => accept category lexeme
  | none => pass

/-- An opening quote commits to its literal, so a text that starts with the quote is either a
    literal or a fault. -/
def ofLiteral (quote : Char) (category : Category) (pattern : Pattern) (fault : Fault)
    (text : List Char) : Verdict :=
  if text.head? = some quote then
    match pattern.match? text with
    | some lexeme => accept category lexeme
    | none => reject fault
  else pass

/-- The first spelling that the text starts with is accepted. There is no word boundary: what
    follows the spelling does not matter. -/
def ofSpelling (category : Category) (spellings : List String) (text : List Char) : Verdict :=
  ofMatch category ((firstSpelling? spellings text).map String.toList)

end Verdict

/-- What one rule says. -/
def Rule.judge (order : Precedence) : Rule → List Char → Verdict
  | lineComment, text => .ofMatch .comment (Pattern.lineComment.match? text)
  | blockComment, text => .ofMatch .comment (Pattern.blockComment.match? text)
  | stringLiteral, text => .ofLiteral '"' .stringLiteral .stringLiteral .unterminatedString text
  | charLiteral, text => .ofLiteral '\'' .charLiteral .charLiteral .invalidChar text
  | number, text => .ofMatch .number (Pattern.number.match? text)
  | operator, text => .ofSpelling .operator (order.operators.map Operator.spelling) text
  | separator, text => .ofSpelling .separator (order.separators.map Separator.spelling) text
  | keyword, text => .ofSpelling .keyword (order.keywords.map Keyword.spelling) text
  | identifier, text => .ofMatch .identifier (Pattern.identifier.match? text)

namespace Precedence

/-- What the first of some rules that applies says. -/
def firstVerdict (order : Precedence) (text : List Char) : List Rule → Verdict
  | [] => .pass
  | rule :: rules =>
    match rule.judge order text with
    | .pass => firstVerdict order text rules
    | verdict => verdict

/-- What the rules together say, in their order. -/
def judge (order : Precedence) (text : List Char) : Verdict :=
  order.firstVerdict text order.rules

end Precedence
end Ginti
