import Timeline.Expression.Token

/-! # Grammar of expressions

The grammar as data: ordered choice, greedy repetition, and spaces between the parts of a sequence.
It is what an error at a place that cannot be read is described in. -/
namespace Timeline

/-- The named rules, in the order in which a message lists them. -/
inductive Rule
  | endOfInput
  | expression
  | expr
  | lambda
  | conditional
  | logicOr
  | logicAnd
  | equality
  | comparison
  | additive
  | multiplicative
  | unary
  | accessed
  | member
  | index
  | call
  | primary
  | orOp
  | andOp
  | equalityOp
  | comparisonOp
  | additiveOp
  | multiplicativeOp
  | unaryOp
  | keyword
  | identifier
  | number
  | string
  | doubleQuoted
  | singleQuoted
  deriving DecidableEq, Repr

namespace Rule

def all : List Rule :=
  [endOfInput, expression, expr, lambda, conditional, logicOr, logicAnd, equality, comparison,
    additive, multiplicative, unary, accessed, member, index, call, primary, orOp, andOp,
    equalityOp, comparisonOp, additiveOp, multiplicativeOp, unaryOp, keyword, identifier, number,
    string, doubleQuoted, singleQuoted]

def name : Rule → String
  | endOfInput => "EOI"
  | expression => "expression"
  | expr => "expr"
  | lambda => "lambda"
  | conditional => "conditional"
  | logicOr => "logic_or"
  | logicAnd => "logic_and"
  | equality => "equality"
  | comparison => "comparison"
  | additive => "additive"
  | multiplicative => "multiplicative"
  | unary => "unary"
  | accessed => "postfix"
  | member => "member"
  | index => "index"
  | call => "call"
  | primary => "primary"
  | orOp => "or_op"
  | andOp => "and_op"
  | equalityOp => "eq_op"
  | comparisonOp => "cmp_op"
  | additiveOp => "add_op"
  | multiplicativeOp => "mul_op"
  | unaryOp => "unary_op"
  | keyword => "keyword_literal"
  | identifier => "IDENT"
  | number => "NUMBER"
  | string => "STRING"
  | doubleQuoted => "dq_inner"
  | singleQuoted => "sq_inner"

end Rule

/-- What a rule is made of. -/
inductive Pattern
  | word (spelling : List Char)
  | char (holds : Char → Bool)
  | rule (r : Rule)
  | sequence (first second : Pattern)
  | choice (first second : Pattern)
  | optional (part : Pattern)
  | many (part : Pattern)
  /-- Further repetitions after a first one. -/
  | more (part : Pattern)
  /-- Matches nothing, and only where the part does not match. -/
  | absent (part : Pattern)
  | finish

/-- Whether spaces may stand between the parts of a rule, and whether failures inside it count. -/
inductive Mode
  | loose
  | tight
  | silent
  deriving DecidableEq, Repr

namespace Pattern

def words (s : String) : Pattern := word s.toList

def sequenceOf : List Pattern → Pattern
  | [] => word []
  | [p] => p
  | p :: ps => sequence p (sequenceOf ps)

def choiceOf : List Pattern → Pattern
  | [] => absent (word [])
  | [p] => p
  | p :: ps => choice p (choiceOf ps)

def atLeastOne (p : Pattern) : Pattern := sequence p (many p)

/-- An operand, then operators of one kind with an operand each. -/
def chain (operand op : Rule) : Pattern :=
  sequence (rule operand) (many (sequence (rule op) (rule operand)))

def spellings (names : List String) : Pattern := choiceOf (names.map words)

def digits : Pattern := atLeastOne (char Char.isDigit)

def inner (quote : Char) : Pattern :=
  many (choice
    (sequence (absent (char fun c => c == quote || c == '\\')) (char fun _ => true))
    (sequence (word ['\\']) (char fun _ => true)))

end Pattern

namespace Rule
open Pattern

def mode : Rule → Mode
  | keyword | identifier | number | doubleQuoted | singleQuoted => .silent
  | string => .tight
  | _ => .loose

def body : Rule → Pattern
  | endOfInput => finish
  | expression => sequenceOf [word [], rule expr, rule endOfInput]
  | expr => choice (rule lambda) (rule conditional)
  | lambda =>
    sequenceOf
      [choice (rule identifier) (sequenceOf [words "(", rule identifier, words ")"]), words "=>",
        rule expr]
  | conditional =>
    sequence (rule logicOr)
      (optional (sequenceOf [words "?", rule expr, words ":", rule expr]))
  | logicOr => chain logicAnd orOp
  | logicAnd => chain equality andOp
  | equality => chain comparison equalityOp
  | comparison => chain additive comparisonOp
  | additive => chain multiplicative additiveOp
  | multiplicative => chain unary multiplicativeOp
  | unary => sequence (many (rule unaryOp)) (rule accessed)
  | accessed => sequence (rule primary) (many (choiceOf [rule member, rule index, rule call]))
  | member => sequence (words ".") (rule identifier)
  | index => sequenceOf [words "[", rule expr, words "]"]
  | call =>
    sequenceOf
      [words "(", optional (sequence (rule expr) (many (sequence (words ",") (rule expr)))),
        words ")"]
  | primary =>
    choiceOf
      [rule number, rule string, rule keyword, rule identifier,
        sequenceOf [words "(", rule expr, words ")"]]
  | orOp => spellings ["||", "??"]
  | andOp => spellings ["&&"]
  | equalityOp => spellings ["===", "!==", "==", "!="]
  | comparisonOp => spellings ["<=", ">=", "<", ">"]
  | additiveOp => spellings ["+", "-"]
  | multiplicativeOp => spellings ["*", "/", "%"]
  | unaryOp => spellings ["!", "-", "+"]
  | keyword =>
    sequence (spellings ["true", "false", "null", "undefined"]) (absent (char Token.isNamePart))
  | identifier => sequence (char Token.isNameStart) (many (char Token.isNamePart))
  | number =>
    sequence
      (choice (sequence digits (optional (sequence (words ".") digits)))
        (sequence (words ".") digits))
      (optional (sequenceOf [spellings ["e", "E"], optional (spellings ["+", "-"]), digits]))
  | string =>
    choice (sequenceOf [words "\"", rule doubleQuoted, words "\""])
      (sequenceOf [words "'", rule singleQuoted, words "'"])
  | doubleQuoted => inner '"'
  | singleQuoted => inner '\''

end Rule

end Timeline
