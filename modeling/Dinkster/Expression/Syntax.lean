import Mathlib

/-!
# Expressions

The tokens and the syntax trees of mirrored expressions.  Numbers are whatever the tokenizer
reads them as, and a token sequence is listed without the `end` token that closes it.
-/

namespace Dinkster.Expression

/-- The operator texts the tokenizer emits. -/
inductive Symbol where
  | doubleStar
  | doubleSlash
  | shiftLeft
  | shiftRight
  | lessEqual
  | greaterEqual
  | equal
  | notEqual
  | plus
  | minus
  | star
  | slash
  | percent
  | less
  | greater
  | bar
  | ampersand
  | caret
  | tilde
  | openParen
  | closeParen
  | openBracket
  | closeBracket
  | comma
  deriving DecidableEq

def Symbol.text : Symbol → String
  | doubleStar => "**"
  | doubleSlash => "//"
  | shiftLeft => "<<"
  | shiftRight => ">>"
  | lessEqual => "<="
  | greaterEqual => ">="
  | equal => "=="
  | notEqual => "!="
  | plus => "+"
  | minus => "-"
  | star => "*"
  | slash => "/"
  | percent => "%"
  | less => "<"
  | greater => ">"
  | bar => "|"
  | ampersand => "&"
  | caret => "^"
  | tilde => "~"
  | openParen => "("
  | closeParen => ")"
  | openBracket => "["
  | closeBracket => "]"
  | comma => ","

inductive Token (Number : Type) where
  | number (value : Number)
  | name (text : String)
  | op (symbol : Symbol)

def keywords : List String :=
  ["if", "else", "and", "or", "not", "True", "False", "None"]

/-- The words Python reserves besides `KEYWORDS`. -/
def otherReservedWords : List String :=
  ["as", "assert", "async", "await", "break", "class", "continue", "def", "del", "elif",
    "except", "finally", "for", "from", "global", "import", "in", "is", "lambda", "nonlocal",
    "pass", "raise", "return", "try", "while", "with", "yield"]

inductive BinOpKind where
  | add
  | sub
  | mul
  | div
  | floorDiv
  | mod
  | pow
  | shl
  | shr
  | bitOr
  | bitAnd
  | bitXor
  deriving DecidableEq

/-- The operator text of a binary operation. -/
def BinOpKind.symbol : BinOpKind → Symbol
  | add => .plus
  | sub => .minus
  | mul => .star
  | div => .slash
  | floorDiv => .doubleSlash
  | mod => .percent
  | pow => .doubleStar
  | shl => .shiftLeft
  | shr => .shiftRight
  | bitOr => .bar
  | bitAnd => .ampersand
  | bitXor => .caret

/-- `UnaryKind`, other than `not`. -/
inductive SignKind where
  | uadd
  | usub
  | invert
  deriving DecidableEq

/-- The operator text of a sign. -/
def SignKind.symbol : SignKind → Symbol
  | uadd => .plus
  | usub => .minus
  | invert => .tilde

/-- The operators of boolean chains. -/
inductive BoolOp where
  | and
  | or
  deriving DecidableEq

/-- The word of a boolean operator. -/
def BoolOp.word : BoolOp → String
  | and => "and"
  | or => "or"

inductive CompareKind where
  | eq
  | ne
  | lt
  | le
  | gt
  | ge
  deriving DecidableEq

/-- The operator text of a comparison. -/
def CompareKind.symbol : CompareKind → Symbol
  | eq => .equal
  | ne => .notEqual
  | lt => .less
  | le => .lessEqual
  | gt => .greater
  | ge => .greaterEqual

inductive Constant (Number : Type) where
  | number (value : Number)
  | bool (value : Bool)
  | none

inductive AstNode (Number : Type) where
  | const (value : Constant Number)
  | name (id : String)
  | bin (op : BinOpKind) (left right : AstNode Number)
  | sign (op : SignKind) (operand : AstNode Number)
  | not (operand : AstNode Number)
  | bool (op : BoolOp) (values : List (AstNode Number))
  | cmp (left : AstNode Number) (ops : List CompareKind) (comparators : List (AstNode Number))
  | ifexp (test body orelse : AstNode Number)
  | call (func : String) (args : List (AstNode Number))
  | sub (value index : AstNode Number)

mutual

/-- The nodes `ast.walk` visits in a tree: operators and load contexts are nodes too. -/
def AstNode.size {Number : Type} : AstNode Number → Nat
  | .const _ => 1
  | .name _ => 2
  | .bin _ left right => 1 + left.size + 1 + right.size
  | .sign _ operand => 1 + 1 + operand.size
  | .not operand => 1 + 1 + operand.size
  | .bool _ values => 1 + 1 + sizes values
  | .cmp left ops comparators => 1 + left.size + ops.length + sizes comparators
  | .ifexp test body orelse => 1 + test.size + body.size + orelse.size
  | .call _ args => 1 + 2 + sizes args
  | .sub value index => 1 + value.size + index.size + 1

/-- The nodes of several trees. -/
def sizes {Number : Type} : List (AstNode Number) → Nat
  | [] => 0
  | node :: nodes => node.size + sizes nodes

end

theorem sizes_append {Number : Type} (front back : List (AstNode Number)) :
    sizes (front ++ back) = sizes front + sizes back := by
  induction front with
  | nil => simp [sizes]
  | cons node front ih =>
    rw [List.cons_append, sizes, sizes, ih]
    omega

end Dinkster.Expression
