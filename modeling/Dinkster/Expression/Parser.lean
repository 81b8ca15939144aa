import Dinkster.Expression.Syntax
import Dinkster.Library.Iterate

/-!
# The expression parser

`Parser` of the mirrored expressions: recursive descent with a counter of syntax nodes.  What
is nested in brackets and after `else` is read by a parser with one unit of fuel less; every
loop and every prefix operator consumes a token, so fuel above the number of tokens is enough.
-/

namespace Dinkster.Expression

open Library

variable {Number : Type}

/-- The fields of `Parser`: the tokens that are left, and the nodes counted so far. -/
structure ParserState (Number : Type) where
  tokens : List (Token Number)
  nodeCount : Nat

namespace ParserState

variable (state : ParserState Number)

def atOp (symbol : Symbol) : Bool :=
  match state.tokens with
  | .op other :: _ => other = symbol
  | _ => false

def atName (text : String) : Bool :=
  match state.tokens with
  | .name other :: _ => other = text
  | _ => false

def advance : ParserState Number :=
  { state with tokens := state.tokens.tail }

/-- `this.nodeCount += nodes`. -/
def count (nodes : Nat) : ParserState Number :=
  { state with nodeCount := state.nodeCount + nodes }

end ParserState

/-- What a parsing function of type `Result` returns. -/
abbrev Parse (Number Result : Type) :=
  ParserState Number → Except Failure (Result × ParserState Number)

def expectOp (symbol : Symbol) (state : ParserState Number) : Except Failure (ParserState Number) :=
  if state.atOp symbol then .ok state.advance
  else .error (.message ("invalid expression: expected \"" ++ symbol.text ++ "\""))

def binaryStep (operators : List BinOpKind) (parseNext : Parse Number (AstNode Number))
    (left : AstNode Number) (state : ParserState Number) :
    Option (Except Failure (AstNode Number × ParserState Number)) :=
  match operators.find? fun op => state.atOp op.symbol with
  | none => none
  | some op => some do
    let (right, state) ← parseNext state.advance
    return (.bin op left right, state.count 2)

def parseBinaryChain (operators : List BinOpKind) (parseNext : Parse Number (AstNode Number))
    (fuel : Nat) : Parse Number (AstNode Number) := fun state => do
  let (left, state) ← parseNext state
  iterate (binaryStep operators parseNext) fuel left state

def boolStep (op : BoolOp) (parseNext : Parse Number (AstNode Number))
    (values : List (AstNode Number)) (state : ParserState Number) :
    Option (Except Failure (List (AstNode Number) × ParserState Number)) :=
  if state.atName op.word then some do
    let (value, state) ← parseNext state.advance
    return (values ++ [value], state)
  else none

def parseBoolChain (op : BoolOp) (parseNext : Parse Number (AstNode Number)) (fuel : Nat) :
    Parse Number (AstNode Number) := fun state => do
  let (first, state) ← parseNext state
  let (values, state) ← iterate (boolStep op parseNext) fuel [first] state
  match values with
  | [value] => return (value, state)
  | values => return (.bool op values, state.count 2)

def parseAtom (parseTernary : Parse Number (AstNode Number)) : Parse Number (AstNode Number) :=
  fun state =>
    match state.tokens with
    | .number value :: _ => .ok (.const (.number value), state.advance.count 1)
    | .name text :: _ =>
      if text = "True" ∨ text = "False" then
        .ok (.const (.bool (text = "True")), state.advance.count 1)
      else if text = "None" then .ok (.const .none, state.advance.count 1)
      else if text ∈ keywords then
        .error (.message ("invalid expression: unexpected keyword " ++ text))
      else .ok (.name text, state.advance.count 2)
    | .op .openParen :: _ => do
      let (inner, state) ← parseTernary state.advance
      if state.atOp .comma then
        .error (.message "expression syntax Tuple is not allowed")
      else do
        let state ← expectOp .closeParen state
        return (inner, state)
    | .op .openBracket :: _ => .error (.message "expression syntax List is not allowed")
    | _ => .error (.message "invalid expression: unexpected token")

/-- The next argument of a call, or the end after a trailing comma. -/
def argumentStep (parseTernary : Parse Number (AstNode Number)) (args : List (AstNode Number))
    (state : ParserState Number) :
    Option (Except Failure (List (AstNode Number) × ParserState Number)) :=
  if state.atOp .comma then
    if state.advance.atOp .closeParen then some (.ok (args, state.advance))
    else some do
      let (arg, state) ← parseTernary state.advance
      return (args ++ [arg], state)
  else none

def parseArguments (parseTernary : Parse Number (AstNode Number)) (fuel : Nat) :
    Parse Number (List (AstNode Number)) := fun state =>
  if state.atOp .closeParen then .ok ([], state)
  else do
    let (arg, state) ← parseTernary state
    iterate (argumentStep parseTernary) fuel [arg] state

/-- A call of what has been read, which must be a name. -/
def parseCall (parseTernary : Parse Number (AstNode Number)) (fuel : Nat)
    (node : AstNode Number) : Parse Number (AstNode Number) := fun state =>
  match node with
  | .name func => do
    let (args, state) ← parseArguments parseTernary fuel state.advance
    let state ← expectOp .closeParen state
    return (.call func args, state.count 1)
  | _ => .error (.message "only direct function calls without keyword arguments are allowed")

/-- The next call or subscript of a postfix expression. -/
def postfixStep (parseTernary : Parse Number (AstNode Number)) (fuel : Nat)
    (node : AstNode Number) (state : ParserState Number) :
    Option (Except Failure (AstNode Number × ParserState Number)) :=
  if state.atOp .openParen then some (parseCall parseTernary fuel node state)
  else if state.atOp .openBracket then some do
    let (index, state) ← parseTernary state.advance
    let state ← expectOp .closeBracket state
    return (.sub node index, state.count 2)
  else none

def parsePostfix (parseTernary : Parse Number (AstNode Number)) (fuel : Nat) :
    Parse Number (AstNode Number) := fun state => do
  let (node, state) ← parseAtom parseTernary state
  iterate (postfixStep parseTernary fuel) fuel node state

def ParserState.sign? (state : ParserState Number) : Option SignKind :=
  [SignKind.uadd, .usub, .invert].find? fun op => state.atOp op.symbol

def parsePower (parseTernary parseUnary : Parse Number (AstNode Number)) (fuel : Nat) :
    Parse Number (AstNode Number) := fun state => do
  let (base, state) ← parsePostfix parseTernary fuel state
  if state.atOp .doubleStar then do
    let (exponent, state) ← parseUnary state.advance
    return (.bin .pow base exponent, state.count 2)
  else return (base, state)

def parseUnary (parseTernary : Parse Number (AstNode Number)) : Nat → Parse Number (AstNode Number)
  | 0, _ => .error .outOfFuel
  | fuel + 1, state =>
    match state.sign? with
    | some op => do
      let (operand, state) ← parseUnary parseTernary fuel state.advance
      return (.sign op operand, state.count 2)
    | none => parsePower parseTernary (parseUnary parseTernary fuel) fuel state

def parseTerm (parseTernary : Parse Number (AstNode Number)) (fuel : Nat) :
    Parse Number (AstNode Number) :=
  parseBinaryChain [.mul, .div, .floorDiv, .mod] (parseUnary parseTernary (fuel + 1)) fuel

def parseArith (parseTernary : Parse Number (AstNode Number)) (fuel : Nat) :
    Parse Number (AstNode Number) :=
  parseBinaryChain [.add, .sub] (parseTerm parseTernary fuel) fuel

def parseShift (parseTernary : Parse Number (AstNode Number)) (fuel : Nat) :
    Parse Number (AstNode Number) :=
  parseBinaryChain [.shl, .shr] (parseArith parseTernary fuel) fuel

def parseBitAnd (parseTernary : Parse Number (AstNode Number)) (fuel : Nat) :
    Parse Number (AstNode Number) :=
  parseBinaryChain [.bitAnd] (parseShift parseTernary fuel) fuel

def parseBitXor (parseTernary : Parse Number (AstNode Number)) (fuel : Nat) :
    Parse Number (AstNode Number) :=
  parseBinaryChain [.bitXor] (parseBitAnd parseTernary fuel) fuel

def parseBitOr (parseTernary : Parse Number (AstNode Number)) (fuel : Nat) :
    Parse Number (AstNode Number) :=
  parseBinaryChain [.bitOr] (parseBitXor parseTernary fuel) fuel

def ParserState.compare? (state : ParserState Number) : Option CompareKind :=
  [CompareKind.eq, .ne, .lt, .le, .gt, .ge].find? fun kind => state.atOp kind.symbol

def compareStep (parseNext : Parse Number (AstNode Number))
    (read : List CompareKind × List (AstNode Number)) (state : ParserState Number) :
    Option (Except Failure ((List CompareKind × List (AstNode Number)) × ParserState Number)) :=
  match state.compare? with
  | none => none
  | some kind => some do
    let (comparator, state) ← parseNext state.advance
    return ((read.1 ++ [kind], read.2 ++ [comparator]), state)

def parseComparison (parseTernary : Parse Number (AstNode Number)) (fuel : Nat) :
    Parse Number (AstNode Number) := fun state => do
  let (left, state) ← parseBitOr parseTernary fuel state
  let (read, state) ← iterate (compareStep (parseBitOr parseTernary fuel)) fuel ([], []) state
  if read.1 = [] then return (left, state)
  else return (.cmp left read.1 read.2, state.count (1 + read.1.length))

def parseNot (parseTernary : Parse Number (AstNode Number)) : Nat → Parse Number (AstNode Number)
  | 0, _ => .error .outOfFuel
  | fuel + 1, state =>
    if state.atName "not" then do
      let (operand, state) ← parseNot parseTernary fuel state.advance
      return (.not operand, state.count 2)
    else parseComparison parseTernary fuel state

def parseAnd (parseTernary : Parse Number (AstNode Number)) (fuel : Nat) :
    Parse Number (AstNode Number) :=
  parseBoolChain .and (parseNot parseTernary (fuel + 1)) fuel

def parseOr (parseTernary : Parse Number (AstNode Number)) (fuel : Nat) :
    Parse Number (AstNode Number) :=
  parseBoolChain .or (parseAnd parseTernary fuel) fuel

def parseTernary : Nat → Parse Number (AstNode Number)
  | 0, _ => .error .outOfFuel
  | fuel + 1, state => do
    let (body, state) ← parseOr (parseTernary fuel) fuel state
    if state.atName "if" then do
      let (test, state) ← parseOr (parseTernary fuel) fuel state.advance
      if state.atName "else" then do
        let (orelse, state) ← parseTernary fuel state.advance
        return (.ifexp test body orelse, state.count 1)
      else .error (.message "invalid expression: expected \"else\"")
    else return (body, state)

/-- `parseExpression` of a new parser, with the final `nodeCount`. -/
def parseExpression (tokens : List (Token Number)) : Except Failure (AstNode Number × Nat) := do
  let (node, state) ← parseTernary (tokens.length + 1) ⟨tokens, 1⟩
  if state.tokens = [] then return (node, state.nodeCount)
  else .error (.message "invalid expression: unexpected trailing input")

end Dinkster.Expression
