import Dinkster.Expression.Syntax

/-!
# The grammar of expressions

Python's grammar of `eval` input, restricted to the constructs a tree can represent.  Its
nonterminals are levels of precedence, and what a token sequence derives to is a tree.  Which
words are names is a parameter.
-/

namespace Dinkster.Expression

open List

variable {Number : Type}

/-- The nonterminals, from the loosest to the tightest. -/
inductive Level where
  | expression
  | disjunction
  | conjunction
  | inversion
  | comparison
  | bitOr
  | bitXor
  | bitAnd
  | shift
  | sum
  | term
  | factor
  | power
  | primary
  | atom
  deriving DecidableEq

namespace Level

def next : Level → Option Level
  | expression => some disjunction
  | disjunction => some conjunction
  | conjunction => some inversion
  | inversion => some comparison
  | comparison => some bitOr
  | bitOr => some bitXor
  | bitXor => some bitAnd
  | bitAnd => some shift
  | shift => some sum
  | sum => some term
  | term => some factor
  | factor => some power
  | power => some primary
  | primary => some atom
  | atom => none

def rank : Level → Nat
  | expression => 1
  | disjunction => 2
  | conjunction => 3
  | inversion => 4
  | comparison => 5
  | bitOr => 6
  | bitXor => 7
  | bitAnd => 8
  | shift => 9
  | sum => 10
  | term => 11
  | factor => 12
  | power => 13
  | primary => 14
  | atom => 15

def operators : Level → List BinOpKind
  | bitOr => [.bitOr]
  | bitXor => [.bitXor]
  | bitAnd => [.bitAnd]
  | shift => [.shl, .shr]
  | sum => [.add, .sub]
  | term => [.mul, .div, .floorDiv, .mod]
  | _ => []

end Level

/-- The level of a boolean chain. -/
def BoolOp.level : BoolOp → Level
  | and => .conjunction
  | or => .disjunction

/-- The level of the values of a boolean chain. -/
def BoolOp.operand : BoolOp → Level
  | and => .inversion
  | or => .conjunction

/-- What a token sequence may derive to. -/
inductive Phrase (Number : Type) where
  | tree (level : Level) (node : AstNode Number)
  /-- The values of a boolean chain after the first, each with its operator. -/
  | operands (op : BoolOp) (values : List (AstNode Number))
  /-- The comparators after the left side, each with its operator. -/
  | comparisons (ops : List CompareKind) (comparators : List (AstNode Number))
  /-- The arguments between the parentheses of a call. -/
  | arguments (args : List (AstNode Number))

/-- The derivations of the grammar. -/
inductive Derives (isName : String → Prop) : Phrase Number → List (Token Number) → Prop where
  | lift {level tighter : Level} {node : AstNode Number} {tokens : List (Token Number)}
      (next : level.next = some tighter) (inner : Derives isName (.tree tighter node) tokens) :
      Derives isName (.tree level node) tokens
  | conditional {body test orelse : AstNode Number} {before middle after : List (Token Number)}
      (first : Derives isName (.tree .disjunction body) before)
      (second : Derives isName (.tree .disjunction test) middle)
      (third : Derives isName (.tree .expression orelse) after) :
      Derives isName (.tree .expression (.ifexp test body orelse))
        (before ++ .name "if" :: (middle ++ .name "else" :: after))
  | boolean {level : Level} {op : BoolOp} {value : AstNode Number}
      {values : List (AstNode Number)} {before after : List (Token Number)}
      (leveled : op.level = level) (first : Derives isName (.tree op.operand value) before)
      (others : Derives isName (.operands op values) after) (more : values ≠ []) :
      Derives isName (.tree level (.bool op (value :: values))) (before ++ after)
  | noOperands {op : BoolOp} : Derives isName (.operands op []) []
  | moreOperands {op : BoolOp} {value : AstNode Number} {values : List (AstNode Number)}
      {before after : List (Token Number)}
      (first : Derives isName (.tree op.operand value) before)
      (others : Derives isName (.operands op values) after) :
      Derives isName (.operands op (value :: values)) (.name op.word :: (before ++ after))
  | negation {node : AstNode Number} {tokens : List (Token Number)}
      (inner : Derives isName (.tree .inversion node) tokens) :
      Derives isName (.tree .inversion (.not node)) (.name "not" :: tokens)
  | comparison {left : AstNode Number} {ops : List CompareKind}
      {comparators : List (AstNode Number)} {before after : List (Token Number)}
      (first : Derives isName (.tree .bitOr left) before)
      (others : Derives isName (.comparisons ops comparators) after) (more : ops ≠ []) :
      Derives isName (.tree .comparison (.cmp left ops comparators)) (before ++ after)
  | noComparisons : Derives isName (.comparisons [] []) []
  | moreComparisons {kind : CompareKind} {comparator : AstNode Number} {ops : List CompareKind}
      {comparators : List (AstNode Number)} {before after : List (Token Number)}
      (first : Derives isName (.tree .bitOr comparator) before)
      (others : Derives isName (.comparisons ops comparators) after) :
      Derives isName (.comparisons (kind :: ops) (comparator :: comparators))
        (.op kind.symbol :: (before ++ after))
  | binary {level tighter : Level} {op : BinOpKind} {left right : AstNode Number}
      {before after : List (Token Number)} (listed : op ∈ level.operators)
      (next : level.next = some tighter) (first : Derives isName (.tree level left) before)
      (second : Derives isName (.tree tighter right) after) :
      Derives isName (.tree level (.bin op left right)) (before ++ .op op.symbol :: after)
  | sign {op : SignKind} {node : AstNode Number} {tokens : List (Token Number)}
      (inner : Derives isName (.tree .factor node) tokens) :
      Derives isName (.tree .factor (.sign op node)) (.op op.symbol :: tokens)
  | power {base exponent : AstNode Number} {before after : List (Token Number)}
      (first : Derives isName (.tree .primary base) before)
      (second : Derives isName (.tree .factor exponent) after) :
      Derives isName (.tree .power (.bin .pow base exponent))
        (before ++ .op .doubleStar :: after)
  | call {func : String} {args : List (AstNode Number)} {before inside : List (Token Number)}
      (callee : Derives isName (.tree .primary (.name func)) before)
      (others : Derives isName (.arguments args) inside) :
      Derives isName (.tree .primary (.call func args))
        (before ++ .op .openParen :: (inside ++ [.op .closeParen]))
  | trailingComma {func : String} {args : List (AstNode Number)}
      {before inside : List (Token Number)}
      (callee : Derives isName (.tree .primary (.name func)) before)
      (others : Derives isName (.arguments args) inside) (some : args ≠ []) :
      Derives isName (.tree .primary (.call func args))
        (before ++ .op .openParen :: (inside ++ [.op .comma, .op .closeParen]))
  | noArguments : Derives isName (.arguments []) []
  | firstArgument {arg : AstNode Number} {tokens : List (Token Number)}
      (inner : Derives isName (.tree .expression arg) tokens) :
      Derives isName (.arguments [arg]) tokens
  | moreArguments {arg : AstNode Number} {args : List (AstNode Number)}
      {before after : List (Token Number)} (others : Derives isName (.arguments args) before)
      (some : args ≠ []) (last : Derives isName (.tree .expression arg) after) :
      Derives isName (.arguments (args ++ [arg])) (before ++ .op .comma :: after)
  | subscript {value index : AstNode Number} {before inside : List (Token Number)}
      (first : Derives isName (.tree .primary value) before)
      (second : Derives isName (.tree .expression index) inside) :
      Derives isName (.tree .primary (.sub value index))
        (before ++ .op .openBracket :: (inside ++ [.op .closeBracket]))
  | number {value : Number} :
      Derives isName (.tree .atom (.const (.number value))) [.number value]
  | true : Derives isName (.tree .atom (.const (.bool Bool.true))) [.name "True"]
  | false : Derives isName (.tree .atom (.const (.bool Bool.false))) [.name "False"]
  | none : Derives isName (.tree .atom (.const .none)) [.name "None"]
  | name {text : String} (named : isName text) :
      Derives isName (.tree .atom (.name text)) [.name text]
  | group {node : AstNode Number} {inside : List (Token Number)}
      (inner : Derives isName (.tree .expression node) inside) :
      Derives isName (.tree .atom node) (.op .openParen :: (inside ++ [.op .closeParen]))

variable {isName : String → Prop}

/-- The tightest level whose phrases a token may begin, by rank. -/
def Token.opening : Token Number → Nat
  | .number _ => 15
  | .name text => if text = "not" then 4 else if text ∈ ["if", "else", "and", "or"] then 0 else 15
  | .op symbol =>
    match symbol with
    | .plus | .minus | .tilde => 12
    | .openParen => 15
    | _ => 0

theorem opening_of_isName (spelled : ∀ text, isName text → text ∉ keywords) {text : String}
    (named : isName text) : (Token.name text : Token Number).opening = 15 := by
  have free := spelled text named
  simp only [keywords, mem_cons, not_mem_nil, or_false, not_or] at free
  simp only [Token.opening, mem_cons, not_mem_nil, or_false]
  rw [if_neg free.2.2.2.2.1, if_neg (by tauto)]

theorem rank_of_next {level tighter : Level} (next : level.next = some tighter) :
    tighter.rank = level.rank + 1 := by
  cases level <;> cases next <;> rfl

theorem rank_le (level : Level) : level.rank ≤ 15 := by
  cases level <;> decide

variable {phrase : Phrase Number}

theorem opening_of_derives (spelled : ∀ text, isName text → text ∉ keywords)
    {tokens : List (Token Number)} (derives : Derives isName phrase tokens) :
    ∀ {level : Level} {node : AstNode Number}, phrase = .tree level node →
      ∃ token more, tokens = token :: more ∧ level.rank ≤ token.opening := by
  induction derives with
  | lift next _ ih =>
    rintro level node ⟨⟩
    obtain ⟨token, more, rfl, opens⟩ := ih rfl
    have := rank_of_next next
    exact ⟨token, more, rfl, by omega⟩
  | conditional _ _ _ ih _ _ | comparison _ _ _ ih _ | power _ _ ih _ =>
    rintro level node ⟨⟩
    obtain ⟨token, more, rfl, opens⟩ := ih rfl
    exact ⟨token, _, rfl, Nat.le_trans (by decide) opens⟩
  | @boolean _ op _ _ _ _ leveled _ _ _ ih _ =>
    rintro level node ⟨⟩
    obtain ⟨token, more, rfl, opens⟩ := ih rfl
    subst leveled
    exact ⟨token, _, rfl, Nat.le_trans (by cases op <;> decide) opens⟩
  | binary _ _ _ _ ih _ | call _ _ ih _ | trailingComma _ _ _ ih _ | subscript _ _ ih _ =>
    rintro level node ⟨⟩
    obtain ⟨token, more, rfl, opens⟩ := ih rfl
    exact ⟨token, _, rfl, opens⟩
  | name named =>
    rintro level node ⟨⟩
    exact ⟨_, _, rfl, by rw [opening_of_isName spelled named]; exact rank_le _⟩
  | negation | number | true | false | none | group =>
    rintro level node ⟨⟩
    exact ⟨_, _, rfl, by simp [Token.opening, Level.rank]⟩
  | @sign op =>
    rintro level node ⟨⟩
    exact ⟨_, _, rfl, by cases op <;> simp [SignKind.symbol, Token.opening, Level.rank]⟩
  | noOperands | moreOperands | noComparisons | moreComparisons
  | noArguments | firstArgument | moreArguments => exact nofun

variable {back front rest : List (Token Number)}

theorem moreOperands_last {op : BoolOp} (derives : Derives isName phrase front)
    {value : AstNode Number} (last : Derives isName (.tree op.operand value) back) :
    ∀ {values : List (AstNode Number)}, phrase = .operands op values →
      Derives isName (.operands op (values ++ [value])) (front ++ .name op.word :: back) := by
  induction derives with
  | noOperands =>
    rintro values ⟨⟩
    have one := Derives.moreOperands last .noOperands
    rwa [append_nil] at one
  | moreOperands first _ _ ih =>
    rintro values ⟨⟩
    have rest := Derives.moreOperands first (ih rfl)
    simpa using rest
  | _ => exact nofun

theorem moreComparisons_last (derives : Derives isName phrase front) {kind : CompareKind}
    {comparator : AstNode Number} (last : Derives isName (.tree .bitOr comparator) back) :
    ∀ {ops : List CompareKind} {comparators : List (AstNode Number)},
      phrase = .comparisons ops comparators →
        Derives isName (.comparisons (ops ++ [kind]) (comparators ++ [comparator]))
          (front ++ .op kind.symbol :: back) := by
  induction derives with
  | noComparisons =>
    rintro ops comparators ⟨⟩
    have one := @Derives.moreComparisons _ _ kind _ _ _ _ _ last .noComparisons
    rwa [append_nil] at one
  | @moreComparisons other _ _ _ _ _ first _ _ ih =>
    rintro ops comparators ⟨⟩
    have rest := @Derives.moreComparisons _ _ other _ _ _ _ _ first (ih rfl)
    simpa using rest
  | _ => exact nofun

/-- How tightly a token continues what is before it. -/
def Token.binding : Token Number → Nat
  | .number _ => 0
  | .name text => if text = "if" then 1 else if text = "or" then 2 else if text = "and" then 3 else 0
  | .op symbol =>
    match symbol with
    | .less | .lessEqual | .greater | .greaterEqual | .equal | .notEqual => 5
    | .bar => 6
    | .caret => 7
    | .ampersand => 8
    | .shiftLeft | .shiftRight => 9
    | .plus | .minus => 10
    | .star | .slash | .doubleSlash | .percent => 11
    | .doubleStar => 13
    | .openParen | .openBracket => 14
    | .tilde | .closeParen | .closeBracket | .comma => 0

variable (rank : Nat)

/-- What follows a phrase of a rank does not continue it. -/
def Follows (rest : List (Token Number)) : Prop :=
  ∀ token ∈ rest.head?, token.binding < rank

theorem Follows.mono {rank tighter : Nat} (follows : Follows rank rest) (less : rank ≤ tighter) :
    Follows tighter rest :=
  fun token listed => Nat.lt_of_lt_of_le (follows token listed) less

@[simp] theorem follows_nil : Follows rank ([] : List (Token Number)) := by
  intro token listed
  cases listed

@[simp] theorem follows_cons (token : Token Number) (rest : List (Token Number)) :
    Follows rank (token :: rest) ↔ token.binding < rank := by
  constructor
  · intro follows
    exact follows token rfl
  · intro less other listed
    cases listed
    exact less

/-- Every token binds looser than an atom, and none as a sign does. -/
theorem binding_bounds (token : Token Number) : token.binding < 15 ∧ token.binding ≠ 12 := by
  cases token with
  | number => simp [Token.binding]
  | name text =>
    simp only [Token.binding]
    split
    · simp
    · split
      · simp
      · split <;> simp
  | op symbol => cases symbol <;> simp [Token.binding]

theorem Follows.atom (rest : List (Token Number)) : Follows Level.atom.rank rest :=
  fun token _ => (binding_bounds token).1

theorem Follows.loosen (follows : Follows Level.power.rank rest) :
    Follows Level.factor.rank rest := by
  intro token listed
  have less := follows token listed
  have differs := (binding_bounds token).2
  simp only [Level.rank] at less ⊢
  omega

end Dinkster.Expression
