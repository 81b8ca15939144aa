import Dinkster.Expression.Grammar
import Dinkster.Expression.Parser

/-!
# What the parser accepts is derivable

Every parsing function consumes tokens its result derives from and counts the nodes of its
result.  A loop keeps this of what it has accumulated.
-/

namespace Dinkster.Expression

open Library List
open AstNode (size)

variable {Number : Type}

/-- The words `parseAtom` reads as names. -/
def Spelled (text : String) : Prop :=
  text ∉ keywords

/-- How many tokens are left. -/
def ParserState.left (state : ParserState Number) : Nat :=
  state.tokens.length

variable {state start : ParserState Number} {parseNext : Parse Number (AstNode Number)}

variable {symbol : Symbol} {operators : List BinOpKind}

theorem tokens_of_atOp (head : state.atOp symbol) :
    state.tokens = .op symbol :: state.advance.tokens := by
  obtain ⟨tokens, count⟩ := state
  unfold ParserState.atOp at head
  split at head
  · rename_i other rest listed
    cases of_decide_eq_true head
    simp only at listed
    subst listed
    rfl
  · cases head

theorem not_atOp_of_atOp {other : Symbol} (head : state.atOp symbol = true)
    (differs : symbol ≠ other) : state.atOp other = false := by
  have listed := tokens_of_atOp head
  unfold ParserState.atOp
  rw [listed]
  exact decide_eq_false differs

theorem tokens_of_atName {text : String} (head : state.atName text) :
    state.tokens = .name text :: state.advance.tokens := by
  obtain ⟨tokens, count⟩ := state
  unfold ParserState.atName at head
  split at head
  · rename_i other rest listed
    cases of_decide_eq_true head
    simp only at listed
    subst listed
    rfl
  · cases head

theorem expectOp_eq_ok {later : ParserState Number} :
    expectOp symbol state = .ok later ↔ state.atOp symbol = true ∧ state.advance = later := by
  unfold expectOp
  split <;> simp_all

/-- What is bound succeeds exactly when both parts do. -/
theorem bind_eq_ok {Result Final : Type} {first : Except Failure Result}
    {second : Result → Except Failure Final} {final : Final} :
    (first >>= second) = .ok final ↔ ∃ result, first = .ok result ∧ second result = .ok final := by
  cases first with
  | error failure =>
    constructor
    · exact nofun
    · rintro ⟨result, given, _⟩
      cases given
  | ok result =>
    constructor
    · intro given
      exact ⟨result, rfl, given⟩
    · rintro ⟨same, ⟨⟩, given⟩
      exact given

/-- Between two states the tokens of a phrase are consumed and its nodes are counted. -/
def Reads (phrase : Phrase Number) (nodes : Nat) (state later : ParserState Number) : Prop :=
  ∃ used, state.tokens = used ++ later.tokens ∧ Derives Spelled phrase used ∧
    later.nodeCount = state.nodeCount + nodes

/-- Every tree a parser returns is read at a level. -/
def Sound (level : Level) (parse : Parse Number (AstNode Number)) : Prop :=
  ∀ (state later : ParserState Number) (node : AstNode Number), parse state = .ok (node, later) →
    Reads (.tree level node) node.size state later

theorem Reads.lift {level tighter : Level} {node : AstNode Number} {nodes : Nat}
    {state later : ParserState Number} (reads : Reads (.tree tighter node) nodes state later)
    (next : level.next = some tighter) : Reads (.tree level node) nodes state later := by
  obtain ⟨used, split, derives, counted⟩ := reads
  exact ⟨used, split, .lift next derives, counted⟩

theorem reads_binaryStep {level tighter : Level} (listed : ∀ op ∈ operators, op ∈ level.operators)
    (next : level.next = some tighter) (sound : Sound tighter parseNext) (left : AstNode Number)
    (middle : ParserState Number) (node : AstNode Number) (later : ParserState Number)
    (reads : Reads (.tree level left) left.size start middle)
    (stepped : binaryStep operators parseNext left middle = some (.ok (node, later))) :
    Reads (.tree level node) node.size start later := by
  obtain ⟨used, split, derives, counted⟩ := reads
  unfold binaryStep at stepped
  split at stepped
  · cases stepped
  · rename_i op found
    obtain ⟨⟨right, last⟩, second, given⟩ := bind_eq_ok.mp (Option.some.inj stepped)
    cases given
    obtain ⟨after, split', derives', counted'⟩ := sound _ _ _ second
    have atOp : middle.atOp op.symbol = true := by simpa using find?_some found
    refine ⟨used ++ .op op.symbol :: after, ?_, ?_, ?_⟩
    · rw [split, tokens_of_atOp atOp, split']
      simp [ParserState.count]
    · exact .binary (listed op (mem_of_find?_eq_some found)) next derives derives'
    · simp only [ParserState.count, ParserState.advance, size] at counted' ⊢
      omega

theorem sound_parseBinaryChain {level tighter : Level} (fuel : Nat)
    (listed : ∀ op ∈ operators, op ∈ level.operators) (next : level.next = some tighter)
    (sound : Sound tighter parseNext) :
    Sound level (parseBinaryChain operators parseNext fuel) := by
  intro state later node parsed
  obtain ⟨⟨left, middle⟩, first, looped⟩ := bind_eq_ok.mp parsed
  exact (iterate_ok (reads_binaryStep listed next sound) ((sound _ _ _ first).lift next) looped).1

/-- The values a boolean chain has accumulated: the first one, and the others with their
operators. -/
def ReadsValues (op : BoolOp) (start : ParserState Number) (values : List (AstNode Number))
    (middle : ParserState Number) : Prop :=
  ∃ first others between, values = first :: others ∧
    Reads (.tree op.operand first) first.size start between ∧
    Reads (.operands op others) (sizes others) between middle

theorem reads_boolStep {op : BoolOp} (sound : Sound op.operand parseNext)
    (values : List (AstNode Number)) (middle : ParserState Number) (more : List (AstNode Number))
    (later : ParserState Number) (reads : ReadsValues op start values middle)
    (stepped : boolStep op parseNext values middle = some (.ok (more, later))) :
    ReadsValues op start more later := by
  obtain ⟨first, others, between, rfl, head, used, split, derives, counted⟩ := reads
  unfold boolStep at stepped
  split at stepped
  · rename_i atName
    obtain ⟨⟨value, last⟩, second, given⟩ := bind_eq_ok.mp (Option.some.inj stepped)
    cases given
    obtain ⟨after, split', derives', counted'⟩ := sound _ _ _ second
    refine ⟨first, others ++ [value], between, rfl, head, used ++ .name op.word :: after, ?_,
      moreOperands_last derives derives' rfl, ?_⟩
    · rw [split, tokens_of_atName atName, split']
      simp
    · rw [sizes_append]
      simp only [ParserState.advance, sizes] at counted' ⊢
      omega
  · cases stepped

theorem sound_parseBoolChain {op : BoolOp} {parseNext : Parse Number (AstNode Number)}
    (fuel : Nat) (next : op.level.next = some op.operand) (sound : Sound op.operand parseNext) :
    Sound op.level (parseBoolChain op parseNext fuel) := by
  intro state later node parsed
  obtain ⟨⟨first, middle⟩, one, parsed⟩ := bind_eq_ok.mp parsed
  obtain ⟨⟨values, last⟩, looped, parsed⟩ := bind_eq_ok.mp parsed
  have start : ReadsValues op state [first] middle :=
    ⟨first, [], middle, rfl, sound _ _ _ one, [], rfl, .noOperands, rfl⟩
  obtain ⟨value, others, between, rfl, head, used, split, derives, counted⟩ :=
    (iterate_ok (reads_boolStep sound) start looped).1
  obtain ⟨before, split', derives', counted'⟩ := head
  cases others with
  | nil =>
    cases parsed
    cases derives
    exact ⟨before, by rw [split', split]; rfl, .lift next derives', by
      simp only [sizes] at counted; omega⟩
  | cons other others =>
    cases parsed
    refine ⟨before ++ used, by rw [split', split]; simp [ParserState.count],
      .boolean rfl derives' derives (cons_ne_nil _ _), ?_⟩
    simp only [ParserState.count, size, sizes] at counted ⊢
    omega

/-- The comparisons a chain has accumulated. -/
def ReadsComparisons (start : ParserState Number)
    (read : List CompareKind × List (AstNode Number)) (middle : ParserState Number) : Prop :=
  Reads (.comparisons read.1 read.2) (sizes read.2) start middle

theorem reads_compareStep (operand : Sound .bitOr parseNext)
    (read : List CompareKind × List (AstNode Number)) (middle : ParserState Number)
    (more : List CompareKind × List (AstNode Number)) (later : ParserState Number)
    (reads : ReadsComparisons start read middle)
    (stepped : compareStep parseNext read middle = some (.ok (more, later))) :
    ReadsComparisons start more later := by
  obtain ⟨used, split', derives, counted⟩ := reads
  unfold compareStep at stepped
  split at stepped
  · cases stepped
  · rename_i kind found
    obtain ⟨⟨comparator, last⟩, second, given⟩ := bind_eq_ok.mp (Option.some.inj stepped)
    cases given
    obtain ⟨after, split'', derives', counted'⟩ := operand _ _ _ second
    have atOp : middle.atOp kind.symbol = true := by simpa using find?_some found
    refine ⟨used ++ .op kind.symbol :: after, ?_, moreComparisons_last derives derives' rfl, ?_⟩
    · rw [split', tokens_of_atOp atOp, split'']
      simp
    · rw [sizes_append]
      simp only [ParserState.advance, sizes] at counted' ⊢
      omega

section Nested

variable {parseTernary : Parse Number (AstNode Number)} (sound : Sound .expression parseTernary)

include sound

theorem sound_parseAtom : Sound .atom (parseAtom parseTernary) := by
  rintro ⟨tokens, count⟩ later node parsed
  unfold parseAtom at parsed
  split at parsed
  · rename_i value rest listed
    cases parsed
    simp only at listed
    subst listed
    exact ⟨[.number value], rfl, .number, rfl⟩
  · rename_i text rest listed
    simp only at listed
    subst listed
    split at parsed
    · rename_i word
      cases parsed
      rcases word with rfl | rfl
      · exact ⟨[.name "True"], rfl, .true, rfl⟩
      · exact ⟨[.name "False"], rfl, .false, rfl⟩
    · split at parsed
      · rename_i word
        cases parsed
        subst word
        exact ⟨[.name "None"], rfl, .none, rfl⟩
      · split at parsed
        · cases parsed
        · rename_i spelled
          cases parsed
          exact ⟨[.name text], rfl, .name spelled, rfl⟩
  · rename_i rest listed
    simp only at listed
    subst listed
    obtain ⟨⟨inner, middle⟩, nested, parsed⟩ := bind_eq_ok.mp parsed
    dsimp only at parsed
    split at parsed
    · cases parsed
    · obtain ⟨last, closed, given⟩ := bind_eq_ok.mp parsed
      cases given
      obtain ⟨atOp, rfl⟩ := expectOp_eq_ok.mp closed
      obtain ⟨used, split, derives, counted⟩ := sound _ _ _ nested
      refine ⟨.op .openParen :: (used ++ [.op .closeParen]), ?_, .group derives, counted⟩
      simp only [ParserState.advance, tail_cons] at split
      rw [split, tokens_of_atOp atOp]
      simp [ParserState.advance]
  all_goals cases parsed

/-- The arguments a call has accumulated, the last one perhaps with a trailing comma. -/
def ReadsArguments (start : ParserState Number) (args : List (AstNode Number))
    (middle : ParserState Number) : Prop :=
  args ≠ [] ∧ ∃ used trailing, start.tokens = used ++ (trailing ++ middle.tokens) ∧
    Derives Spelled (.arguments args) used ∧ middle.nodeCount = start.nodeCount + sizes args ∧
    (trailing = [] ∨ trailing = [.op .comma] ∧ middle.atOp .closeParen = true)

variable {start : ParserState Number}

theorem reads_argumentStep (args : List (AstNode Number)) (middle : ParserState Number)
    (more : List (AstNode Number)) (later : ParserState Number)
    (reads : ReadsArguments start args middle)
    (stepped : argumentStep parseTernary args middle = some (.ok (more, later))) :
    ReadsArguments start more later := by
  obtain ⟨some, used, trailing, split', derives, counted, ended⟩ := reads
  unfold argumentStep at stepped
  split at stepped
  · rename_i atComma
    have fresh : trailing = [] := by
      rcases ended with fresh | ⟨_, closed⟩
      · exact fresh
      · rw [not_atOp_of_atOp closed (by decide)] at atComma
        cases atComma
    subst fresh
    rw [nil_append, tokens_of_atOp atComma] at split'
    split at stepped
    · rename_i closed
      cases stepped
      exact ⟨some, used, [.op .comma], split', derives, counted, .inr ⟨rfl, closed⟩⟩
    · obtain ⟨⟨arg, last⟩, second, given⟩ := bind_eq_ok.mp (Option.some.inj stepped)
      cases given
      obtain ⟨after, split'', derives', counted'⟩ := sound _ _ _ second
      refine ⟨by simp, used ++ .op .comma :: after, [], ?_, .moreArguments derives some derives',
        ?_, .inl rfl⟩
      · rw [split', split'']
        simp
      · rw [sizes_append]
        simp only [ParserState.advance, sizes] at counted' ⊢
        omega
  · cases stepped

variable {fuel : Nat} {later : ParserState Number}

/-- What `parseArguments` and the closing parenthesis consume. -/
theorem reads_parseArguments {state : ParserState Number} {args : List (AstNode Number)}
    (parsed : parseArguments parseTernary fuel state = .ok (args, later)) :
    args = [] ∧ state = later ∨ ReadsArguments state args later := by
  unfold parseArguments at parsed
  split at parsed
  · cases parsed
    exact .inl ⟨rfl, rfl⟩
  · obtain ⟨⟨arg, middle⟩, one, looped⟩ := bind_eq_ok.mp parsed
    obtain ⟨used, split', derives, counted⟩ := sound _ _ _ one
    have start : ReadsArguments state [arg] middle :=
      ⟨by simp, used, [], split', .firstArgument derives, by simpa [sizes] using counted, .inl rfl⟩
    exact .inr (iterate_ok (reads_argumentStep sound) start looped).1

theorem reads_parseCall {middle : ParserState Number} {callee node : AstNode Number}
    (reads : Reads (.tree .primary callee) callee.size start middle)
    (atOpen : middle.atOp .openParen = true)
    (parsed : parseCall parseTernary fuel callee middle = .ok (node, later)) :
    Reads (.tree .primary node) node.size start later := by
  obtain ⟨before, split', derives, counted⟩ := reads
  rw [tokens_of_atOp atOpen] at split'
  unfold parseCall at parsed
  split at parsed
  · rename_i func
    obtain ⟨⟨args, last⟩, listed, parsed⟩ := bind_eq_ok.mp parsed
    obtain ⟨closed, closes, given⟩ := bind_eq_ok.mp parsed
    cases given
    obtain ⟨atClose, rfl⟩ := expectOp_eq_ok.mp closes
    have ends := tokens_of_atOp atClose
    rcases reads_parseArguments sound listed with ⟨rfl, rfl⟩ |
      ⟨some, inside, trailing, split'', derives', counted', ended⟩
    · refine ⟨before ++ .op .openParen :: ([] ++ [.op .closeParen]), ?_,
        .call derives .noArguments, ?_⟩
      · rw [split', ends]
        simp [ParserState.count]
      · simp only [ParserState.count, ParserState.advance, size, sizes] at counted ⊢
        omega
    · have nodes : (last.advance.count 1).nodeCount =
          start.nodeCount + (AstNode.call func args).size := by
        simp only [ParserState.count, ParserState.advance, size] at counted counted' ⊢
        omega
      rcases ended with rfl | ⟨rfl, _⟩
      · refine ⟨before ++ .op .openParen :: (inside ++ [.op .closeParen]), ?_,
          .call derives derives', nodes⟩
        rw [split', split'', ends]
        simp [ParserState.count]
      · refine ⟨before ++ .op .openParen :: (inside ++ [.op .comma, .op .closeParen]), ?_,
          .trailingComma derives derives' some, nodes⟩
        rw [split', split'', ends]
        simp [ParserState.count]
  · cases parsed

theorem reads_postfixStep (value : AstNode Number) (middle : ParserState Number)
    (node : AstNode Number) (later : ParserState Number)
    (reads : Reads (.tree .primary value) value.size start middle)
    (stepped : postfixStep parseTernary fuel value middle = some (.ok (node, later))) :
    Reads (.tree .primary node) node.size start later := by
  unfold postfixStep at stepped
  split at stepped
  · rename_i atOpen
    exact reads_parseCall sound reads atOpen (Option.some.inj stepped)
  · split at stepped
    · rename_i atOpen
      obtain ⟨⟨index, last⟩, nested, parsed⟩ := bind_eq_ok.mp (Option.some.inj stepped)
      obtain ⟨closed, closes, given⟩ := bind_eq_ok.mp parsed
      cases given
      obtain ⟨atClose, rfl⟩ := expectOp_eq_ok.mp closes
      obtain ⟨before, split', derives, counted⟩ := reads
      obtain ⟨inside, split'', derives', counted'⟩ := sound _ _ _ nested
      refine ⟨before ++ .op .openBracket :: (inside ++ [.op .closeBracket]), ?_,
        .subscript derives derives', ?_⟩
      · rw [split', tokens_of_atOp atOpen, split'', tokens_of_atOp atClose]
        simp [ParserState.count]
      · simp only [ParserState.count, ParserState.advance, size] at counted counted' ⊢
        omega
    · cases stepped

theorem sound_parsePostfix (fuel : Nat) : Sound .primary (parsePostfix parseTernary fuel) := by
  intro state later node parsed
  obtain ⟨⟨first, middle⟩, one, looped⟩ := bind_eq_ok.mp parsed
  have start : Reads (.tree .primary first) first.size state middle :=
    (sound_parseAtom sound _ _ _ one).lift rfl
  exact (iterate_ok (reads_postfixStep sound) start looped).1

theorem sound_parsePower {parseUnary : Parse Number (AstNode Number)} (fuel : Nat)
    (unary : Sound .factor parseUnary) :
    Sound .power (parsePower parseTernary parseUnary fuel) := by
  intro state later node parsed
  obtain ⟨⟨base, middle⟩, one, parsed⟩ := bind_eq_ok.mp parsed
  dsimp only at parsed
  split at parsed
  · rename_i atOp
    obtain ⟨⟨exponent, last⟩, second, given⟩ := bind_eq_ok.mp parsed
    cases given
    obtain ⟨before, split', derives, counted⟩ := sound_parsePostfix sound fuel _ _ _ one
    obtain ⟨after, split'', derives', counted'⟩ := unary _ _ _ second
    refine ⟨before ++ .op .doubleStar :: after, ?_, .power derives derives', ?_⟩
    · rw [split', tokens_of_atOp atOp, split'']
      simp [ParserState.count]
    · simp only [ParserState.count, ParserState.advance, size] at counted' ⊢
      omega
  · cases parsed
    exact (sound_parsePostfix sound fuel _ _ _ one).lift rfl

theorem sound_parseUnary (fuel : Nat) : Sound .factor (parseUnary parseTernary fuel) := by
  induction fuel with
  | zero => exact nofun
  | succ fuel ih =>
    intro state later node parsed
    rw [parseUnary] at parsed
    split at parsed
    · rename_i op found
      obtain ⟨⟨operand, last⟩, nested, given⟩ := bind_eq_ok.mp parsed
      cases given
      obtain ⟨used, split', derives, counted⟩ := ih _ _ _ nested
      have atOp : state.atOp op.symbol = true := by simpa using find?_some found
      refine ⟨.op op.symbol :: used, ?_, .sign derives, ?_⟩
      · rw [tokens_of_atOp atOp, split']
        rfl
      · simp only [ParserState.count, ParserState.advance, size] at counted ⊢
        omega
    · exact (sound_parsePower sound fuel ih _ _ _ parsed).lift rfl

theorem sound_parseBitOr (fuel : Nat) : Sound .bitOr (parseBitOr parseTernary fuel) := by
  have term : Sound .term (parseTerm parseTernary fuel) :=
    sound_parseBinaryChain fuel (fun _ => id) rfl (sound_parseUnary sound (fuel + 1))
  have arith : Sound .sum (parseArith parseTernary fuel) :=
    sound_parseBinaryChain fuel (fun _ => id) rfl term
  have shift : Sound .shift (parseShift parseTernary fuel) :=
    sound_parseBinaryChain fuel (fun _ => id) rfl arith
  have bitAnd : Sound .bitAnd (parseBitAnd parseTernary fuel) :=
    sound_parseBinaryChain fuel (fun _ => id) rfl shift
  have bitXor : Sound .bitXor (parseBitXor parseTernary fuel) :=
    sound_parseBinaryChain fuel (fun _ => id) rfl bitAnd
  exact sound_parseBinaryChain fuel (fun _ => id) rfl bitXor

theorem sound_parseComparison (fuel : Nat) :
    Sound .comparison (parseComparison parseTernary fuel) := by
  intro state later node parsed
  have operand := sound_parseBitOr sound fuel
  obtain ⟨⟨left, middle⟩, one, parsed⟩ := bind_eq_ok.mp parsed
  obtain ⟨⟨read, last⟩, looped, parsed⟩ := bind_eq_ok.mp parsed
  have start : ReadsComparisons middle ([], []) middle := ⟨[], rfl, .noComparisons, rfl⟩
  obtain ⟨used, split', derives, counted⟩ := (iterate_ok (reads_compareStep operand) start looped).1
  obtain ⟨before, split'', derives', counted'⟩ := operand _ _ _ one
  obtain ⟨ops, comparators⟩ := read
  dsimp only at parsed
  split at parsed
  · rename_i none
    cases parsed
    cases none
    cases derives
    refine ⟨before, by rw [split'', split']; rfl, .lift rfl derives', ?_⟩
    simp only [sizes] at counted
    omega
  · rename_i some
    cases parsed
    refine ⟨before ++ used, by rw [split'', split']; simp [ParserState.count],
      .comparison derives' derives some, ?_⟩
    simp only [ParserState.count, size] at counted ⊢
    omega

theorem sound_parseNot (fuel : Nat) : Sound .inversion (parseNot parseTernary fuel) := by
  induction fuel with
  | zero => exact nofun
  | succ fuel ih =>
    intro state later node parsed
    rw [parseNot] at parsed
    split at parsed
    · rename_i atNot
      obtain ⟨⟨operand, last⟩, nested, given⟩ := bind_eq_ok.mp parsed
      cases given
      obtain ⟨used, split', derives, counted⟩ := ih _ _ _ nested
      refine ⟨.name "not" :: used, ?_, .negation derives, ?_⟩
      · rw [tokens_of_atName atNot, split']
        rfl
      · simp only [ParserState.count, ParserState.advance, size] at counted ⊢
        omega
    · exact (sound_parseComparison sound fuel _ _ _ parsed).lift rfl

theorem sound_parseOr (fuel : Nat) : Sound .disjunction (parseOr parseTernary fuel) := by
  have conjunction : Sound .conjunction (parseAnd parseTernary fuel) :=
    @sound_parseBoolChain _ .and _ fuel rfl (sound_parseNot sound (fuel + 1))
  exact @sound_parseBoolChain _ .or _ fuel rfl conjunction

end Nested

theorem sound_parseTernary (fuel : Nat) :
    Sound .expression (parseTernary fuel : Parse Number (AstNode Number)) := by
  induction fuel with
  | zero => exact nofun
  | succ fuel ih =>
    intro state later node parsed
    rw [parseTernary] at parsed
    obtain ⟨⟨body, middle⟩, one, parsed⟩ := bind_eq_ok.mp parsed
    dsimp only at parsed
    have first := sound_parseOr ih fuel _ _ _ one
    split at parsed
    · rename_i atIf
      obtain ⟨⟨test, further⟩, second, parsed⟩ := bind_eq_ok.mp parsed
      dsimp only at parsed
      split at parsed
      · rename_i atElse
        obtain ⟨⟨orelse, last⟩, third, given⟩ := bind_eq_ok.mp parsed
        cases given
        obtain ⟨before, split₁, derives₁, counted₁⟩ := first
        obtain ⟨between, split₂, derives₂, counted₂⟩ := sound_parseOr ih fuel _ _ _ second
        obtain ⟨after, split₃, derives₃, counted₃⟩ := ih _ _ _ third
        refine ⟨before ++ .name "if" :: (between ++ .name "else" :: after), ?_,
          .conditional derives₁ derives₂ derives₃, ?_⟩
        · rw [split₁, tokens_of_atName atIf, split₂, tokens_of_atName atElse, split₃]
          simp [ParserState.count]
        · simp only [ParserState.count, ParserState.advance, size] at counted₂ counted₃ ⊢
          omega
      · cases parsed
    · cases parsed
      exact first.lift rfl

/-- What `parseExpression` returns is derived from all the tokens, and its nodes are counted. -/
theorem derives_of_parseExpression {tokens : List (Token Number)} {node : AstNode Number}
    {nodes : Nat} (parsed : parseExpression tokens = .ok (node, nodes)) :
    Derives Spelled (.tree .expression node) tokens ∧ nodes = 1 + node.size := by
  obtain ⟨⟨result, last⟩, read, parsed⟩ := bind_eq_ok.mp parsed
  dsimp only at parsed
  obtain ⟨used, split', derives, counted⟩ := sound_parseTernary _ _ _ _ read
  split at parsed
  · rename_i ended
    cases parsed
    rw [ended, append_nil] at split'
    simp only at split'
    subst split'
    exact ⟨derives, counted⟩
  · cases parsed

end Dinkster.Expression
