import Dinkster.Expression.Sound

/-!
# What is derivable the parser accepts

A parsing function given the tokens of a phrase of its level, and after them tokens that do not
continue the phrase, returns the tree the phrase derives to.  The left operand of a
left-recursive level is what its loop has accumulated when it comes to the operator.
-/

namespace Dinkster.Expression

open Library Relation List
open AstNode (size)

variable {Number : Type}

@[simp] theorem atOp_op (symbol other : Symbol) (rest : List (Token Number)) (count : Nat) :
    (ParserState.mk (.op other :: rest) count).atOp symbol = decide (other = symbol) := rfl

@[simp] theorem atName_name (text other : String) (rest : List (Token Number)) (count : Nat) :
    (ParserState.mk (.name other :: rest) count).atName text = decide (other = text) := rfl

@[simp] theorem advance_cons (token : Token Number) (rest : List (Token Number)) (count : Nat) :
    (ParserState.mk (token :: rest) count).advance = ⟨rest, count⟩ := rfl

@[simp] theorem count_mk (tokens : List (Token Number)) (count nodes : Nat) :
    (ParserState.mk tokens count).count nodes = ⟨tokens, count + nodes⟩ := rfl

@[simp] theorem expectOp_op (symbol : Symbol) (rest : List (Token Number)) (count : Nat) :
    expectOp symbol ⟨.op symbol :: rest, count⟩ = .ok ⟨rest, count⟩ := by
  simp [expectOp]

@[simp] theorem bind_ok {Result Final : Type} (result : Result)
    (second : Result → Except Failure Final) : (Except.ok result >>= second) = second result := rfl

@[simp] theorem pure_eq_ok {Result : Type} (result : Result) :
    (pure result : Except Failure Result) = .ok result := rfl

section Follow

variable {rank count : Nat} {rest : List (Token Number)}

theorem atOp_eq_false {symbol : Symbol} (follows : Follows rank rest)
    (binds : rank ≤ (Token.op symbol : Token Number).binding) :
    (ParserState.mk rest count).atOp symbol = false := by
  refine Bool.eq_false_iff.mpr fun atOp => ?_
  have head := tokens_of_atOp atOp
  simp only at head
  rw [head, follows_cons] at follows
  omega

theorem atName_eq_false {text : String} (follows : Follows rank rest)
    (binds : rank ≤ (Token.name text : Token Number).binding) :
    (ParserState.mk rest count).atName text = false := by
  refine Bool.eq_false_iff.mpr fun atName => ?_
  have head := tokens_of_atName atName
  simp only at head
  rw [head, follows_cons] at follows
  omega

variable {level : Level} {node : AstNode Number} {used : List (Token Number)}

theorem not_atOp_of_derives {symbol : Symbol} (derives : Derives Spelled (.tree level node) used)
    (tight : (Token.op symbol : Token Number).opening < level.rank) :
    (ParserState.mk (used ++ rest) count).atOp symbol = false := by
  obtain ⟨token, more, rfl, opens⟩ := opening_of_derives (fun _ => id) derives rfl
  refine Bool.eq_false_iff.mpr fun atOp => ?_
  have head := tokens_of_atOp atOp
  cases head
  omega

theorem not_atName_of_derives {text : String} (derives : Derives Spelled (.tree level node) used)
    (tight : (Token.name text : Token Number).opening < level.rank) :
    (ParserState.mk (used ++ rest) count).atName text = false := by
  obtain ⟨token, more, rfl, opens⟩ := opening_of_derives (fun _ => id) derives rfl
  refine Bool.eq_false_iff.mpr fun atName => ?_
  have head := tokens_of_atName atName
  cases head
  omega

end Follow

/-- What is found by its operator text is the one with that text. -/
theorem find_of_injective {Kind : Type} {symbol : Kind → Symbol} (injective : symbol.Injective)
    {kind : Kind} {kinds : List Kind} (listed : kind ∈ kinds) :
    (kinds.find? fun other => decide (symbol kind = symbol other)) = some kind := by
  induction kinds with
  | nil => cases listed
  | cons other kinds ih =>
    rw [find?_cons]
    by_cases same : symbol kind = symbol other
    · rw [decide_eq_true same, injective same]
    · rw [decide_eq_false same]
      rcases mem_cons.mp listed with rfl | listed
      · exact absurd rfl same
      · exact ih listed

/-- A parser returns every tree of a level that derives from the tokens before what does not
continue it, when there are fewer tokens than a bound. -/
def Complete (level : Level) (bound : Nat) (parse : Parse Number (AstNode Number)) : Prop :=
  ∀ (used rest : List (Token Number)) (node : AstNode Number) (count : Nat),
    Derives Spelled (.tree level node) used → (used ++ rest).length < bound →
    Follows level.rank rest → parse ⟨used ++ rest, count⟩ = .ok (node, ⟨rest, count + node.size⟩)

theorem Complete.mono {level : Level} {bound smaller : Nat} {parse : Parse Number (AstNode Number)}
    (complete : Complete level bound parse) (less : smaller ≤ bound) :
    Complete level smaller parse :=
  fun used rest node count derives short => complete used rest node count derives (by omega)

def Unrolls {Acc Item : Type} (first : Parse Number Item) (enter : Item → Acc)
    (step : Acc → ParserState Number → Option (Except Failure (Acc × ParserState Number)))
    (state : ParserState Number) (final : Acc × ParserState Number) : Prop :=
  ∃ item middle, first state = .ok (item, middle) ∧ middle.left ≤ state.left ∧
    ReflTransGen (Moves ParserState.left step) (enter item, middle) final

theorem symbol_injective : BinOpKind.symbol.Injective := by
  intro op other same
  cases op <;> cases other <;> first | rfl | cases same

theorem binding_of_mem_operators {level : Level} {op : BinOpKind} (listed : op ∈ level.operators) :
    (Token.op op.symbol : Token Number).binding = level.rank := by
  cases level <;> simp only [Level.operators, mem_cons, not_mem_nil, or_false] at listed
  all_goals rcases listed with rfl | rfl | rfl | rfl <;> rfl

section Binary

variable {level tighter : Level} {bound : Nat} {parseNext : Parse Number (AstNode Number)}

theorem binaryStep_operator {op : BinOpKind} (listed : op ∈ level.operators) (left : AstNode Number)
    (rest : List (Token Number)) (count : Nat) :
    binaryStep level.operators parseNext left ⟨.op op.symbol :: rest, count⟩ = some do
      let (right, state) ← parseNext ⟨rest, count⟩
      return (.bin op left right, state.count 2) := by
  unfold binaryStep
  simp only [atOp_op, find_of_injective symbol_injective listed, advance_cons]

theorem binaryStep_stops {rest : List (Token Number)} (follows : Follows level.rank rest)
    (left : AstNode Number) (count : Nat) :
    binaryStep level.operators parseNext left ⟨rest, count⟩ = none := by
  have absent : (level.operators.find? fun op =>
      (ParserState.mk rest count).atOp op.symbol) = none := by
    refine List.find?_eq_none.mpr fun op listed atOp => ?_
    rw [atOp_eq_false follows (Nat.le_of_eq (binding_of_mem_operators listed).symm)] at atOp
    cases atOp
  unfold binaryStep
  rw [absent]

theorem unrolls_binary (complete : Complete tighter bound parseNext)
    (next : level.next = some tighter) (chained : level.operators ≠ [])
    {phrase : Phrase Number} {used : List (Token Number)} (derives : Derives Spelled phrase used) :
    ∀ {node : AstNode Number}, phrase = .tree level node → ∀ (rest : List (Token Number))
      (count : Nat), (used ++ rest).length < bound → Follows tighter.rank rest →
        Unrolls parseNext id (binaryStep level.operators parseNext) ⟨used ++ rest, count⟩
          (node, ⟨rest, count + node.size⟩) := by
  induction derives with
  | @lift _ inner node tokens next' derives _ =>
    rintro _ ⟨⟩ rest count short follows
    cases next.symm.trans next'
    exact ⟨node, _, complete _ _ _ _ derives short follows, by simp [ParserState.left], .refl⟩
  | @binary _ inner op left right before after listed next' _ second ih _ =>
    rintro _ ⟨⟩ rest count short follows
    cases next.symm.trans next'
    have binds : (Token.op op.symbol : Token Number).binding = level.rank :=
      binding_of_mem_operators listed
    simp only [append_assoc, cons_append, length_append, length_cons] at short
    obtain ⟨item, middle, first, less, run⟩ := ih rfl (.op op.symbol :: (after ++ rest)) count
      (by simp only [length_append, length_cons]; omega)
      (by rw [follows_cons, binds, rank_of_next next]; omega)
    refine ⟨item, middle, by simpa using first, by simpa [ParserState.left] using less,
      run.tail ⟨?_, ?_⟩⟩
    · have nodes : count + left.size + right.size + 2 = count + (AstNode.bin op left right).size := by
        simp only [size]
        omega
      simp only [binaryStep_operator listed]
      rw [complete _ _ _ _ second (by simp only [length_append]; omega) follows]
      simp only [bind_ok, pure_eq_ok, count_mk, nodes]
    · simp only [ParserState.left, length_cons, length_append]
      omega
  | @boolean _ op _ _ _ _ leveled =>
    rintro _ ⟨⟩
    subst leveled
    cases op <;> exact absurd rfl chained
  | conditional | negation | comparison | sign | power | call | trailingComma | subscript |
    number | true | false | none | name | group =>
      rintro _ ⟨⟩
      exact absurd rfl chained
  | _ => rintro _ ⟨⟩

theorem complete_parseBinaryChain {fuel : Nat} (complete : Complete tighter bound parseNext)
    (next : level.next = some tighter) (chained : level.operators ≠ []) (enough : bound ≤ fuel + 1) :
    Complete level bound (parseBinaryChain level.operators parseNext fuel) := by
  intro used rest node count derives short follows
  have tighter : Follows tighter.rank rest := follows.mono (by rw [rank_of_next next]; omega)
  obtain ⟨item, middle, first, less, run⟩ :=
    unrolls_binary complete next chained derives rfl rest count short tighter
  unfold parseBinaryChain
  rw [first, bind_ok]
  exact iterate_of_moves ParserState.left run (binaryStep_stops follows node _)
    (by simp only [ParserState.left] at less ⊢; omega)

end Binary

section Boolean

variable {op : BoolOp} {bound : Nat} {parseNext : Parse Number (AstNode Number)}

theorem rank_of_operand (op : BoolOp) : op.operand.rank = op.level.rank + 1 := by
  cases op <;> rfl

theorem binding_of_word (op : BoolOp) : (Token.name op.word : Token Number).binding = op.level.rank := by
  cases op <;> simp [BoolOp.word, BoolOp.level, Token.binding, Level.rank]

variable {rest : List (Token Number)}

/-- What is before the other values of a chain is not continued by them. -/
theorem follows_operands {values : List (AstNode Number)} {after : List (Token Number)}
    (derives : Derives Spelled (.operands op values) after) (follows : Follows op.level.rank rest) :
    Follows op.operand.rank (after ++ rest) := by
  cases derives with
  | noOperands =>
    exact follows.mono (by rw [rank_of_operand]; omega)
  | moreOperands =>
    rw [cons_append, follows_cons, binding_of_word, rank_of_operand]
    omega

theorem moves_of_operands (complete : Complete op.operand bound parseNext) {phrase : Phrase Number}
    {used : List (Token Number)} (derives : Derives Spelled phrase used) :
    ∀ {values : List (AstNode Number)}, phrase = .operands op values →
      ∀ (read : List (AstNode Number)) (rest : List (Token Number)) (count : Nat),
        (used ++ rest).length ≤ bound → Follows op.level.rank rest →
          ReflTransGen (Moves ParserState.left (boolStep op parseNext))
            (read, ⟨used ++ rest, count⟩) (read ++ values, ⟨rest, count + sizes values⟩) := by
  induction derives with
  | noOperands =>
    rintro _ ⟨⟩ read rest count short follows
    simpa [sizes] using ReflTransGen.refl
  | @moreOperands _ value values before after first others _ ih =>
    rintro _ ⟨⟩ read rest count short follows
    simp only [length_append, length_cons] at short
    have read' := complete _ (after ++ rest) _ count first
      (by simp only [length_append]; omega) (follows_operands others follows)
    have later := ih rfl (read ++ [value]) rest (count + value.size)
      (by simp only [length_append]; omega) follows
    rw [append_assoc, singleton_append] at later
    rw [sizes, ← Nat.add_assoc]
    refine .head ⟨?_, ?_⟩ later
    · simp only [boolStep, cons_append, append_assoc, atName_name, decide_true, if_true,
        advance_cons, read', bind_ok, pure_eq_ok]
    · simp only [ParserState.left, length_append, length_cons]
      omega
  | _ => rintro _ ⟨⟩

theorem boolStep_stops (follows : Follows op.level.rank rest) (values : List (AstNode Number))
    (count : Nat) : boolStep op parseNext values ⟨rest, count⟩ = none := by
  have ended : (ParserState.mk rest count).atName op.word = false :=
    atName_eq_false follows (Nat.le_of_eq (binding_of_word op).symm)
  rw [boolStep, ended]
  rfl

theorem complete_parseBoolChain {fuel : Nat} (complete : Complete op.operand bound parseNext)
    (next : op.level.next = some op.operand) (enough : bound ≤ fuel + 1) :
    Complete op.level bound (parseBoolChain op parseNext fuel) := by
  intro used rest node count derives short follows
  unfold parseBoolChain
  generalize leveled : op.level = level at derives
  cases derives with
  | lift next' inner =>
    subst leveled
    cases next.symm.trans next'
    have one := complete _ _ _ count inner short (follows.mono (by rw [rank_of_operand]; omega))
    rw [one, bind_ok]
    simp only [iterate_stop (boolStep_stops follows [node] _) fuel, bind_ok, pure_eq_ok]
  | @boolean _ op' value values before after leveled' first others more =>
    have same : op' = op := by
      subst leveled
      cases op <;> cases op' <;> first | rfl | cases leveled'
    subst same
    rw [append_assoc] at short ⊢
    have one := complete _ _ _ count first short (follows_operands others follows)
    have run := moves_of_operands complete others rfl [value] rest (count + value.size)
      (by simp only [length_append] at short ⊢; omega) follows
    have enough' : (ParserState.mk (after ++ rest) (count + value.size)).left ≤ fuel := by
      simp only [ParserState.left, length_append] at short ⊢
      omega
    have looped := iterate_of_moves ParserState.left run (boolStep_stops follows _ _) enough'
    rw [one, bind_ok]
    simp only [looped, bind_ok]
    cases values with
    | nil => exact absurd rfl more
    | cons other values =>
      simp only [singleton_append, pure_eq_ok, count_mk, size, sizes]
      congr 3
      omega
  | binary listed =>
    subst leveled
    cases op <;> cases listed
  | conditional | negation | comparison | sign | power | call | trailingComma | subscript |
    number | true | false | none | name | group => cases op <;> cases leveled

end Boolean

/-! ## Atoms and postfixes -/

section Nested

variable {parseTernary : Parse Number (AstNode Number)} {bound : Nat}
  (nested : Complete .expression bound parseTernary)

include nested

theorem complete_parseAtom : Complete .atom (bound + 1) (parseAtom parseTernary) := by
  intro used rest node count derives short follows
  cases derives with
  | lift next => cases next
  | @boolean _ op _ _ _ _ leveled => cases op <;> cases leveled
  | binary listed => cases listed
  | number | true | false | none => rfl
  | @name text spelled =>
    have free := spelled
    simp only [Spelled, keywords, mem_cons, not_mem_nil, or_false, not_or] at free
    have word : ¬ (text = "True" ∨ text = "False") := by tauto
    have none : text ≠ "None" := by tauto
    simp only [parseAtom, singleton_append]
    rw [if_neg word, if_neg none, if_neg spelled]
    rfl
  | @group _ inside inner =>
    have read := nested inside (.op .closeParen :: rest) node count inner
      (by simp only [length_append, length_cons] at short ⊢; omega)
      (by rw [follows_cons]; exact Nat.zero_lt_one)
    simp only [parseAtom, cons_append, append_assoc, nil_append, advance_cons]
    rw [read]
    simp

variable {inside : List (Token Number)} {phrase : Phrase Number} {fuel : Nat}

/-- A list of arguments does not begin with the closing parenthesis, and its first one is read
before the loop. -/
theorem unrolls_arguments (derives : Derives Spelled phrase inside) :
    ∀ {args : List (AstNode Number)}, phrase = .arguments args → args ≠ [] →
      ∀ (rest : List (Token Number)) (count : Nat), (inside ++ rest).length < bound →
        Follows Level.expression.rank rest →
          (ParserState.mk (inside ++ rest) count).atOp .closeParen = false ∧
          Unrolls parseTernary (fun arg => [arg]) (argumentStep parseTernary)
            ⟨inside ++ rest, count⟩ (args, ⟨rest, count + sizes args⟩) := by
  induction derives with
  | noArguments =>
    rintro _ ⟨⟩ some
    exact absurd rfl some
  | @firstArgument arg tokens inner _ =>
    rintro _ ⟨⟩ _ rest count short follows
    refine ⟨not_atOp_of_derives inner Nat.zero_lt_one, arg, _, nested _ _ _ _ inner short follows,
      by simp [ParserState.left], ?_⟩
    simpa [sizes] using ReflTransGen.refl
  | @moreArguments arg args before after others some last ih _ =>
    rintro _ ⟨⟩ _ rest count short follows
    simp only [append_assoc, cons_append, length_append, length_cons] at short
    obtain ⟨opened, item, middle, first, less, run⟩ := ih rfl some
      (.op .comma :: (after ++ rest)) count
      (by simp only [length_append, length_cons]; omega)
      (by rw [follows_cons]; exact Nat.zero_lt_one)
    refine ⟨by simpa using opened, item, middle, by simpa using first,
      by simpa [ParserState.left] using less, run.tail ⟨?_, ?_⟩⟩
    · have read := nested _ _ _ (count + sizes args) last
        (by simp only [length_append]; omega) follows
      have going : (ParserState.mk (after ++ rest) (count + sizes args)).atOp .closeParen = false :=
        not_atOp_of_derives last Nat.zero_lt_one
      simp only [argumentStep, atOp_op, decide_true, if_true, advance_cons, going, Bool.false_eq_true,
        if_false, read, bind_ok, pure_eq_ok]
      rw [sizes_append, sizes, sizes, Nat.add_zero, Nat.add_assoc]
    · simp only [ParserState.left, length_cons, length_append]
      omega
  | _ => rintro _ ⟨⟩

omit nested in
theorem arguments_nil (derives : Derives Spelled phrase inside) (none : phrase = .arguments []) :
    inside = [] := by
  cases derives with
  | noArguments => rfl
  | moreArguments =>
    simp at none
  | _ => cases none

variable {args : List (AstNode Number)} {trailing used : List (Token Number)}

theorem complete_parseArguments (enough : bound ≤ fuel + 1)
    (derives : Derives Spelled (.arguments args) inside)
    (ended : trailing = [] ∨ trailing = [.op .comma] ∧ args ≠ []) (rest : List (Token Number))
    (count : Nat) (short : (inside ++ (trailing ++ .op .closeParen :: rest)).length < bound) :
    parseArguments parseTernary fuel ⟨inside ++ (trailing ++ .op .closeParen :: rest), count⟩ =
      .ok (args, ⟨.op .closeParen :: rest, count + sizes args⟩) := by
  cases args with
  | nil =>
    cases arguments_nil derives rfl
    rcases ended with rfl | ⟨_, some⟩
    · rfl
    · exact absurd rfl some
  | cons arg args =>
    have follows : Follows Level.expression.rank (trailing ++ .op .closeParen :: rest) := by
      rcases ended with rfl | ⟨rfl, _⟩ <;> simp [Token.binding, Level.rank]
    obtain ⟨opened, item, middle, first, less, run⟩ := unrolls_arguments nested derives rfl
      (cons_ne_nil _ _) _ count short follows
    have run' : ReflTransGen (Moves ParserState.left (argumentStep parseTernary)) ([item], middle)
        (arg :: args, ⟨.op .closeParen :: rest, count + sizes (arg :: args)⟩) := by
      rcases ended with rfl | ⟨rfl, _⟩
      · exact run
      · exact run.tail ⟨by simp [argumentStep], by simp [ParserState.left]⟩
    unfold parseArguments
    simp only [opened, Bool.false_eq_true, if_false, first, bind_ok]
    exact iterate_of_moves ParserState.left run' rfl
      (by simp only [ParserState.left] at less ⊢; omega)

theorem complete_parseCall (enough : bound ≤ fuel + 1) {func : String}
    (derives : Derives Spelled (.arguments args) inside)
    (ended : trailing = [] ∨ trailing = [.op .comma] ∧ args ≠ []) (rest : List (Token Number))
    (count : Nat) (short : (inside ++ (trailing ++ .op .closeParen :: rest)).length < bound) :
    parseCall parseTernary fuel (.name func)
        ⟨.op .openParen :: (inside ++ (trailing ++ .op .closeParen :: rest)), count⟩ =
      .ok (.call func args, ⟨rest, count + sizes args + 1⟩) := by
  unfold parseCall
  simp only [advance_cons, complete_parseArguments nested enough derives ended rest count short,
    bind_ok, expectOp_op, pure_eq_ok, count_mk]

theorem unrolls_postfix (enough : bound ≤ fuel + 1) (derives : Derives Spelled phrase used) :
    ∀ {node : AstNode Number}, phrase = .tree .primary node → ∀ (rest : List (Token Number))
      (count : Nat), (used ++ rest).length < bound + 1 →
        Unrolls (parseAtom parseTernary) id (postfixStep parseTernary fuel) ⟨used ++ rest, count⟩
          (node, ⟨rest, count + node.size⟩) := by
  induction derives with
  | @lift _ _ node _ next inner _ =>
    rintro _ ⟨⟩ rest count short
    cases next
    exact ⟨node, _, complete_parseAtom nested _ _ _ _ inner short
      (.atom rest), by simp [ParserState.left], .refl⟩
  | @call func args before inside _ others ih _ =>
    rintro _ ⟨⟩ rest count short
    simp only [append_assoc, cons_append, nil_append, length_append, length_cons] at short
    obtain ⟨item, middle, first, less, run⟩ := ih rfl
      (.op .openParen :: (inside ++ .op .closeParen :: rest)) count
      (by simp only [length_append, length_cons]; omega)
    refine ⟨item, middle, by simpa using first, by simpa [ParserState.left] using less,
      run.tail ⟨?_, ?_⟩⟩
    · have called : parseCall parseTernary fuel (.name func) _ = _ :=
        complete_parseCall nested enough others (.inl rfl) rest (count + 2)
          (by simp only [length_append, length_cons, nil_append]; omega)
      simp only [postfixStep, atOp_op, decide_true, if_true, size]
      rw [nil_append] at called
      rw [called]
      congr 4
      omega
    · simp only [ParserState.left, length_cons, length_append]
      omega
  | @trailingComma func args before inside _ others some ih _ =>
    rintro _ ⟨⟩ rest count short
    simp only [append_assoc, cons_append, nil_append, length_append, length_cons] at short
    obtain ⟨item, middle, first, less, run⟩ := ih rfl
      (.op .openParen :: (inside ++ ([.op .comma] ++ .op .closeParen :: rest))) count
      (by simp only [length_append, length_cons, length_nil]; omega)
    refine ⟨item, middle, by simpa using first, by simpa [ParserState.left] using less,
      run.tail ⟨?_, ?_⟩⟩
    · have called : parseCall parseTernary fuel (.name func) _ = _ :=
        complete_parseCall nested enough others (.inr ⟨rfl, some⟩) rest (count + 2)
          (by simp only [length_append, length_cons, length_nil]; omega)
      simp only [postfixStep, atOp_op, decide_true, if_true, size]
      rw [called]
      congr 4
      omega
    · simp only [ParserState.left, length_cons, length_append]
      omega
  | @subscript value index before inside _ second ih _ =>
    rintro _ ⟨⟩ rest count short
    simp only [append_assoc, cons_append, nil_append, length_append, length_cons] at short
    obtain ⟨item, middle, first, less, run⟩ := ih rfl
      (.op .openBracket :: (inside ++ .op .closeBracket :: rest)) count
      (by simp only [length_append, length_cons]; omega)
    refine ⟨item, middle, by simpa using first, by simpa [ParserState.left] using less,
      run.tail ⟨?_, ?_⟩⟩
    · have read := nested inside (.op .closeBracket :: rest) index (count + value.size) second
        (by simp only [length_append, length_cons]; omega)
        (by rw [follows_cons]; exact Nat.zero_lt_one)
      have nodes : count + value.size + index.size + 2 =
          count + (AstNode.sub value index).size := by
        simp only [size]
        omega
      simp only [postfixStep, atOp_op, decide_true, if_true, advance_cons, read, bind_ok,
        expectOp_op, pure_eq_ok, count_mk, nodes]
      rfl
    · simp only [ParserState.left, length_cons, length_append]
      omega
  | @boolean _ op _ _ _ _ leveled =>
    rintro _ ⟨⟩
    cases op <;> cases leveled
  | binary listed =>
    rintro _ ⟨⟩
    cases listed
  | _ => rintro _ ⟨⟩

theorem complete_parsePostfix (enough : bound ≤ fuel) :
    Complete .primary (bound + 1) (parsePostfix parseTernary fuel) := by
  intro used rest node count derives short follows
  have unrolls : Unrolls _ id (postfixStep parseTernary fuel) _ _ :=
    unrolls_postfix nested (by omega) derives rfl rest count short
  obtain ⟨item, middle, first, less, run⟩ := unrolls
  have stops : postfixStep parseTernary fuel node ⟨rest, count + node.size⟩ = none := by
    rw [postfixStep, atOp_eq_false follows (Nat.le_refl _), atOp_eq_false follows (Nat.le_refl _)]
    rfl
  unfold parsePostfix
  rw [first, bind_ok]
  exact iterate_of_moves ParserState.left run stops
    (by simp only [ParserState.left] at less ⊢; omega)

theorem complete_parsePower {parseUnary : Parse Number (AstNode Number)}
    (unary : Complete .factor bound parseUnary) (enough : bound ≤ fuel) :
    Complete .power (bound + 1) (parsePower parseTernary parseUnary fuel) := by
  intro used rest node count derives short follows
  have primary := complete_parsePostfix nested enough
  unfold parsePower
  cases derives with
  | lift next inner =>
    cases next
    have read := primary _ _ _ count inner short (follows.mono (Nat.le_succ _))
    have ended : (ParserState.mk rest (count + node.size)).atOp .doubleStar = false :=
      atOp_eq_false follows (Nat.le_refl _)
    simp only [read, bind_ok, ended, Bool.false_eq_true, if_false, pure_eq_ok]
  | @power base exponent before after first second =>
    simp only [append_assoc, cons_append, length_append, length_cons] at short ⊢
    have read := primary _ (.op .doubleStar :: (after ++ rest)) _ count first
      (by simp only [length_append, length_cons]; omega)
      (by rw [follows_cons]; exact Nat.lt_succ_self _)
    have read' := unary _ _ _ (count + base.size) second
      (by simp only [length_append]; omega) follows.loosen
    have nodes : count + base.size + exponent.size + 2 =
        count + (AstNode.bin .pow base exponent).size := by
      simp only [size]
      omega
    simp only [read, bind_ok, atOp_op, decide_true, if_true, advance_cons, read', pure_eq_ok,
      count_mk, nodes]
  | @boolean _ op _ _ _ _ leveled => cases op <;> cases leveled
  | binary listed => cases listed

omit nested in
theorem sign?_stops {rest : List (Token Number)} {node : AstNode Number} {count : Nat}
    (derives : Derives Spelled (.tree .power node) used) :
    (ParserState.mk (used ++ rest) count).sign? = none := by
  refine List.find?_eq_none.mpr fun op _ atOp => ?_
  rw [not_atOp_of_derives derives (by cases op <;> exact Nat.lt_succ_self _)] at atOp
  cases atOp

omit nested in
theorem sign?_op (op : SignKind) (rest : List (Token Number)) (count : Nat) :
    (ParserState.mk (.op op.symbol :: rest) count).sign? = some op := by
  have injective : SignKind.symbol.Injective := by
    intro op other same
    cases op <;> cases other <;> first | rfl | cases same
  exact find_of_injective injective (by cases op <;> decide)

theorem complete_parseUnary (enough : fuel ≤ bound + 1) :
    Complete .factor fuel (parseUnary parseTernary fuel) := by
  induction fuel with
  | zero =>
    intro used rest node count derives short
    exact absurd short (Nat.not_lt_zero _)
  | succ fuel ih =>
    intro used rest node count derives short follows
    have inner := ih (by omega)
    rw [parseUnary]
    cases derives with
    | lift next power =>
      cases next
      rw [sign?_stops power]
      exact complete_parsePower (nested.mono (by omega)) inner (Nat.le_refl _) _ _ _ count power
        short (follows.mono (Nat.le_succ _))
    | @sign op operand tokens factor =>
      simp only [cons_append, length_cons] at short ⊢
      have read := inner _ _ _ count factor (by omega) follows
      rw [sign?_op]
      simp only [advance_cons, read, bind_ok, pure_eq_ok, count_mk, size]
      congr 3
      omega
    | @boolean _ op _ _ _ _ leveled => cases op <;> cases leveled
    | binary listed => cases listed

end Nested

section Comparison

variable {bound : Nat} {parseNext : Parse Number (AstNode Number)}

theorem compare?_op (kind : CompareKind) (rest : List (Token Number)) (count : Nat) :
    (ParserState.mk (.op kind.symbol :: rest) count).compare? = some kind := by
  have injective : CompareKind.symbol.Injective := by
    intro kind other same
    cases kind <;> cases other <;> first | rfl | cases same
  exact find_of_injective injective (by cases kind <;> decide)

theorem binding_of_compare (kind : CompareKind) :
    (Token.op kind.symbol : Token Number).binding = Level.comparison.rank := by
  cases kind <;> rfl

variable {rest : List (Token Number)}

theorem compareStep_stops (follows : Follows Level.comparison.rank rest)
    (read : List CompareKind × List (AstNode Number)) (count : Nat) :
    compareStep parseNext read ⟨rest, count⟩ = none := by
  have absent : (ParserState.mk rest count).compare? = none := by
    refine List.find?_eq_none.mpr fun kind _ atOp => ?_
    rw [atOp_eq_false follows (Nat.le_of_eq (binding_of_compare kind).symm)] at atOp
    cases atOp
  unfold compareStep
  rw [absent]

theorem follows_comparisons {ops : List CompareKind} {comparators : List (AstNode Number)}
    {after : List (Token Number)} (derives : Derives Spelled (.comparisons ops comparators) after)
    (follows : Follows Level.comparison.rank rest) : Follows Level.bitOr.rank (after ++ rest) := by
  cases derives with
  | noComparisons => exact follows.mono (Nat.le_succ _)
  | moreComparisons =>
    rw [cons_append, follows_cons, binding_of_compare]
    exact Nat.lt_succ_self _

theorem moves_of_comparisons (complete : Complete .bitOr bound parseNext) {phrase : Phrase Number}
    {used : List (Token Number)} (derives : Derives Spelled phrase used) :
    ∀ {ops : List CompareKind} {comparators : List (AstNode Number)},
      phrase = .comparisons ops comparators →
      ∀ (read : List CompareKind × List (AstNode Number)) (rest : List (Token Number))
        (count : Nat), (used ++ rest).length ≤ bound → Follows Level.comparison.rank rest →
          ReflTransGen (Moves ParserState.left (compareStep parseNext))
            (read, ⟨used ++ rest, count⟩)
            ((read.1 ++ ops, read.2 ++ comparators), ⟨rest, count + sizes comparators⟩) := by
  induction derives with
  | noComparisons =>
    rintro _ _ ⟨⟩ read rest count short follows
    simpa [sizes] using ReflTransGen.refl
  | @moreComparisons kind comparator ops comparators before after first others _ ih =>
    rintro _ _ ⟨⟩ read rest count short follows
    simp only [length_append, length_cons] at short
    have read' := complete _ (after ++ rest) _ count first
      (by simp only [length_append]; omega) (follows_comparisons others follows)
    have later := ih rfl (read.1 ++ [kind], read.2 ++ [comparator]) rest
      (count + comparator.size) (by simp only [length_append]; omega) follows
    rw [append_assoc, append_assoc, singleton_append, singleton_append] at later
    rw [sizes, ← Nat.add_assoc]
    refine .head ⟨?_, ?_⟩ later
    · simp only [compareStep, cons_append, append_assoc, compare?_op, advance_cons, read',
        bind_ok, pure_eq_ok]
    · simp only [ParserState.left, length_append, length_cons]
      omega
  | _ => rintro _ _ ⟨⟩

end Comparison

/-! ## Looser levels -/

section Levels

variable {parseTernary : Parse Number (AstNode Number)} {fuel : Nat}

theorem complete_parseBitOr (nested : Complete .expression fuel parseTernary) :
    Complete .bitOr (fuel + 1) (parseBitOr parseTernary fuel) := by
  have unary : Complete .factor (fuel + 1) (parseUnary parseTernary (fuel + 1)) :=
    complete_parseUnary nested (Nat.le_refl _)
  have term : Complete .term (fuel + 1) (parseTerm parseTernary fuel) :=
    complete_parseBinaryChain unary rfl (cons_ne_nil _ _) (Nat.le_refl _)
  have arith : Complete .sum (fuel + 1) (parseArith parseTernary fuel) :=
    complete_parseBinaryChain term rfl (cons_ne_nil _ _) (Nat.le_refl _)
  have shift : Complete .shift (fuel + 1) (parseShift parseTernary fuel) :=
    complete_parseBinaryChain arith rfl (cons_ne_nil _ _) (Nat.le_refl _)
  have bitAnd : Complete .bitAnd (fuel + 1) (parseBitAnd parseTernary fuel) :=
    complete_parseBinaryChain shift rfl (cons_ne_nil _ _) (Nat.le_refl _)
  have bitXor : Complete .bitXor (fuel + 1) (parseBitXor parseTernary fuel) :=
    complete_parseBinaryChain bitAnd rfl (cons_ne_nil _ _) (Nat.le_refl _)
  exact complete_parseBinaryChain bitXor rfl (cons_ne_nil _ _) (Nat.le_refl _)

theorem complete_parseComparison (nested : Complete .expression fuel parseTernary) :
    Complete .comparison (fuel + 1) (parseComparison parseTernary fuel) := by
  intro used rest node count derives short follows
  have operand := complete_parseBitOr nested
  unfold parseComparison
  cases derives with
  | lift next inner =>
    cases next
    have one := operand _ _ _ count inner short (follows.mono (Nat.le_succ _))
    rw [one, bind_ok]
    simp only [iterate_stop (compareStep_stops follows _ _) fuel, bind_ok, if_true, pure_eq_ok]
  | @comparison left ops comparators before after first others more =>
    rw [append_assoc] at short ⊢
    have one := operand _ _ _ count first short (follows_comparisons others follows)
    have run := moves_of_comparisons operand others rfl ([], []) rest (count + left.size)
      (by simp only [length_append] at short ⊢; omega) follows
    have enough : (ParserState.mk (after ++ rest) (count + left.size)).left ≤ fuel := by
      simp only [ParserState.left, length_append] at short ⊢
      omega
    have looped := iterate_of_moves ParserState.left run (compareStep_stops follows _ _) enough
    simp only [nil_append] at looped
    have nodes : count + left.size + sizes comparators + (1 + ops.length) =
        count + (AstNode.cmp left ops comparators).size := by
      simp only [size]
      omega
    rw [one, bind_ok]
    simp only [looped, bind_ok, more, if_false, pure_eq_ok, count_mk, nodes]
  | @boolean _ op _ _ _ _ leveled => cases op <;> cases leveled
  | binary listed => cases listed

theorem complete_parseNot {bound : Nat} (nested : Complete .expression bound parseTernary)
    (enough : fuel ≤ bound + 1) : Complete .inversion fuel (parseNot parseTernary fuel) := by
  induction fuel with
  | zero =>
    intro used rest node count derives short
    exact absurd short (Nat.not_lt_zero _)
  | succ fuel ih =>
    intro used rest node count derives short follows
    have inner := ih (by omega)
    rw [parseNot]
    cases derives with
    | lift next comparison =>
      cases next
      have plain : (ParserState.mk (used ++ rest) count).atName "not" = false :=
        not_atName_of_derives comparison (by simp [Token.opening, Level.rank])
      rw [plain]
      exact complete_parseComparison (nested.mono (by omega)) _ _ _ count comparison short
        (follows.mono (Nat.le_succ _))
    | @negation operand tokens negated =>
      simp only [cons_append, length_cons] at short ⊢
      have read := inner _ _ _ count negated (by omega) follows
      have nodes : count + operand.size + 2 = count + (AstNode.not operand).size := by
        simp only [size]
        omega
      simp only [atName_name, decide_true, if_true, advance_cons, read, bind_ok, pure_eq_ok,
        count_mk, nodes]
    | @boolean _ op _ _ _ _ leveled => cases op <;> cases leveled
    | binary listed => cases listed

theorem complete_parseOr (nested : Complete .expression fuel parseTernary) :
    Complete .disjunction (fuel + 1) (parseOr parseTernary fuel) := by
  have inversion : Complete .inversion (fuel + 1) (parseNot parseTernary (fuel + 1)) :=
    complete_parseNot nested (Nat.le_refl _)
  have conjunction : Complete .conjunction (fuel + 1) (parseAnd parseTernary fuel) :=
    @complete_parseBoolChain _ .and _ _ _ inversion rfl (Nat.le_refl _)
  exact @complete_parseBoolChain _ .or _ _ _ conjunction rfl (Nat.le_refl _)

end Levels

theorem complete_parseTernary (fuel : Nat) :
    Complete .expression fuel (parseTernary fuel : Parse Number (AstNode Number)) := by
  induction fuel with
  | zero =>
    intro used rest node count derives short
    exact absurd short (Nat.not_lt_zero _)
  | succ fuel ih =>
    intro used rest node count derives short follows
    have disjunction := complete_parseOr ih
    rw [parseTernary]
    cases derives with
    | lift next inner =>
      cases next
      have read := disjunction _ _ _ count inner short (follows.mono (Nat.le_succ _))
      have plain : (ParserState.mk rest (count + node.size)).atName "if" = false :=
        atName_eq_false follows (by simp [Token.binding, Level.rank])
      simp only [read, bind_ok, plain, Bool.false_eq_true, if_false, pure_eq_ok]
    | @conditional body test orelse before middle after first second third =>
      simp only [append_assoc, cons_append, length_append, length_cons] at short ⊢
      have one := disjunction _ (.name "if" :: (middle ++ .name "else" :: (after ++ rest))) _ count
        first (by simp only [length_append, length_cons]; omega)
        (by simp [Token.binding, Level.rank])
      have two := disjunction _ (.name "else" :: (after ++ rest)) _ (count + body.size) second
        (by simp only [length_append, length_cons]; omega)
        (by simp [Token.binding, Level.rank])
      have three := ih _ _ _ (count + body.size + test.size) third
        (by simp only [length_append]; omega) follows
      have nodes : count + body.size + test.size + orelse.size + 1 =
          count + (AstNode.ifexp test body orelse).size := by
        simp only [size]
        omega
      simp only [one, bind_ok, atName_name, decide_true, if_true, advance_cons, two, three,
        pure_eq_ok, count_mk, nodes]
    | @boolean _ op _ _ _ _ leveled => cases op <;> cases leveled
    | binary listed => cases listed

variable {node : AstNode Number} {tokens : List (Token Number)}

/-- What derives from all the tokens is what `parseExpression` returns. -/
theorem parseExpression_of_derives (derives : Derives Spelled (.tree .expression node) tokens) :
    parseExpression tokens = .ok (node, 1 + node.size) := by
  have read := complete_parseTernary (tokens.length + 1) tokens [] node 1 derives (by simp)
    (follows_nil _)
  rw [append_nil] at read
  simp only [parseExpression, read, bind_ok, if_true, pure_eq_ok]

/-- `parseExpression` accepts what derives in the grammar, with the size of the tree. -/
theorem parseExpression_eq_ok_iff {nodes : Nat} : parseExpression tokens = .ok (node, nodes) ↔
      Derives Spelled (.tree .expression node) tokens ∧ nodes = 1 + node.size := by
  constructor
  · exact derives_of_parseExpression
  · rintro ⟨derives, rfl⟩
    exact parseExpression_of_derives derives

end Dinkster.Expression
