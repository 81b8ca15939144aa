import Dinkster.Expression.Complete

/-!
# The parser and Python's grammar

The parser accepts what derives when every word outside `KEYWORDS` is a name.  Python reserves
more words than these, and on a token sequence with one of them as a name the two differ.
-/

namespace Dinkster.Expression

open Library

variable {Number : Type}

def PythonName (text : String) : Prop :=
  text ∉ keywords ∧ text ∉ otherReservedWords

def Words (holds : String → Prop) (tokens : List (Token Number)) : Prop :=
  ∀ text, .name text ∈ tokens → holds text

section Words

variable {holds : String → Prop}

@[simp] theorem words_nil : Words holds ([] : List (Token Number)) := by
  intro text listed
  cases listed

@[simp] theorem words_append {front back : List (Token Number)} :
    Words holds (front ++ back) ↔ Words holds front ∧ Words holds back := by
  simp only [Words, List.mem_append, or_imp, forall_and]

variable {tokens : List (Token Number)}

@[simp] theorem words_name {text : String} :
    Words holds (.name text :: tokens) ↔ holds text ∧ Words holds tokens := by
  simp only [Words, List.mem_cons, Token.name.injEq, or_imp, forall_and, forall_eq]

@[simp] theorem words_op {symbol : Symbol} :
    Words holds (.op symbol :: tokens) ↔ Words holds tokens := by
  simp only [Words, List.mem_cons, reduceCtorEq, false_or]

@[simp] theorem words_number {value : Number} :
    Words holds (.number value :: tokens) ↔ Words holds tokens := by
  simp only [Words, List.mem_cons, reduceCtorEq, false_or]

end Words

variable {phrase : Phrase Number} {tokens : List (Token Number)}

variable {isName : String → Prop}

theorem derives_of_words {other : String → Prop} (derives : Derives isName phrase tokens) :
    Words (fun text => isName text → other text) tokens → Derives other phrase tokens := by
  induction derives with
  | lift next _ ih =>
    intro words
    exact .lift next (ih words)
  | conditional _ _ _ ih₁ ih₂ ih₃ =>
    intro words
    simp only [words_append, words_name] at words
    exact .conditional (ih₁ words.1) (ih₂ words.2.2.1) (ih₃ words.2.2.2.2)
  | boolean leveled _ _ more ih₁ ih₂ =>
    intro words
    rw [words_append] at words
    exact .boolean leveled (ih₁ words.1) (ih₂ words.2) more
  | noOperands => exact fun _ => .noOperands
  | moreOperands _ _ ih₁ ih₂ =>
    intro words
    rw [words_name, words_append] at words
    exact .moreOperands (ih₁ words.2.1) (ih₂ words.2.2)
  | negation _ ih =>
    intro words
    exact .negation (ih (words_name.mp words).2)
  | comparison _ _ more ih₁ ih₂ =>
    intro words
    rw [words_append] at words
    exact .comparison (ih₁ words.1) (ih₂ words.2) more
  | noComparisons => exact fun _ => .noComparisons
  | moreComparisons _ _ ih₁ ih₂ =>
    intro words
    rw [words_op, words_append] at words
    exact .moreComparisons (ih₁ words.1) (ih₂ words.2)
  | binary listed next _ _ ih₁ ih₂ =>
    intro words
    rw [words_append, words_op] at words
    exact .binary listed next (ih₁ words.1) (ih₂ words.2)
  | sign _ ih =>
    intro words
    exact .sign (ih (words_op.mp words))
  | power _ _ ih₁ ih₂ =>
    intro words
    rw [words_append, words_op] at words
    exact .power (ih₁ words.1) (ih₂ words.2)
  | call _ _ ih₁ ih₂ =>
    intro words
    rw [words_append, words_op, words_append] at words
    exact .call (ih₁ words.1) (ih₂ words.2.1)
  | trailingComma _ _ some ih₁ ih₂ =>
    intro words
    rw [words_append, words_op, words_append] at words
    exact .trailingComma (ih₁ words.1) (ih₂ words.2.1) some
  | noArguments => exact fun _ => .noArguments
  | firstArgument _ ih =>
    intro words
    exact .firstArgument (ih words)
  | moreArguments _ some _ ih₁ ih₂ =>
    intro words
    rw [words_append, words_op] at words
    exact .moreArguments (ih₁ words.1) some (ih₂ words.2)
  | subscript _ _ ih₁ ih₂ =>
    intro words
    rw [words_append, words_op, words_append] at words
    exact .subscript (ih₁ words.1) (ih₂ words.2.1)
  | number => exact fun _ => .number
  | true => exact fun _ => .true
  | false => exact fun _ => .false
  | none => exact fun _ => .none
  | name named =>
    intro words
    exact .name ((words_name.mp words).1 named)
  | group _ ih =>
    intro words
    rw [words_op, words_append] at words
    exact .group (ih words.1)

theorem words_of_derives (derives : Derives isName phrase tokens) :
    Words (fun text => text ∈ keywords ∨ isName text) tokens := by
  induction derives with
  | name named => exact words_name.mpr ⟨.inr named, words_nil⟩
  | @moreOperands op =>
    have word : op.word ∈ keywords := by cases op <;> decide
    simp only [words_name, words_append, word, true_or, true_and]
    exact ⟨‹_›, ‹_›⟩
  | lift _ _ ih | firstArgument _ ih => exact ih
  | noOperands | noComparisons | noArguments => exact words_nil
  | conditional | boolean | negation | comparison | moreComparisons | binary | sign | power |
    call | trailingComma | moreArguments | subscript | number | true | false | none | group =>
      simp_all [keywords]

/-- A word reserved besides the keywords is in no derivation. -/
theorem not_reserved_of_derives (derives : Derives PythonName phrase tokens) {text : String}
    (reserved : text ∈ otherReservedWords) : .name text ∉ tokens := by
  intro listed
  have disjoint : ∀ word ∈ otherReservedWords, word ∉ keywords := by decide
  rcases words_of_derives derives text listed with keyword | named
  · exact disjoint text reserved keyword
  · exact named.2 reserved

theorem derives_pythonName_iff : Derives PythonName phrase tokens ↔
      Derives Spelled phrase tokens ∧ ∀ text ∈ otherReservedWords, .name text ∉ tokens := by
  constructor
  · intro derives
    exact ⟨derives_of_words derives fun _ _ named => named.1,
      fun _ reserved => not_reserved_of_derives derives reserved⟩
  · rintro ⟨derives, none⟩
    exact derives_of_words derives fun text listed spelled =>
      ⟨spelled, fun reserved => none text reserved listed⟩

/-- `parseExpression` succeeds exactly on what derives, with the one tree it derives to and
with the size of that tree. -/
def ExactOn (tokens : List (Token Number)) : Prop :=
  ((∃ result, parseExpression tokens = .ok result) ↔
    ∃ node, Derives PythonName (.tree .expression node) tokens) ∧
  ∀ node nodes, parseExpression tokens = .ok (node, nodes) →
    (∀ other, Derives PythonName (.tree .expression other) tokens ↔ other = node) ∧
      nodes = 1 + node.size

theorem exactOn_iff (tokens : List (Token Number)) :
    ExactOn tokens ↔ (∀ text ∈ otherReservedWords, .name text ∉ tokens) ∨
      ¬ ∃ node, Derives Spelled (.tree .expression node) tokens := by
  constructor
  · rintro ⟨succeeds, _⟩
    by_cases derivable : ∃ node, Derives Spelled (.tree .expression node) tokens
    · obtain ⟨node, derives⟩ := derivable
      obtain ⟨other, derives'⟩ := succeeds.mp ⟨_, parseExpression_of_derives derives⟩
      exact .inl (derives_pythonName_iff.mp derives').2
    · exact .inr derivable
  · rintro (none | underivable)
    · have agree (node : AstNode Number) : Derives PythonName (.tree .expression node) tokens ↔
          Derives Spelled (.tree .expression node) tokens := by
        rw [derives_pythonName_iff, and_iff_left none]
      constructor
      · constructor
        · rintro ⟨⟨node, nodes⟩, parsed⟩
          exact ⟨node, (agree node).mpr (derives_of_parseExpression parsed).1⟩
        · rintro ⟨node, derives⟩
          exact ⟨_, parseExpression_of_derives ((agree node).mp derives)⟩
      · intro node nodes parsed
        obtain ⟨derives, sized⟩ := derives_of_parseExpression parsed
        refine ⟨fun other => ⟨fun derives' => ?_, fun same => same ▸ (agree node).mpr derives⟩, sized⟩
        have parsed' := parseExpression_of_derives ((agree other).mp derives')
        cases parsed.symm.trans parsed'
        rfl
    · have fails {node : AstNode Number} {nodes : Nat} : parseExpression tokens ≠ .ok (node, nodes) :=
        fun parsed => underivable ⟨node, (derives_of_parseExpression parsed).1⟩
      constructor
      · constructor
        · rintro ⟨⟨node, nodes⟩, parsed⟩
          exact absurd parsed fails
        · rintro ⟨node, derives⟩
          exact absurd ⟨node, (derives_pythonName_iff.mp derives).1⟩ underivable
      · intro node nodes parsed
        exact absurd parsed fails

/-- The token sequence of `lambda` is accepted, and Python has no such expression. -/
theorem lambda_accepted : ¬ ExactOn ([.name "lambda"] : List (Token Nat)) := by
  rintro ⟨succeeds, _⟩
  obtain ⟨node, derives⟩ := succeeds.mp ⟨(.name "lambda", 3), rfl⟩
  exact not_reserved_of_derives derives (by decide : "lambda" ∈ otherReservedWords) (by simp)

end Dinkster.Expression
