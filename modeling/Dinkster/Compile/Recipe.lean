import Dinkster.Compile.Partial

/-!
# Upstream recipes

A value that a past run recorded is shown as current only when the next run would compute
it again.  That is decided on two prompts: from a node the walk compares entries and goes
on to the producers that their inputs name.
-/

namespace Dinkster.Compile

open Format Library List

/-- `asLink`: a pair of a text and a number. -/
def asLink : Json → Option (String × Rat)
  | .arr [.str producer, .num slot] => some (producer, slot)
  | _ => none

/-- `jsonEqual`: deep equality, less the order of keys. -/
def jsonEqual (left right : Json) : Bool :=
  jsonSameValue left right

/-- `jsonEqual` on two records. -/
def sameRecord {Field : Type} [DecidableEq Field] (left right : List (String × Field)) : Bool :=
  left.length = right.length && left.all fun entry => right.lookup entry.1 = some entry.2

/-- Whether two inputs are the same: equal links, or equal literals. -/
def sameInput (left right : Json) : Bool :=
  match asLink left, asLink right with
  | some link, some other => link = other
  | none, none => jsonEqual left right
  | _, _ => false

/-- `nodesEqual`: one node's local recipe. -/
def nodesEqual (left right : PromptNode) : Bool :=
  left.classType = right.classType &&
    sameRecord left.slotVariants right.slotVariants &&
    sameRecord (left.outputMembers.getD []) (right.outputMembers.getD []) &&
    left.outputIds = right.outputIds &&
    left.inputs.length = right.inputs.length &&
    left.inputs.all fun entry =>
      (getField right.inputs entry.1).any (sameInput entry.2)

/-- The producers that the inputs of an entry name. -/
def PromptNode.producers (node : PromptNode) : List String :=
  node.inputs.filterMap fun entry => (asLink entry.2).map (·.1)

/-- A prompt, keyed by runtime id. -/
abbrev Prompt := List (String × PromptNode)

def upstream (prompt : Prompt) (runtimeId : String) : List String :=
  ((prompt.lookup runtimeId).map PromptNode.producers).getD []

def entriesEqual (left right : Prompt) (runtimeId : String) : Bool :=
  match left.lookup runtimeId, right.lookup runtimeId with
  | some node, some other => nodesEqual node other
  | _, _ => false

/-- The loop of `upstreamRecipesEqual`: the stack has its top first. -/
def walkRecipes (left right : Prompt) : Nat → List String → List String → Bool
  | _, [], _ => true
  | 0, _ :: _, _ => false
  | fuel + 1, id :: pending, seen =>
    if id ∈ seen then walkRecipes left right fuel pending seen
    else if !entriesEqual left right id then false
    else walkRecipes left right fuel ((upstream left id).reverse ++ pending) (seen ++ [id])

def upstreamRecipesEqual (left right : Prompt) (runtimeId : String) : Bool :=
  walkRecipes left right (workLeft (upstream left) (left.map (·.1)) [runtimeId] []) [runtimeId] []

section Walk

variable {left right : Prompt}

theorem mem_keys_of_upstream {id : String} (some : upstream left id ≠ []) :
    id ∈ left.map (·.1) := by
  by_contra absent
  apply some
  have missing : left.lookup id = none := by
    rw [lookup_eq_none_iff]
    intro entry known
    rw [bne_iff_ne]
    intro same
    exact absent (mem_map.mpr ⟨entry, known, same.symm⟩)
  unfold upstream
  rw [missing]
  rfl

/-- The walk compares what its worklist keeps. -/
theorem walkRecipes_iff : ∀ (fuel : Nat) (pending seen : List String),
    workLeft (upstream left) (left.map (·.1)) pending seen ≤ fuel →
      (walkRecipes left right fuel pending seen = true ↔
        ∀ id ∈ drain (upstream left) fuel pending seen, id ∉ seen →
          entriesEqual left right id = true) := by
  intro fuel
  induction fuel with
  | zero =>
    intro pending seen enough
    cases pending with
    | nil => simpa [walkRecipes, drain] using fun _ known fresh => absurd known fresh
    | cons id pending => simp [workLeft] at enough
  | succ fuel ih =>
    intro pending seen enough
    cases pending with
    | nil => simpa [walkRecipes, drain] using fun _ known fresh => absurd known fresh
    | cons id pending =>
      unfold walkRecipes drain
      by_cases known : id ∈ seen
      · rw [if_pos known, if_pos known]
        apply ih
        simp only [workLeft, length_cons] at enough ⊢
        omega
      · rw [if_neg known, if_neg known]
        have paid := @workLeft_keep _ _ (upstream left) (left.map (·.1))
          (fun _ => mem_keys_of_upstream) id pending seen known
        have later := ih ((upstream left id).reverse ++ pending) (seen ++ [id]) (by omega)
        have kept : id ∈ drain (upstream left) fuel ((upstream left id).reverse ++ pending)
            (seen ++ [id]) := mem_drain_of_seen fuel _ (by simp)
        cases equal : entriesEqual left right id with
        | false =>
          simp only [Bool.not_false, if_true, Bool.false_eq_true, false_iff]
          intro every
          have same := every id kept known
          rw [equal] at same
          exact Bool.false_ne_true same
        | true =>
          simp only [Bool.not_true, Bool.false_eq_true, if_false]
          rw [later]
          constructor
          · intro every other listed fresh
            by_cases same : other = id
            · rw [same]
              exact equal
            · exact every other listed (by simp [fresh, same])
          · intro every other listed fresh
            exact every other listed fun old => fresh (mem_append_left _ old)

variable {runtimeId : String}

/-- The walk compares the entries of everything upstream. -/
theorem upstreamRecipesEqual_iff : upstreamRecipesEqual left right runtimeId = true ↔
      ∀ id, Reaches (upstream left) [runtimeId] id → entriesEqual left right id = true := by
  unfold upstreamRecipesEqual
  rw [walkRecipes_iff _ _ _ (Nat.le_refl _)]
  have kept : ∀ id, id ∈ drain (upstream left)
      (workLeft (upstream left) (left.map (·.1)) [runtimeId] []) [runtimeId] [] ↔
        Reaches (upstream left) [runtimeId] id := by
    intro id
    have closes := @mem_closure_iff _ _ (upstream left) (left.map (·.1))
      (fun _ => mem_keys_of_upstream) [runtimeId] id
    unfold Library.closure at closes
    exact closes
  constructor
  · intro every id reached
    exact every id ((kept id).mpr reached) not_mem_nil
  · intro every id listed _
    exact every id ((kept id).mp listed)

end Walk

end Dinkster.Compile
