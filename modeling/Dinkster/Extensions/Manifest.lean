import Mathlib

/-!
# Pack manifests

A pack lists its contributions, each with an id below the pack's and a category, before its
code runs.  A manifest with an error is refused as a whole, so the ids of an accepted one are
made of letters, digits, dashes and dots.
-/

namespace Dinkster.Extensions

open List

inductive Severity where
  | error
  | warning
  | info
  deriving DecidableEq

/-- A diagnostic of the extension host. -/
structure Diagnostic where
  severity : Severity
  code : String
  message : String
  deriving DecidableEq

def bad (code message : String) : Diagnostic := ⟨.error, code, message⟩

def hasError (diagnostics : List Diagnostic) : Bool :=
  diagnostics.any fun problem => problem.severity = .error

theorem hasError_append (front back : List Diagnostic) :
    hasError (front ++ back) = (hasError front || hasError back) :=
  any_append

inductive ContributionCategory where
  | widgetKind
  | widgetView
  | previewRenderer
  | textEditorExtension
  | menu
  | command
  | keybinding
  | setting
  | canvasLayer
  | nodeDecoration
  | hostUi
  | searchProvider
  | eventConsumer
  | editor
  | editorBinding
  | panel
  | virtualNode
  deriving DecidableEq

def ContributionCategory.text : ContributionCategory → String
  | .widgetKind => "widgetKind"
  | .widgetView => "widgetView"
  | .previewRenderer => "previewRenderer"
  | .textEditorExtension => "textEditorExtension"
  | .menu => "menu"
  | .command => "command"
  | .keybinding => "keybinding"
  | .setting => "setting"
  | .canvasLayer => "canvasLayer"
  | .nodeDecoration => "nodeDecoration"
  | .hostUi => "hostUi"
  | .searchProvider => "searchProvider"
  | .eventConsumer => "eventConsumer"
  | .editor => "editor"
  | .editorBinding => "editorBinding"
  | .panel => "panel"
  | .virtualNode => "virtualNode"

def contributionCategories : List String :=
  [ContributionCategory.widgetKind, .widgetView, .previewRenderer, .textEditorExtension, .menu,
    .command, .keybinding, .setting, .canvasLayer, .nodeDecoration, .hostUi, .searchProvider,
    .eventConsumer, .editor, .editorBinding, .panel, .virtualNode].map (·.text)

/-- `ContributionDecl`.  The category is what the manifest says, known or not. -/
structure ContributionDecl where
  id : String
  category : String
  deriving DecidableEq

structure PackManifest where
  id : String
  uses : List String
  contributions : List ContributionDecl

/-- Whether a text is made of runs of some characters, with single dots between them.  The
first argument tells whether the current run has begun. -/
def dotted (allowed : Char → Bool) : Bool → List Char → Bool
  | begun, [] => begun
  | begun, char :: rest =>
    if char = '.' then begun && dotted allowed false rest
    else allowed char && dotted allowed true rest

/-- `[a-z0-9-]`. -/
def isPackChar (char : Char) : Bool :=
  char.isLower || char.isDigit || char = '-'

/-- `[A-Za-z0-9-]`. -/
def isTailChar (char : Char) : Bool :=
  char.isAlphanum || char = '-'

/-- `PACK_ID`. -/
def isPackId (id : String) : Bool :=
  dotted isPackChar false id.toList

/-- `validOwnedId`: the id of a pack, a dot, and a `CONTRIBUTION_TAIL`. -/
def validOwnedId (pack id : String) : Bool :=
  let opening := pack.toList ++ ['.']
  opening.isPrefixOf id.toList && dotted isTailChar false (id.toList.drop opening.length)

def contributionProblems (pack : String) : List String → List ContributionDecl → List Diagnostic
  | _, [] => []
  | seen, decl :: rest =>
    (if decl.category ∈ contributionCategories then []
      else [bad "extension.category-unknown"
        s!"contribution '{decl.id}' declares unknown category '{decl.category}'"]) ++
    (if validOwnedId pack decl.id then []
      else [bad "extension.contribution-id-invalid"
        s!"contribution id '{decl.id}' must be '{pack}.<name>'"]) ++
    (if decl.id ∈ seen then
      [bad "extension.contribution-duplicate" s!"contribution id '{decl.id}' declared twice"]
      else []) ++
    contributionProblems pack (decl.id :: seen) rest

def validateManifest (manifest : PackManifest) : List Diagnostic :=
  (if isPackId manifest.id then []
    else [bad "extension.pack-id-invalid"
      s!"pack id '{manifest.id}' is not a lowercase dotted identifier"]) ++
  (if manifest.id = "core" ∨ "core.".toList.isPrefixOf manifest.id.toList then
    [bad "extension.pack-id-reserved" s!"pack id '{manifest.id}' is reserved for the host"]
    else []) ++
  contributionProblems manifest.id [] manifest.contributions ++
  (manifest.uses.filter fun use =>
    (manifest.id.toList ++ ['.']).isPrefixOf use.toList).map fun use =>
      bad "extension.uses-own"
        s!"'uses' names this pack's own '{use}'; uses is for OTHER packs"

/-- The apostrophe that ends an id in a message. -/
def apostrophe : Char := '\x27'

/-- Ids without an apostrophe. -/
def Unquoted (id : String) : Prop :=
  apostrophe ∉ id.toList

theorem apostrophe_not_mem_dotted {allowed : Char → Bool} (barred : allowed apostrophe = false) :
    ∀ (begun : Bool) (text : List Char), dotted allowed begun text = true → apostrophe ∉ text
  | _, [], _ => not_mem_nil
  | begun, char :: rest, accepted => by
    intro listed
    unfold dotted at accepted
    split at accepted
    · rename_i dot
      rw [Bool.and_eq_true] at accepted
      cases mem_cons.mp listed with
      | inl same => exact absurd (same.trans dot) (by decide)
      | inr later =>
        exact apostrophe_not_mem_dotted barred false rest accepted.2 later
    · rw [Bool.and_eq_true] at accepted
      cases mem_cons.mp listed with
      | inl same =>
        rw [← same, barred] at accepted
        cases accepted.1
      | inr later => exact apostrophe_not_mem_dotted barred true rest accepted.2 later

theorem unquoted_of_owned {pack id : String} (pure : isPackId pack = true)
    (owned : validOwnedId pack id = true) : Unquoted id := by
  have parts := Bool.and_eq_true_iff.mp owned
  obtain ⟨tail, split⟩ := isPrefixOf_iff_prefix.mp parts.1
  have rest : dotted isTailChar false tail = true := by
    have dropped := parts.2
    rw [← split, drop_left] at dropped
    exact dropped
  intro listed
  rw [← split] at listed
  cases mem_append.mp listed with
  | inl front =>
    cases mem_append.mp front with
    | inl inside => exact apostrophe_not_mem_dotted (by decide) false _ pure inside
    | inr dot => exact absurd (mem_singleton.mp dot) (by decide)
  | inr back => exact apostrophe_not_mem_dotted (by decide) false tail rest back

theorem owned_of_noProblem {pack : String} : ∀ {seen : List String} {decls : List ContributionDecl},
    hasError (contributionProblems pack seen decls) = false →
      ∀ decl ∈ decls, validOwnedId pack decl.id = true
  | _, [], _, _, listed => absurd listed not_mem_nil
  | seen, first :: rest, silent, decl, listed => by
    unfold contributionProblems at silent
    rw [hasError_append, Bool.or_eq_false_iff] at silent
    cases mem_cons.mp listed with
    | inr later => exact owned_of_noProblem silent.2 decl later
    | inl same =>
      rw [hasError_append, Bool.or_eq_false_iff, hasError_append, Bool.or_eq_false_iff]
        at silent
      have quiet := silent.1.1.2
      rw [same]
      split at quiet
      · assumption
      · cases quiet

theorem unquoted_of_accepted {manifest : PackManifest}
    (accepted : hasError (validateManifest manifest) = false) :
    ∀ decl ∈ manifest.contributions, Unquoted decl.id := by
  unfold validateManifest at accepted
  rw [hasError_append, Bool.or_eq_false_iff, hasError_append, Bool.or_eq_false_iff,
    hasError_append, Bool.or_eq_false_iff] at accepted
  intro decl listed
  have owned := owned_of_noProblem accepted.1.2 decl listed
  have pure : isPackId manifest.id = true := by
    have quiet := accepted.1.1.1
    split at quiet
    · assumption
    · cases quiet
  exact unquoted_of_owned pure owned

end Dinkster.Extensions
