import Dinkster.Execution.State

/-!
# Snapshots of nodes

A snapshot only adds to what is known of the nodes of an execution.  A node that has ended keeps
its state and its outputs, and a snapshot that is merged again changes nothing.
-/

namespace Dinkster.Execution

open Library Option

variable {Value : Type}

theorem get_spread (fallback record : Record Value) (name : String) :
    (spread fallback record).get name = (record.get name).or (fallback.get name) := by
  have written := Record.get_foldl_write (fun _ value => value) record.entries record.nodup_keys
    fallback name
  change (spread fallback record).get name = _ at written
  rw [written]
  unfold Record.get
  cases record.entries.get name <;> rfl

theorem mergeOutputs_of_live {snapshot live : Option (Record NodeOutputSummary)} {name : String}
    {summary : NodeOutputSummary} (known : (live.getD Record.empty).get name = some summary) :
    ((mergeOutputs snapshot live).getD Record.empty).get name = some summary := by
  unfold mergeOutputs
  split
  · cases known
  · rw [getD_some, get_spread, known, some_or]

theorem mergeOutputs_again (snapshot live : Option (Record NodeOutputSummary)) :
    mergeOutputs snapshot (mergeOutputs snapshot live) = mergeOutputs snapshot live := by
  unfold mergeOutputs
  cases snapshot with
  | none =>
    cases live with
    | none => rfl
    | some live =>
      dsimp only
      congr 1
      ext1 name
      simp only [get_spread, getD_none, getD_some]
      change (((live.get name).or none).or none) = (live.get name).or none
      simp
  | some snapshot =>
    dsimp only
    congr 1
    ext1 name
    simp only [get_spread, getD_some]
    cases ((live.getD Record.empty).get name) <;> cases (snapshot.get name) <;> rfl

theorem mergeOutputs_self (outputs : Option (Record NodeOutputSummary)) :
    mergeOutputs outputs outputs = outputs := by
  unfold mergeOutputs
  cases outputs with
  | none => rfl
  | some outputs =>
    dsimp only
    congr 1
    ext1 name
    simp only [get_spread, getD_some]
    cases outputs.get name <;> rfl

variable (value fallback : Option Value)

theorem or_again : (value.or fallback).or fallback = value.or fallback := by
  cases value <;> cases fallback <;> rfl

theorem or_behind : (value.or fallback).or value = value.or fallback := by
  cases value <;> cases fallback <;> rfl

theorem or_self (value : Option Value) : value.or value = value := by
  cases value <;> rfl

variable (live snapshot : NodeProgress)

theorem enrich_again : (live.enrich snapshot).enrich snapshot = live.enrich snapshot := by
  simp only [NodeProgress.enrich, or_again, mergeOutputs_again]

theorem enrich_self (progress : NodeProgress) : progress.enrich progress = progress := by
  simp only [NodeProgress.enrich, or_self, mergeOutputs_self]

theorem enrich_preserved : (preserveExecutionDetails snapshot (some live)).enrich snapshot =
      preserveExecutionDetails snapshot (some live) := by
  simp only [preserveExecutionDetails, NodeProgress.enrich, or_behind, or_self, mergeOutputs_self]

theorem mergeSnapshotNode_again (live : Option NodeProgress) (progress : NodeProgress) :
    mergeSnapshotNode (some (mergeSnapshotNode live progress)) progress =
      mergeSnapshotNode live progress := by
  have own : mergeSnapshotNode (some progress) progress = progress := by
    unfold mergeSnapshotNode
    dsimp only
    split
    · rename_i ends
      rw [Bool.and_eq_true, Bool.not_eq_true'] at ends
      rw [ends.1] at ends
      cases ends.2
    · split
      · exact enrich_self progress
      · rfl
  cases live with
  | none => exact own
  | some live =>
    by_cases ends : (!live.state.isTerminal && progress.state.isTerminal) = true
    · have merged : mergeSnapshotNode (some live) progress =
          preserveExecutionDetails progress (some live) := if_pos ends
      have terminal : progress.state.isTerminal = true := by
        rw [Bool.and_eq_true] at ends
        exact ends.2
      rw [merged]
      unfold mergeSnapshotNode
      simp only [preserveExecutionDetails, terminal, Bool.not_true, Bool.false_and,
        Bool.false_eq_true, if_false, Bool.and_self, decide_true, if_true]
      exact enrich_preserved live progress
    · by_cases same : (live.state.isTerminal && progress.state.isTerminal &&
          decide (live.state = progress.state)) = true
      · have merged : mergeSnapshotNode (some live) progress = live.enrich progress := by
          unfold mergeSnapshotNode
          dsimp only
          rw [if_neg ends, if_pos same]
        rw [merged]
        unfold mergeSnapshotNode
        dsimp only
        rw [if_neg (show ¬ (!(live.enrich progress).state.isTerminal &&
            progress.state.isTerminal) = true from ends),
          if_pos (show ((live.enrich progress).state.isTerminal && progress.state.isTerminal &&
            decide ((live.enrich progress).state = progress.state)) = true from same)]
        exact enrich_again live progress
      · have merged : mergeSnapshotNode (some live) progress = live := by
          unfold mergeSnapshotNode
          dsimp only
          rw [if_neg ends, if_neg same]
        rw [merged, merged]

theorem mergeSnapshotNode_of_isTerminal {live progress : NodeProgress}
    (ended : live.state.isTerminal = true) :
    (mergeSnapshotNode (some live) progress).state = live.state ∧
      ∀ {name summary}, (live.outputs.getD Record.empty).get name = some summary →
        ((mergeSnapshotNode (some live) progress).outputs.getD Record.empty).get name =
          some summary := by
  unfold mergeSnapshotNode
  dsimp only
  rw [ended, Bool.not_true, Bool.false_and, if_neg Bool.false_ne_true]
  split
  · exact ⟨rfl, mergeOutputs_of_live⟩
  · exact ⟨rfl, id⟩

variable (current incoming : Record NodeProgress)

theorem get_mergeSnapshotNodes (nodeId : String) :
    (mergeSnapshotNodes current incoming).get nodeId =
      match incoming.get nodeId with
      | none => current.get nodeId
      | some progress => some (mergeSnapshotNode (current.get nodeId) progress) := by
  have written := Record.get_foldl_write mergeSnapshotNode incoming.entries incoming.nodup_keys
    current nodeId
  change (mergeSnapshotNodes current incoming).get nodeId = _ at written
  rw [written, show Table.get incoming.entries nodeId = incoming.get nodeId from rfl]
  cases incoming.get nodeId <;> rfl

theorem mergeSnapshotNodes_again :
    mergeSnapshotNodes (mergeSnapshotNodes current incoming) incoming =
      mergeSnapshotNodes current incoming := by
  ext1 nodeId
  rw [get_mergeSnapshotNodes, get_mergeSnapshotNodes]
  cases incoming.get nodeId with
  | none => rfl
  | some progress => exact congrArg some (mergeSnapshotNode_again _ _)

theorem mergeSnapshotNodes_of_isTerminal {current incoming : Record NodeProgress}
    {nodeId : String} {live : NodeProgress} (known : current.get nodeId = some live)
    (ended : live.state.isTerminal = true) :
    ∃ merged, (mergeSnapshotNodes current incoming).get nodeId = some merged ∧
      merged.state = live.state ∧
      ∀ {name summary}, (live.outputs.getD Record.empty).get name = some summary →
        (merged.outputs.getD Record.empty).get name = some summary := by
  rw [get_mergeSnapshotNodes, known]
  cases incoming.get nodeId with
  | none => exact ⟨live, rfl, rfl, id⟩
  | some progress => exact ⟨_, rfl, mergeSnapshotNode_of_isTerminal ended⟩

end Dinkster.Execution
