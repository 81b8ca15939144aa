import Dinkster.Execution.Store

/-!
# Everything that an event can do

Every branch of the event switch keeps to a few rules.  A status that was observed to be final
stays, the verdict that a run is lost goes together with its diagnostic, and whatever makes an
entry final, or its previews larger where they count, asks for enforcement.
-/

namespace Dinkster.Execution

open Library Option

variable (errors : List ExecutionDiagnostic)

def CarriesLost : Prop :=
  ∃ diagnostic ∈ errors, diagnostic.code = lostCode

theorem not_carriesLost_without : ¬ CarriesLost (withoutLostDiagnostics errors) := by
  rintro ⟨diagnostic, listed, code⟩
  have kept := (List.mem_filter.mp listed).2
  exact absurd code (by simpa using kept)

theorem carriesLost_append {errors : List ExecutionDiagnostic} {diagnostic : ExecutionDiagnostic}
    (other : diagnostic.code ≠ lostCode) :
    CarriesLost (errors ++ [diagnostic]) ↔ CarriesLost errors := by
  unfold CarriesLost
  simp only [List.mem_append, List.mem_singleton]
  refine ⟨?_, fun ⟨known, listed, code⟩ => ⟨known, .inl listed, code⟩⟩
  rintro ⟨known, listed | rfl, code⟩
  · exact ⟨known, listed, code⟩
  · exact absurd code other

theorem runtimeDiagnostic_code_ne (state : ExecutionState) (execution : ExecutionRef)
    (runtimeNodeId : Option String) (detail : RuntimeErrorDetail) :
    (runtimeDiagnostic state execution runtimeNodeId detail).code ≠ lostCode := by
  intro same
  have letters := congrArg String.toList same
  rw [show (runtimeDiagnostic state execution runtimeNodeId detail).code =
    "runtime." ++ detail.exceptionType from rfl, String.toList_append] at letters
  exact absurd (List.cons.inj letters).1 (by decide)

theorem carriesLost_retracted (lost : Bool) (errors : List ExecutionDiagnostic) :
    CarriesLost (retracted lost errors) ↔ CarriesLost errors ∧ lost = false := by
  cases lost with
  | false => simp [retracted]
  | true => simp [retracted, not_carriesLost_without]

theorem noticed_isTerminal (status : ExecutionStatus) :
    status.noticed.isTerminal = status.isTerminal := by
  cases status <;> rfl

theorem noticed_of_isTerminal {status : ExecutionStatus} (terminal : status.isTerminal = true) :
    status.noticed = status := by
  cases status <;> first | rfl | cases terminal

def EventBody.verdict : EventBody → Option ExecutionStatus
  | .completed => some .completed
  | .error _ _ => some .error
  | .interrupted => some .interrupted
  | _ => none

structure Effect (lost unconfirmed : Bool) (event : ExecutionEvent) (state : ExecutionState)
    (change : Change) : Prop where
  ref : change.next.ref = state.ref
  key : change.next.key = state.key
  queuedAt : change.next.queuedAt = state.queuedAt
  settled : state.status.isTerminal = true → lost = false →
    change.next.status = state.status ∧ change.next.endedAt = state.endedAt ∧
      change.after ≠ .terminal
  lost_kept : change.clears = false → state.status = .interrupted →
    change.next.status = .interrupted
  errors : CarriesLost change.next.errors ↔
    CarriesLost state.errors ∧ ¬ (lost = true ∧ change.clears = true)
  calm : change.after ≠ .terminal → change.next.status.isTerminal = true →
    state.status.isTerminal = true ∧ (lost = true → change.clears = false)
  ends : change.after = .terminal →
    event.body.verdict = some change.next.status ∧ change.next.endedAt = some event.timestamp ∧
      change.clears = true
  still : change.after = .nothing → previewBytesOf change.next = previewBytesOf state ∨
    state.status.isTerminal = false ∧ unconfirmed = false ∧ change.next.status = state.status

section Effects

variable {lost unconfirmed : Bool} {event : ExecutionEvent} {state next : ExecutionState}

/-- A change that only brings news of a run. -/
theorem Effect.news (identity : next.ref = state.ref ∧ next.key = state.key ∧
      next.queuedAt = state.queuedAt)
    (status : next.status = state.status ∨ next.status = state.status.noticed)
    (endedAt : next.endedAt = state.endedAt) (errors : next.errors = state.errors)
    (bytes : previewBytesOf next = previewBytesOf state) :
    Effect lost unconfirmed event state (.put next) := by
  have terminal : next.status.isTerminal = state.status.isTerminal := by
    cases status with
    | inl same => rw [same]
    | inr same => rw [same, noticed_isTerminal]
  have kept : state.status.isTerminal = true → next.status = state.status := by
    intro final
    cases status with
    | inl same => exact same
    | inr same => exact same.trans (noticed_of_isTerminal final)
  refine ⟨identity.1, identity.2.1, identity.2.2, fun final _ => ⟨kept final, endedAt, nofun⟩,
    fun _ interrupted => ?_, ?_, fun _ final => ⟨terminal ▸ final, fun _ => rfl⟩, nofun,
    fun _ => .inl bytes⟩
  · exact (kept (by rw [interrupted]; rfl)).trans interrupted
  · change CarriesLost next.errors ↔ _
    rw [errors]
    exact (and_iff_left fun both => (nomatch both.2)).symm

/-- A change that ends a run. -/
theorem Effect.ending (undecided : (state.status.isTerminal && !lost) = false)
    (identity : next.ref = state.ref ∧ next.key = state.key ∧ next.queuedAt = state.queuedAt)
    (verdict : event.body.verdict = some next.status)
    (endedAt : next.endedAt = some event.timestamp)
    (errors : CarriesLost next.errors ↔ CarriesLost state.errors ∧ lost = false) :
    Effect lost unconfirmed event state ⟨next, true, .terminal⟩ := by
  refine ⟨identity.1, identity.2.1, identity.2.2, fun terminal known => ?_, nofun, ?_,
    fun other => absurd rfl other, fun _ => ⟨verdict, endedAt, rfl⟩, nofun⟩
  · rw [terminal, known] at undecided
    cases undecided
  · rw [errors]
    simp

section

variable (identity : next.ref = state.ref ∧ next.key = state.key ∧ next.queuedAt = state.queuedAt)

include identity

theorem Effect.reviving
    (status : next.status = .running ∨ lost = false ∧ next.status = state.status.noticed ∧
      next.endedAt = state.endedAt)
    (undecided : next.status = .running → (state.status.isTerminal && !lost) = false)
    (errors : CarriesLost next.errors ↔ CarriesLost state.errors ∧ lost = false)
    (bytes : previewBytesOf next = previewBytesOf state) :
    Effect lost unconfirmed event state ⟨next, true, .nothing⟩ := by
  refine ⟨identity.1, identity.2.1, identity.2.2, fun terminal known => ?_, nofun, ?_,
    fun _ final => ?_, nofun, fun _ => .inl bytes⟩
  · cases status with
    | inl running =>
      have undecided := undecided running
      rw [terminal, known] at undecided
      cases undecided
    | inr kept => exact ⟨kept.2.1.trans (noticed_of_isTerminal terminal), kept.2.2, nofun⟩
  · rw [errors]
    simp
  · change next.status.isTerminal = true at final
    cases status with
    | inl running =>
      rw [running] at final
      cases final
    | inr kept =>
      rw [kept.2.1, noticed_isTerminal] at final
      exact ⟨final, fun gone => absurd kept.1 (by simp [gone])⟩

theorem Effect.frame (status : next.status = state.status)
    (endedAt : next.endedAt = state.endedAt) (errors : next.errors = state.errors) :
    Effect lost unconfirmed event state
      ⟨next, false, if state.status.isTerminal || unconfirmed then .budget else .nothing⟩ := by
  refine ⟨identity.1, identity.2.1, identity.2.2, fun _ _ => ⟨status, endedAt, ?_⟩,
    fun _ interrupted => status.trans interrupted, ?_,
    fun _ final => ⟨status ▸ final, fun _ => rfl⟩, fun ends => ?_, fun still => ?_⟩
  · dsimp only
    split <;> exact nofun
  · change CarriesLost next.errors ↔ _
    rw [errors]
    exact (and_iff_left fun both => (nomatch both.2)).symm
  · dsimp only at ends
    split at ends <;> cases ends
  · dsimp only at still
    split at still
    · cases still
    · rename_i uncounted
      rw [Bool.or_eq_true, not_or] at uncounted
      exact .inr ⟨by simpa using uncounted.1, by simpa using uncounted.2, status⟩

end

theorem placeFrame_kept (state : ExecutionState) (terminal : Bool) (nodeId : String)
    (frame : PreviewData) :
    let next := placeFrame state terminal nodeId frame
    (next.ref = state.ref ∧ next.key = state.key ∧ next.queuedAt = state.queuedAt) ∧
      next.status = state.status ∧ next.endedAt = state.endedAt ∧ next.errors = state.errors := by
  unfold placeFrame
  dsimp only
  split
  · exact ⟨⟨rfl, rfl, rfl⟩, rfl, rfl, rfl⟩
  · split <;> exact ⟨⟨rfl, rfl, rfl⟩, rfl, rfl, rfl⟩

/-- Every event keeps to the rules. -/
theorem transition_effect {change : Change}
    (made : transition lost unconfirmed event state = some change) :
    Effect lost unconfirmed event state change := by
  obtain ⟨execution, timestamp, body⟩ := event
  unfold transition at made
  cases body with
  | nodeEvent | extensionEvent => cases made
  | started =>
    dsimp only at made
    split at made
    · cases made
    · rename_i undecided
      have undecided : (state.status.isTerminal && !lost) = false := by simpa using undecided
      split at made
      · rename_i gone
        cases made
        refine .reviving ⟨rfl, rfl, rfl⟩ (.inl rfl) (fun _ => undecided) ?_ rfl
        simp [gone, revived, not_carriesLost_without]
      · rename_i known
        cases made
        refine .reviving ⟨rfl, rfl, rfl⟩ (.inl rfl) (fun _ => undecided) ?_ rfl
        simp [known]
  | nodeStates nodes snapshot =>
    dsimp only at made
    split at made
    · rename_i gone
      cases made
      refine .reviving ⟨rfl, rfl, rfl⟩ (.inl rfl) (fun _ => by simp [gone]) ?_ rfl
      simp [gone, revived, not_carriesLost_without]
    · rename_i known
      have known : lost = false := by simpa using known
      cases made
      refine .reviving ⟨rfl, rfl, rfl⟩ (.inr ⟨known, rfl, rfl⟩) (fun running => ?_) ?_ rfl
      · have same := noticed_isTerminal state.status
        rw [show state.status.noticed = .running from running] at same
        rw [← same]
        rfl
      · simp [known]
  | regionExpanded | nodeBlocked | nodeExpanded | nodeOutput | activity =>
    cases made
    exact .news ⟨rfl, rfl, rfl⟩ (by first | exact .inl rfl | exact .inr rfl) rfl rfl rfl
  | regionFinished | regionIteration =>
    obtain ⟨region, _, rfl⟩ := map_eq_some_iff.mp made
    exact .news ⟨rfl, rfl, rfl⟩ (.inl rfl) rfl rfl rfl
  | preview runtimeNodeId channel payload stream frameIndex frameCount fps =>
    dsimp only at made
    split at made
    · cases made
      exact .frame ⟨rfl, rfl, rfl⟩ rfl rfl rfl
    · cases made
      obtain ⟨identity, status, endedAt, errors⟩ := placeFrame_kept state _ _ _
      exact .frame identity status endedAt errors
  | valueDiagnostics diagnostics =>
    dsimp only at made
    split at made
    · cases made
    · cases made
      exact .news ⟨rfl, rfl, rfl⟩ (.inl rfl) rfl rfl rfl
  | log level message emittedAt seq runtimeNodeId origin logger pythonLevel =>
    dsimp only at made
    split at made
    · cases made
    · split at made
      · cases made
      · cases made
        exact .news ⟨rfl, rfl, rfl⟩ (.inl rfl) rfl rfl rfl
  | error runtimeNodeId detail =>
    dsimp only at made
    split at made
    · cases made
    · rename_i undecided
      cases made
      refine .ending (by simpa using undecided) ⟨rfl, rfl, rfl⟩ rfl rfl ?_
      dsimp only
      split
      · exact carriesLost_retracted lost state.errors
      · rw [carriesLost_append (runtimeDiagnostic_code_ne _ _ _ _)]
        exact carriesLost_retracted lost state.errors
  | interrupted | completed =>
    dsimp only at made
    split at made
    · cases made
    · rename_i undecided
      cases made
      exact .ending (by simpa using undecided) ⟨rfl, rfl, rfl⟩ rfl rfl
        (carriesLost_retracted lost state.errors)

variable {status : ExecutionStatus}

variable (unconfirmed) in
/-- A verdict ends a run that is not known to have ended. -/
theorem transition_verdict (verdict : event.body.verdict = some status)
    (undecided : (state.status.isTerminal && !lost) = false) :
    ∃ next, transition lost unconfirmed event state = some ⟨next, true, .terminal⟩ := by
  obtain ⟨execution, timestamp, body⟩ := event
  unfold transition
  cases body with
  | completed | interrupted | error =>
    dsimp only
    rw [undecided]
    exact ⟨_, rfl⟩
  | _ => cases verdict

theorem EventBody.verdict_isTerminal {body : EventBody} (verdict : body.verdict = some status) :
    status.isTerminal = true := by
  cases body with
  | completed | interrupted | error =>
    cases verdict
    rfl
  | _ => cases verdict

/-- A run start does not end a run. -/
theorem Effect.goes_on {change : Change} (effect : Effect lost unconfirmed event state change)
    (starts : event.starts = true) : change.after ≠ .terminal := by
  intro ends
  have verdict := (effect.ends ends).1
  obtain ⟨execution, timestamp, body⟩ := event
  cases body with
  | started => cases verdict
  | _ => cases starts

end Effects

end Dinkster.Execution
