import Dinkster.Collab.Replica
import Dinkster.Commands.Transmission

/-!
# What a local commit sends

A session commits a command optimistically once its own gates accept it, and
later sends the recorded patch to replicas with gates of their own.  The patch is
accepted there exactly when the builder calls of the command are transmissible:
the builder neither refuses the root and the segments `constructor` and
`prototype` nor charges a batch as a whole.
-/

namespace Dinkster.Collab

open Library Format Commands

variable {Nonce Authority : Type}

namespace Replica

def localCalls (env : SessionEnvironment Authority) (replica : Replica Nonce)
    (invocation : CommandInvocation) : Option (List TxCall) := do
  let stamped ← (stamp replica.actorId invocation).toOption
  let prepared ← (prepare env replica.doc stamped).toOption
  let definition ← env.registry.commands prepared.command
  let params ← (ownJson prepared.params).toOption
  return (definition.run replica.doc params prepared.actor (.initial env.schemaResolverFor)).calls

/-- A locally committed intention is accepted on the wire exactly when the builder
calls of its command are transmissible. -/
theorem accepted_on_wire_iff_transmissible {env : SessionEnvironment Authority}
    {replica next : Replica Nonce} {invocation : CommandInvocation}
    {replayed : Option (HistoryDirection × List PatchOp)} {doc : Json} {forward inverse : List PatchOp} {diagnostics : List Diagnostic}
    (committed : replica.run env invocation replayed = (.ok doc forward inverse diagnostics, next))
    (changed : forward ≠ []) : ∃ entry calls, next.pending = replica.pending ++ [entry] ∧
      replica.localCalls env invocation = some calls ∧
      (AcceptedOnWire replica.doc next.doc entry.predicted ↔
        Transmissible (.create replica.doc (some replica.actorId)) calls) := by
  obtain ⟨stamped, prepared, stamps, prepares, executed, rfl⟩ := run_eq_ok committed changed
  obtain ⟨definition, params, tx, registered, owned, performed, rfl, rfl⟩ :=
    DocumentStore.performCalls_of_execute executed changed
  have actor : prepared.actor = some replica.actorId :=
    (prepare_eq_ok prepares).2.trans (actor_of_stamp stamps)
  refine ⟨_, (definition.run replica.doc params prepared.actor
    (.initial env.schemaResolverFor)).calls, rfl, ?_, ?_⟩
  · simp [localCalls, stamps, prepares, registered, owned, Except.toOption]
  · rw [actor] at performed ⊢
    exact acceptedOnWire_iff performed

/-- A document in whose graph another actor has allocated. -/
def sharedDocument : Json :=
  workflowDocument [("main", .obj [("id", .str "main"), ("name", .str "main"),
    ("nodes", .obj []), ("links", .obj []), ("nets", .obj []), ("reroutes", .obj []),
    ("nextOrdinal", .num 0), ("actorCursors", .obj [("alice", .num 1)])])]

def addReroute : CommandInvocation :=
  ⟨"reroute.add", rerouteAddParams "main" 1 2, none⟩

theorem exists_run_of_any {env : SessionEnvironment Authority} {actorId : String} {nonce : Nonce}
    {snapshot : Json} {invocation : CommandInvocation} {test : Replica Nonce → Bool}
    (passes : (create actorId nonce 200 snapshot 0).toOption.any (fun replica =>
      (replica.run env invocation none).2.pending.length == replica.pending.length + 1 &&
        test (replica.run env invocation none).2) = true) :
    ∃ replica next doc forward inverse diagnostics,
      create actorId nonce 200 snapshot 0 = .ok replica ∧
      replica.run env invocation none = (.ok doc forward inverse diagnostics, next) ∧
      forward ≠ [] ∧ test next = true := by
  cases created : create actorId nonce 200 snapshot 0 with
  | error reason => simp [created, Except.toOption] at passes
  | ok replica =>
    simp only [created, Except.toOption, Option.any_some, Bool.and_eq_true, beq_iff_eq] at passes
    obtain ⟨queued, passed⟩ := passes
    rcases run_cases env replica invocation none with ⟨unchanged, _⟩ | ⟨_, _, doc, forward,
      inverse, diagnostics, _, _, _, changed, ran⟩
    · rw [unchanged] at queued
      omega
    · rw [ran] at passed
      exact ⟨replica, _, doc, forward, inverse, diagnostics, rfl, ran, changed, passed⟩

/-- The intention of an ordinary actor is accepted on the wire exactly when it is
transmissible. -/
theorem alice_accepted_on_wire_iff_transmissible :
    ∃ replica next : Replica Unit, create "alice" () 200 sharedDocument 0 = .ok replica ∧
      ∃ entry calls, next.pending = replica.pending ++ [entry] ∧
        replica.localCalls builtinEnvironment addReroute = some calls ∧
        (AcceptedOnWire replica.doc next.doc entry.predicted ↔
          Transmissible (.create replica.doc (some replica.actorId)) calls) := by
  obtain ⟨replica, next, doc, forward, inverse, diagnostics, created, committed, changed, _⟩ :=
    @exists_run_of_any Unit Unit builtinEnvironment "alice" () sharedDocument addReroute
      (fun _ => true) (by decide +kernel)
  exact ⟨replica, next, created, accepted_on_wire_iff_transmissible committed changed⟩

/-- The actor `constructor` commits a reroute that no other client accepts. -/
theorem constructor_actor_refused_on_wire :
    ∃ (replica next : Replica Unit) (doc : Json) (forward inverse : List PatchOp)
      (diagnostics : List Diagnostic), create "constructor" () 200 sharedDocument 0 = .ok replica ∧
      replica.run builtinEnvironment addReroute none = (.ok doc forward inverse diagnostics, next) ∧
      forward ≠ [] ∧
      ¬ ∃ entry ∈ next.pending, AcceptedOnWire replica.doc next.doc entry.predicted := by
  obtain ⟨replica, next, doc, forward, inverse, diagnostics, created, committed, changed,
      refused⟩ :=
    @exists_run_of_any Unit Unit builtinEnvironment "constructor" () sharedDocument addReroute
      (fun next => next.pending.all fun entry =>
        (validateCollabWirePatchShape (wirePatchJson entry.predicted)).isSome) (by decide +kernel)
  refine ⟨replica, next, doc, forward, inverse, diagnostics, created, committed, changed, ?_⟩
  intro accepted
  obtain ⟨entry, member, clean, _⟩ := accepted
  have objection := List.all_eq_true.mp refused entry member
  rw [clean] at objection
  simp at objection

end Replica

end Dinkster.Collab
