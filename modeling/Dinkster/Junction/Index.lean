import Dinkster.Format.PortKeys
import Dinkster.Library.Table

/-!
# The reroute index

What drives a junction, and what it drives, is read off the links of a definition.  An
operation that asks many such questions builds an index in one pass over the links first and
drops it afterwards.  An index answers every question as the links themselves do.
-/

namespace Dinkster.Junction

open Format Library List Option

def rerouteTarget (link : LinkData) : Option String :=
  match link.target with
  | .reroute id => some id
  | _ => none

def rerouteSource (link : LinkData) : Option String :=
  match link.source with
  | .reroute id => some id
  | _ => none

/-- The key of the selector candidate a link drives. -/
def candidateTarget (link : LinkData) : Option String :=
  match link.target with
  | .selector id (some candidate) => some (selectorCandidateKey id candidate)
  | _ => none

def selectorSource (link : LinkData) : Option String :=
  match link.source with
  | .selector id none => some id
  | _ => none

def inputTarget (link : LinkData) : Option String :=
  match link.target with
  | .port ref => some (portRefKey ref)
  | _ => none

variable {link : LinkData}

variable {id : String}

@[simp] theorem rerouteTarget_eq_some :
    rerouteTarget link = some id ↔ link.target = .reroute id := by
  unfold rerouteTarget
  split <;> simp_all

@[simp] theorem rerouteSource_eq_some :
    rerouteSource link = some id ↔ link.source = .reroute id := by
  unfold rerouteSource
  split <;> simp_all

@[simp] theorem candidateTarget_eq_some {candidate : String} :
    candidateTarget link = some (selectorCandidateKey id candidate) ↔
      link.target = .selector id (some candidate) := by
  unfold candidateTarget
  split <;> simp_all [selectorCandidateKey_eq_iff]

@[simp] theorem selectorSource_eq_some :
    selectorSource link = some id ↔ link.source = .selector id none := by
  unfold selectorSource
  split <;> simp_all

@[simp] theorem inputTarget_eq_some {ref : PortRef} :
    inputTarget link = some (portRefKey ref) ↔ link.target = .port ref := by
  unfold inputTarget
  split <;> simp_all [portRefKey_eq_iff]

structure RerouteIndex where
  driverOf : Table LinkData
  successorsOf : Table (List LinkData)
  selectorDriverOf : Table LinkData
  selectorSuccessorsOf : Table (List LinkData)
  inputDriverOf : Table LinkData
  netSourceOf : Table PortRef

namespace RerouteIndex

def empty : RerouteIndex :=
  ⟨[], [], [], [], [], []⟩

/-- One link of the pass: the first driver of anything wins. -/
def addLink (index : RerouteIndex) (link : LinkData) : RerouteIndex :=
  { index with
    driverOf := Table.keepFirst rerouteTarget index.driverOf link
    successorsOf := Table.collect rerouteSource index.successorsOf link
    selectorDriverOf := Table.keepFirst candidateTarget index.selectorDriverOf link
    selectorSuccessorsOf := Table.collect selectorSource index.selectorSuccessorsOf link
    inputDriverOf := Table.keepFirst inputTarget index.inputDriverOf link }

/-- One net of the pass: the last net of a sink wins. -/
def addNet (index : RerouteIndex) (net : NamedNet) : RerouteIndex :=
  { index with
    netSourceOf := net.sinks.foldl
      (fun table sink => table.set (portRefKey sink) net.source) index.netSourceOf }

end RerouteIndex

def buildRerouteIndex (definition : GraphDef) : RerouteIndex :=
  definition.nets.foldl RerouteIndex.addNet
    (definition.links.foldl RerouteIndex.addLink .empty)

variable (definition : GraphDef)

def rerouteDriverOf (id : String) : Option RerouteIndex → Option LinkData
  | some index => index.driverOf.get id
  | none => definition.links.find? fun link => link.target = .reroute id

def rerouteSuccessorsOf (id : String) : Option RerouteIndex → List LinkData
  | some index => (index.successorsOf.get id).getD []
  | none => definition.links.filter fun link => link.source = .reroute id

def selectorSuccessorsOf (id : String) : Option RerouteIndex → List LinkData
  | some index => (index.selectorSuccessorsOf.get id).getD []
  | none => definition.links.filter fun link => link.source = .selector id none

def selectorDriverOf (id candidate : String) : Option RerouteIndex → Option LinkData
  | some index => index.selectorDriverOf.get (selectorCandidateKey id candidate)
  | none => definition.links.find? fun link => link.target = .selector id (some candidate)

variable (ref : PortRef)

def scanInputDriver : Option LinkData :=
  definition.links.find? fun link =>
    match link.target with
    | .port target => portRefKey target = portRefKey ref
    | _ => false

/-- The source of the net with a sink at an input, found among the nets themselves. -/
def scanNetSource : Option PortRef :=
  (definition.nets.find? fun net =>
    net.sinks.any fun sink => portRefKey sink = portRefKey ref).map (·.source)

theorem foldl_addLink (links : List LinkData) (index : RerouteIndex) :
    links.foldl RerouteIndex.addLink index =
      { driverOf := links.foldl (Table.keepFirst rerouteTarget) index.driverOf
        successorsOf := links.foldl (Table.collect rerouteSource) index.successorsOf
        selectorDriverOf := links.foldl (Table.keepFirst candidateTarget) index.selectorDriverOf
        selectorSuccessorsOf :=
          links.foldl (Table.collect selectorSource) index.selectorSuccessorsOf
        inputDriverOf := links.foldl (Table.keepFirst inputTarget) index.inputDriverOf
        netSourceOf := index.netSourceOf } := by
  induction links generalizing index with
  | nil => rfl
  | cons link links ih => exact ih (index.addLink link)

def netSinks : List (PortRef × PortRef) :=
  definition.nets.flatMap fun net => net.sinks.map fun sink => (sink, net.source)

def sinkKey (delivery : PortRef × PortRef) : String :=
  portRefKey delivery.1

theorem foldl_addNet (nets : List NamedNet) (index : RerouteIndex) :
    nets.foldl RerouteIndex.addNet index = { index with
        netSourceOf :=
          (nets.flatMap fun net => net.sinks.map fun sink => (sink, net.source)).foldl
            (Table.keepLast sinkKey Prod.snd) index.netSourceOf } := by
  induction nets generalizing index with
  | nil => rfl
  | cons net nets ih =>
    rw [foldl_cons, ih, flatMap_cons, foldl_append, foldl_map]
    rfl

theorem buildRerouteIndex_eq : buildRerouteIndex definition =
      { driverOf := definition.links.foldl (Table.keepFirst rerouteTarget) []
        successorsOf := definition.links.foldl (Table.collect rerouteSource) []
        selectorDriverOf := definition.links.foldl (Table.keepFirst candidateTarget) []
        selectorSuccessorsOf := definition.links.foldl (Table.collect selectorSource) []
        inputDriverOf := definition.links.foldl (Table.keepFirst inputTarget) []
        netSourceOf :=
          (netSinks definition).foldl (Table.keepLast sinkKey Prod.snd) [] } := by
  unfold buildRerouteIndex
  rw [foldl_addLink, foldl_addNet]
  rfl

theorem rerouteDriverOf_index (id : String) :
    rerouteDriverOf definition id (some (buildRerouteIndex definition)) =
      rerouteDriverOf definition id none := by
  simp only [rerouteDriverOf, buildRerouteIndex_eq, Table.get_foldl_keepFirst, Table.get_nil,
    none_or, rerouteTarget_eq_some]

theorem rerouteSuccessorsOf_index (id : String) :
    rerouteSuccessorsOf definition id (some (buildRerouteIndex definition)) =
      rerouteSuccessorsOf definition id none := by
  simp only [rerouteSuccessorsOf, buildRerouteIndex_eq, Table.get_foldl_collect, Table.get_nil,
    getD_none, nil_append, rerouteSource_eq_some]

theorem selectorSuccessorsOf_index (id : String) :
    selectorSuccessorsOf definition id (some (buildRerouteIndex definition)) =
      selectorSuccessorsOf definition id none := by
  simp only [selectorSuccessorsOf, buildRerouteIndex_eq, Table.get_foldl_collect,
    Table.get_nil, getD_none, nil_append, selectorSource_eq_some]

theorem selectorDriverOf_index (id candidate : String) :
    selectorDriverOf definition id candidate (some (buildRerouteIndex definition)) =
      selectorDriverOf definition id candidate none := by
  simp only [selectorDriverOf, buildRerouteIndex_eq, Table.get_foldl_keepFirst, Table.get_nil,
    none_or, candidateTarget_eq_some]

theorem scanInputDriver_eq : scanInputDriver definition ref =
      definition.links.find? fun link => link.target = .port ref := by
  unfold scanInputDriver
  congr 1
  funext link
  cases link.target <;> simp [portRefKey_eq_iff]

theorem get_inputDriverOf : (buildRerouteIndex definition).inputDriverOf.get (portRefKey ref) =
      scanInputDriver definition ref := by
  simp only [scanInputDriver_eq, buildRerouteIndex_eq, Table.get_foldl_keepFirst,
    Table.get_nil, none_or, inputTarget_eq_some]

def OneNetSource : Prop :=
  ∀ first ∈ netSinks definition, ∀ second ∈ netSinks definition,
    first.1 = second.1 → first.2 = second.2

theorem find?_flatMap_sinks (nets : List NamedNet) (ref : PortRef) :
    ((nets.flatMap fun net => net.sinks.map fun sink => (sink, net.source)).find?
        fun delivery => sinkKey delivery = portRefKey ref).map Prod.snd =
      (nets.find? fun net => net.sinks.any fun sink => portRefKey sink = portRefKey ref).map
        (·.source) := by
  induction nets with
  | nil => rfl
  | cons net nets ih =>
    rw [flatMap_cons, find?_append, find?_cons, find?_map]
    have shape : ((fun delivery => decide (sinkKey delivery = portRefKey ref)) ∘
        fun sink => (sink, net.source)) =
          fun sink => decide (portRefKey sink = portRefKey ref) := rfl
    rw [shape, ← isSome_find?]
    cases net.sinks.find? fun sink => decide (portRefKey sink = portRefKey ref) with
    | none => exact ih
    | some sink => rfl

theorem get_netSourceOf (one : OneNetSource definition) (ref : PortRef) :
    (buildRerouteIndex definition).netSourceOf.get (portRefKey ref) =
      scanNetSource definition ref := by
  rw [buildRerouteIndex_eq]
  dsimp only
  rw [Table.get_foldl_keepLast]
  · exact find?_flatMap_sinks definition.nets ref
  · intro first left second right same
    exact one first left second right (portRefKey_injective same)

end Dinkster.Junction
