import Dinkster.Format.Json
import Dinkster.Library.Table

/-!
# Dock zones

The left, right and bottom regions of the shell are dock zones.  A zone holds one or two
sections, each an ordered list of panels of which one is visible, a split between the two, and
whether it is open.  Only a lone section may be empty, and a zone without panels is closed.
-/

namespace Dinkster.Layout

open Library Format

inductive DockZoneId where
  | left
  | right
  | bottom
  deriving DecidableEq

def dockZoneIds : List DockZoneId := [.left, .right, .bottom]

def maxZoneSections : Nat := 2

/-- `MIN_ZONE_SPLIT`, the double nearest to 0.1. -/
def minZoneSplit : Rat := 3602879701896397 / 36028797018963968

/-- `MAX_ZONE_SPLIT`, the double nearest to 0.9. -/
def maxZoneSplit : Rat := 8106479329266893 / 9007199254740992

def defaultZoneSplit : Rat := 1 / 2

structure DockSectionState where
  tabs : List String
  activeTab : Option String
  deriving DecidableEq

structure DockZoneState where
  sections : List DockSectionState
  split : Rat
  isOpen : Bool
  deriving DecidableEq

structure PanelDockState where
  zones : DockZoneId → DockZoneState

def emptySection : DockSectionState := ⟨[], none⟩

def emptyZone : DockZoneState := ⟨[emptySection], defaultZoneSplit, false⟩

def emptyDockState : PanelDockState := ⟨fun _ => emptyZone⟩

variable (zone : DockZoneState)

def zoneTabs : List String :=
  zone.sections.flatMap DockSectionState.tabs

def clampZoneSplit (split : Rat) : Rat :=
  min maxZoneSplit (max minZoneSplit split)

inductive PanelPlacement where
  | dock
  | rail
  | bottom
  | modal
  | floating
  | window
  deriving DecidableEq

def zonePlacement : DockZoneId → PanelPlacement
  | .left => .dock
  | .right => .rail
  | .bottom => .bottom

def canDockInZone (allowedPlacements : List PanelPlacement) (zone : DockZoneId) : Bool :=
  zonePlacement zone ∈ allowedPlacements

/-- The position of the section that holds a panel. -/
def sectionIn (id : String) : Option Nat :=
  zone.sections.findIdx? fun held => id ∈ held.tabs

variable (state : PanelDockState)

def sectionOf (id : String) : Option (DockZoneId × Nat) :=
  dockZoneIds.findSome? fun zone => (sectionIn (state.zones zone) id).map (zone, ·)

def withZone (zone : DockZoneId) (next : DockZoneState) : PanelDockState :=
  ⟨Function.update state.zones zone next⟩

def activeAfterRemoval (tabs : List String) (removed : String) (active : Option String) :
    Option String :=
  let remaining := tabs.filter (· ≠ removed)
  if active ≠ some removed then active
  else remaining[min (tabs.idxOf removed) (remaining.length - 1)]?

variable (held : DockSectionState)

def withoutTab (id : String) : DockSectionState :=
  ⟨held.tabs.filter (· ≠ id), activeAfterRemoval held.tabs id held.activeTab⟩

/-- A zone without a panel of one of its sections: a second section that loses its last tab is
dropped. -/
def removeAt (current : DockZoneState) (place : Nat) (held : DockSectionState) (id : String) :
    DockZoneState :=
  let dropped := (withoutTab held id).tabs = [] ∧ 1 < current.sections.length
  let sections :=
    if dropped then current.sections.eraseIdx place
    else current.sections.set place (withoutTab held id)
  { sections := sections
    split := if sections.length < current.sections.length then defaultZoneSplit
      else current.split
    isOpen := if sections.all (·.tabs = []) then false else current.isOpen }

def removeFromZone (id : String) : PanelDockState :=
  match sectionOf state id with
  | none => state
  | some (zone, place) =>
    match (state.zones zone).sections[place]? with
    | none => state
    | some held => withZone state zone (removeAt (state.zones zone) place held id)

def removePanelTab (id : String) : PanelDockState :=
  removeFromZone state id

def setZoneOpen (zone : DockZoneId) (isOpen : Bool) : PanelDockState :=
  let current := state.zones zone
  let next := isOpen && (zoneTabs current).length > 0
  if next = current.isOpen then state else withZone state zone { current with isOpen := next }

def setZoneSplit (zone : DockZoneId) (split : Rat) : PanelDockState :=
  let current := state.zones zone
  let next := clampZoneSplit split
  if next = current.split then state else withZone state zone { current with split := next }

def activatePanelTab (zone : DockZoneId) (id : String) : PanelDockState :=
  let current := state.zones zone
  match sectionIn current id with
  | none => state
  | some place =>
    match current.sections[place]? with
    | none => state
    | some held =>
      if held.activeTab = some id then state
      else withZone state zone
        { current with sections := current.sections.set place { held with activeTab := some id } }

/-- Where a list is cut to insert an item: `slice` takes a number towards zero. -/
def insertionPlace (index : Option Rat) (length : Nat) : Nat :=
  (max 0 (min (index.getD length) length)).floor.toNat

/-- The tabs of a section with a panel at a place. -/
def insertTab (tabs : List String) (id : String) (index : Option Rat) : List String :=
  let place := insertionPlace index tabs.length
  tabs.take place ++ id :: tabs.drop place

def positionOf (number : Rat) : Option Nat :=
  if number.den = 1 ∧ 0 ≤ number then some number.num.toNat else none

def insertInto (removed : PanelDockState) (zone : DockZoneId) (id : String) (index : Option Rat)
    (target : Option Nat) : Option PanelDockState :=
  let current := removed.zones zone
  target.bind fun target =>
    current.sections[target]?.map fun into =>
      withZone removed zone
        { current with
          sections := current.sections.set target ⟨insertTab into.tabs id index, some id⟩
          isOpen := true }

/-- The section of a panel, where it is in a zone. -/
def homeIn (origin : Option (DockZoneId × Nat)) (zone : DockZoneId) : Option Nat :=
  origin.bind fun place => if place.1 = zone then some place.2 else none

/-- Whether a panel is the sole tab of the section it is asked to be in. -/
def staysAlone (home : Option Nat) (asked : Option Rat) : Bool :=
  home.any fun (place : Nat) =>
    (asked.all fun asked => asked = (place : Rat)) &&
      (zone.sections[place]?.any fun held => held.tabs.length = 1)

/-- The section a panel is put in, after its removal.  A section that went with it shifts those
behind it. -/
def dockTarget (before after : DockZoneState) (home : Option Nat) (asked : Option Rat) : Rat :=
  let target := asked.getD (home.getD 0)
  let shifted := home.any fun (place : Nat) =>
    after.sections.length < before.sections.length && decide ((place : Rat) < target)
  max 0 (if shifted then target - 1 else target)

def dockPanelTab (id : String) (zone : DockZoneId)
    (index asked : Option Rat) : Option PanelDockState :=
  let home := homeIn (sectionOf state id) zone
  if staysAlone (state.zones zone) home asked then some (setZoneOpen state zone true)
  else
    let removed := removeFromZone state id
    let current := removed.zones zone
    let target := dockTarget (state.zones zone) current home asked
    if current.sections.length ≤ target then
      if current.sections.length < maxZoneSections ∧ current.sections.all (·.tabs ≠ []) then
        some (withZone removed zone
          { current with sections := current.sections ++ [⟨[id], some id⟩], isOpen := true })
      else insertInto removed zone id index (some (current.sections.length - 1))
    else insertInto removed zone id index (positionOf target)

structure DockablePanel where
  id : String
  placement : PanelPlacement
  allowedPlacements : List PanelPlacement
  order : Rat

def defaultZoneOf : PanelPlacement → Option DockZoneId
  | .dock => some .left
  | .rail => some .right
  | .bottom => some .bottom
  | _ => none

def openByDefault : DockZoneId → Bool
  | .right => true
  | _ => false

section

variable (localeCompare : String → String → Int)

/-- The comparison panels are sorted by. -/
def panelLe (first second : DockablePanel) : Prop :=
  first.order < second.order ∨
    first.order = second.order ∧ localeCompare first.id second.id ≤ 0

instance : DecidableRel (panelLe localeCompare) :=
  fun first second => inferInstanceAs (Decidable (first.order < second.order ∨
    first.order = second.order ∧ localeCompare first.id second.id ≤ 0))

variable (panels : List DockablePanel)

def evictFrom (stored : PanelDockState) (state : PanelDockState)
    (zone : DockZoneId) : PanelDockState :=
  let registered := panels.foldl (Table.keepLast DockablePanel.id id) []
  (zoneTabs (stored.zones zone)).foldl (fun state id =>
    match registered.get id with
    | some panel =>
      if canDockInZone panel.allowedPlacements zone then state else removeFromZone state id
    | none => state) state

def evictPanels (stored : PanelDockState) : PanelDockState :=
  dockZoneIds.foldl (evictFrom panels stored) stored

/-- The panels that are placed nowhere and have a zone as their default, in order. -/
def appendedTo (state : PanelDockState) (zone : DockZoneId) : List String :=
  let placed := dockZoneIds.flatMap fun zone => zoneTabs (state.zones zone)
  ((panels.insertionSort (panelLe localeCompare)).filter fun panel =>
    defaultZoneOf panel.placement = some zone && canDockInZone panel.allowedPlacements zone &&
      panel.id ∉ placed).map DockablePanel.id

def appendPanels (current : DockZoneState) (extra : List String) (zone : DockZoneId)
    (fresh : Bool) : DockZoneState :=
  let isOpen :=
    if fresh then openByDefault zone && (zoneTabs current).length + extra.length > 0
    else current.isOpen
  if extra = [] ∧ isOpen = current.isOpen then current
  else
    { current with
      sections :=
        match extra, current.sections with
        | [], sections => sections
        | _, [] => []
        | extra, first :: rest =>
          ⟨first.tabs ++ extra, first.activeTab.or (first.tabs ++ extra).head?⟩ :: rest
      isOpen := isOpen }

def effectiveDockState (stored : PanelDockState) (panels : List DockablePanel) (fresh : Bool) :
    PanelDockState :=
  let next := evictPanels panels stored
  dockZoneIds.foldl (fun state zone =>
    withZone state zone
      (appendPanels (state.zones zone) (appendedTo localeCompare panels next zone) zone fresh))
    next

end

/-- A section, as it is stored: what is undefined is left out. -/
def encodeSection : Json :=
  .obj (("tabs", .arr (held.tabs.map .str)) ::
    match held.activeTab with
    | some active => [("activeTab", .str active)]
    | none => [])

def encodeZone : Json :=
  .obj [("sections", .arr (zone.sections.map encodeSection)), ("split", .num zone.split),
    ("open", .bool zone.isOpen)]

/-- `encodeDockState`, before it is written as a text. -/
def encodeDockState : Json :=
  .obj [("v", .num 2), ("zones", .obj
    [("left", encodeZone (state.zones .left)), ("right", encodeZone (state.zones .right)),
      ("bottom", encodeZone (state.zones .bottom))])]

def tabTexts : List Json → Option (List String)
  | [] => some []
  | .str tab :: rest => if tab = "" then none else (tabTexts rest).map (tab :: ·)
  | _ :: _ => none

/-- The loop of `decodeSectionTabs`: a tab that was claimed before is left out. -/
def claimTabs (tabs claimed : List String) : List String → List String × List String
  | [] => (tabs, claimed)
  | tab :: rest =>
    if tab ∈ claimed then claimTabs tabs claimed rest
    else claimTabs (tabs ++ [tab]) (claimed ++ [tab]) rest

variable (value : Option Json)

def decodeSectionTabs (claimed : List String) : Option (List String × List String) :=
  match value with
  | some (.arr values) => (tabTexts values).map (claimTabs [] claimed)
  | _ => none

/-- The properties of an object; an array has none of those that are read. -/
def rowOf : Option Json → Option (List (String × Json))
  | some (.obj fields) => some fields
  | some (.arr _) => some []
  | _ => none

def decodeSection (claimed : List String) : Option (DockSectionState × List String) :=
  (rowOf value).bind fun row =>
    (decodeSectionTabs (getField row "tabs") claimed).bind fun (tabs, claimed) =>
      match getField row "activeTab" with
      | none => some (⟨tabs, tabs.head?⟩, claimed)
      | some (.str active) =>
        some (⟨tabs, if active ∈ tabs then some active else tabs.head?⟩, claimed)
      | some _ => none

def decodeZoneV1 (claimed : List String) : Option (DockZoneState × List String) :=
  (rowOf value).bind fun row =>
    match getField row "open" with
    | some (.bool isOpen) =>
      (decodeSection value claimed).map fun (held, claimed) =>
        (⟨[held], defaultZoneSplit, isOpen && held.tabs.length > 0⟩, claimed)
    | _ => none

/-- The loop over the sections of a zone. -/
def decodeSections (claimed : List String) :
    List Json → Option (List DockSectionState × List String)
  | [] => some ([], claimed)
  | value :: rest =>
    (decodeSection (some value) claimed).bind fun (held, claimed) =>
      (decodeSections claimed rest).map fun (sections, claimed) => (held :: sections, claimed)

def repairZone (decoded : List DockSectionState) (split : Option Json) (isOpen : Bool) :
    DockZoneState :=
  let occupied := decoded.filter (·.tabs ≠ [])
  let sections := if occupied = [] then [emptySection] else occupied
  { sections := sections
    split :=
      match split with
      | some (.num split) => clampZoneSplit split
      | _ => defaultZoneSplit
    isOpen := isOpen && (sections.flatMap DockSectionState.tabs).length > 0 }

def decodeZoneV2 (claimed : List String) : Option (DockZoneState × List String) :=
  (rowOf value).bind fun row =>
    match getField row "open", getField row "sections" with
    | some (.bool isOpen), some (.arr sections) =>
      if sections.length < 1 ∨ maxZoneSections < sections.length then none
      else (decodeSections claimed sections).map fun (decoded, claimed) =>
        (repairZone decoded (getField row "split") isOpen, claimed)
    | _, _ => none

/-- The version of an envelope, which decides how its zones are read. -/
def zoneDecoder : Option Json →
    Option (Option Json → List String → Option (DockZoneState × List String))
  | some (.num version) =>
    if version = 1 then some decodeZoneV1 else if version = 2 then some decodeZoneV2 else none
  | _ => none

/-- `decodeDockState`, after the text is parsed. -/
def decodeDockState (parsed : Json) : Option PanelDockState :=
  (rowOf (some parsed)).bind fun envelope =>
    (zoneDecoder (getField envelope "v")).bind fun decodeZone =>
      (rowOf (getField envelope "zones")).bind fun zones =>
        (decodeZone (getField zones "left") []).bind fun (left, claimed) =>
          (decodeZone (getField zones "right") claimed).bind fun (right, claimed) =>
            (decodeZone (getField zones "bottom") claimed).map fun (bottom, _) =>
              ⟨fun
                | .left => left
                | .right => right
                | .bottom => bottom⟩

end Dinkster.Layout
