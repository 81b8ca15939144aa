import Dinkster.Layout.Docking
import Dinkster.Library.Naming

/-!
# Editor groups

The center region is a tree of editor groups.  A leaf is a group, an ordered list of tabs of
which one is visible; a node is a split of two parts in a row or a column.  One group is focused.
-/

namespace Dinkster.Editor

open Library Format Layout

def maxSplitDepth : Nat := 4

/-- `SPLIT_RATIO_MIN`, the double nearest to 0.1. -/
def splitRatioMin : Rat := 3602879701896397 / 36028797018963968

/-- `SPLIT_RATIO_MAX`, the double nearest to 0.9. -/
def splitRatioMax : Rat := 8106479329266893 / 9007199254740992

structure EditorGroup where
  id : String
  tabIds : List String
  activeTabId : String
  deriving DecidableEq

inductive SplitDirection where
  | row
  | column
  deriving DecidableEq

inductive EditorLayoutNode where
  | group (group : EditorGroup)
  | split (direction : SplitDirection) (ratio : Rat) (first second : EditorLayoutNode)
  deriving DecidableEq

structure EditorLayout where
  root : EditorLayoutNode
  focusedGroupId : String
  deriving DecidableEq

inductive SplitChild where
  | first
  | second
  deriving DecidableEq

/-- `clampSplitRatio`; a number that is not finite is none. -/
def clampSplitRatio : Option Rat → Rat
  | some ratio => min splitRatioMax (max splitRatioMin ratio)
  | none => 1 / 2

def restoreGroupInvariants (group : EditorGroup) : EditorGroup :=
  if group.activeTabId ∈ group.tabIds then group
  else { group with activeTabId := group.tabIds.head?.getD "" }

/-- `singleGroupLayout`, without tabs. -/
def singleGroupLayout : EditorLayout := ⟨.group ⟨"group-1", [], ""⟩, "group-1"⟩

def layoutGroups : EditorLayoutNode → List EditorGroup
  | .group group => [group]
  | .split _ _ first second => layoutGroups first ++ layoutGroups second

variable (layout : EditorLayout)

def findGroup (id : String) : Option EditorGroup :=
  (layoutGroups layout.root).find? fun group => group.id = id

/-- The form of the ids of groups. -/
def groupName (_ : Unit) (index : Nat) : String := "group-" ++ toString (index + 1)

def nextGroupId : String :=
  groupName () (firstFree groupName ((layoutGroups layout.root).map EditorGroup.id) ())

def splitDepth : EditorLayoutNode → Nat
  | .group _ => 0
  | .split _ _ first second => 1 + max (splitDepth first) (splitDepth second)

def mapGroups (fn : EditorGroup → EditorLayoutNode) : EditorLayoutNode → EditorLayoutNode
  | .group group => fn group
  | .split direction ratio first second =>
    .split direction ratio (mapGroups fn first) (mapGroups fn second)

def activeAfterRemoval (tabIds : List String) (removed active : String) : String :=
  let remaining := tabIds.filter (· ≠ removed)
  if active ≠ removed then active
  else (remaining[min (tabIds.idxOf removed) (remaining.length - 1)]?).getD ""

def pruneNode : EditorLayoutNode → Option EditorLayoutNode
  | .group group => if group.tabIds = [] then none else some (.group group)
  | .split direction ratio first second =>
    match pruneNode first, pruneNode second with
    | some first, some second => some (.split direction ratio first second)
    | some first, none => some first
    | none, second => second

def restoreFocus (root : EditorLayoutNode) (focusedGroupId : String) : EditorLayout :=
  let groups := layoutGroups root
  ⟨root,
    if groups.any (·.id = focusedGroupId) then focusedGroupId
    else (groups.head?.map EditorGroup.id).getD ""⟩

def withoutTab (tabId : String) (group : EditorGroup) : EditorGroup :=
  if tabId ∈ group.tabIds then
    { group with
      tabIds := group.tabIds.filter (· ≠ tabId)
      activeTabId := activeAfterRemoval group.tabIds tabId group.activeTabId }
  else group

def sourceOf (tabId : String) : Option EditorGroup :=
  (layoutGroups layout.root).find? fun group => tabId ∈ group.tabIds

def splitOff (direction : SplitDirection) (position : SplitChild) (created group : EditorGroup) :
    EditorLayoutNode :=
  match position with
  | .first => .split direction (1 / 2) (.group created) (.group group)
  | .second => .split direction (1 / 2) (.group group) (.group created)

def splitGroup (groupId : String) (direction : SplitDirection)
    (tabId : String) (position : SplitChild) : EditorLayout :=
  match findGroup layout groupId, sourceOf layout tabId with
  | some target, some source =>
    if source.id = target.id ∧ source.tabIds.length = 1 then layout
    else
      let newId := nextGroupId layout
      let created : EditorGroup := ⟨newId, [tabId], tabId⟩
      let splitAt := mapGroups (fun group =>
        if group.id = groupId then splitOff direction position created group else .group group)
        (mapGroups (fun group => .group (withoutTab tabId group)) layout.root)
      match pruneNode splitAt with
      | some pruned => if maxSplitDepth < splitDepth pruned then layout else ⟨pruned, newId⟩
      | none => layout
  | _, _ => layout

def withTab (tabId : String) (index : Option Rat) (group : EditorGroup) : EditorGroup :=
  { group with
    tabIds := insertTab (group.tabIds.filter (· ≠ tabId)) tabId index
    activeTabId := tabId }

def moveTabToGroup (tabId targetGroupId : String) (index : Option Rat) : EditorLayout :=
  match findGroup layout targetGroupId, sourceOf layout tabId with
  | some _, some source =>
    if source.id = targetGroupId ∧ source.tabIds.length = 1 then layout
    else
      let moved := mapGroups (fun group => .group
        (if group.id = targetGroupId then withTab tabId index group else withoutTab tabId group))
        layout.root
      match pruneNode moved with
      | some pruned => restoreFocus pruned targetGroupId
      | none => layout
  | _, _ => layout

def setGroupTabOrder (groupId : String) (order : List String) : EditorLayout :=
  match findGroup layout groupId with
  | none => layout
  | some group =>
    if order.length ≠ group.tabIds.length then layout
    else if ¬ (order.all (· ∈ group.tabIds)) ∨ ¬ order.Nodup then layout
    else
      { layout with
        root := mapGroups (fun node => .group
          (if node.id = groupId then { node with tabIds := order } else node)) layout.root }

/-- A group that takes over the tabs of another one. -/
def merged (source group : EditorGroup) : EditorGroup :=
  { group with
    tabIds := group.tabIds ++ source.tabIds
    activeTabId := if source.activeTabId ≠ "" then source.activeTabId else group.activeTabId }

def dissolveGroup (groupId : String) : EditorLayout :=
  let groups := layoutGroups layout.root
  match groups.findIdx? (·.id = groupId) with
  | none => layout
  | some index =>
    if groups.length < 2 then layout
    else
      match groups[index]?, groups[if index = 0 then 1 else index - 1]? with
      | some source, some target =>
        let merging := mapGroups (fun group => .group
          (if group.id = target.id then merged source group
          else if group.id = source.id then { group with tabIds := [], activeTabId := "" }
          else group)) layout.root
        match pruneNode merging with
        | some pruned => restoreFocus pruned target.id
        | none => layout
      | _, _ => layout

def setActiveTab (groupId tabId : String) : EditorLayout :=
  match findGroup layout groupId with
  | none => layout
  | some group =>
    if tabId ∉ group.tabIds then layout
    else
      { layout with
        root := mapGroups (fun node => .group
          (if node.id = groupId then { node with activeTabId := tabId } else node)) layout.root }

def focusGroup (groupId : String) : EditorLayout :=
  match findGroup layout groupId with
  | none => layout
  | some _ => { layout with focusedGroupId := groupId }

/-- The loop of `setSplitRatioAt`. -/
def rebuild (ratio : Option Rat) : EditorLayoutNode → List SplitChild → Option EditorLayoutNode
  | .group _, _ => none
  | .split direction _ first second, [] =>
    some (.split direction (clampSplitRatio ratio) first second)
  | .split direction old first second, .first :: path =>
    (rebuild ratio first path).map fun child => .split direction old child second
  | .split direction old first second, .second :: path =>
    (rebuild ratio second path).map fun child => .split direction old first child

def setSplitRatioAt (path : List SplitChild) (ratio : Option Rat) : EditorLayout :=
  match rebuild ratio layout.root path with
  | none => layout
  | some root => { layout with root := root }

def keepTabs (openTabIds : List String) : List String → List String → List String × List String
  | seen, [] => ([], seen)
  | seen, id :: rest =>
    if id ∉ openTabIds ∨ id ∈ seen then keepTabs openTabIds seen rest
    else
      let (kept, seen) := keepTabs openTabIds (seen ++ [id]) rest
      (id :: kept, seen)

/-- The groups less what is not open, in reading order. -/
def filterGroups (openTabIds : List String) :
    EditorLayoutNode → List String → EditorLayoutNode × List String
  | .group group, seen =>
    let (kept, seen) := keepTabs openTabIds seen group.tabIds
    (.group (restoreGroupInvariants { group with tabIds := kept }), seen)
  | .split direction ratio first second, seen =>
    let (first, seen) := filterGroups openTabIds first seen
    let (second, seen) := filterGroups openTabIds second seen
    (.split direction ratio first second, seen)

def adopt (orphans : List String) (group : EditorGroup) : EditorGroup :=
  restoreGroupInvariants
    { group with
      tabIds := group.tabIds ++ orphans
      activeTabId :=
        if group.activeTabId = "" then orphans.head?.getD "" else group.activeTabId }

def repairEditorLayout (openTabIds : List String) : EditorLayout :=
  let (filtered, seen) := filterGroups openTabIds layout.root []
  let orphans := openTabIds.filter (· ∉ seen)
  let groups := layoutGroups filtered
  let adopter :=
    if groups.any (·.id = layout.focusedGroupId) then layout.focusedGroupId
    else (groups.head?.map EditorGroup.id).getD ""
  let adopted :=
    if orphans = [] then filtered
    else mapGroups (fun group => .group (if group.id = adopter then adopt orphans group else group))
      filtered
  match pruneNode adopted with
  | none => singleGroupLayout
  | some pruned => restoreFocus pruned layout.focusedGroupId

def directionText : SplitDirection → String
  | .row => "row"
  | .column => "column"

def encodeNode : EditorLayoutNode → Json
  | .group group =>
    .obj [("kind", .str "group"), ("id", .str group.id), ("tabIds", .arr (group.tabIds.map .str)),
      ("activeTabId", .str group.activeTabId)]
  | .split direction ratio first second =>
    .obj [("kind", .str "split"),
      ("direction", .str (directionText direction)),
      ("ratio", .num ratio), ("first", encodeNode first), ("second", encodeNode second)]

/-- `encodeEditorLayout`, before it is written as a text. -/
def encodeEditorLayout : Json :=
  .obj [("v", .num 1), ("root", encodeNode layout.root),
    ("focusedGroupId", .str layout.focusedGroupId)]

/-- The ids of groups and of tabs that were read so far. -/
structure Claimed where
  groupIds : List String
  tabIds : List String

/-- Tabs that must not have been read before. -/
def claimAll (claimed : List String) : List String → Option (List String)
  | [] => some claimed
  | id :: rest => if id ∈ claimed then none else claimAll (claimed ++ [id]) rest

/-- `decodeNode`, on a group. -/
def decodeGroup (row : List (String × Json)) (claimed : Claimed) :
    Option (EditorLayoutNode × Claimed) :=
  match getField row "id", getField row "tabIds", getField row "activeTabId" with
  | some (.str id), some (.arr values), some (.str active) =>
    if id = "" ∨ id ∈ claimed.groupIds then none
    else
      (tabTexts values).bind fun tabIds =>
        (claimAll claimed.tabIds tabIds).map fun claimedTabs =>
          (.group (restoreGroupInvariants ⟨id, tabIds, active⟩),
            ⟨claimed.groupIds ++ [id], claimedTabs⟩)
  | _, _, _ => none

def directionOf : Option Json → Option SplitDirection
  | some (.str text) =>
    if text = "row" then some .row else if text = "column" then some .column else none
  | _ => none

/-- `decodeNode`, with the number of splits that may still be entered. -/
def decodeNode (levels : Nat) (value : Option Json) (claimed : Claimed) :
    Option (EditorLayoutNode × Claimed) :=
  (rowOf value).bind fun row =>
    match getField row "kind" with
    | some (.str kind) =>
      if kind = "group" then decodeGroup row claimed
      else if kind = "split" then
        match levels with
        | 0 => none
        | levels + 1 =>
          match directionOf (getField row "direction"), getField row "ratio" with
          | some direction, some (.num ratio) =>
            (decodeNode levels (getField row "first") claimed).bind fun (first, claimed) =>
              (decodeNode levels (getField row "second") claimed).map
                fun (second, claimed) =>
                  (.split direction (clampSplitRatio (some ratio)) first second, claimed)
          | _, _ => none
      else none
    | _ => none

/-- `decodeEditorLayout`, after the text is parsed. -/
def decodeEditorLayout (parsed : Json) : Option EditorLayout :=
  (rowOf (some parsed)).bind fun envelope =>
    match getField envelope "v", getField envelope "focusedGroupId" with
    | some (.num version), some (.str focused) =>
      if version = 1 then
        (decodeNode maxSplitDepth (getField envelope "root") ⟨[], []⟩).map fun (root, _) =>
          restoreFocus root focused
      else none
    | _, _ => none

end Dinkster.Editor
