import Mathlib

/-!
# Layers of settings

A layer gives some fields and, for some members, further records of layers.  Laying one
layer over another keeps what the outer one gives and inherits the rest, except that a layer
or a record that gives nothing masks everything beneath it.  Because of the masks, laying
layers over each other is not associative: what an empty layer masks shows again when the
layer that covers it gives something.  `Composes` says exactly when the order does not matter.
-/

namespace Dinkster.Library

open Classical

section Mask

variable {Key Item : Type} {blank : Item}

def entryOf (blank : Item) (record : Option (Key → Item)) (key : Key) : Item :=
  match record with
  | some items => items key
  | none => blank

def AllBlank (blank : Item) (record : Key → Item) : Prop :=
  ∀ key, record key = blank

/-- Lay one record over another: an empty one masks. -/
noncomputable def maskMerge (blank : Item) (combine : Item → Item → Item)
    (inner : Option (Key → Item)) : Option (Key → Item) → Option (Key → Item)
  | none => inner
  | some outer => some fun key =>
    if AllBlank blank outer then blank else combine (entryOf blank inner key) (outer key)

variable {combine : Item → Item → Item}

theorem maskMerge_none_left (first : ∀ item, combine blank item = item)
    (outer : Option (Key → Item)) : maskMerge blank combine none outer = outer := by
  cases outer with
  | none => rfl
  | some outer =>
    refine congrArg some (funext fun key => ?_)
    split
    · rename_i empty
      exact (empty key).symm
    · exact first _

/-- When a record lets nothing of the one beneath it show. -/
theorem maskMerge_eq_right_iff (inner outer : Option (Key → Item)) :
    maskMerge blank combine inner outer = outer ↔
      match outer with
      | none => inner = none
      | some outer => AllBlank blank outer ∨
          ∀ key, combine (entryOf blank inner key) (outer key) = outer key := by
  cases outer with
  | none => exact Iff.rfl
  | some outer =>
    by_cases empty : AllBlank blank outer
    · refine ⟨fun _ => .inl empty, fun _ => congrArg some (funext fun key => ?_)⟩
      rw [if_pos empty, empty key]
    · unfold maskMerge
      rw [Option.some.injEq, funext_iff]
      simp only [if_neg empty]
      exact ⟨.inr, fun either => either.resolve_left empty⟩

/-- Laying a record that is not empty over a record gives one that is not empty. -/
theorem not_allBlank_combine (kept : ∀ item outer, combine item outer = blank → outer = blank)
    {inner : Key → Item} {outer : Key → Item} (filled : ¬AllBlank blank outer) :
    ¬AllBlank blank fun key => combine (inner key) (outer key) :=
  fun empty => filled fun key => kept _ _ (empty key)

/-- Three records can be laid over each other in either order exactly when one of them is
absent, the outer one masks, or their entries compose and the outer one covers what an empty
one between them masks. -/
theorem maskMerge_assoc_iff (first : ∀ item, combine blank item = item)
    (kept : ∀ item outer, combine item outer = blank → outer = blank)
    (inner middle outer : Option (Key → Item)) :
    maskMerge blank combine inner (maskMerge blank combine middle outer) =
        maskMerge blank combine (maskMerge blank combine inner middle) outer ↔
      match inner, middle, outer with
      | some inner, some middle, some outer => AllBlank blank outer ∨
          ((AllBlank blank middle → ∀ key, combine (inner key) (outer key) = outer key) ∧
            (¬AllBlank blank middle → ∀ key, combine (inner key) (combine (middle key) (outer key)) =
              combine (combine (inner key) (middle key)) (outer key)))
      | _, _, _ => True := by
  cases outer with
  | none =>
    cases inner <;> cases middle <;> exact iff_of_true rfl trivial
  | some outer =>
    cases middle with
    | none =>
      rw [maskMerge_none_left first]
      cases inner <;> exact iff_of_true rfl trivial
    | some middle =>
      cases inner with
      | none =>
        rw [maskMerge_none_left first, maskMerge_none_left first]
        exact iff_of_true rfl trivial
      | some inner =>
        by_cases masks : AllBlank blank outer
        · refine iff_of_true (congrArg some (funext fun key => ?_)) (.inl masks)
          have still : AllBlank blank fun key =>
              if AllBlank blank outer then blank
              else combine (entryOf blank (some middle) key) (outer key) :=
            fun key => if_pos masks
          rw [if_pos still, if_pos masks]
        · have through := @not_allBlank_combine _ _ _ _ kept middle _ masks
          unfold maskMerge
          rw [Option.some.injEq, funext_iff]
          simp only [if_neg masks, entryOf, if_neg through]
          by_cases empty : AllBlank blank middle
          · have uncovered : ∀ key, combine (middle key) (outer key) = outer key := by
              intro key
              rw [empty key, first]
            simp [masks, empty, first, uncovered]
          · simp [masks, empty]

end Mask

inductive Layer (Key Field Datum : Type) where
  | absent
  | present (own : Field → Option Datum)
      (members : Option (Key → Option (Key → Layer Key Field Datum)))

variable {Key Field Datum : Type}

abbrev LayerScope (Key Field Datum : Type) := Key → Layer Key Field Datum

/-- The records of the members of a layer. -/
abbrev MemberScopes (Key Field Datum : Type) := Key → Option (LayerScope Key Field Datum)

/-- A layer that gives nothing. -/
def Vacant (own : Field → Option Datum) (members : Option (MemberScopes Key Field Datum)) : Prop :=
  (∀ field, own field = none) ∧ members = none

mutual

noncomputable def mergeLayer (inner : Layer Key Field Datum) :
    Layer Key Field Datum → Layer Key Field Datum
  | .absent => inner
  | .present own members =>
    match inner with
    | .absent => .present own members
    | .present innerOwn innerMembers =>
      if Vacant own members then .present own members
      else .present (fun field => (own field).or (innerOwn field))
        (mergeMembers innerMembers members)

/-- Lay the records of members over others. -/
noncomputable def mergeMembers (inner : Option (MemberScopes Key Field Datum)) :
    Option (Key → Option (Key → Layer Key Field Datum)) → Option (MemberScopes Key Field Datum)
  | none => inner
  | some outer => some fun member =>
    if AllBlank none outer then none else mergeNested (entryOf none inner member) (outer member)

/-- Lay the record of a member over another. -/
noncomputable def mergeNested (inner : Option (LayerScope Key Field Datum)) :
    Option (Key → Layer Key Field Datum) → Option (LayerScope Key Field Datum)
  | none => inner
  | some outer => some fun key =>
    if AllBlank .absent outer then .absent
    else mergeLayer (entryOf .absent inner key) (outer key)

end

/-- Lay a whole record over another: here an empty one does not mask. -/
noncomputable def mergeScope (inner outer : LayerScope Key Field Datum) :
    LayerScope Key Field Datum :=
  fun key => mergeLayer (inner key) (outer key)

theorem mergeMembers_eq (inner outer : Option (MemberScopes Key Field Datum)) :
    mergeMembers inner outer = maskMerge none mergeNested inner outer := by
  cases outer <;> rw [mergeMembers] <;> rfl

theorem mergeNested_eq (inner outer : Option (LayerScope Key Field Datum)) :
    mergeNested inner outer = maskMerge .absent mergeLayer inner outer := by
  cases outer <;> rw [mergeNested] <;> rfl

@[simp] theorem mergeLayer_absent_left (outer : Layer Key Field Datum) :
    mergeLayer .absent outer = outer := by
  cases outer <;> rw [mergeLayer]

@[simp] theorem mergeLayer_absent_right (inner : Layer Key Field Datum) :
    mergeLayer inner .absent = inner := by
  rw [mergeLayer]

@[simp] theorem mergeNested_none_left (outer : Option (LayerScope Key Field Datum)) :
    mergeNested none outer = outer := by
  rw [mergeNested_eq, maskMerge_none_left mergeLayer_absent_left]

@[simp] theorem mergeMembers_none_left (outer : Option (MemberScopes Key Field Datum)) :
    mergeMembers none outer = outer := by
  rw [mergeMembers_eq, maskMerge_none_left mergeNested_none_left]

theorem outer_absent_of_mergeLayer {inner outer : Layer Key Field Datum}
    (nothing : mergeLayer inner outer = .absent) : outer = .absent := by
  cases outer with
  | absent => rfl
  | present own members =>
    cases inner with
    | absent => rw [mergeLayer_absent_left] at nothing; exact nothing
    | present innerOwn innerMembers =>
      rw [mergeLayer] at nothing
      split at nothing <;> cases nothing

theorem outer_none_of_mergeNested {inner outer : Option (LayerScope Key Field Datum)}
    (nothing : mergeNested inner outer = none) : outer = none := by
  cases outer with
  | none => rfl
  | some outer =>
    rw [mergeNested] at nothing
    cases nothing

mutual

/-- The outer layer lets nothing of the inner one show. -/
def LayerCovers (inner : Layer Key Field Datum) : Layer Key Field Datum → Prop
  | .absent => inner = .absent
  | .present own members =>
    match inner with
    | .absent => True
    | .present innerOwn innerMembers => Vacant own members ∨
        ((∀ field, own field = none → innerOwn field = none) ∧
          MembersCover innerMembers members)

/-- The outer records let nothing of the inner ones show. -/
def MembersCover (inner : Option (MemberScopes Key Field Datum)) :
    Option (Key → Option (Key → Layer Key Field Datum)) → Prop
  | none => inner = none
  | some outer => AllBlank none outer ∨
      ∀ member, NestedCovers (entryOf none inner member) (outer member)

/-- The outer record lets nothing of the inner one show. -/
def NestedCovers (inner : Option (LayerScope Key Field Datum)) :
    Option (Key → Layer Key Field Datum) → Prop
  | none => inner = none
  | some outer => AllBlank .absent outer ∨
      ∀ key, LayerCovers (entryOf .absent inner key) (outer key)

end

mutual

theorem mergeLayer_eq_right_iff (inner : Layer Key Field Datum) :
    ∀ outer : Layer Key Field Datum, mergeLayer inner outer = outer ↔ LayerCovers inner outer
  | .absent => by
    rw [mergeLayer, LayerCovers]
  | .present own members => by
    cases inner with
    | absent =>
      rw [mergeLayer_absent_left, LayerCovers]
      exact iff_of_true rfl trivial
    | present innerOwn innerMembers =>
      rw [mergeLayer, LayerCovers]
      by_cases vacant : Vacant own members
      · rw [if_pos vacant]
        exact iff_of_true rfl (.inl vacant)
      · have fields : (fun field => (own field).or (innerOwn field)) = own ↔
            ∀ field, own field = none → innerOwn field = none := by
          rw [funext_iff]
          refine forall_congr' fun field => ?_
          cases own field <;> simp
        rw [if_neg vacant, Layer.present.injEq, fields,
          mergeMembers_eq_right_iff innerMembers members]
        exact ⟨.inr, fun either => either.resolve_left vacant⟩

theorem mergeMembers_eq_right_iff (inner : Option (MemberScopes Key Field Datum)) :
    ∀ outer : Option (Key → Option (Key → Layer Key Field Datum)),
      mergeMembers inner outer = outer ↔ MembersCover inner outer
  | none => by
    rw [mergeMembers, MembersCover]
  | some outer => by
    rw [mergeMembers_eq, maskMerge_eq_right_iff, MembersCover]
    exact or_congr Iff.rfl (forall_congr' fun member =>
      mergeNested_eq_right_iff _ (outer member))

theorem mergeNested_eq_right_iff (inner : Option (LayerScope Key Field Datum)) :
    ∀ outer : Option (Key → Layer Key Field Datum),
      mergeNested inner outer = outer ↔ NestedCovers inner outer
  | none => by
    rw [mergeNested, NestedCovers]
  | some outer => by
    rw [mergeNested_eq, maskMerge_eq_right_iff, NestedCovers]
    exact or_congr Iff.rfl (forall_congr' fun key => mergeLayer_eq_right_iff _ (outer key))

end

mutual

/-- What an empty middle layer masks is covered by the outer one, unless that masks too. -/
def LayersCompose (inner middle : Layer Key Field Datum) : Layer Key Field Datum → Prop
  | .absent => True
  | .present own members =>
    match inner, middle with
    | .present innerOwn innerMembers, .present middleOwn middleMembers =>
      Vacant own members ∨
        ((Vacant middleOwn middleMembers →
            LayerCovers (.present innerOwn innerMembers) (.present own members)) ∧
          (¬Vacant middleOwn middleMembers →
            MembersCompose innerMembers middleMembers members))
    | _, _ => True
termination_by structural outer => outer

/-- What empty middle records mask is covered by the outer ones, unless those mask too. -/
def MembersCompose (inner middle : Option (MemberScopes Key Field Datum)) :
    Option (Key → Option (Key → Layer Key Field Datum)) → Prop
  | none => True
  | some outer =>
    match inner, middle with
    | some inner, some middle => AllBlank none outer ∨
        ((AllBlank none middle → ∀ member, NestedCovers (inner member) (outer member)) ∧
          (¬AllBlank none middle →
            ∀ member, NestedCompose (inner member) (middle member) (outer member)))
    | _, _ => True
termination_by structural outer => outer

/-- What an empty middle record masks is covered by the outer one, unless that masks too. -/
def NestedCompose (inner middle : Option (LayerScope Key Field Datum)) :
    Option (Key → Layer Key Field Datum) → Prop
  | none => True
  | some outer =>
    match inner, middle with
    | some inner, some middle => AllBlank .absent outer ∨
        ((AllBlank .absent middle → ∀ key, LayerCovers (inner key) (outer key)) ∧
          (¬AllBlank .absent middle →
            ∀ key, LayersCompose (inner key) (middle key) (outer key)))
    | _, _ => True
termination_by structural outer => outer

end

/-- Laying a layer that gives something over a layer gives one that gives something. -/
theorem not_vacant_merge {own innerOwn : Field → Option Datum}
    {members innerMembers : Option (MemberScopes Key Field Datum)} (filled : ¬Vacant own members) :
    ¬Vacant (fun field => (own field).or (innerOwn field)) (mergeMembers innerMembers members) := by
  rintro ⟨fields, none⟩
  refine filled ⟨fun field => (Option.or_eq_none_iff.mp (fields field)).1, ?_⟩
  cases members with
  | none => rfl
  | some outer =>
    rw [mergeMembers] at none
    cases none

mutual

theorem mergeLayer_assoc_iff (inner middle : Layer Key Field Datum) :
    ∀ outer : Layer Key Field Datum,
      mergeLayer inner (mergeLayer middle outer) = mergeLayer (mergeLayer inner middle) outer ↔
        LayersCompose inner middle outer
  | .absent => by
    rw [mergeLayer_absent_right, mergeLayer_absent_right, LayersCompose]
    exact iff_of_true rfl trivial
  | .present own members => by
    cases inner with
    | absent =>
      rw [mergeLayer_absent_left, mergeLayer_absent_left]
      exact iff_of_true rfl (by simp only [LayersCompose])
    | present innerOwn innerMembers =>
      cases middle with
      | absent =>
        rw [mergeLayer_absent_left, mergeLayer_absent_right]
        exact iff_of_true rfl (by simp only [LayersCompose])
      | present middleOwn middleMembers =>
        rw [LayersCompose]
        by_cases masks : Vacant own members
        · refine iff_of_true ?_ (.inl masks)
          simp only [mergeLayer, if_pos masks]
          split <;> rfl
        · by_cases empty : Vacant middleOwn middleMembers
          · have through : mergeLayer (.present middleOwn middleMembers)
                (.present own members) = .present own members := by
              rw [mergeLayer, if_neg masks, empty.2, mergeMembers_none_left]
              congr 1
              funext field
              rw [empty.1 field, Option.or_none]
            have masked : mergeLayer (.present innerOwn innerMembers)
                (.present middleOwn middleMembers) = .present middleOwn middleMembers := by
              rw [mergeLayer, if_pos empty]
            rw [masked, through, mergeLayer_eq_right_iff]
            exact ⟨fun covers => .inr ⟨fun _ => covers, fun filled => absurd empty filled⟩,
              fun either => (either.resolve_left masks).1 empty⟩
          · have outerFilled := @not_vacant_merge _ _ _ own middleOwn members middleMembers masks
            have fields : (fun field => ((own field).or (middleOwn field)).or
                (innerOwn field)) =
                fun field => (own field).or ((middleOwn field).or (innerOwn field)) :=
              funext fun field => Option.or_assoc
            simp only [mergeLayer, if_neg masks, if_neg empty, if_neg outerFilled]
            rw [Layer.present.injEq, fields,
              mergeMembers_assoc_iff innerMembers middleMembers members]
            exact ⟨fun compose => .inr ⟨fun vacant => absurd vacant empty, fun _ => compose.2⟩,
              fun either => ⟨rfl, (either.resolve_left masks).2 empty⟩⟩
termination_by structural outer => outer

theorem mergeMembers_assoc_iff (inner middle : Option (MemberScopes Key Field Datum)) :
    ∀ outer : Option (Key → Option (Key → Layer Key Field Datum)),
      mergeMembers inner (mergeMembers middle outer) =
          mergeMembers (mergeMembers inner middle) outer ↔ MembersCompose inner middle outer
  | none => by
    rw [mergeMembers, mergeMembers, MembersCompose]
    exact iff_of_true rfl trivial
  | some outer => by
    simp only [mergeMembers_eq]
    rw [maskMerge_assoc_iff mergeNested_none_left fun _ _ => outer_none_of_mergeNested]
    cases inner with
    | none => simp only [MembersCompose]
    | some inner =>
      cases middle with
      | none => simp only [MembersCompose]
      | some middle =>
        rw [MembersCompose]
        exact or_congr Iff.rfl (and_congr (imp_congr Iff.rfl (forall_congr' fun member =>
            mergeNested_eq_right_iff (inner member) (outer member)))
          (imp_congr Iff.rfl (forall_congr' fun member =>
            mergeNested_assoc_iff (inner member) (middle member) (outer member))))
termination_by structural outer => outer

theorem mergeNested_assoc_iff (inner middle : Option (LayerScope Key Field Datum)) :
    ∀ outer : Option (Key → Layer Key Field Datum), mergeNested inner (mergeNested middle outer) =
          mergeNested (mergeNested inner middle) outer ↔ NestedCompose inner middle outer
  | none => by
    rw [mergeNested, mergeNested, NestedCompose]
    exact iff_of_true rfl trivial
  | some outer => by
    simp only [mergeNested_eq]
    rw [maskMerge_assoc_iff mergeLayer_absent_left fun _ _ => outer_absent_of_mergeLayer]
    cases inner with
    | none => simp only [NestedCompose]
    | some inner =>
      cases middle with
      | none => simp only [NestedCompose]
      | some middle =>
        rw [NestedCompose]
        exact or_congr Iff.rfl (and_congr (imp_congr Iff.rfl (forall_congr' fun key =>
            mergeLayer_eq_right_iff (inner key) (outer key)))
          (imp_congr Iff.rfl (forall_congr' fun key =>
            mergeLayer_assoc_iff (inner key) (middle key) (outer key))))
termination_by structural outer => outer

end

/-- Three records of layers can be laid over each other in either order exactly when their
layers compose. -/
theorem mergeScope_assoc_iff (inner middle outer : LayerScope Key Field Datum) :
    mergeScope inner (mergeScope middle outer) = mergeScope (mergeScope inner middle) outer ↔
      ∀ key, LayersCompose (inner key) (middle key) (outer key) := by
  rw [funext_iff]
  exact forall_congr' fun key => mergeLayer_assoc_iff _ _ (outer key)

end Dinkster.Library
