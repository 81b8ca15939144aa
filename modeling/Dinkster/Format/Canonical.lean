import Dinkster.Format.Json
import Dinkster.Format.PortKeys
import Dinkster.Library.Naming
import Dinkster.Library.Utf16

/-!
# Canonical JSON

`canonicalJson` sorts the members of every object by their keys.  The text of a value ends where
a comma, a closing bracket or nothing follows, so plain values have one text exactly when they
are the same value.  How a number is printed is a parameter.
-/

namespace Dinkster.Format

open Library List

/-- What is known of `JSON.stringify` on finite numbers: different numbers have different texts,
which start with a sign or a digit and hold no separator. -/
structure PrintsNumbers (print : Rat → String) : Prop where
  injective : Function.Injective print
  starts : ∀ number, ∃ first rest, (print number).toList = first :: rest ∧
    (first = '-' ∨ first.isDigit = true)
  unbroken : ∀ number, ∀ char ∈ (print number).toList, char ∉ [',', ']', '}']

/-- What follows the first text of `[...].join(',')`, with the closing bracket. -/
def joinedRest (close : Char) : List (List Char) → List Char
  | [] => [close]
  | text :: rest => ',' :: (text ++ joinedRest close rest)

/-- `[...].join(',')` with the closing bracket. -/
def joinedItems (close : Char) : List (List Char) → List Char
  | [] => [close]
  | text :: rest => text ++ joinedRest close rest

/-- Members in the order of their keys. -/
abbrev keyLe {Field : Type} : String × Field → String × Field → Prop :=
  Order.Preimage Prod.fst textLe

def entryText (entry : String × List Char) : List Char :=
  quoted entry.1 ++ ':' :: entry.2

section Canonical

variable (print : Rat → String)

mutual

def canonicalJson : Json → List Char
  | .null => "null".toList
  | .bool value => if value then "true".toList else "false".toList
  | .num value => (print value).toList
  | .str value => quoted value
  | .arr items => '[' :: joinedItems ']' (canonicalItems items)
  | .obj fields =>
    '{' :: joinedItems '}' (((canonicalFields fields).insertionSort keyLe).map entryText)

def canonicalItems : List Json → List (List Char)
  | [] => []
  | item :: rest => canonicalJson item :: canonicalItems rest

/-- The members with their texts, which the sort by keys does not look at. -/
def canonicalFields : List (String × Json) → List (String × List Char)
  | [] => []
  | (key, field) :: rest => (key, canonicalJson field) :: canonicalFields rest

end

def keyedText (entry : String × Json) : String × List Char :=
  (entry.1, canonicalJson print entry.2)

theorem canonicalItems_eq (items : List Json) :
    canonicalItems print items = items.map (canonicalJson print) := by
  induction items with
  | nil => rfl
  | cons item rest ih => rw [canonicalItems, ih, map_cons]

theorem canonicalFields_eq (fields : List (String × Json)) :
    canonicalFields print fields = fields.map (keyedText print) := by
  induction fields with
  | nil => rfl
  | cons entry rest ih => rw [canonicalFields, ih, map_cons, keyedText]

theorem canonicalJson_obj (fields : List (String × Json)) : canonicalJson print (.obj fields) =
    '{' :: joinedItems '}' ((fields.insertionSort keyLe).map (entryText ∘ keyedText print)) := by
  rw [canonicalJson, canonicalFields_eq, ← map_insertionSort keyLe keyLe (keyedText print) fields
    fun _ _ _ _ => Iff.rfl, map_map]

end Canonical

/-! ## Texts that end -/

def EndsAt (stops rest : List Char) : Prop :=
  ∀ first ∈ rest.head?, first ∈ stops

theorem unbroken_cancel {stops rest other : List Char} (ends : EndsAt stops rest)
    (otherEnds : EndsAt stops other) : ∀ {left right : List Char}, (∀ char ∈ left, char ∉ stops) →
      (∀ char ∈ right, char ∉ stops) → left ++ rest = right ++ other → left = right ∧ rest = other
  | [], [], _, _, same => ⟨rfl, same⟩
  | [], char :: right, _, clean, same => by
    have begins : char ∈ rest.head? := by rw [show rest = _ from same]; rfl
    exact absurd (ends char begins) (clean char mem_cons_self)
  | char :: left, [], clean, _, same => by
    have begins : char ∈ other.head? := by rw [← show _ = other from same]; rfl
    exact absurd (otherEnds char begins) (clean char mem_cons_self)
  | char :: left, found :: right, clean, otherClean, same => by
    obtain ⟨rfl, tails⟩ := cons.inj same
    obtain ⟨rfl, rests⟩ := unbroken_cancel ends otherEnds (forall_mem_cons.mp clean).2
      (forall_mem_cons.mp otherClean).2 tails
    exact ⟨rfl, rests⟩

/-- Two items whose texts can be told apart wherever they end. -/
def Cancels {Item : Type} (write : Item → List Char) (Same : Item → Item → Prop)
    (left right : Item) : Prop :=
  ∀ rest other, EndsAt [',', ']', '}'] rest → EndsAt [',', ']', '}'] other → write left ++ rest = write right ++ other →
    Same left right ∧ rest = other

section Joined

variable {Item : Type} {write : Item → List Char} {Same : Item → Item → Prop} {close : Char}
  {rest other : List Char}

theorem ends_joinedRest (bracket : close ∈ [']', '}']) (texts : List (List Char)) :
    EndsAt [',', ']', '}'] (joinedRest close texts ++ rest) := by
  intro first head
  cases texts with
  | nil =>
    cases head
    exact mem_cons_of_mem _ bracket
  | cons text texts =>
    cases head
    exact mem_cons_self

theorem joinedRest_cancel (bracket : close ∈ [']', '}']) : ∀ {left right : List Item},
    (∀ item ∈ left, ∀ found ∈ right, Cancels write Same item found) →
      joinedRest close (left.map write) ++ rest = joinedRest close (right.map write) ++ other →
        Forall₂ Same left right ∧ rest = other
  | [], [], _, same => ⟨.nil, (cons.inj same).2⟩
  | [], found :: right, _, same => by
    rw [(cons.inj same).1] at bracket
    exact absurd bracket (by decide)
  | item :: left, [], _, same => by
    rw [← (cons.inj same).1] at bracket
    exact absurd bracket (by decide)
  | item :: left, found :: right, cancels, same => by
    have texts : write item ++ _ ++ rest = write found ++ _ ++ other := (cons.inj same).2
    rw [append_assoc, append_assoc] at texts
    obtain ⟨alike, later⟩ := cancels item mem_cons_self found mem_cons_self _ _
      (ends_joinedRest bracket _) (ends_joinedRest bracket _) texts
    obtain ⟨pairs, rests⟩ := joinedRest_cancel bracket
      (fun item listed found known =>
        cancels item (mem_cons_of_mem _ listed) found (mem_cons_of_mem _ known)) later
    exact ⟨.cons alike pairs, rests⟩

theorem joinedItems_cancel (bracket : close ∈ [']', '}']) {left right : List Item}
    (starts : ∀ item, ∃ first tail, write item = first :: tail ∧ first ≠ close)
    (cancels : ∀ item ∈ left, ∀ found ∈ right, Cancels write Same item found)
    (same : joinedItems close (left.map write) ++ rest =
      joinedItems close (right.map write) ++ other) : Forall₂ Same left right ∧ rest = other := by
  cases left with
  | nil =>
    cases right with
    | nil => exact ⟨.nil, (cons.inj same).2⟩
    | cons found right =>
      obtain ⟨first, tail, text, apart⟩ := starts found
      simp [joinedItems, text, apart.symm] at same
  | cons item left =>
    cases right with
    | nil =>
      obtain ⟨first, tail, text, apart⟩ := starts item
      simp [joinedItems, text, apart] at same
    | cons found right =>
      -- A comma before both lists of texts makes them rests.
      apply joinedRest_cancel bracket cancels
      simpa only [joinedItems, map_cons, joinedRest, cons_append, cons.injEq, true_and] using same

end Joined

/-! ## Values and their texts -/

def SameValue (left right : Json) : Prop :=
  left.value = right.value

def SameMember (entry other : String × Json) : Prop :=
  entry.1 = other.1 ∧ SameValue entry.2 other.2

/-- Which kind of value a character begins. -/
def charKind (char : Char) : Nat :=
  if char = '-' ∨ char.isDigit = true then 0
  else ['n', quotationMark, '[', '{', 'f', 't'].idxOf char + 1

def leadKind : Json → Nat
  | .num _ => 0
  | .null => 1
  | .str _ => 2
  | .arr _ => 3
  | .obj _ => 4
  | .bool value => 5 + value.toNat

variable {print : Rat → String}

theorem canonicalJson_starts (prints : PrintsNumbers print) (json : Json) :
    ∃ first rest, canonicalJson print json = first :: rest ∧ charKind first = leadKind json := by
  cases json with
  | num number =>
    obtain ⟨first, rest, text, numeral⟩ := prints.starts number
    exact ⟨first, rest, by rw [canonicalJson, text], if_pos numeral⟩
  | null => exact ⟨_, _, rfl, rfl⟩
  | bool value => cases value <;> exact ⟨_, _, rfl, rfl⟩
  | str _ | arr _ | obj _ => exact ⟨_, _, by unfold canonicalJson; rfl, rfl⟩

theorem canonicalJson_ne_bracket (prints : PrintsNumbers print) (json : Json) :
    ∃ first rest, canonicalJson print json = first :: rest ∧ first ≠ ']' := by
  obtain ⟨first, rest, text, kind⟩ := canonicalJson_starts prints json
  refine ⟨first, rest, text, ?_⟩
  rintro rfl
  rw [show charKind ']' = 7 by decide] at kind
  cases json with
  | bool value => cases value <;> simp [leadKind] at kind
  | _ => simp [leadKind] at kind

theorem fieldsValue_of_perm {fields other : List (String × Json)}
    (distinct : (fieldKeys fields).Nodup) (perm : other.Perm fields) :
    fieldsValue other = fieldsValue fields := by
  refine (fieldsValue_ext_iff ((perm.map _).nodup_iff.mpr distinct) distinct).mpr
    ⟨perm.length_eq, fun key field listed => ?_⟩
  rw [fieldsValue_eq, getField_of_mem distinct (perm.mem_iff.mp listed), optionValue_some]

theorem sizeOf_item_lt {item : Json} {items : List Json} (listed : item ∈ items) :
    sizeOf item < sizeOf (Json.arr items) := by
  have smaller := sizeOf_lt_of_mem listed
  rw [Json.arr.sizeOf_spec]
  omega

theorem sizeOf_field_lt {entry : String × Json} {fields : List (String × Json)}
    (listed : entry ∈ fields) : sizeOf entry.2 < sizeOf (Json.obj fields) := by
  have smaller := sizeOf_lt_of_mem listed
  rw [Prod.mk.sizeOf_spec] at smaller
  rw [Json.obj.sizeOf_spec]
  omega

theorem fieldsValue_congr {left right : List (String × Json)}
    (pairs : Forall₂ SameMember left right) : fieldsValue left = fieldsValue right := by
  funext name
  induction pairs with
  | nil => rfl
  | cons alike _ ih => rw [fieldsValue, fieldsValue, ih, alike.1, alike.2]

/-- The text of a value can be told from that of a different one. -/
theorem canonicalJson_cancel (prints : PrintsNumbers print) (left right : Json)
    (plain : left.Plain) (otherPlain : right.Plain) :
    Cancels (canonicalJson print) SameValue left right := by
  induction size : sizeOf left using Nat.strongRecOn generalizing left right with
  | ind bound ih =>
    intro rest other ends otherEnds same
    have kinds : leadKind left = leadKind right := by
      obtain ⟨first, tail, text, kind⟩ := canonicalJson_starts prints left
      obtain ⟨second, later, otherText, otherKind⟩ := canonicalJson_starts prints right
      rw [text, otherText] at same
      rw [← kind, ← otherKind, (cons.inj same).1]
    cases left <;> cases right <;> simp only [leadKind] at kinds <;> try omega
    case null.null => exact ⟨rfl, append_cancel_left same⟩
    case bool.bool value found =>
      obtain rfl : value = found := by cases value <;> cases found <;> simp at kinds ⊢
      exact ⟨rfl, append_cancel_left same⟩
    case num.num number found =>
      obtain ⟨texts, rests⟩ :=
        unbroken_cancel ends otherEnds (prints.unbroken number) (prints.unbroken found) same
      exact ⟨by rw [prints.injective (String.toList_inj.mp texts)]; rfl, rests⟩
    case str.str text found =>
      obtain ⟨rfl, rests⟩ := quoted_cancel same
      exact ⟨rfl, rests⟩
    case arr.arr items others =>
      rw [canonicalJson, canonicalJson, canonicalItems_eq, canonicalItems_eq] at same
      obtain ⟨pairs, rests⟩ := joinedItems_cancel (by simp)
        (canonicalJson_ne_bracket prints)
        (fun item listed found known => ih _ (size ▸ sizeOf_item_lt listed) item found
          (plain_arr_iff.mp plain item listed) (plain_arr_iff.mp otherPlain found known) rfl)
        (cons.inj same).2
      refine ⟨?_, rests⟩
      have values : items.map Json.value = others.map Json.value := by
        rw [← forall₂_eq_eq_eq, forall₂_map_left_iff, forall₂_map_right_iff]
        exact pairs
      rw [SameValue, value_arr, value_arr, itemsValue_eq, itemsValue_eq, values]
    case obj.obj fields others =>
      rw [canonicalJson_obj, canonicalJson_obj] at same
      obtain ⟨distinct, fieldsPlain⟩ := plain_obj_iff.mp plain
      obtain ⟨otherDistinct, othersPlain⟩ := plain_obj_iff.mp otherPlain
      have cancels : ∀ entry ∈ fields.insertionSort keyLe, ∀ found ∈ others.insertionSort keyLe,
          Cancels (entryText ∘ keyedText print) SameMember entry found := by
        intro entry listed found known rest other ends otherEnds same
        have texts : quoted entry.1 ++ ':' :: _ ++ rest = quoted found.1 ++ ':' :: _ ++ other := same
        rw [append_assoc, append_assoc] at texts
        obtain ⟨keys, tails⟩ := quoted_cancel texts
        rw [mem_insertionSort] at listed known
        obtain ⟨values, rests⟩ := ih _ (size ▸ sizeOf_field_lt listed) entry.2 found.2
          (fieldsPlain entry listed) (othersPlain found known) rfl
          rest other ends otherEnds (cons.inj tails).2
        exact ⟨⟨keys, values⟩, rests⟩
      obtain ⟨pairs, rests⟩ := joinedItems_cancel (by simp)
        (fun entry => ⟨quotationMark, _, rfl, by decide⟩) cancels (cons.inj same).2
      refine ⟨?_, rests⟩
      have sorted := fieldsValue_congr pairs
      rw [fieldsValue_of_perm distinct (perm_insertionSort keyLe fields),
        fieldsValue_of_perm otherDistinct (perm_insertionSort keyLe others)] at sorted
      rw [SameValue, value_obj, value_obj, sorted]

theorem map_eq_of_map_eq {Item Value Text : Type} {value : Item → Value} {text : Item → Text} :
    ∀ {left right : List Item},
      (∀ item ∈ left, ∀ found ∈ right, value item = value found → text item = text found) →
        left.map value = right.map value → left.map text = right.map text
  | [], [], _, _ => rfl
  | item :: left, found :: right, alike, same => by
    obtain ⟨head, tail⟩ := cons.inj same
    rw [map_cons, map_cons, alike item mem_cons_self found mem_cons_self head,
      map_eq_of_map_eq (fun item listed found known =>
        alike item (mem_cons_of_mem _ listed) found (mem_cons_of_mem _ known)) tail]

/-- The order of members with different keys does not matter to the sort. -/
theorem insertionSort_keyLe_eq {Field : Type} {left right : List (String × Field)}
    (distinct : (left.map Prod.fst).Nodup) (perm : left.Perm right) :
    left.insertionSort keyLe = right.insertionSort keyLe := by
  have sorted := ((perm_insertionSort keyLe left).trans perm).trans
    (perm_insertionSort keyLe right).symm
  refine sorted.eq_of_pairwise (fun entry other listed known below above => ?_)
    (pairwise_insertionSort keyLe left) (pairwise_insertionSort keyLe right)
  rw [mem_insertionSort] at listed known
  exact inj_on_of_nodup_map distinct listed (perm.mem_iff.mpr known)
    (textUnits_inj (le_antisymm below above))

theorem canonicalJson_congr (left right : Json) (plain : left.Plain) (otherPlain : right.Plain)
    (same : SameValue left right) : canonicalJson print left = canonicalJson print right := by
  induction size : sizeOf left using Nat.strongRecOn generalizing left right with
  | ind bound ih =>
    cases left <;> cases right <;> simp [SameValue, Json.value] at same
    case null.null => rfl
    case bool.bool | num.num | str.str => rw [same]
    case arr.arr items others =>
      rw [canonicalJson, canonicalJson, canonicalItems_eq, canonicalItems_eq]
      rw [map_eq_of_map_eq (fun item listed found known values =>
        ih _ (size ▸ sizeOf_item_lt listed) item found
          (plain_arr_iff.mp plain item listed) (plain_arr_iff.mp otherPlain found known)
          values rfl) same]
    case obj.obj fields others =>
      obtain ⟨distinct, fieldsPlain⟩ := plain_obj_iff.mp plain
      obtain ⟨otherDistinct, othersPlain⟩ := plain_obj_iff.mp otherPlain
      obtain ⟨alike, found⟩ := (fieldsValue_ext_iff distinct otherDistinct).mp same
      have keys : ((fields.map (keyedText print)).map Prod.fst).Nodup := by
        rw [map_map]
        exact distinct
      have subset : fields.map (keyedText print) ⊆ others.map (keyedText print) := by
        intro text mapped
        obtain ⟨⟨key, field⟩, listed, rfl⟩ := mem_map.mp mapped
        have held := found key field listed
        rw [fieldsValue_eq] at held
        cases owned : getField others key with
        | none =>
          rw [owned] at held
          exact absurd held.symm (value_ne_undefined field)
        | some other =>
          rw [owned, optionValue_some] at held
          have known := mem_of_getField owned
          rw [keyedText, ih _ (size ▸ sizeOf_field_lt listed) field other (fieldsPlain _ listed)
            (othersPlain _ known) held.symm rfl]
          exact mem_map_of_mem known
      have perm := (subperm_of_subset keys.of_map subset).perm_of_length_le (by simp [alike])
      rw [canonicalJson, canonicalJson, canonicalFields_eq, canonicalFields_eq,
        insertionSort_keyLe_eq keys perm]

theorem canonicalJson_eq_iff (prints : PrintsNumbers print) {left right : Json}
    (plain : left.Plain) (otherPlain : right.Plain) :
    canonicalJson print left = canonicalJson print right ↔ jsonSameValue left right = true := by
  rw [jsonSameValue_iff left right plain otherPlain]
  constructor
  · intro same
    exact (canonicalJson_cancel prints left right plain otherPlain [] []
      (by intro _ head; cases head) (by intro _ head; cases head) (by rw [same])).1
  · exact canonicalJson_congr left right plain otherPlain

def naturalText (number : Rat) : String :=
  if number = number.num.toNat then toString number.num.toNat
  else "-" ++ toString (Encodable.encode number)

theorem printsNumbers_naturalText : PrintsNumbers naturalText where
  injective := by
    have apart (number code : Nat) : toString number ≠ "-" ++ toString code := fun same => by
      have sign : '-' ∈ (toString number).toList := by
        rw [same, String.toList_append]
        exact mem_cons_self
      exact absurd (isDigit_of_mem_toString '-' sign) (by decide)
    intro first second same
    unfold naturalText at same
    split at same <;> split at same
    · rename_i natural other
      rw [natural, other, decimal_injective same]
    · exact absurd same (apart _ _)
    · exact absurd same.symm (apart _ _)
    · exact Encodable.encode_injective (decimal_injective (by simpa using same))
  starts := by
    intro number
    unfold naturalText
    split
    · obtain ⟨first, rest, text⟩ := exists_cons_of_ne_nil
        (show (toString number.num.toNat).toList ≠ [] by simp [toString, Nat.repr])
      refine ⟨first, rest, text, .inr (@isDigit_of_mem_toString number.num.toNat first ?_)⟩
      rw [text]
      exact mem_cons_self
    · exact ⟨'-', _, String.toList_append, .inl rfl⟩
  unbroken := by
    intro number char listed separator
    have numeral : char = '-' ∨ char.isDigit = true := by
      unfold naturalText at listed
      split at listed
      · exact .inr (isDigit_of_mem_toString char listed)
      · rw [String.toList_append, mem_append] at listed
        exact listed.imp mem_singleton.mp (isDigit_of_mem_toString char)
    simp only [mem_cons, not_mem_nil, or_false] at separator
    obtain rfl | rfl | rfl := separator <;> simp at numeral

theorem canonicalJson_eq_iff_members : canonicalJson naturalText
      (.obj [("a", .num 1), ("b", .null)]) =
    canonicalJson naturalText (.obj [("b", .null), ("a", .num 1)]) ↔
      jsonSameValue (.obj [("a", .num 1), ("b", .null)])
        (.obj [("b", .null), ("a", .num 1)]) = true :=
  canonicalJson_eq_iff printsNumbers_naturalText (by simp [Json.Plain, plainFields, fieldKeys])
    (by simp [Json.Plain, plainFields, fieldKeys])

end Dinkster.Format
