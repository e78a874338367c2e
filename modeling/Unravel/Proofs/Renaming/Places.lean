import Unravel.Proofs.Renaming.Preservation
import Unravel.Proofs.Tree.Programs

/-!
Contract: which identifiers renaming leaves alone.

Every identifier of a program stands in its place after renaming. The node around it and
the field it is in decide whether its name is kept (`isPropertyName`); any other name is
spelled by the map. Properties of members, keys and labels are kept, but the parts of a
meta property and the names that a module imports or exports are not told from variables
(`renamed_identifiers`).
-/

namespace Unravel

open Value Pass.Renaming

/-! ## Respelled trees, slot by slot -/

namespace Respelled

variable {book : Dictionary} {kept : Bool} {value new object child : Value} {slot : Slot}

theorem slot? (respelled : Respelled book kept value new) (isNode : value.isNode) (member : slot ∈
    value.childSlots) (held : value.slot? slot = some child) (isChild : child.isNode) : ∃ become,
    new.slot? slot = some become ∧ Respelled book (isPropertyName value (some slot.field)) child
    become := by
  obtain ⟨listed, _⟩ := mem_childSlots.1 member
  cases respelled with
  | still no =>
    rw [isNode] at no
    cases no
  | identifier is =>
    rw [childFields_of_kind (kind?_of_isKind is) rfl] at listed
    cases listed
  | node alike single each =>
    obtain ⟨field, index⟩ := slot
    cases index with
    | none =>
      have isHeld : value.attr field = child := slot?_attr rfl held
      have noList : (value.attr field).isList = false := by
        rw [isHeld]
        cases child <;> first | rfl | cases isChild
      have related := single field listed noList
      rw [isHeld] at related
      exact ⟨_, slot?_attr_of_isNode (related.isNode.trans isChild), related⟩
    | some position =>
      have found : (value.attr field).items[position]? = some child := held
      have within := (alike.length field listed).symm ▸ (List.getElem?_eq_some_iff.1 found).1
      refine ⟨_, ?_, each field listed position child found⟩
      rw [List.getD_eq_getElem?_getD, List.getElem?_eq_getElem within]
      exact List.getElem?_eq_getElem within

theorem at? {address : Address} (respelled : Respelled book kept value new) (isNode : value.isNode)
    (leads : value.Leads (address ++ [slot])) (found : value.at? address = some object) (held :
    object.slot? slot = some child) : ∃ become, new.at? (address ++ [slot]) = some become ∧
    Respelled book (isPropertyName object (some slot.field)) child become := by
  induction address generalizing kept value new with
  | nil =>
    cases found
    obtain ⟨member, inner, isInner, isChild, _⟩ := leads
    cases held.symm.trans isInner
    obtain ⟨become, inSlot, related⟩ := respelled.slot? isNode member held isChild
    exact ⟨become, by rw [List.nil_append, Value.at?, inSlot]; rfl, related⟩
  | cons first rest ih =>
    obtain ⟨member, inner, inSlot, isInner, below⟩ := leads
    rw [Value.at?, inSlot] at found
    obtain ⟨become, inNew, related⟩ := respelled.slot? isNode member inSlot isInner
    obtain ⟨last, isLast, relatedLast⟩ := ih related isInner below found
    exact ⟨last, by rw [List.cons_append, Value.at?, inNew]; exact isLast, relatedLast⟩

theorem identifierText? (respelled : Respelled book kept value new) : new.identifierText? =
    value.identifierText?.map fun text => if kept then text else book.spelling text := by
  have isNew := respelled.isIdentifier
  cases respelled with
  | still no => rw [identifierText?_of_not_isNode no, Option.map_none]
  | identifier is _ _ keeps spelled =>
    rw [Value.identifierText?, Value.identifierText?, isNew, is]
    cases kept with
    | true => simp [keeps rfl]
    | false =>
      obtain ⟨text, isText, _, become⟩ := (spelled rfl).name
      rw [isText, become]
      rfl
  | node alike =>
    rw [identifierText?_of_other alike.other, identifierText?_of_other (isNew.trans alike.other),
      Option.map_none]

end Respelled

/-! ## Identifiers in their places -/

/-- The name of the identifier at an address. -/
def Value.identifierAt? (tree : Value) (address : Address) : Option String :=
  (tree.at? address).bind identifierText?

/-- An identifier stands in a slot of a node of the tree. -/
structure Value.Stands (tree : Value) (address : Address) (object : Value) (slot : Slot)
    (name : String) : Prop where
  leads : tree.Leads (address ++ [slot])
  object : tree.at? address = some object
  name : tree.identifierAt? (address ++ [slot]) = some name

/-- Fields that hold the name of no variable, but that renaming does not know. -/
def Value.isUnknownName (object : Value) (field : String) : Bool :=
  object.isKind "MetaProperty" || object.isKind "ImportSpecifier" && field == "imported" ||
    object.isKind "ExportSpecifier" && field == "exported"

/-- The identifier in a field of an object names no variable: it is the property of a
member, a key, a label, a part of a meta property or a name in another module. -/
def Value.NamesNoVariable (object : Value) (field : String) : Prop :=
  (object.isKind "MemberExpression" = true ∧ field = "property" ∨
      (object.isKind "Property" = true ∨ object.isKind "MethodDefinition" = true) ∧
        field = "key") ∧ (object.attr "computed").truthy = false ∨
    (∃ kind ∈ labelKinds, object.isKind kind = true) ∧ field = "label" ∨
    object.isUnknownName field = true

namespace Pass.Renaming

variable {object : Value} {field : String}

theorem isPropertyName_of_namesNoVariable (names : object.NamesNoVariable field) : isPropertyName
    object (some field) = true ∨ object.isUnknownName field = true := by
  rcases names with ⟨⟨is, rfl⟩ | ⟨is, rfl⟩, plain⟩ | ⟨⟨kind, listed, is⟩, rfl⟩ | unknown
  · simp [isPropertyName, is, plain]
  · rcases is with is | is
    · simp [isPropertyName, is, plain, isKind_eq_false (kind?_of_isKind is)]
    · simp [isPropertyName, is, plain, isKind_eq_false (kind?_of_isKind is)]
  · left
    have other (name : String) (differs : ∀ kind ∈ labelKinds, kind ≠ name) : object.isKind name =
        false := isKind_eq_false (kind?_of_isKind is) (differs kind listed)
    rw [isPropertyName, other _ (by decide), other _ (by decide), other _ (by decide),
      kind?_of_isKind is]
    simpa using listed
  · exact .inr unknown

theorem isPropertyName_of_isUnknownName (unknown : object.isUnknownName field) : isPropertyName
    object (some field) = false := by
  have known {kind : String} (is : object.isKind kind) (other : kind ∉ keepingKinds) :=
    isPropertyName_of_kind (kind?_of_isKind is) (some field) other
  simp only [isUnknownName, Bool.or_eq_true, Bool.and_eq_true] at unknown
  rcases unknown with (is | ⟨is, _⟩) | ⟨is, _⟩
  · exact known is (by decide)
  · exact known is (by decide)
  · exact known is (by decide)

/-- After renaming every identifier of a program is in its place, with the name it had if
the node around it shows that it names a property or a label, and with its new spelling
otherwise. So all identifiers that name no variable keep their names exactly if the map
moves none in a meta property and none that a module imports or exports. -/
theorem renamed_identifiers {document : Document} (wellFormed : document.tree.WellFormed)
    (named : document.tree.Everywhere NamedOnce) {options : Options} {entries : Members Json}
    (read : renameEntries options = .ok entries)
    (texts : ∀ entry ∈ entries, ∃ target, entry.2 = .text target) :
    (∃ bound, ∀ limit, bound ≤ limit →
        ∃ metadata, (plugin.apply limit options document).result = .ok metadata) ∧
      ∀ limit metadata, (plugin.apply limit options document).result = .ok metadata →
        (∀ address object slot name, document.tree.Stands address object slot name →
          (plugin.apply limit options document).document.tree.identifierAt? (address ++ [slot]) =
            some (if isPropertyName object (some slot.field) then name
              else spelling entries name)) ∧
        ((∀ address object slot name, document.tree.Stands address object slot name →
            object.NamesNoVariable slot.field →
              (plugin.apply limit options document).document.tree.identifierAt?
                (address ++ [slot]) = some name) ↔
          ∀ address object slot name, document.tree.Stands address object slot name →
            object.isUnknownName slot.field = true → spelling entries name = name) := by
  obtain ⟨ends, respells⟩ := respelled_apply wellFormed named read texts
  refine ⟨ends, fun limit metadata succeeded => ?_⟩
  obtain ⟨state, isSpelling, respelled⟩ := respells limit metadata succeeded
  have isNode := isNode_of_kind? (kind?_of_isKind wellFormed.program)
  have become {address : Address} {object : Value} {slot : Slot} {name : String}
      (stands : document.tree.Stands address object slot name) :
      (plugin.apply limit options document).document.tree.identifierAt? (address ++ [slot]) =
        some (if isPropertyName object (some slot.field) then name else spelling entries name) := by
    obtain ⟨node, found, isName⟩ := Option.bind_eq_some_iff.1 stands.name
    rw [at?_append_of_at? stands.object] at found
    have held : object.slot? slot = some node := by
      obtain ⟨_, held, same⟩ := Option.bind_eq_some_iff.1 found
      exact held.trans same
    obtain ⟨new, isThere, related⟩ := respelled.at? isNode stands.leads stands.object held
    rw [identifierAt?, isThere, Option.bind_some, related.identifierText?, isName, ← isSpelling]
    rfl
  refine ⟨fun _ _ _ _ => become, ?_, ?_⟩
  · intro keeps address object slot name stands unknown
    have kept := keeps address object slot name stands (.inr (.inr unknown))
    rw [become stands, isPropertyName_of_isUnknownName unknown] at kept
    exact Option.some.inj kept
  · intro stays address object slot name stands names
    rw [become stands]
    rcases isPropertyName_of_namesNoVariable names with isKept | unknown
    · rw [if_pos isKept]
    · rw [stays address object slot name stands unknown, ite_self]

/-- `new.target; ({e = 1} = o);` -/
def defaultedKey : Document where
  tree := .program [
    .statement 1 (.node 2 "MetaProperty" [("meta", .identifier 3 "new"),
      ("property", .identifier 4 "target")]),
    .statement 5 (.assignment 6
      (.node 7 "ObjectPattern" [("properties", .list [
        .node 8 "Property" [("shorthand", .bool true), ("computed", .bool false),
          ("key", .identifier 9 "e"), ("value", .node 10 "AssignmentPattern" [
            ("left", .identifier 11 "e"), ("right", .spelled 12 1 "1")])]])])
      (.identifier 13 "o"))]
  next := 14

def defaultedNames : Members Json := [("target", .text "t"), ("e", .text "x")]

theorem wellFormed_defaultedKey :
    defaultedKey.tree.WellFormed ∧ defaultedKey.tree.Everywhere NamedOnce := by
  refine ⟨by decide +kernel, ?_⟩
  simp [defaultedKey, Value.Everywhere, Value.EverywhereItems, Value.EverywhereFields,
    Value.NamedOnce, Members.names]

/-- The second part of `new.target` is renamed. -/
theorem renamed_identifiers_defaultedKey :
    let tree := (plugin.apply 60 [("rename_map", .object defaultedNames)] defaultedKey).document.tree
    tree.identifierAt? ([⟨"body", some 0⟩, ⟨"expression", none⟩] ++ [⟨"property", none⟩]) = some "t"
        ∧ ¬∀ address object slot name, defaultedKey.tree.Stands address object slot name →
        object.NamesNoVariable slot.field → tree.identifierAt? (address ++ [slot]) = some name := by
  obtain ⟨wellFormed, named⟩ := wellFormed_defaultedKey
  obtain ⟨_, renames⟩ := renamed_identifiers wellFormed named (show renameEntries [("rename_map",
    .object defaultedNames)] = .ok defaultedNames from rfl) (by simp [defaultedNames])
  obtain ⟨metadata, succeeded⟩ := exists_metadata (by decide +kernel :
    (plugin.apply 60 [("rename_map", .object defaultedNames)] defaultedKey).result.isOk = true)
  obtain ⟨names, keeps⟩ := renames 60 metadata succeeded
  have stands : defaultedKey.tree.Stands [⟨"body", some 0⟩, ⟨"expression", none⟩]
      (.node 2 "MetaProperty" [("meta", .identifier 3 "new"),
        ("property", .identifier 4 "target")]) ⟨"property", none⟩
      "target" := by
    refine ⟨⟨by decide, _, rfl, rfl, by decide, _, rfl, rfl, by decide, _, rfl, rfl, trivial⟩, rfl,
      by decide +kernel⟩
  exact ⟨names _ _ _ _ stands, fun all => absurd (keeps.1 all _ _ _ _ stands rfl) (by decide)⟩

end Pass.Renaming

end Unravel
