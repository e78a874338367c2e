import Unravel.Proofs.Scope.Surveying

/-!
Contract: settling noted writes counts each against the binding that its name
has where it is made.

A write is settled against the nearest scope that binds its name. Writes add
and remove no bindings, so which scope that is does not depend on the writes
that were settled before.
-/

namespace Unravel

open Lexical

namespace ScopeIndex

variable {index : ScopeIndex} {declared : List Declaration} {written : List Write}

theorem lookupAlong_eq (binds : index.Binds declared written) {numbers : List Nat}
    {nodes : List Value} (isOf : List.Forall₂ index.IsOf numbers nodes) (name : Name) :
    (index.lookupAlong name numbers).map (fun found => index.labelAt found.1) =
      ((labels nodes).find? fun home => declared.any (Declaration.isOf home name)).map some := by
  induction isOf with
  | nil => rfl
  | @cons number node numbers nodes isOf _ ih =>
    obtain ⟨scope, found, isLabel, _⟩ := isOf
    have own : index.own? number name = binding? declared written scope.label name := by
      rw [own?, found, Option.bind_some, binds found]
    rw [lookupAlong, own, labels, List.filterMap_cons_some isLabel, List.find?_cons,
      ← isSome_binding? declared written]
    cases binding? declared written scope.label name with
    | none => exact ih
    | some binding =>
      rw [Option.isSome_some, Option.map_some, Option.map_some, labelAt, found, Option.map_some]

variable {write : Write}

theorem lookup_eq (binds : index.Binds declared written) {noted : NotedWrite} (notes : index.Notes
    noted write) : (index.lookup noted.scope noted.name).map (fun found => index.labelAt found.1) =
    (write.target? declared).map some := by
  obtain ⟨nodes, stands, isScopes⟩ := notes.scopes
  rw [Write.target?, isScopes, notes.name]
  exact lookupAlong_eq binds stands write.name

theorem binds_write (binds : index.Binds declared written) (distinct : (index.headings.map
    Scope.label).Nodup) {number : Nat} {home : Nat} (isHome : index.labelAt number = some home)
    (isTarget : write.target? declared = some home) : (index.modify number (·.write write.name
    write.label)).Binds declared (written ++ [write]) := by
  obtain ⟨scope, atNumber, rfl⟩ := Option.map_eq_some_iff.1 isHome
  intro other found atOther name
  rw [modify, List.getElem?_modify] at atOther
  obtain ⟨old, atOld, is⟩ := Option.map_eq_some_iff.1 atOther
  rw [binding?_append_write, isTarget]
  by_cases here : number = other
  · subst here
    rw [if_pos rfl] at is
    cases atNumber.symm.trans atOld
    have label : found.label = scope.label := is ▸ rfl
    rw [label, ← is, Scope.own?_write, binds atNumber, beq_self_eq_true, Bool.and_true]
  · rw [if_neg here] at is
    subst is
    have elsewhere : some scope.label ≠ some old.label := fun same =>
      here (eq_of_label distinct atNumber atOld (Option.some.inj same))
    rw [beq_eq_false_iff_ne.2 elsewhere, Bool.and_false, binds atOld]
    rfl

end ScopeIndex

namespace Survey

variable {index : ScopeIndex} {declared : List Declaration} {written : List Write}

theorem headings_settle (index : ScopeIndex) (noted : NotedWrite) :
    (settle index noted).headings = index.headings := by
  unfold settle
  split
  · exact index.headings_modify _ fun scope => scope.heading_write _ _
  · rfl

theorem binds_settle (binds : index.Binds declared written) (distinct : (index.headings.map
    Scope.label).Nodup) {noted : NotedWrite} {write : Write} (notes : index.Notes noted write) :
    (settle index noted).Binds declared (written ++ [write]) := by
  have looked := ScopeIndex.lookup_eq binds notes
  unfold settle
  split
  · rename_i number binding found
    rw [found] at looked
    obtain ⟨home, isTarget, isHome⟩ := Option.map_eq_some_iff.1 looked.symm
    rw [notes.name, notes.label]
    exact ScopeIndex.binds_write binds distinct isHome.symm isTarget
  · rename_i missing
    rw [missing] at looked
    have noTarget := Option.map_eq_none_iff.1 looked.symm
    intro number scope found name
    rw [binding?_append_write, noTarget, binds found]
    simp

theorem settled (binds : index.Binds declared written) (distinct : (index.headings.map
    Scope.label).Nodup) {noted : List NotedWrite} {writes : List Write} (notes : List.Forall₂
    index.Notes noted writes) : (noted.foldl settle index).headings = index.headings ∧ (noted.foldl
    settle index).Binds declared (written ++ writes) := by
  induction noted generalizing index written writes with
  | nil =>
    cases notes
    rw [List.append_nil]
    exact ⟨rfl, binds⟩
  | cons first rest ih =>
    cases notes with
    | @cons _ write _ writes here later =>
      have headings := headings_settle index first
      have grows := ScopeIndex.Extends.of_headings headings
      have rest := ih (binds_settle binds distinct here)
        (headings ▸ distinct) (later.imp fun _ _ notes => notes.extends grows)
      rw [List.foldl_cons, rest.1, headings]
      rw [List.append_assoc] at rest
      exact ⟨rfl, rest.2⟩

end Survey

end Unravel
