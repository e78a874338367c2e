import Unravel.Pass.Inlining.Helper
import Unravel.Pass.Inlining.Recursion
import Unravel.Proofs.Inlining.Substitution
import Unravel.Proofs.Tree.Names

/-!
Contract: what a substitution makes of a node.

With nodes for arguments the result of a node is a node, and a callee without a name gets
none (`Substituted.unnamed_result`).
-/

namespace Unravel

open Pass.Inlining

variable {value result : Value} {kind : String}

/-- The arguments are nodes. -/
def Value.Substitution.AreNodes (arguments : Value.Substitution) : Prop :=
  ∀ entry ∈ arguments, entry.2.isNode = true

namespace Value

variable {arguments : Substitution}

theorem Substituted.isNode_source (substituted : Substituted arguments value result) :
    value.isNode := by
  rw [isNode_iff_kind?]
  cases substituted with
  | operands is => exact is.elim (fun is => ⟨_, is⟩) fun is => ⟨_, is⟩
  | argument is | other is | namedCall is | call is | computedMember is | member is | kept is =>
    exact ⟨_, is⟩

theorem Substituted.isNode_result (nodes : arguments.AreNodes)
    (substituted : Substituted arguments value result) : result.isNode := by
  have isNode := substituted.isNode_source
  rw [isNode_iff_kind?] at isNode
  cases substituted with
  | argument is named given =>
    obtain ⟨_, member⟩ := Names.mem_of_get? given
    exact nodes _ member
  | _ => rw [isNode_iff_kind?]; simpa using isNode

theorem Substituted.kind?_result (substituted : Substituted arguments value result)
    (other : value.kind? ≠ some "Identifier") : result.kind? = value.kind? := by
  cases substituted with
  | argument is | other is => exact absurd is other
  | kept => rfl
  | _ => rw [kind?_setAttr, kind?_setAttr]

/-- A callee without a name stays what it is, or stays no identifier. -/
theorem Substituted.unnamed_result (substituted : Substituted arguments value result)
    (unnamed : value.identifier? = none) :
    result.isIdentifier = value.isIdentifier ∧ (result.isIdentifier → result = value) := by
  by_cases isIdentifier : value.isIdentifier
  · have noName : value.name? = none := by simpa [identifier?, isIdentifier] using unnamed
    have is : value.kind? = some "Identifier" := kind?_of_isKind isIdentifier
    rcases substituted.of_identifier is with ⟨_, named, _⟩ | ⟨rfl, _⟩
    · simp [noName] at named
    · exact ⟨rfl, fun _ => rfl⟩
  · have same : result.isIdentifier = value.isIdentifier := by
      rw [Value.isIdentifier, isKind, substituted.kind?_result fun is =>
        isIdentifier (beq_iff_eq.2 is)]
      rfl
    exact ⟨same, fun is => absurd (same ▸ is) isIdentifier⟩

end Value

end Unravel
