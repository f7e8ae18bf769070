/-
Parts of texts by position. Positions count characters.
-/

set_option autoImplicit false

namespace ContractScript.Text

/-- The characters from one position up to another. -/
def slice (text : String) (low high : Nat) : String :=
  ((text.drop low).take (high - low)).copy

/-- A slice holds the characters between its ends. -/
theorem toList_slice (text : String) (low high : Nat) :
    (slice text low high).toList = (text.toList.drop low).take (high - low) := by
  rw [slice, String.Slice.toList_copy_take, String.toList_copy_drop]

end ContractScript.Text
