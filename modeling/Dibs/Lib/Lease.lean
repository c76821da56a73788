import Mathlib.Logic.Basic

/-! Exclusive leases: keys hold resources, every held resource is open, and no resource has two
    holders. The rule `Held.step` is for a system in which a key gets hold of a resource only when it
    is opened, and a resource is closed only when its holder lets go of it. -/

namespace Lease
variable {K D : Type*}

/-- Every held resource is open and has one holder. -/
structure Held (holds : K → D → Prop) (isOpen : D → Prop) : Prop where
  isOpen : ∀ k d, holds k d → isOpen d
  unique : ∀ k k' d, holds k d → holds k' d → k = k'

/-- RULE: leases stay exclusive if a holder after the step is an old one that does not let go, or the
    one key `new` with a resource that was closed before; and only what a holder lets go of is
    closed. -/
theorem Held.step {holds holds' : K → D → Prop} {op op' : D → Prop} {gone : K → Prop} {new : K}
    (h : Held holds op)
    (hheld : ∀ k d, holds' k d → (holds k d ∧ ¬ gone k) ∨ (¬ op d ∧ op' d ∧ k = new))
    (hopen : ∀ d, op d → op' d ∨ ∃ k, holds k d ∧ gone k) : Held holds' op' where
  isOpen k d hk := by
    rcases hheld k d hk with ⟨hold, hstay⟩ | ⟨-, hnow, -⟩
    · rcases hopen d (h.isOpen k d hold) with hnow | ⟨k', hold', hgone⟩
      · exact hnow
      · rw [h.unique k k' d hold hold'] at hstay
        exact absurd hgone hstay
    · exact hnow
  unique k k' d hk hk' := by
    rcases hheld k d hk with ⟨hold, -⟩ | ⟨hclosed, -, hnew⟩
    · rcases hheld k' d hk' with ⟨hold', -⟩ | ⟨hclosed, -, -⟩
      · exact h.unique k k' d hold hold'
      · exact absurd (h.isOpen k d hold) hclosed
    · rcases hheld k' d hk' with ⟨hold', -⟩ | ⟨-, -, hnew'⟩
      · exact absurd (h.isOpen k' d hold') hclosed
      · rw [hnew, hnew']

end Lease
