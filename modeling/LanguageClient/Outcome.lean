/-!
# Outcomes

An outcome is a value or an error; whether two outcomes are equal can be decided
when it can for their values and errors.
-/

set_option autoImplicit false

namespace LanguageClient

/-- Equality of outcomes is decidable. -/
instance decidableEqExcept {ε α : Type} [DecidableEq ε] [DecidableEq α] :
    DecidableEq (Except ε α)
  | .ok a, .ok b => decidable_of_iff (a = b) (by simp)
  | .error a, .error b => decidable_of_iff (a = b) (by simp)
  | .ok _, .error _ => isFalse (by simp)
  | .error _, .ok _ => isFalse (by simp)

end LanguageClient
