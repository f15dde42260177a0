import WageringProcessor.Library.Interleaving
import Mathlib.Logic.Relation

/-!
# Refinement of an abstract system by interleaved processes

`abs` reads the state of an abstract system off a configuration and off what was seen on the way to
it, so an abstract state may remember more than the configuration does.  Where every step of a
process is matched by abstract steps, any number of them, every stretch of a run is matched by a
stretch of an abstract run.
-/

namespace Library.Refinement

open Library.Interleaving Relation

variable {σ π α ο A : Type*} {step : LocalStep σ π α} {ok : Config σ π → Pid → α → Prop}
  {see : Config σ π → Pid → α → Config σ π → List ο} {init c c' : Config σ π} {seen seen' : List ο}
  {abs : Config σ π → List ο → A} {move : A → A → Prop}

end Library.Refinement
