import Stencil.Proofs.Directive.Leading
import Stencil.Proofs.Render.Scoping
import Stencil.Proofs.Value.Text

/-! What evaluating a directive comes to. A value that is not written as the directive's grammar has it is refused, and with
it the directive; else what the value says ends in one way alone, be it a failure to find something or the result. -/

namespace Stencil

/-! ### The grammar -/

section Steps

variable {α β : Type}

end Steps

end Stencil
