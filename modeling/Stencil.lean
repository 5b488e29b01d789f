import Stencil.Main
import Stencil.Proofs.Command.Saving
import Stencil.Proofs.Directive.Evaluation
import Stencil.Proofs.Directive.Usable
import Stencil.Proofs.Error.Wrapping
import Stencil.Proofs.Markup.Acceptance
import Stencil.Proofs.Markup.AttrEnds
import Stencil.Proofs.Markup.Lexing
import Stencil.Proofs.Markup.Moving
import Stencil.Proofs.Markup.Passthrough
import Stencil.Proofs.Markup.Values
import Stencil.Proofs.Render.FreeNames
import Stencil.Proofs.Render.LineBreaks
import Stencil.Proofs.Render.PathLimits
import Stencil.Proofs.Render.Pruning
import Stencil.Proofs.Scope.Frames
import Stencil.Proofs.Scope.FromJson
