import MicroLang.Assembly.Generate
import MicroLang.Program.Parse

/-!
# Compilation

From a source text to the text of its listing.
-/

namespace MicroLang

open MicroLang.Assembly

/-- The listing of a program, or why it has none, and the events reported on the way. -/
def Program.listing (program : Program) : Except GenError String × Array Event :=
  match Gen.program program {} with
  | .ok _ g => (.ok g.listing, g.log)
  | .error e g => (.error e, g.log)

/-- The listing of a source text, or the first error in it, and the events reported on the way. -/
def compile (source : String) : Except CompileError String × Array Event :=
  match Program.parse source with
  | (.error e, log) => (.error e, log)
  | (.ok program, log) =>
    match program.listing with
    | (.ok listing, more) => (.ok listing, log ++ more)
    | (.error e, more) => (.error (.generation e), log ++ more)

end MicroLang
