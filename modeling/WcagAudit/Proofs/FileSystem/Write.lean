import WcagAudit.Proofs.FileSystem.Changes

namespace WcagAudit

namespace Node

section

variable {entries : List (FileName × Node)} {name : FileName} {n : Node}

end

end Node

namespace FileSystem

variable {fs fs' : FileSystem} {p : Path}

end FileSystem
end WcagAudit
