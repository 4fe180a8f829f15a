import WcagAudit.Command.Run
import WcagAudit.Proofs.FileSystem.Write
import WcagAudit.Proofs.Report.RoundTrip
import WcagAudit.Proofs.Scan.Lookup

namespace WcagAudit

variable {fs : FileSystem} {c : Config}

namespace Report

end Report

namespace Command

variable {stamp : Nat → Stamp} {arguments : List Argument} {task : Task}

section

variable {exit : Nat} {s : String} {output : Option Path}

end

section

variable {report : Report} {format : Format} {output : Option Path}

end

section

variable {file : Path} {format : Format}

end

end Command
end WcagAudit
