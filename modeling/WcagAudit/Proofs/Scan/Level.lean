import WcagAudit.Proofs.Scan.Lookup

namespace WcagAudit

open Rule

variable {l m : Level}

theorem Level.le_trans {n : Level} (h : l ≤ m) (h' : m ≤ n) : l ≤ n := Nat.le_trans h h'

def Finding.content (f : Finding) : Finding := { f with stamp := .unset }

namespace Report

end Report

variable {fs : FileSystem} {c : Config}

end WcagAudit
