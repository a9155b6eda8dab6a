import LiterateCheck.Checker
import LiterateCheck.Shell.Interpreter

/-!
# Tools that are scripts

A toolchain whose programs are the utilities and the scripts on the disk. A program is looked for
from the directory it is started in; its input is empty.
-/

namespace LiterateCheck.Shell

/-- The number of steps that a program may take, one inside the other. -/
def maxSteps : Nat := 20000

/-- What a process wrote to a stream. -/
def Process.writtenTo (process : Process) (stream : Stream) : ByteArray :=
  ⟨((process.written.toList.filter fun piece => piece.1 = stream).flatMap Prod.snd).toArray⟩

/-- How a process ended. -/
def completed (result : Except Interrupt Unit) (process : Process) : Completed :=
  let code? : Option Int :=
    match result with
    | .error .killed | .error .exhausted => none
    | _ => some process.status
  ⟨code?, process.writtenTo .output, process.writtenTo .errors⟩

/-- Starts programs as they are seen from a directory, with variables of the environment. -/
def toolchain (cwd : Location) (bindings : List (String × String)) : Toolchain :=
  fun invocation => do
    match (← get).lookup cwd invocation.directory with
    | .error reason => throw reason
    | .ok (directory, .directory) =>
      let arguments := [invocation.subcommand.text]
      match Program.find (← get) directory invocation.program arguments with
      | .error reason => throw reason
      | .ok program =>
        let process : Process :=
          { disk := ← get, directory := directory, bindings := bindings
            name := invocation.program, arguments := arguments, input := [], written := #[]
            status := 0, stopsOnFailure := false }
        let (result, process) := (launch maxSteps program).run.run process
        set process.disk
        return completed result process
    | .ok _ => throw .notDirectory

end LiterateCheck.Shell
