import LiterateCheck.Disk.Change
import LiterateCheck.Shell.Syntax

/-!
# Running processes

A process works in a directory of a disk, reads its input, writes to two streams, and ends with a
status. What it wrote is kept in the order of writing, each piece with its stream.
-/

namespace LiterateCheck.Shell

/-- What a running process knows and has done. -/
structure Process where
  disk : Disk
  directory : Location
  bindings : List (String × String)
  /-- The name that the process was started by. -/
  name : String
  arguments : List String
  input : List UInt8
  written : Array (Stream × List UInt8)
  /-- The status of the last command. -/
  status : Nat
  /-- Whether a command that fails ends the script. -/
  stopsOnFailure : Bool

/-- Why a process does not go on with the next command. -/
inductive Interrupt where
  | ended
  /-- A signal ended the process. -/
  | killed
  | leavesLoop
  | repeatsLoop
  /-- The bound on the number of steps was reached. -/
  | exhausted
  deriving DecidableEq, Repr

/-- Something that a process does. -/
abbrev Act (α : Type) := ExceptT Interrupt (StateM Process) α

namespace Act

def write (stream : Stream) (text : String) : Act Unit :=
  modify fun process =>
    { process with written := process.written.push (stream, Text.rawBytes text) }

def writeBytes (stream : Stream) (bytes : List UInt8) : Act Unit :=
  modify fun process => { process with written := process.written.push (stream, bytes) }

def setStatus (status : Nat) : Act Unit :=
  modify fun process => { process with status := status }

/-- Writes a complaint and gives the status of a failure. -/
def complain (text : String) (status : Nat) : Act Nat := do
  write .errors (text ++ "\n")
  return status

def setVariable (name value : String) : Act Unit :=
  modify fun process =>
    { process with
      bindings := (name, value) :: process.bindings.filter fun item => item.1 != name }

/-- Changes the disk, or gives the reason why that cannot be done. -/
def onDisk (action : Location → OnDisk Unit) : Act (Option SystemError) := do
  let process ← get
  let (result, disk) := (action process.directory).run.run process.disk
  set { process with disk := disk }
  match result with
  | .ok _ => return none
  | .error reason => return some reason

/-- Runs something and gives how it ended, without ending itself. -/
def attempt (act : Act α) : Act (Except Interrupt α) := do
  let (result, process) := act.run.run (← get)
  set process
  return result

/-- Takes an ending on. -/
def resume (result : Except Interrupt α) : Act α :=
  match result with
  | .ok a => pure a
  | .error interrupt => throw interrupt

/-- Runs something in a process of its own: of its doings the disk, what it wrote and its status
remain. A signal ends both. -/
def apart (act : Act Unit) : Act Unit := do
  let outer ← get
  let result ← attempt act
  modify fun inner =>
    { outer with disk := inner.disk, written := inner.written, input := inner.input
                 status := inner.status }
  match result with
  | .error .killed => throw .killed
  | .error .exhausted => throw .exhausted
  | _ => pure ()

/-- Runs something and sends what it writes to one stream to `sink`, the rest where it went. -/
def routed (stream : Stream) (sink : List UInt8 → Act Unit) (act : Act Unit) : Act Unit := do
  let before := (← get).written
  modify fun process => { process with written := #[] }
  let result ← attempt act
  let written := (← get).written
  modify fun process => { process with written := before }
  written.toList.forM fun (target, bytes) =>
    if target = stream then sink bytes else writeBytes target bytes
  resume result

/-- Runs something in a process of its own and gives what it writes. -/
def capture (act : Act Unit) : Act (List UInt8) := do
  let before := (← get).written
  modify fun process => { process with written := #[] }
  let result ← attempt (apart act)
  let written := (← get).written
  modify fun process =>
    { process with written := before ++ written.filter fun piece => piece.1 = .errors }
  resume result
  return (written.toList.filter fun piece => piece.1 = .output).flatMap Prod.snd

/-- Runs something whose failure ends nothing. -/
def guarded (act : Act Unit) : Act Unit := do
  let stops := (← get).stopsOnFailure
  modify fun process => { process with stopsOnFailure := false }
  let result ← attempt act
  modify fun process => { process with stopsOnFailure := stops }
  resume result

/-- Ends the script after a failure, where that is asked for. -/
def checkFailure : Act Unit := do
  let process ← get
  if process.stopsOnFailure && process.status != 0 then throw .ended else pure ()

end Act

end LiterateCheck.Shell
