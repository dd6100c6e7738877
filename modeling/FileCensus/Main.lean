import FileCensus.Disk
import FileCensus.Session

/-!
# The program

Reads the files that the command line asks for, runs it on them, writes the snapshot that it made
and prints what it has to say.
-/

namespace FileCensus

/-- The files that a command looks at. -/
def Command.load : Command → IO FileTree
  | .take directory output _ options => do
    let t ← Disk.add (← Disk.start) directory .below
    let t ← if options.respectsIgnoreFiles then Disk.addIgnoreFiles t directory else pure t
    Disk.add t output .node
  | .compare left right _ options => do
    let t ← Disk.add (← Disk.add (← Disk.start) left .below) right .below
    if options.respectsIgnoreFiles then Disk.addIgnoreFiles (← Disk.addIgnoreFiles t left) right
    else pure t
  | .completions _ => Disk.start

/-- Writes the file that the command made. -/
def Command.save (command : Command) (tree : FileTree) : IO Unit :=
  match command with
  | .take _ output _ _ => do
    match tree.openPath (Utf8.encode output) with
    | .ok source => IO.FS.writeBinFile output ⟨source.bytes.toArray⟩
    | .error _ => pure ()
  | _ => pure ()

def runProgram (words : List String) : IO UInt32 := do
  let command := (CommandLine.read words).toOption.map CommandLine.command
  let tree ← match command with
    | some command => command.load
    | none => Disk.start
  let now ← Disk.now
  let session : Session := ⟨tree, ⟨← Disk.host, Stamp.format (now / nanosPerMilli)⟩, now⟩
  let outcome := session.run words
  if outcome.status = 0 then
    if let some command := command then command.save outcome.tree
  (← IO.getStdout).putStr outcome.output
  if !outcome.message.isEmpty then IO.eprintln ("Error: " ++ outcome.message)
  return UInt32.ofNat outcome.status

end FileCensus

def main (words : List String) : IO UInt32 := FileCensus.runProgram words
