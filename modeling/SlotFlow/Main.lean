import SlotFlow.CommandLine.Execute
/-!
# The command line

Reads the files that a command needs, has the command carried out, and prints or writes what it
comes to.
-/

namespace SlotFlow.CommandLine

/-- How to use the command line. -/
def usage : String :=
  "Usage: slotflow check <WORKFLOW> [-m <MODELS>]... [-e]\n" ++
  "       slotflow generate <WORKFLOW> [-m <MODELS>]... [-f class|execution] [-c <CONFIG>] " ++
  "[-o <OUTPUT>]\n" ++
  "       slotflow models [FILES]..."

/-- The contents of the files among some paths that can be read. -/
def readFiles : List String → IO (List (String × String))
  | [] => return []
  | path :: paths => do
    let others ← readFiles paths
    try return (path, ← IO.FS.readFile path) :: others
    catch _ => return others

/-- A text that no file contains, unless by a great accident: sixteen random bytes, written with
hexadecimal digits. -/
def randomStem : IO String := do
  let bytes ← IO.getRandomBytes 16
  return String.ofList <| bytes.toList.flatMap fun byte =>
    [Text.hexDigit (byte.toNat / 16), Text.hexDigit (byte.toNat % 16)]

/-- Complains about a failure, and gives the exit code. -/
def fail (failure : Failure) : IO UInt32 := do
  IO.eprintln ("\nError: " ++ failure.message)
  return failureCode.toUInt32

/-- Carries out a command, and gives the exit code. -/
def carryOut (command : Command) : IO UInt32 := do
  let start ← IO.monoMsNow
  let contents ← readFiles command.reads
  match command.execute (← randomStem) (contents.lookup ·) with
  | .error failure => fail failure
  | .ok (.prints text code) =>
    IO.print text
    return code.toUInt32
  | .ok (.writes path text) =>
    try
      IO.FS.writeFile path text
      IO.println s!"Wrote {path} in {(← IO.monoMsNow) - start}ms"
      return 0
    catch _ => fail (.unwritable path)

end SlotFlow.CommandLine

/-- Carries out the command of a command line. -/
def main (arguments : List String) : IO UInt32 := do
  match SlotFlow.CommandLine.Command.parse? arguments with
  | some command => SlotFlow.CommandLine.carryOut command
  | none =>
    IO.eprintln SlotFlow.CommandLine.usage
    return 2
