import GatedNetwork.CommandLine.Basic

/-! The program itself: it reads and writes the files that a command asks for. -/

open GatedNetwork

def readContent (path : String) : IO (Option Bytes) :=
  try return some (← IO.FS.readBinFile path).toList
  catch _ => return none

def writeContent (path : String) (content : Bytes) : IO Bool := do
  try
    IO.FS.writeBinFile path ⟨content.toArray⟩
    return true
  catch _ => return false

def main (args : List String) : IO UInt32 := do
  let command := Command.ofArguments args
  let content ← match command.file? with
    | some path => readContent path
    | none => pure none
  let outcome := command.execute content
  IO.print outcome.output
  (← IO.getStdout).flush
  let outcome ← match outcome.save with
    | some (path, bytes) =>
      if ← writeContent path bytes then pure outcome else pure outcome.unsaved
    | none => pure outcome
  IO.eprint outcome.errors
  return outcome.code.toUInt32
