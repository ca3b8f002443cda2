import BlockSyntax.CommandLine.Run

/-!
# The command

The command over the real file system and the standard streams.  Paths are taken to be
UTF-8 when they go to the operating system.
-/

set_option autoImplicit false

namespace BlockSyntax.CommandLine

/-- Bytes as the library holds them. -/
def bytesOfArray (a : ByteArray) : Bytes := a.toList

/-- Bytes as the operating system takes them. -/
def arrayOfBytes (b : Bytes) : ByteArray := ⟨b.toArray⟩

/-- The path that bytes spell, if they are UTF-8. -/
def pathOfBytes (b : Bytes) : String := (String.fromUTF8? (arrayOfBytes b)).getD ""

/-- Asks the file system for a source text. -/
def findFile (path : Bytes) : IO Found := do
  try
    let contents ← IO.FS.readBinFile (pathOfBytes path)
    if sourceLimit < contents.size then return .oversize
    return .text (bytesOfArray contents)
  catch _ => return .missing

/-- Stores a text in the file system. -/
def storeFile (path text : Bytes) : IO Bool := do
  try
    IO.FS.writeBinFile (pathOfBytes path) (arrayOfBytes text)
    return true
  catch _ => return false

/-- The host over the real file system and the standard streams. -/
def systemHost : Host IO where
  find := findFile
  store := storeFile
  out text := do (← IO.getStdout).write (arrayOfBytes text)
  err text := do (← IO.getStderr).write (arrayOfBytes text)

end BlockSyntax.CommandLine

open BlockSyntax BlockSyntax.CommandLine

/-- Runs the command. -/
def main (arguments : List String) : IO UInt32 := do
  let traces := (← IO.getEnv "BEGEND_DEBUG_PARSE").isSome
  execute systemHost traces (arguments.map fun a => bytesOfArray a.toUTF8)
