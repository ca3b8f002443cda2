import BlockSyntax.Location

/-!
# Diagnostics

A diagnostic says how serious a problem is, carries a stable code that may be
empty, a message, and the location of the problem.  Written out it takes one line:
the path and position as far as they are known, the severity with the code in
brackets, and the message.

Which path a file number stands for is a parameter of the writer.  Where no
numbers have been given out, every path is empty, and an empty path is left out
together with its colon; the line and column are then still written.
-/

set_option autoImplicit false

namespace BlockSyntax

/-- How serious a diagnostic is. -/
inductive Severity where
  | note
  | warning
  | error
  deriving DecidableEq

namespace Severity

/-- The severities, least serious first. -/
def all : List Severity := [note, warning, error]

/-- The word a severity is written as. -/
def name : Severity → Bytes
  | note => ascii "note"
  | warning => ascii "warning"
  | error => ascii "error"

end Severity

/-- A message about a place in a source text. -/
structure Diagnostic where
  /-- How serious the problem is. -/
  severity : Severity
  /-- A stable code such as `B2001`, or nothing. -/
  code : Bytes
  /-- What is wrong, in words. -/
  message : Bytes
  /-- Where it is wrong. -/
  location : Location
  deriving DecidableEq

namespace Diagnostic

/-- An error with the given code. -/
def error (code message : Bytes) (location : Location) : Diagnostic :=
  ⟨.error, code, message, location⟩

/-- The position in front of a diagnostic, with the colon and blank that end it:
the path, line and column as far as known, and nothing when neither a path nor a
line is. -/
def heading (path : Bytes) (l : Location) : Bytes :=
  if !path.isEmpty then
    path ++ (if l.hasLine then ascii ":" ++ l.lineAndColumn else []) ++ ascii ": "
  else if l.hasLine then l.lineAndColumn ++ ascii ": "
  else []

/-- The line a diagnostic is written as.  The path is asked for only when the
location is in a file. -/
def render (pathOf : FileId → Bytes) (d : Diagnostic) : Bytes :=
  heading (if d.location.hasFile then pathOf d.location.file else []) d.location
    ++ d.severity.name
    ++ (if d.code.isEmpty then [] else ascii "[" ++ d.code ++ ascii "]")
    ++ ascii ": " ++ d.message ++ [lineFeed]

/-- The lines of several diagnostics, in the order they were reported. -/
def renderAll (pathOf : FileId → Bytes) (ds : List Diagnostic) : Bytes :=
  ds.flatMap (render pathOf)

/-- No file number stands for a path. -/
def noPaths : FileId → Bytes := fun _ => []

/-- How many of the diagnostics have the given severity. -/
def count (s : Severity) (ds : List Diagnostic) : Nat := ds.countP (·.severity = s)

end Diagnostic

end BlockSyntax
