import BlockSyntax.Source.Files
import BlockSyntax.Source.Registry

/-!
# Loading source texts

A source text is loaded from a file and its path registered.  The file is looked at
first, so a file that cannot be read is never registered.  Loading fails when the file
is missing or too large, and when its path has no file number.
-/

set_option autoImplicit false

namespace BlockSyntax

/-- Why a source text was not loaded. -/
inductive LoadFailure where
  /-- The file cannot be opened. -/
  | missing (path : Bytes)
  /-- The file is larger than a source text may be. -/
  | oversize (path : Bytes)
  /-- The registry has no number for the path. -/
  | exhausted
  deriving DecidableEq

/-- The diagnostic that reports a failure; it has no location. -/
def LoadFailure.diagnostic : LoadFailure → Diagnostic
  | missing path => .error (ascii "B0001") (ascii "unable to open " ++ path) .unknown
  | oversize path =>
    .error (ascii "B0001")
      (ascii "source file too large: " ++ path ++ ascii " (limit: 256 MB)") .unknown
  | exhausted => .error [] Registry.exhaustedMessage .unknown

/-- The text found at a path, or why there is none. -/
def Found.load (path : Bytes) : Found → Except LoadFailure Bytes
  | .missing => .error (.missing path)
  | .oversize => .error (.oversize path)
  | .text bytes => .ok bytes

/-- The outcome of loading a text and registering its path. -/
structure Loading where
  /-- The text and the number of its file, or why there is none. -/
  outcome : Except LoadFailure (Bytes × FileId)
  /-- The registry afterwards. -/
  registry : Registry
  /-- What is written to the error stream. -/
  complaint : Bytes

/-- Loads the text found at a path and registers the path. -/
def Registry.load (r : Registry) (path : Bytes) (found : Found) : Loading :=
  match found.load path with
  | .error failure => ⟨.error failure, r, []⟩
  | .ok text =>
    let registered := r.add path
    ⟨if registered.id = 0 then .error .exhausted else .ok (text, registered.id),
      registered.registry, registered.complaint⟩

end BlockSyntax
