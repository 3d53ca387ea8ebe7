import Conform.Assets
import Conform.FileTree
import Conform.Log
import Conform.Signatures.Manifest

/-!
The signatures in effect: those that come with the library, and over them those of the user, which
are found in fixed places below a directory.
-/
namespace Conform.Signatures.Manifest

/-- Where a provider keeps its signatures. -/
def embeddedPath : Text := "embedded_schemas/schemas/signatures/v1.0.0/schema-signatures.yaml"

/-- The signatures of a provider. -/
def embedded (p : Provider) : Except Failure Manifest :=
  match p.get? embeddedPath with
  | some bs => read embeddedPath bs
  | none => .error (.signaturesNotFound embeddedPath)

/-- Whether a name is that of a file with signatures. -/
def isSignatureFile (name : Text) : Bool :=
  name.lower.endsWith ".yaml" || name.lower.endsWith ".yml"

/-- The names in a directory, in order; there are none if there is no such directory. -/
def namesIn (fs : Files) (dir : Text) : Except Failure (List Text) :=
  match fs.list dir with
  | .ok names => .ok (Text.sorted names)
  | .error (.access .missing _) | .error (.access .notDirectory _) => .ok []
  | .error f => .error (if f.isAccess then .signatureDirectory dir f else f)

/-- The files of a user that may hold signatures, those that are laid over others last. -/
def userFiles (fs : Files) (home : Text) : Except Failure (List Text) := do
  let dir := Path.tidy (Path.join home "signatures")
  let names ← namesIn fs dir
  let files := (names.map (Path.join dir)).filter fun p => isSignatureFile (Path.name p) && fs.isFile p
  return Path.tidy (Path.join home "config/signatures.yaml") :: files

/-- The signatures in a file, if there is one. -/
def readFile? (fs : Files) (path : Text) : Except Failure (Option Manifest) :=
  match fs.read path with
  | .ok bs => some <$> read path bs
  | .error (.access .missing _) => .ok none
  | .error f => .error (if f.isAccess then .signaturesUnreadable path f else f)

/-- The manifests of a user. -/
def ofUser (fs : Files) (home : Text) : Except Failure (List Manifest) := do
  (← userFiles fs home).filterMapM (readFile? fs)

/-- The manifests in some files up to the first that cannot be read, each with its file. -/
def readUntilFailure (fs : Files) : List Text → List (Text × Manifest)
  | [] => []
  | path :: rest =>
    match readFile? fs path with
    | .ok (some m) => (path, m) :: readUntilFailure fs rest
    | .ok none => readUntilFailure fs rest
    | .error _ => []

/-- What is reported while the manifests of a user are read. -/
def userEvents (fs : Files) (home : Text) : List Log.Event :=
  match userFiles fs home with
  | .error _ => []
  | .ok paths => (readUntilFailure fs paths).map fun (path, m) =>
    { level := .debug, logger := "goneat.signature.manifest", message := "signature_overlay_loaded"
      fields := [("overlay_path", .text path), ("signature_count", .int m.signatures.length)] }

/-- The manifest in effect. -/
def effective (p : Provider) (fs : Files) (home : Text) : Except Failure Manifest := do
  let base ← embedded p
  return ((← ofUser fs home).foldl merge base).normalize

end Conform.Signatures.Manifest
