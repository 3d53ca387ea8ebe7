import Conform.Assets.Hooks
import Conform.Assets.Mappings
import Conform.Assets.Settings
import Conform.Assets.Signatures
import Conform.Path
import Conform.Yaml.Value
import Conform.Json.Reader

/-!
The files that come with the library, and providers of such files: each keeps schemas by path and
gives names to some of them.
-/
namespace Conform

/-- Schemas by path, and names for some of the paths. -/
structure Provider where
  /-- What is found under a path. -/
  get? : Text → Option Bytes
  /-- Names with the paths that they stand for. -/
  named : List (Text × Text)

namespace Assets

def ofLines (ls : List String) : Bytes := Text.utf8 (ls.flatMap fun l => l ++ "\n" |> Text.ofString)

/-- All files by path. -/
def files : List (Text × List String) := [
  ("embedded_schemas/schemas/config/v1.0.0/dates.yaml", datesSchema),
  ("embedded_schemas/schemas/config/v1.0.0/goneat-config.yaml", settingsSchema),
  ("embedded_schemas/schemas/mapping/v1.0.0/schema-mapping-manifest.yaml", mappingsSchema),
  ("embedded_schemas/schemas/signatures/v1.0.0/schema-signature-manifest.schema.yaml",
    signaturesSchema),
  ("embedded_schemas/schemas/signatures/v1.0.0/schema-signatures.yaml", signatures),
  ("embedded_schemas/schemas/work/v1.0.0/hooks-manifest.yaml", hooksSchema)]

/-- The names of schemas, in order. -/
def named : List (Text × Text) := [
  ("dates-v1.0.0", "embedded_schemas/schemas/config/v1.0.0/dates.yaml"),
  ("goneat-config-v1.0.0", "embedded_schemas/schemas/config/v1.0.0/goneat-config.yaml"),
  ("hooks-manifest-v1.0.0", "embedded_schemas/schemas/work/v1.0.0/hooks-manifest.yaml"),
  ("schema-mapping-manifest-v1.0.0",
    "embedded_schemas/schemas/mapping/v1.0.0/schema-mapping-manifest.yaml"),
  ("schema-signature-manifest-v1.0.0",
    "embedded_schemas/schemas/signatures/v1.0.0/schema-signature-manifest.schema.yaml")]

/-- The file under a path. A path may be written with slashes of either kind; one from the root, and
one that goes up, leads nowhere. -/
def get? (path : Text) : Option Bytes :=
  let names := Path.names (Text.replaceChar '\\' '/' path)
  if Path.isAbsolute path || names.contains (Text.ofString "..") then none
  else (files.lookup (Text.join "/" names)).map ofLines

/-- The provider of these files. -/
def provider : Provider := ⟨get?, named⟩

/-- What is said of a schema whose dialect is none of the supported ones. -/
def otherDraft : Text := "Unknown (07/2020-12 supported)"

/-- The member `$schema` of a schema, however it is written. -/
def declaration? (bs : Bytes) : Except Failure (Option Text) :=
  match Yaml.Value.read true bs with
  | .ok v => .ok (match v.get? "$schema" with
    | some (.text t) => some t
    | _ => none)
  | .error .malformed =>
    .ok (((Json.read? bs).bind (·.get? "$schema")).bind Document.text?)
  | .error fault => .error (.scalar fault)

/-- The dialect that a schema declares, in words. -/
def draftName (bs : Bytes) : Except Failure Text := do
  match ← declaration? bs with
  | some t =>
    return if Text.contains "draft-07" t then "Draft-07"
      else if Text.contains "2020-12" t then "Draft-2020-12"
      else otherDraft
  | none => return otherDraft

/-- The files that have names, with their paths and dialects. -/
def listing : Except Failure (List (Text × Text × Text)) :=
  named.filterMapM fun (name, path) => do
    match get? path with
    | some bs => return some (name, path, ← draftName bs)
    | none => return none

end Assets
end Conform
