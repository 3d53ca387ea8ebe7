import Conform.Assets
import Conform.Schema.Compiled

/-!
Catalogs of compiled schemas by name. A schema is taken from a provider when it is first asked for,
or all of them are taken at once; what is in a catalog stays as it is.
-/
namespace Conform.Schema

/-- What stands under names. -/
structure Register (σ : Type) where
  compiled : List (Text × σ)
  /-- The paths from which the compiled schemas came. -/
  paths : List (Text × Text)
  /-- The names that the provider knew when it was first asked. -/
  discovered : Option (List (Text × Text))

abbrev Catalog := Register Compiled

namespace Register

variable {σ : Type}

/-- Enters a schema under a name, unless there is one already. The one that is then there is
returned. -/
def enter (c : Register σ) (name path : Text) (s : σ) : Register σ × σ :=
  let paths := if c.paths.any (·.1 == name) then c.paths else c.paths ++ [(name, path)]
  match c.compiled.lookup name with
  | some old => ({ c with paths }, old)
  | none => ({ c with compiled := c.compiled ++ [(name, s)], paths }, s)

/-- Keeps the names that a provider knows, unless there are some already. -/
def note (c : Register σ) (known : List (Text × Text)) : Register σ :=
  { c with discovered := some (c.discovered.getD known) }

end Register

namespace Catalog

def empty : Catalog := ⟨[], [], none⟩

/-- Names that stand for a path although no provider lists them. -/
def wellKnown : List (Text × Text) := [
  ("goneat-config-v1.0.0", "embedded_schemas/schemas/config/v1.0.0/goneat-config.yaml"),
  ("dates", "embedded_schemas/schemas/config/v1.0.0/dates.yaml"),
  ("lifecycle-phase-v1.0.0", "embedded_schemas/config/lifecycle-phase-v1.0.0.json"),
  ("release-phase-v1.0.0", "embedded_schemas/config/release-phase-v1.0.0.json"),
  ("security-policy-v1.0.0", "embedded_schemas/config/security-policy-v1.0.0.yaml"),
  ("suppression-report-v1.0.0", "embedded_schemas/output/suppression-report-v1.0.0.yaml"),
  ("hooks-manifest-v1.0.0", "embedded_schemas/schemas/work/v1.0.0/hooks-manifest.yaml"),
  ("work-manifest-v1.0.0", "embedded_schemas/work/work-manifest-v1.0.0.yaml")]

/-- The path for a name that no provider lists. -/
def fallbackPath (name : Text) : Text :=
  (wellKnown.lookup name).getD ("embedded_schemas/config/" ++ name ++ ".yaml")

/-- The names in the catalog, in order. -/
def names (c : Catalog) : List Text := Text.sorted (c.compiled.map (·.1))

/-- The names that a provider lists with their paths, the last of equal names deciding. -/
def discover (named : List (Text × Text)) : List (Text × Text) :=
  named.foldl (fun acc n => acc.filter (·.1 != n.1) ++ [n]) []

/-- Enters one schema of a provider, if it can be compiled; also tells whether it was. -/
def populateOne (p : Provider) (offline : Bool) (c : Catalog) (name path : Text) :
    Except Failure (Catalog × Bool) :=
  match p.get? path with
  | none => .ok (c, false)
  | some bs =>
    match Compiled.read offline true bs with
    | .ok s => .ok ((c.enter name path s).1, true)
    | .error f => if f.isDomain then .ok (c, false) else .error f

/-- Enters the listed schemas one after the other, and counts those that could be compiled. A
failure that is not of the library's own subject ends this, and what was entered stays. -/
def populateAll (p : Provider) (offline : Bool) :
    List (Text × Text) → Catalog → Nat → Catalog × Except Failure Nat
  | [], c, n => (c, .ok n)
  | (name, path) :: rest, c, n =>
    match populateOne p offline c name path with
    | .ok (c, done) => populateAll p offline rest c (if done then n + 1 else n)
    | .error f => (c, .error f)

/-- Enters all schemas that a provider lists. -/
def populate (p : Provider) (offline : Bool) (c : Catalog) : Catalog × Except Failure Nat :=
  match populateAll p offline p.named c 0 with
  | (c, .ok n) => ({ c with discovered := some (discover p.named) }, .ok n)
  | r => r

/-- The path that a name stands for among known names. -/
def pathAmong (known : List (Text × Text)) (name : Text) : Text :=
  match known.lookup name with
  | some path => if path.isEmpty then fallbackPath name else path
  | none => fallbackPath name

/-- The path that a name stands for. The provider is asked for its names once. -/
def pathOf (p : Provider) (c : Catalog) (name : Text) : Catalog × Text :=
  match c.paths.lookup name with
  | some path => (c, path)
  | none =>
    let known := c.discovered.getD (discover p.named)
    (c.note known, pathAmong known name)

/-- The schema with a name. -/
def get (p : Provider) (offline : Bool) (c : Catalog) (name : Text) :
    Catalog × Except Failure Compiled :=
  match c.compiled.lookup name with
  | some s => (c, .ok s)
  | none =>
    let (c, path) := pathOf p c name
    match p.get? path with
    | none => (c, .error (.schemaNotFound name path))
    | some bs =>
      match Compiled.read offline true bs with
      | .ok s =>
        let (c, s) := c.enter name path s
        (c, .ok s)
      | .error f => (c, .error f)

/-- A schema by its path in a provider. It is not entered into any catalog. -/
def byPath (p : Provider) (offline : Bool) (path : Text) : Except Failure Compiled :=
  match p.get? path with
  | none => .error (.pathNotFound path)
  | some bs => Compiled.read offline true bs

end Catalog
end Conform.Schema
