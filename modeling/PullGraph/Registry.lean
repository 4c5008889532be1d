import PullGraph.Journal
import PullGraph.Query
import Std.Data.HashMap

/-! # Registries

A registry keeps classes by name, in the order in which they were registered. A class
is accepted if its declaration is sound and its name is free; the first class of a name
stays. One registry at a time can be installed for everybody (`Shared`).
-/
namespace PullGraph

/-- Why a registry refuses. -/
inductive RegistryError where
  | schema (e : SchemaError)
  | duplicate (name : String)
  | alreadyInstalled
  deriving DecidableEq, Repr

/-- The wording of a registry error. -/
def RegistryError.message : RegistryError → String
  | .schema e => e.message
  | .duplicate name => s!"component class '{name}' is already registered"
  | .alreadyInstalled => "a process-wide registry is already installed"

/-- Classes by name. -/
structure Registry (κ : Type) where
  /-- The names in order of registration. -/
  order : List String := []
  byName : Std.HashMap String (ComponentClass κ) := {}

namespace Registry

variable {κ : Type}

/-- A registry without classes. -/
def empty : Registry κ := {}

/-- The class of a name. -/
def lookup (r : Registry κ) (name : String) : Option (ComponentClass κ) := r.byName[name]?

/-- All classes, in order of registration. -/
def classes (r : Registry κ) : List (ComponentClass κ) := r.order.filterMap r.lookup

/-- The number of classes. -/
def size (r : Registry κ) : Nat := r.byName.size

/-- Whether there are no classes. -/
def isEmpty (r : Registry κ) : Bool := r.byName.isEmpty

/-- The registry with one more class, if the class may be added. -/
def insert (r : Registry κ) (c : ComponentClass κ) : Except RegistryError (Registry κ) :=
  match c.validate with
  | .error e => .error (.schema e)
  | .ok () =>
    if r.byName.contains c.name then .error (.duplicate c.name)
    else .ok ⟨r.order ++ [c.name], r.byName.insert c.name c⟩

/-- Registers a class. A refused class leaves the registry as it is. -/
def register (r : Registry κ) (c : ComponentClass κ) (j : Journal) :
    Except RegistryError Unit × Registry κ × Journal :=
  let j := j.record (.notice (.registering c.name))
  match r.insert c with
  | .error e => (.error e, r, j)
  | .ok r => (.ok (), r, j.record (.notice (.registered c.name c.kind)))

/-- Registers classes one after the other; refused ones are left out. -/
def registerAll (r : Registry κ) (j : Journal) (cs : List (ComponentClass κ)) :
    Registry κ × Journal :=
  cs.foldl (fun (r, j) c => (r.register c j).2) (r, j)

/-- Puts a query to the class of a name. -/
def query (r : Registry κ) (cls name : String) (params : Settings) (j : Journal) :
    Except QueryError Value × Journal :=
  match r.lookup cls with
  | none => (.error (.unknownClass cls), j)
  | some c => (c.query name params, j.record (.notice (.querying c.name name)))

end Registry

/-- The place for the registry that everybody uses. -/
structure Shared (κ : Type) where
  installed : Option (Registry κ) := none

namespace Shared

variable {κ : Type}

/-- Installs a registry, unless there is one. -/
def install (s : Shared κ) (r : Registry κ) (j : Journal) :
    Except RegistryError (Registry κ) × Shared κ × Journal :=
  match s.installed with
  | some _ => (.error .alreadyInstalled, s, j)
  | none => (.ok r, ⟨some r⟩, j.record (.notice (.installed r.size)))

/-- Removes the installed registry and returns it. -/
def teardown (s : Shared κ) (j : Journal) : Option (Registry κ) × Shared κ × Journal :=
  match s.installed with
  | none => (none, s, j)
  | some r => (some r, ⟨none⟩, j.record (.notice .uninstalled))

end Shared
end PullGraph
