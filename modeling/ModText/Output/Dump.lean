import ModText.Code.Format
import ModText.Extraction
import ModText.Mod.Properties
import ModText.Output.Write

/-!
# Dumps

A dump extracts the records of a mod and writes them out. All that can be wrong with the mod or with
the place of the output turns up before the first write, so what is to be written can be planned
from a look at the workspace alone. A dry run ends with the plan.

The output must not take the place of the mod, nor of a folder around it, because writing begins
with clearing. It may lie inside the mod; then the files of an earlier output are no resources.
-/

namespace ModText

/-- What to dump and where to. -/
structure DumpOptions where
  outputRoot : Path
  categories : List Category := Category.all
  markers : MarkerNames := {}
  copyResources : Bool := true
  dryRun : Bool := false
  deriving DecidableEq, Inhabited

/-- What became of a category. -/
structure CategorySummary where
  category : Category
  records : Nat
  /-- The namespaces in the order of their files. -/
  namespaces : List String
  /-- The record for which nothing of the category is written. -/
  missing : Option MissingNamespace := none
  deriving DecidableEq, Inhabited

namespace CategorySummary

/-- Whether nothing of the category could be written. -/
def isFailed (s : CategorySummary) : Bool :=
  s.missing.isSome

end CategorySummary

/-- What became of a dump. -/
structure DumpSummary where
  mod : String
  output : Path
  categories : List CategorySummary
  resourcesCopied : Nat
  dryRun : Bool
  deriving DecidableEq, Inhabited

namespace DumpSummary

/-- The number of categories that failed. -/
def failedCount (s : DumpSummary) : Nat :=
  (s.categories.filter CategorySummary.isFailed).length

/-- The number of records in all categories, those of failed ones included. -/
def recordCount (s : DumpSummary) : Nat :=
  s.categories.foldl (fun n c => n + c.records) 0

end DumpSummary

namespace Mod

/-- The module that the code of a mod holds, with the marks of its types. -/
def load (m : Mod) (w : Workspace) (names : MarkerNames) : Except Failure Module := do
  let payload ← m.code w
  match Module.ofPayload payload with
  | .ok decoded => return decoded.mark names
  | .error e => .error ⟨[.loading m.name, .decodingPayload], .document e⟩

/-- The build properties of a mod, none if it does not tell any. -/
def properties (m : Mod) (w : Workspace) : Except Failure Properties := do
  match ← m.buildInfo w with
  | none => return {}
  | some bytes =>
    match Properties.ofBytes? bytes with
    | some p => return p
    | none => .error ⟨[.readingProperties], .encoding⟩

/-- The resources that do not belong to the output, unless the output is in the way of the mod. -/
def resourcesOutside (m : Mod) (w : Workspace) (output : Path) :
    Except Failure (List String) :=
  match m.location with
  | none => .ok m.resources
  | some location =>
    match w.resolve? output with
    | none => .error (.disk (.resolvingOutput output))
    | some folder =>
      if folder.isPrefixOf location then .error (.refusal (.outputOverMod folder location))
      else
        .ok (m.resources.filter fun file => !folder.isPrefixOf (location ++ (Path.mk file).steps))

end Mod

/-- The groups of a category, unless one of its records has no namespace. -/
def Extraction.groups (e : Extraction) (c : Category) :
    Except MissingNamespace (List (Group Record)) :=
  groupByNamespace (e.records c)

namespace CategorySummary

/-- What becomes of a category of an extraction. -/
def ofExtraction (e : Extraction) (c : Category) : CategorySummary :=
  match e.groups c with
  | .ok groups => ⟨c, e.count c, groups.map Group.namespaceName, none⟩
  | .error missing => ⟨c, e.count c, [], some missing⟩

end CategorySummary

namespace Layout

/-- The files of a category, none if one of its records has no namespace. -/
def categoryWrites (l : Layout) (e : Extraction) (c : Category) : List Write :=
  match e.groups c with
  | .ok groups => groups.map (l.groupWrite c)
  | .error _ => []

end Layout

/-- What a dump is going to write, and what it will tell about it. -/
structure DumpPlan where
  summary : DumpSummary
  writes : List Write

namespace Mod

/-- Plans a dump. -/
def plan (m : Mod) (w : Workspace) (o : DumpOptions) : Except Failure DumpPlan := do
  let layout := Layout.ofMod o.outputRoot m.name
  let resources ← m.resourcesOutside w layout.root
  let marked ← m.load w o.markers
  let properties ← m.properties w
  let selection := Category.select o.categories
  let extraction := marked.extract selection
  let resources := if o.copyResources then resources else []
  return {
    summary := {
      mod := m.name
      output := layout.root
      categories := selection.map (CategorySummary.ofExtraction extraction)
      resourcesCopied := resources.length
      dryRun := o.dryRun
    }
    writes := layout.prepare selection ++
      [.document layout.buildFile properties.toJson,
        .document layout.identityFile (ModIdentity.ofProperties m.name properties).toJson] ++
      selection.flatMap (layout.categoryWrites extraction) ++
      resources.map fun file => .copy file (layout.resourceFile file)
  }

/-- Dumps a mod. -/
def dump (m : Mod) (w : Workspace) (o : DumpOptions) : Workspace × Except Failure DumpSummary :=
  match m.plan w o with
  | .error f => (w, .error f)
  | .ok p =>
    if o.dryRun then (w, .ok p.summary)
    else
      match Write.performAll m w p.writes with
      | (w, none) => (w, .ok p.summary)
      | (w, some f) => (w, .error f)

end Mod

end ModText
