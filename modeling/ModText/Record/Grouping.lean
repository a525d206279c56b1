import ModText.Record.Basic

/-!
# Grouping by namespace

Records of one namespace go to one file. The groups come in the order in which their namespaces
are first met, and a group keeps its records in the order of the list. A record without a
namespace has no file to go to, and then there is no grouping at all.
-/

namespace ModText

/-- The records of one namespace. -/
structure Group (α : Type) where
  namespaceName : String
  records : List α
  deriving DecidableEq

/-- A record that has no namespace. -/
structure MissingNamespace where
  category : Category
  owner : String
  deriving DecidableEq, Inhabited

variable {α : Type} [Filed α]

/-- The groups with one record more: in the group of its namespace, or in a new last one. -/
def addToGroups (groups : List (Group α)) (record : α) : List (Group α) :=
  match groups with
  | [] => [⟨namespaceOf record, [record]⟩]
  | g :: rest =>
    if g.namespaceName = namespaceOf record then ⟨g.namespaceName, g.records ++ [record]⟩ :: rest
    else g :: addToGroups rest record

/-- Groups the records behind those that are grouped already. -/
def groupOnto (groups : List (Group α)) : List α → Except MissingNamespace (List (Group α))
  | [] => .ok groups
  | record :: rest =>
    if namespaceOf record = "" then .error ⟨categoryOf record, ownerOf record⟩
    else groupOnto (addToGroups groups record) rest

/-- Groups records by namespace, unless one has none. -/
def groupByNamespace (records : List α) : Except MissingNamespace (List (Group α)) :=
  groupOnto [] records

end ModText
