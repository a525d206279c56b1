import ModText.Disk.FileTree

/-!
# Changes

What makes one file tree out of another, in an order in which it can be done: whatever is to go goes
before its folder does, and whatever is new comes after its folder.
-/

namespace ModText

/-- A change of one place. -/
inductive Change where
  | removeFile (l : Location)
  | removeFolder (l : Location)
  | createFolder (l : Location)
  | writeFile (l : Location) (content : ByteArray)
  deriving DecidableEq, Inhabited

namespace FileTree

/-- The removal of a node that the later tree does not have as one of its kind. -/
def removal? (after : FileTree) : Location × Node → Option Change
  | (l, .folder) => if after.node? l = some .folder then none else some (.removeFolder l)
  | (l, .file _) =>
    match after.node? l with
    | some (.file _) => none
    | _ => some (.removeFile l)

/-- The creation of a node that the earlier tree does not have as it is. -/
def creation? (before : FileTree) : Location × Node → Option Change
  | (l, .folder) => if before.node? l = some .folder then none else some (.createFolder l)
  | (l, .file content) =>
    if before.node? l = some (.file content) then none else some (.writeFile l content)

/-- What makes the later tree out of the earlier one. -/
def changesTo (before after : FileTree) : List Change :=
  (before.listing []).reverse.filterMap after.removal? ++
    (after.listing []).filterMap before.creation?

end FileTree

end ModText
