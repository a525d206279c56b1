import ModText.Disk.Path
import ModText.Disk.Position
import ModText.Disk.FileTree

/-!
# Workspaces

A disk together with the folder in which a program runs. A path is followed segment by segment, and
every segment on the way has to be there: `a/../b` leads nowhere if there is no folder `a`. The
folder in which the program runs can be removed like any other, and then only `..` leads out of it.

The operations are those of a program that opens, creates and removes by path. Each of them fails
without a change, except for the two that work on many places: clearing a folder and creating a
folder with all its parents can fail halfway, and what they did until then stays.
-/

namespace ModText

/-- Why a path leads to nothing, or nothing can be put where it leads. -/
inductive Obstacle where
  /-- Something on the way or at its end is missing. -/
  | missing
  /-- There is something already. -/
  | occupied
  /-- A file on the way, or a name or a path that no disk allows. -/
  | unusable
  deriving DecidableEq, Inhabited

namespace FileTree

/-- The branch at a position. Nothing lies below a removed folder, so it has none. -/
def branch? (t : FileTree) (p : Position) : Option Branch :=
  if p.removed = 0 then t.root.at? p.place else none

/-- What is at a position. -/
def nodeAt? (t : FileTree) (p : Position) : Option Node :=
  if p.removed = 0 then t.node? p.place else some .folder

/-- The position that one segment leads to, and the branch there, from a position with its branch.
Empty segments and single dots stay in a folder. -/
def step (t : FileTree) (p : Position) (here : Option Branch) (segment : String) :
    Except Obstacle (Position × Option Branch) :=
  match here with
  | some (.file _) => .error .unusable
  | _ =>
    if segment = "" ∨ segment = "." then .ok (p, here)
    else if segment = ".." then .ok (p.parent, t.branch? p.parent)
    else if ¬ IsName segment then .error .unusable
    else
      match here.bind (·.at? [segment]) with
      | some b => .ok (p.child segment, some b)
      | none => .error .missing

/-- The position that segments lead to, one after the other, from a position with its branch. -/
def walkFrom (t : FileTree) (p : Position) (here : Option Branch) :
    List String → Except Obstacle Position
  | [] => .ok p
  | s :: rest =>
    match t.step p here s with
    | .ok (q, there) => t.walkFrom q there rest
    | .error o => .error o

/-- The position that segments lead to, one after the other. -/
def walk (t : FileTree) (p : Position) (segments : List String) : Except Obstacle Position :=
  t.walkFrom p (t.branch? p) segments

theorem walk_nil (t : FileTree) (p : Position) : t.walk p [] = .ok p :=
  rfl

theorem branch?_of_removed_eq_zero (t : FileTree) {p : Position} (h : p.removed = 0) :
    t.branch? p = t.root.at? p.place :=
  if_pos h

theorem branch?_of_removed_ne_zero (t : FileTree) {p : Position} (h : p.removed ≠ 0) :
    t.branch? p = none :=
  if_neg h

theorem branch?_child (t : FileTree) (p : Position) (name : String) :
    t.branch? (p.child name) = (t.root.at? p.place).bind (·.at? [name]) := by
  rw [t.branch?_of_removed_eq_zero rfl, Position.place_child, Branch.at?_append]

/-- The rule of a walk, as the view of the tree tells it. -/
theorem walk_cons (t : FileTree) (p : Position) (s : String) (rest : List String) :
    t.walk p (s :: rest) =
      match t.nodeAt? p with
      | some (.file _) => .error .unusable
      | _ =>
        if s = "" ∨ s = "." then t.walk p rest
        else if s = ".." then t.walk p.parent rest
        else if ¬ IsName s then .error .unusable
        else if p.removed = 0 ∧ (t.node? (p.place ++ [s])).isSome then t.walk (p.child s) rest
        else .error .missing := by
  by_cases hthere : p.removed = 0
  · have hnext : t.branch? (p.child s) = (t.root.at? p.place).bind (·.at? [s]) :=
      t.branch?_child p s
    have hsome : (t.node? (p.place ++ [s])).isSome =
        ((t.root.at? p.place).bind (·.at? [s])).isSome := by
      rw [node?, Branch.at?_append, Option.isSome_map]
    rw [hsome, nodeAt?, if_pos hthere, node?]
    simp only [hthere, true_and]
    cases hhere : t.root.at? p.place with
    | none =>
      simp only [walk, walkFrom, step, t.branch?_of_removed_eq_zero hthere, hhere,
        Option.bind_none, Option.map_none, Option.isSome_none]
      by_cases hstay : s = "" ∨ s = "."
      · simp [hstay]
      · by_cases hup : s = ".."
        · simp [hup]
        · by_cases hname : IsName s <;> simp [hstay, hup, hname]
    | some b =>
      rw [hhere] at hnext
      cases b with
      | file content =>
        simp only [walk, walkFrom, step, t.branch?_of_removed_eq_zero hthere, hhere,
          Option.map_some, Branch.node]
      | folder children =>
        simp only [walk, walkFrom, step, t.branch?_of_removed_eq_zero hthere, hhere,
          Option.bind_some, Option.map_some, Branch.node, hnext]
        by_cases hstay : s = "" ∨ s = "."
        · simp [hstay]
        · by_cases hup : s = ".."
          · simp [hup]
          · by_cases hname : IsName s
            · cases hchild : (Branch.folder children).at? [s] <;> simp [hstay, hup, hname]
            · simp [hstay, hup, hname]
  · rw [nodeAt?, if_neg hthere]
    simp only [walk, walkFrom, step, t.branch?_of_removed_ne_zero hthere, Option.bind_none,
      hthere, false_and]
    by_cases hstay : s = "" ∨ s = "."
    · simp [hstay]
    · by_cases hup : s = ".."
      · simp [hup]
      · by_cases hname : IsName s <;> simp [hstay, hup, hname]

/-- The place that segments lead to from a place, found by the absolute path of every place on the
way, so all of these paths must be short enough. -/
def canonical? (t : FileTree) (l : Location) (segments : List String) : Option Location :=
  if l.fitsAlong segments then (t.walk (.ofPlace l) segments).toOption.map (·.place) else none

/-- Whether the absolute path of these names can be asked for, and something is there. -/
def reaches (t : FileTree) (names : List String) : Bool :=
  Location.fits names && (t.walk {} names).toBool

/-- The place that names, last one first, lead to from the root once the missing ones are there.
The longest part that is there is followed, and the rest is appended to it, so it must not lead
back. -/
def resolveBack (t : FileTree) : List String → Option Location
  | [] => some []
  | s :: rest =>
    if s = ".." || t.reaches (s :: rest).reverse then t.canonical? [] (s :: rest).reverse
    else (t.resolveBack rest).map (· ++ [s])

end FileTree

/-- A disk and the folder in which a program runs. -/
structure Workspace where
  tree : FileTree
  cwd : Position
  deriving Inhabited

namespace Workspace

/-- The position from which a path is followed. -/
def base (w : Workspace) (p : Path) : Position :=
  if p.isAbsolute then {} else w.cwd

/-- The absolute path of the folder in which the program runs, unless it has been removed. -/
def cwd? (w : Workspace) : Option Path :=
  if w.cwd.removed = 0 then some ⟨w.cwd.place.text⟩ else none

/-- A path that a disk can be asked for. -/
def check (p : Path) : Except Obstacle Unit :=
  if p.text = "" then .error .missing
  else if p.isUsable then .ok ()
  else .error .unusable

/-- The position that a path leads to. -/
def follow (w : Workspace) (p : Path) : Except Obstacle Position := do
  check p
  w.tree.walk (w.base p) p.segments

/-- The place on the disk that a path leads to. -/
def locate (w : Workspace) (p : Path) : Except Obstacle Location := do
  let q ← w.follow p
  if q.removed = 0 then .ok q.place else .error .missing

/-- The place that a path leads to, found by the absolute path of every place on the way. A folder
that has been removed has no such path to begin with. -/
def canonical? (w : Workspace) (p : Path) : Option Location :=
  let start := w.base p
  if start.removed = 0 then w.tree.canonical? start.place p.segments else none

/-- What is at a path. -/
def node? (w : Workspace) (p : Path) : Option Node :=
  match w.follow p with
  | .ok q => w.tree.nodeAt? q
  | .error _ => none

/-- Whether anything is at a path. -/
def holds (w : Workspace) (p : Path) : Bool :=
  (w.node? p).isSome

/-- Whether a folder is at a path. -/
def isFolder (w : Workspace) (p : Path) : Bool :=
  w.node? p == some .folder

/-- The content of the file at a path. -/
def read? (w : Workspace) (p : Path) : Option ByteArray :=
  match w.node? p with
  | some (.file content) => some content
  | _ => none

/-- The place that a path would lead to once its missing components are there. It is a sequence of
names, free of dots. -/
def resolve? (w : Workspace) (p : Path) : Option Location :=
  let start := w.base p
  if start.removed = 0 then w.tree.resolveBack (start.place ++ p.steps).reverse else none

/-- The folder in which the last component of a path lies, and the name of that component. -/
def site (w : Workspace) (p : Path) : Except Obstacle (Location × String) := do
  check p
  match p.segments.reverse.dropWhile (· = "") with
  | [] => .error .occupied
  | last :: front =>
    let parent ← w.tree.walk (w.base p) front.reverse
    if last = "." ∨ last = ".." then .error .occupied
    else if ¬ IsName last then .error .unusable
    else if parent.removed ≠ 0 then .error .missing
    else
      match w.tree.node? parent.place with
      | some .folder => .ok (parent.place, last)
      | some (.file _) => .error .unusable
      | none => .error .missing

/-- The same folder on another disk. -/
def onTree (w : Workspace) (t : FileTree) : Workspace :=
  ⟨t, w.cwd⟩

/-- Removes what lies below a place. -/
def clear (w : Workspace) (l : Location) : Workspace :=
  ⟨w.tree.clear l, w.cwd.clear l⟩

/-- Removes what has a name in a folder. -/
def erase (w : Workspace) (parent : Location) (name : String) : Workspace :=
  ⟨w.tree.erase parent name, w.cwd.erase parent name⟩

/-- Puts a file or folder into a folder, in place of a file at most. -/
def put? (w : Workspace) (parent : Location) (name : String) (n : Node) : Option Workspace :=
  if h : IsName name ∧ w.tree.node? parent = some .folder ∧
      w.tree.node? (parent ++ [name]) ≠ some .folder then
    some (w.onTree (w.tree.put parent name n h.1))
  else none

/-- Writes a file, in place of the one that is there. -/
def write? (w : Workspace) (p : Path) (content : ByteArray) : Option Workspace :=
  match w.site p with
  | .ok (parent, name) => if p.endsInSlash then none else w.put? parent name (.file content)
  | .error _ => none

/-- Creates a folder where nothing is. -/
def makeFolder (w : Workspace) (p : Path) : Except Obstacle Workspace := do
  let (parent, name) ← w.site p
  if (w.tree.node? (parent ++ [name])).isSome then .error .occupied
  else
    match w.put? parent name .folder with
    | some w => .ok w
    | none => .error .unusable

/-- Creates a folder unless there is one. Answers whether the folder is there. -/
def ensureFolder (w : Workspace) (p : Path) : Workspace × Bool :=
  match w.makeFolder p with
  | .ok w => (w, true)
  | .error .occupied => (w, w.isFolder p)
  | .error _ => (w, false)

/-- Creates the first folder of a list of a path and its parents, after the others as far as they
are missing. The last one, which has no parent, is there. Answers whether the folder is there. -/
def makeLineage (w : Workspace) : List Path → Workspace × Bool
  | [] => (w, true)
  | [_] => (w, true)
  | p :: q :: rest =>
    match w.makeFolder p with
    | .error .missing =>
      match w.makeLineage (q :: rest) with
      | (w, true) => w.ensureFolder p
      | (w, false) => (w, false)
    | _ => w.ensureFolder p

/-- Creates a folder with all its parents, unless it is there. -/
def makeFolders (w : Workspace) (p : Path) : Workspace × Bool :=
  w.makeLineage p.ancestors

/-- Removes a folder with all that it holds. A path that ends in dots empties the folder and then
cannot remove it, and one that led through the folder itself leaves it there, empty. -/
def removeFolder (w : Workspace) (p : Path) : Workspace × Bool :=
  match w.locate p with
  | .error _ => (w, false)
  | .ok l =>
    match w.tree.node? l with
    | some .folder =>
      let w := w.clear l
      match w.site p with
      | .ok (parent, name) => (w.erase parent name, true)
      | .error .missing => (w, true)
      | .error _ => (w, false)
    | _ => (w, false)

end Workspace

end ModText
