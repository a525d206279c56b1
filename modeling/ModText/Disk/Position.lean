import ModText.Disk.Location

/-!
# Positions

Where a program runs, or where a path leads. A folder that is removed while a program runs in it is
off the disk, but the program is still in it. Such a folder is empty and nothing can be put into it;
the one thing it still knows is the folder it lay in, which may have been removed along with it. A
folder that is created later at the same place is another folder.

A path is followed name by name, so a position keeps the last name in front.
-/

namespace ModText

/-- A folder or file on a disk, or a removed folder that a program runs in. -/
structure Position where
  /-- The names of the innermost place on the way that is on the disk, last one first. -/
  back : List String := []
  /-- How many removed folders lie between that place and the position, the last one included. -/
  removed : Nat := 0
  deriving DecidableEq, Inhabited

namespace Position

/-- A place on the disk as a position. -/
def ofPlace (l : Location) : Position where
  back := l.reverse

/-- The innermost place on the way to the position that is on the disk. -/
def place (p : Position) : Location :=
  p.back.reverse

/-- The number of names that once led to the position. -/
def depth (p : Position) : Nat :=
  p.back.length + p.removed

/-- The folder in which the position lies. The root lies in itself. -/
def parent (p : Position) : Position :=
  match p.removed with
  | 0 => ⟨p.back.tail, 0⟩
  | n + 1 => ⟨p.back, n⟩

/-- What has a name in the folder at the position. -/
def child (p : Position) (name : String) : Position where
  back := name :: p.back

/-- The position after all that lies below a place has been removed. -/
def clear (l : Location) (p : Position) : Position :=
  if l.isPrefixOf p.place then ⟨l.reverse, p.depth - l.length⟩ else p

/-- The position after what has a name in a folder has been removed. -/
def erase (parent : Location) (name : String) (p : Position) : Position :=
  if (parent ++ [name]).isPrefixOf p.place then ⟨parent.reverse, p.depth - parent.length⟩ else p

theorem place_ofPlace (l : Location) : (ofPlace l).place = l :=
  List.reverse_reverse l

theorem place_child (p : Position) (name : String) : (p.child name).place = p.place ++ [name] :=
  List.reverse_cons

theorem place_parent (p : Position) (h : p.removed = 0) : p.parent.place = p.place.dropLast := by
  simp [parent, place, h]

theorem length_place (p : Position) : p.place.length = p.back.length :=
  List.length_reverse

theorem depth_parent (p : Position) : p.parent.depth = p.depth - 1 := by
  obtain ⟨back, _ | n⟩ := p <;> simp [parent, depth]

theorem depth_clear (l : Location) (p : Position) : (p.clear l).depth = p.depth := by
  rw [clear]
  split
  · rename_i hin
    have hle := (List.isPrefixOf_iff_prefix.1 hin).length_le
    rw [length_place] at hle
    simp only [depth, List.length_reverse]
    omega
  · rfl

theorem depth_erase (l : Location) (name : String) (p : Position) :
    (p.erase l name).depth = p.depth := by
  rw [erase]
  split
  · rename_i hin
    have hle := (List.isPrefixOf_iff_prefix.1 hin).length_le
    rw [length_place, List.length_append] at hle
    simp only [depth, List.length_reverse]
    omega
  · rfl

end Position

end ModText
