import ModText.Code.Module
import Std.Data.HashMap.Lemmas
import Std.Data.HashSet.Lemmas

/-!
# Ancestry

Which types of a module are items, characters, buffs and tiles. A type is one if the base type
that marks the kind is among its ancestors: its base types, and the ancestors of those base types
that the module itself declares. Base types may form cycles, so a name is followed only once.

The base types are looked up in an index that is built once for a module. `Hierarchy.basesOf_ofTypes`
says what it holds: of several types of one full name, the base types of the last.
-/

namespace ModText

/-- The full names of the base types that mark the kinds of types. -/
structure MarkerNames where
  item : String := "Terraria.ModLoader.ModItem"
  npc : String := "Terraria.ModLoader.ModNPC"
  buff : String := "Terraria.ModLoader.ModBuff"
  tile : String := "Terraria.ModLoader.ModTile"
  deriving DecidableEq, Inhabited

/-- The marks of a type with these ancestors. -/
def MarkerNames.marks (names : MarkerNames) (ancestors : List String) : Marks where
  item := ancestors.contains names.item
  npc := ancestors.contains names.npc
  buff := ancestors.contains names.buff
  tile := ancestors.contains names.tile

/-- The base types of the types of a module, by their full names. -/
structure Hierarchy where
  index : Std.HashMap String (List String)

namespace Hierarchy

/-- The hierarchy of these types. -/
def ofTypes (types : List TypeDef) : Hierarchy where
  index := types.foldl (fun index t => index.insert t.fullName t.baseTypes) ∅

/-- The base types of the type of that full name, if there is one. -/
def basesOf (h : Hierarchy) (name : String) : List String :=
  h.index.getD name []

/-- The names of types that are not among the given ones. -/
def unseen (h : Hierarchy) (seen : Std.HashSet String) : List String :=
  h.index.keys.filter (· ∉ seen)

theorem unseen_insert (h : Hierarchy) (seen : Std.HashSet String) (name : String) :
    h.unseen (seen.insert name) = (h.unseen seen).filter (· ≠ name) := by
  simp only [unseen, List.filter_filter]
  refine List.filter_congr fun x _ => ?_
  by_cases hx : x = name
  · simp [hx]
  · simp [hx, Ne.symm hx]

/-- A name met for the first time either is that of a type, and then fewer of these are unseen, or
has no base types. -/
theorem unseen_insert_length_lt {h : Hierarchy} {name : String} {seen : Std.HashSet String}
    (hname : name ∈ h.index) (hnew : name ∉ seen) :
    (h.unseen (seen.insert name)).length < (h.unseen seen).length := by
  rw [unseen_insert]
  exact List.length_filter_lt_length_iff_exists.2
    ⟨name, by simpa [unseen, hnew] using hname, by simp⟩

theorem unseen_insert_length_le (h : Hierarchy) (seen : Std.HashSet String) (name : String) :
    (h.unseen (seen.insert name)).length ≤ (h.unseen seen).length := by
  rw [unseen_insert]
  exact List.length_filter_le _ _

/-- The names that can be reached from the pending ones without passing through a seen one, each
once, depth first. -/
def reach (h : Hierarchy) (seen : Std.HashSet String) (pending : List String) : List String :=
  match pending with
  | [] => []
  | name :: rest =>
    if name ∈ seen then h.reach seen rest
    else name :: h.reach (seen.insert name) (h.basesOf name ++ rest)
termination_by ((h.unseen seen).length, pending.length)
decreasing_by
  · exact Prod.Lex.right _ (by simp)
  · rename_i hnew
    by_cases hname : name ∈ h.index
    · exact Prod.Lex.left _ _ (unseen_insert_length_lt hname hnew)
    · have hbases : h.basesOf name = [] := Std.HashMap.getD_eq_fallback hname
      rw [hbases]
      rcases Nat.lt_or_eq_of_le (h.unseen_insert_length_le seen name) with hlt | heq
      · exact Prod.Lex.left _ _ hlt
      · rw [heq]
        exact Prod.Lex.right _ (by simp)

/-- All ancestors of a type, nearest first. -/
def ancestors (h : Hierarchy) (t : TypeDef) : List String :=
  h.reach ∅ t.baseTypes

theorem basesOf_ofTypes (types : List TypeDef) (name : String) :
    (ofTypes types).basesOf name =
      ((types.reverse.find? (·.fullName == name)).map (·.baseTypes)).getD [] := by
  have hfold : ∀ index : Std.HashMap String (List String),
      (types.foldl (fun index t => index.insert t.fullName t.baseTypes) index).getD name [] =
        ((types.reverse.find? (·.fullName == name)).map (·.baseTypes)).getD
          (index.getD name []) := by
    induction types with
    | nil => simp
    | cons t types ih =>
      intro index
      rw [List.foldl_cons, ih, List.reverse_cons, List.find?_append, Std.HashMap.getD_insert]
      cases types.reverse.find? (·.fullName == name) <;>
        by_cases ht : t.fullName == name <;> simp [ht]
  simpa [ofTypes, basesOf] using hfold ∅

end Hierarchy

/-- The module with the marks of all its types worked out. -/
def Module.mark (m : Module) (names : MarkerNames) : Module :=
  let hierarchy := Hierarchy.ofTypes m.types
  { types := m.types.map fun t => { t with marks := names.marks (hierarchy.ancestors t) } }

end ModText
