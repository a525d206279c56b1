import ModText.Code.Ancestry

/-!
# What the marks of a module mean

A mark says that a name is among the ancestors of a type, and the ancestors are found by a walk with
a set of seen names. The walk knows nothing of graphs: what it finds is compared here with the least
set of names that holds the base types of the type and, with the full name of a declared type, the
base types of that type.

Two facts about the walk are enough. Nothing is met that cannot be reached (`reachable_of_mem_reach`),
and whatever is pending, or is a base of what is met, is met too unless it was seen before
(`pending_subset_reach`, `bases_subset_reach`). For an empty set of seen names this is closure.
-/

namespace ModText

namespace Module

/-- The type that a full name stands for: the last one that is declared under it. -/
def Declares (m : Module) (name : String) (t : TypeDef) : Prop :=
  ∃ before after, m.types = before ++ t :: after ∧ t.fullName = name ∧
    ∀ u ∈ after, u.fullName ≠ name

/-- The least set of names that holds these bases and is closed under going from the full name of a
declared type to the base types of that type. -/
inductive IsAncestor (m : Module) (bases : List String) : String → Prop
  | base {name : String} : name ∈ bases → IsAncestor m bases name
  | up {name base : String} {t : TypeDef} :
      IsAncestor m bases name → m.Declares name t → base ∈ t.baseTypes → IsAncestor m bases base

end Module

namespace Hierarchy

variable {h : Hierarchy}

/-- Names that can be reached from the given ones by going to base types. -/
inductive Reachable (h : Hierarchy) (start : List String) : String → Prop
  | start {name : String} : name ∈ start → Reachable h start name
  | up {name base : String} : Reachable h start name → base ∈ h.basesOf name → Reachable h start base

theorem Reachable.of_subset {start start' : List String} {name : String}
    (hname : h.Reachable start name) (hstart : ∀ s ∈ start, h.Reachable start' s) :
    h.Reachable start' name := by
  induction hname with
  | start hmem => exact hstart _ hmem
  | up _ hbase ih => exact .up ih hbase

theorem reachable_of_mem_reach {seen : Std.HashSet String} {pending : List String} {name : String}
    (hname : name ∈ h.reach seen pending) : h.Reachable pending name := by
  fun_induction h.reach seen pending with
  | case1 => cases hname
  | case2 seen next rest hseen ih =>
    exact (ih hname).of_subset fun s hs => .start (List.mem_cons_of_mem next hs)
  | case3 seen next rest hnew ih =>
    rcases List.mem_cons.1 hname with rfl | hname
    · exact .start List.mem_cons_self
    · apply (ih hname).of_subset
      intro s hs
      rcases List.mem_append.1 hs with hbase | hrest
      · exact .up (.start List.mem_cons_self) hbase
      · exact .start (List.mem_cons_of_mem next hrest)

/-- A name that was pending when the walk began has been seen by its end. -/
theorem pending_subset_reach {seen : Std.HashSet String} {pending : List String} {name : String}
    (hname : name ∈ pending) : name ∈ seen ∨ name ∈ h.reach seen pending := by
  fun_induction h.reach seen pending with
  | case1 => cases hname
  | case2 seen next rest hseen ih =>
    rcases List.mem_cons.1 hname with rfl | hrest
    · exact Or.inl hseen
    · exact ih hrest
  | case3 seen next rest hnew ih =>
    by_cases heq : name = next
    · exact Or.inr (heq ▸ List.mem_cons_self)
    · have hrest : name ∈ rest := (List.mem_cons.1 hname).resolve_left heq
      rcases ih (List.mem_append_right _ hrest) with hseen | hmet
      · rw [Std.HashSet.mem_insert] at hseen
        exact Or.inl (hseen.resolve_left (by simpa using Ne.symm heq))
      · exact Or.inr (List.mem_cons_of_mem next hmet)

/-- With a name the walk meets all its bases, except for those that were seen before. -/
theorem bases_subset_reach {seen : Std.HashSet String} {pending : List String}
    {name base : String} (hname : name ∈ h.reach seen pending) (hbase : base ∈ h.basesOf name) :
    base ∈ seen ∨ base ∈ h.reach seen pending := by
  fun_induction h.reach seen pending with
  | case1 => cases hname
  | case2 seen next rest hseen ih => exact ih hname
  | case3 seen next rest hnew ih =>
    -- what the rest of the walk has seen before is what this walk had, and the name just met
    by_cases heq : base = next
    · exact Or.inr (heq ▸ List.mem_cons_self)
    · have hlater : base ∈ seen.insert next ∨
          base ∈ h.reach (seen.insert next) (h.basesOf next ++ rest) := by
        rcases List.mem_cons.1 hname with rfl | hname
        · exact pending_subset_reach (List.mem_append_left _ hbase)
        · exact ih hname
      rcases hlater with hseen | hmet
      · rw [Std.HashSet.mem_insert] at hseen
        exact Or.inl (hseen.resolve_left (by simpa using Ne.symm heq))
      · exact Or.inr (List.mem_cons_of_mem next hmet)

theorem mem_reach_empty {start : List String} {name : String} :
    name ∈ h.reach ∅ start ↔ h.Reachable start name := by
  refine ⟨reachable_of_mem_reach, fun hname => ?_⟩
  induction hname with
  | start hmem => exact (pending_subset_reach hmem).resolve_left Std.HashSet.not_mem_empty
  | up _ hbase ih => exact (bases_subset_reach ih hbase).resolve_left Std.HashSet.not_mem_empty

end Hierarchy

namespace Module

theorem find?_reverse_eq_some_iff_declares (m : Module) (name : String) (t : TypeDef) :
    m.types.reverse.find? (·.fullName == name) = some t ↔ m.Declares name t := by
  rw [List.find?_eq_some_iff_append]
  constructor
  · rintro ⟨hname, after, before, hsplit, hafter⟩
    refine ⟨before.reverse, after.reverse, ?_, by simpa using hname, fun u hu => ?_⟩
    · rw [← List.reverse_reverse m.types, hsplit]
      simp
    · simpa using hafter u (List.mem_reverse.1 hu)
  · rintro ⟨before, after, hsplit, hname, hafter⟩
    refine ⟨by simpa using hname, after.reverse, before.reverse, by simp [hsplit], fun u hu => ?_⟩
    simpa using hafter u (List.mem_reverse.1 hu)

theorem mem_basesOf_ofTypes (m : Module) (name base : String) :
    base ∈ (Hierarchy.ofTypes m.types).basesOf name ↔
      ∃ t, m.Declares name t ∧ base ∈ t.baseTypes := by
  rw [Hierarchy.basesOf_ofTypes]
  constructor
  · intro hbase
    cases hfind : m.types.reverse.find? (·.fullName == name) with
    | none => simp [hfind] at hbase
    | some t => exact ⟨t, (m.find?_reverse_eq_some_iff_declares name t).1 hfind, by simpa [hfind] using hbase⟩
  · rintro ⟨t, hdeclares, hbase⟩
    rw [(m.find?_reverse_eq_some_iff_declares name t).2 hdeclares]
    exact hbase

theorem reachable_iff_isAncestor (m : Module) (bases : List String) (name : String) :
    (Hierarchy.ofTypes m.types).Reachable bases name ↔ m.IsAncestor bases name := by
  constructor
  · intro hname
    induction hname with
    | start hmem => exact .base hmem
    | up _ hbase ih =>
      obtain ⟨t, hdeclares, hmem⟩ := (m.mem_basesOf_ofTypes _ _).1 hbase
      exact .up ih hdeclares hmem
  · intro hname
    induction hname with
    | base hmem => exact .start hmem
    | up _ hdeclares hbase ih =>
      exact .up ih ((m.mem_basesOf_ofTypes _ _).2 ⟨_, hdeclares, hbase⟩)

/-- The walk finds the least set. -/
theorem mem_ancestors (m : Module) (t : TypeDef) (name : String) :
    name ∈ (Hierarchy.ofTypes m.types).ancestors t ↔ m.IsAncestor t.baseTypes name := by
  rw [Hierarchy.ancestors, Hierarchy.mem_reach_empty, reachable_iff_isAncestor]

end Module

/-- Marks tell which names are ancestors, not how often and in which order they were met. -/
theorem MarkerNames.marks_congr (names : MarkerNames) {ancestors ancestors' : List String}
    (h : ∀ name, name ∈ ancestors' ↔ name ∈ ancestors) :
    names.marks ancestors' = names.marks ancestors := by
  have hcontains : ∀ name, ancestors'.contains name = ancestors.contains name := fun name => by
    rw [Bool.eq_iff_iff, List.contains_iff_mem, List.contains_iff_mem, h]
  simp only [marks, hcontains]

/-- The type with whatever marks it has taken away. -/
def TypeDef.unmarked (t : TypeDef) : TypeDef :=
  { t with marks := {} }

namespace Module

theorem ancestors_unmarked (h : Hierarchy) (t : TypeDef) : h.ancestors t.unmarked = h.ancestors t :=
  rfl

theorem ofTypes_map_unmarked (types : List TypeDef) :
    Hierarchy.ofTypes (types.map TypeDef.unmarked) = Hierarchy.ofTypes types := by
  simp only [Hierarchy.ofTypes, List.foldl_map]
  rfl

/-- Marking does not look at the marks that are there. -/
theorem mark_map_unmarked (m : Module) (names : MarkerNames) :
    Module.mark ⟨m.types.map TypeDef.unmarked⟩ names = m.mark names := by
  simp only [mark, ofTypes_map_unmarked, List.map_map, mk.injEq]
  apply List.map_congr_left
  intro t _
  rw [Function.comp_apply, ancestors_unmarked]
  rfl

/-- Marking a module changes nothing but marks, and each of them is set exactly if its name is in the
least set of ancestors of the type. Marks from before have no part in it. -/
theorem mark_sets_marks_of_least_ancestors (m : Module) (names : MarkerNames) :
    (∃ marksOf : TypeDef → Marks,
      (m.mark names).types = m.types.map (fun t => { t with marks := marksOf t }) ∧
      ∀ t ∈ m.types,
        ((marksOf t).item = true ↔ m.IsAncestor t.baseTypes names.item) ∧
        ((marksOf t).npc = true ↔ m.IsAncestor t.baseTypes names.npc) ∧
        ((marksOf t).buff = true ↔ m.IsAncestor t.baseTypes names.buff) ∧
        ((marksOf t).tile = true ↔ m.IsAncestor t.baseTypes names.tile)) ∧
    ∀ before : Module, before.types.map TypeDef.unmarked = m.types.map TypeDef.unmarked →
      before.mark names = m.mark names := by
  constructor
  · refine ⟨fun t => names.marks ((Hierarchy.ofTypes m.types).ancestors t), rfl, fun t _ => ?_⟩
    simp only [MarkerNames.marks, List.contains_iff_mem, mem_ancestors, and_self]
  · intro before hbefore
    rw [← mark_map_unmarked before, hbefore, mark_map_unmarked]

end Module

end ModText
