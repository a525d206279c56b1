import ModText.Proofs.Idiom.Lines
import Mathlib.Data.List.Forall2

/-!
# What is selected and what is found

Types are searched one by one, and each of them for all selected categories, so the records can be
met in one mixed stream from which every record goes to the list of its category. That gives the
same lists as searching the whole module once for each category. So a category has no part in the
list of another, nor a type in the records of another, and all that a selection decides is which
lists are empty.

A mark alone gives an item or a character its record. A buff or a tile also needs the code of a
hook.

A program that checks its sums extracts the same or nothing. `Module.Overflows` tells when it is
nothing.
-/

namespace ModText

/-! ## The records of a type -/

section

variable {t : TypeDef} {c : Category} {r : Record}

/-- Whether the first `SetDefaults` that belongs to an instance and has neither parameters nor a
result has code. -/
def TypeDef.setsDefaults (t : TypeDef) : Bool :=
  match t.methods.find? fun m =>
      m.name == "SetDefaults" && m.isInstance && m.parameterCount == 0 && m.returnsVoid with
  | some m => m.body.isSome
  | none => false

theorem isSome_hookCode?_setDefaults : (t.hookCode? "SetDefaults").isSome = t.setsDefaults := by
  rw [TypeDef.hookCode?, TypeDef.hook?, TypeDef.setsDefaults]
  change ((t.methods.find? (Method.isHook "SetDefaults")).bind Method.instructions?).isSome =
    match t.methods.find? (Method.isHook "SetDefaults") with
    | some m => m.body.isSome
    | none => false
  cases t.methods.find? (Method.isHook "SetDefaults") with
  | none => rfl
  | some m => simp [Method.instructions?]

theorem isSome_itemText? (t : TypeDef) : (itemText? t).isSome = t.marks.item := by
  rw [itemText?]
  split <;> simp_all

theorem isSome_npcText? (t : TypeDef) : (npcText? t).isSome = t.marks.npc := by
  rw [npcText?]
  split <;> simp_all

theorem isSome_buffText? (t : TypeDef) :
    (buffText? t).isSome = (t.marks.buff && t.setsDefaults) := by
  rw [buffText?, ← isSome_hookCode?_setDefaults]
  split <;> simp_all

theorem isSome_tileText? (t : TypeDef) :
    (tileText? t).isSome = (t.marks.tile && t.setsDefaults) := by
  rw [tileText?, ← isSome_hookCode?_setDefaults]
  split <;> simp_all

theorem owner_of_itemText? {r : ItemText} (h : itemText? t = some r) :
    r.typeName = t.name ∧ r.namespaceName = t.namespaceName := by
  rw [itemText?] at h
  split at h
  · rw [← Option.some.inj h]
    exact ⟨rfl, rfl⟩
  · cases h

theorem owner_of_npcText? {r : NpcText} (h : npcText? t = some r) :
    r.typeName = t.name ∧ r.namespaceName = t.namespaceName := by
  rw [npcText?] at h
  split at h
  · rw [← Option.some.inj h]
    exact ⟨rfl, rfl⟩
  · cases h

theorem owner_of_buffText? {r : BuffText} (h : buffText? t = some r) :
    r.typeName = t.name ∧ r.namespaceName = t.namespaceName := by
  rw [buffText?] at h
  split at h
  · obtain ⟨code, _, rfl⟩ := Option.map_eq_some_iff.1 h
    exact ⟨rfl, rfl⟩
  · cases h

theorem owner_of_tileText? {r : TileText} (h : tileText? t = some r) :
    r.typeName = t.name ∧ r.namespaceName = t.namespaceName := by
  rw [tileText?] at h
  split at h
  · obtain ⟨code, _, rfl⟩ := Option.map_eq_some_iff.1 h
    exact ⟨rfl, rfl⟩
  · cases h

theorem owner_of_mem_chatTexts {r : ChatText} (h : r ∈ chatTexts t) :
    r.typeName = t.name ∧ r.namespaceName = t.namespaceName := by
  rw [chatTexts, List.mem_filterMap] at h
  obtain ⟨m, _, hm⟩ := h
  rw [chatText?] at hm
  split at hm
  · cases hm
  · split at hm
    · cases hm
    · rw [← Option.some.inj hm]
      exact ⟨rfl, rfl⟩

theorem namespaceName_of_mem_customTexts {r : CustomText} (h : r ∈ customTexts t) :
    r.namespaceName = t.namespaceName := by
  rw [customTexts, List.mem_map] at h
  obtain ⟨pair, _, rfl⟩ := h
  rfl

/-- A record that a type has in a category is of that category and of the namespace of the type. -/
theorem view_of_mem_records (h : r ∈ t.records c) :
    categoryOf r = c ∧ namespaceOf r = t.namespaceName := by
  cases c with
  | items =>
    obtain ⟨s, hs, rfl⟩ := by simpa [TypeDef.records] using h
    exact ⟨rfl, (owner_of_itemText? hs).2⟩
  | npcs =>
    obtain ⟨s, hs, rfl⟩ := by simpa [TypeDef.records] using h
    exact ⟨rfl, (owner_of_npcText? hs).2⟩
  | buffs =>
    obtain ⟨s, hs, rfl⟩ := by simpa [TypeDef.records] using h
    exact ⟨rfl, (owner_of_buffText? hs).2⟩
  | misc =>
    obtain ⟨s, hs, rfl⟩ := List.mem_map.1 h
    exact ⟨rfl, (owner_of_mem_chatTexts hs).2⟩
  | tiles =>
    obtain ⟨s, hs, rfl⟩ := by simpa [TypeDef.records] using h
    exact ⟨rfl, (owner_of_tileText? hs).2⟩
  | customs =>
    obtain ⟨s, hs, rfl⟩ := List.mem_map.1 h
    exact ⟨rfl, namespaceName_of_mem_customTexts hs⟩

end

/-! ## The lists of an extraction -/

namespace Extraction

/-- An extraction with one record more, at the end of the list of its category. -/
def push (e : Extraction) : Record → Extraction
  | .item r => { e with items := e.items ++ [r] }
  | .npc r => { e with npcs := e.npcs ++ [r] }
  | .buff r => { e with buffs := e.buffs ++ [r] }
  | .chat r => { e with misc := e.misc ++ [r] }
  | .tile r => { e with tiles := e.tiles ++ [r] }
  | .custom r => { e with customs := e.customs ++ [r] }

/-- Two extractions, list by list one after the other. -/
def append (e f : Extraction) : Extraction where
  items := e.items ++ f.items
  npcs := e.npcs ++ f.npcs
  buffs := e.buffs ++ f.buffs
  misc := e.misc ++ f.misc
  tiles := e.tiles ++ f.tiles
  customs := e.customs ++ f.customs

/-- Extractions with the same records in every category are the same. -/
theorem eq_of_records_eq {e f : Extraction} (h : ∀ c, e.records c = f.records c) : e = f := by
  have hmap : ∀ {α : Type} (g : α → Record), Function.Injective g → ∀ {xs ys : List α},
      xs.map g = ys.map g → xs = ys := fun _ hg _ _ heq => List.map_injective_iff.2 hg heq
  have hitems := hmap .item (fun _ _ => Record.item.inj) (h .items)
  have hnpcs := hmap .npc (fun _ _ => Record.npc.inj) (h .npcs)
  have hbuffs := hmap .buff (fun _ _ => Record.buff.inj) (h .buffs)
  have hmisc := hmap .chat (fun _ _ => Record.chat.inj) (h .misc)
  have htiles := hmap .tile (fun _ _ => Record.tile.inj) (h .tiles)
  have hcustoms := hmap .custom (fun _ _ => Record.custom.inj) (h .customs)
  cases e
  cases f
  simp_all

theorem records_push (e : Extraction) (r : Record) (c : Category) :
    (e.push r).records c = e.records c ++ if categoryOf r = c then [r] else [] := by
  cases r <;> cases c <;> simp [push, records, categoryOf]

theorem records_append (e f : Extraction) (c : Category) :
    (e.append f).records c = e.records c ++ f.records c := by
  cases c <;> exact List.map_append

theorem records_foldl_push (e : Extraction) (stream : List Record) (c : Category) :
    (stream.foldl push e).records c = e.records c ++ stream.filter (categoryOf · = c) := by
  induction stream generalizing e with
  | nil => simp
  | cons r stream ih =>
    rw [List.foldl_cons, ih, records_push, List.append_assoc]
    by_cases hc : categoryOf r = c <;> simp [hc]

end Extraction

/-! ## Modules -/

namespace Module

theorem extract_pick_map {α : Type} (selection : List Category) (c : Category) (records : List α)
    (f : α → Record) :
    (extract.pick selection c records).map f =
      if selection.contains c then records.map f else [] := by
  rw [extract.pick]
  split <;> rfl

/-- What is extracted of a category is what the types hold of it, one after the other. -/
theorem records_extract (m : Module) (selection : List Category) (c : Category) :
    (m.extract selection).records c =
      if selection.contains c then m.types.flatMap (·.records c) else [] := by
  cases c <;> simp only [extract, Extraction.records, extract_pick_map] <;> congr 1
  · rw [List.map_filterMap, List.filterMap_eq_flatMap_toList]
    rfl
  · rw [List.map_filterMap, List.filterMap_eq_flatMap_toList]
    rfl
  · rw [List.map_filterMap, List.filterMap_eq_flatMap_toList]
    rfl
  · rw [List.map_flatMap]
    rfl
  · rw [List.map_filterMap, List.filterMap_eq_flatMap_toList]
    rfl
  · rw [List.map_flatMap]
    rfl

theorem contains_all (c : Category) : Category.all.contains c = true := by
  cases c <;> rfl

theorem records_extract_all (m : Module) (c : Category) :
    (m.extract Category.all).records c = m.types.flatMap (·.records c) := by
  rw [records_extract, if_pos (contains_all c)]

/-- The records of the selected categories as they are met: type by type, and in each type category
by category. -/
def stream (m : Module) (selection : List Category) : List Record :=
  m.types.flatMap fun t => (Category.select selection).flatMap t.records

theorem filter_records (t : TypeDef) (c d : Category) :
    (t.records d).filter (categoryOf · = c) = if d = c then t.records c else [] := by
  split
  · rename_i hd
    rw [hd, List.filter_eq_self]
    intro r hr
    simpa using (view_of_mem_records hr).1
  · rename_i hd
    rw [List.filter_eq_nil_iff]
    intro r hr
    simpa [(view_of_mem_records hr).1] using hd

/-- Only the records of its own category are left of those of all selected categories. -/
theorem filter_flatMap_records (t : TypeDef) (selection : List Category) (c : Category) :
    ((Category.select selection).flatMap t.records).filter (categoryOf · = c) =
      if selection.contains c then t.records c else [] := by
  rw [List.filter_flatMap]
  simp only [filter_records]
  -- every category is once among all of them, so at most one of the six lists is left
  have hselected : ∀ selected : List Category, selected.Nodup →
      (selected.flatMap fun d => if d = c then t.records c else []) =
        if c ∈ selected then t.records c else [] := by
    intro selected hnodup
    induction selected with
    | nil => rfl
    | cons d selected ih =>
      obtain ⟨hnew, hnodup⟩ := List.nodup_cons.1 hnodup
      rw [List.flatMap_cons, ih hnodup]
      by_cases hd : d = c
      · rw [hd] at hnew
        simp [hd, hnew]
      · simp [hd, Ne.symm hd]
  have hall : Category.all.Nodup := by decide
  rw [Category.select, hselected _ (hall.filter _)]
  simp [List.contains_iff_mem.1 (contains_all c)]

/-- **Searching type by type and sorting by category is extraction.** Every record of the mixed
stream goes to the end of the list of its category, and that makes the lists that are extracted. -/
theorem extract_eq_foldl_push (m : Module) (selection : List Category) :
    m.extract selection = (m.stream selection).foldl Extraction.push {} := by
  apply Extraction.eq_of_records_eq
  intro c
  rw [records_extract, Extraction.records_foldl_push, stream, List.filter_flatMap]
  simp only [filter_flatMap_records]
  have hnothing : ({} : Extraction).records c = [] := by cases c <;> rfl
  rw [hnothing, List.nil_append]
  split
  · rfl
  · simp

/-- One record for every type of a kind, in the order of the types and with their names. -/
def OneEach {α : Type} [Filed α] (record? : TypeDef → Option α) (kind : TypeDef → Bool)
    (types : List TypeDef) (records : List α) : Prop :=
  List.Forall₂
    (fun t r => record? t = some r ∧ ownerOf r = t.name ∧ namespaceOf r = t.namespaceName)
    (types.filter kind) records

theorem oneEach_filterMap {α : Type} [Filed α] {record? : TypeDef → Option α}
    {kind : TypeDef → Bool} (hkind : ∀ t, (record? t).isSome = kind t)
    (howner : ∀ t r, record? t = some r → ownerOf r = t.name ∧ namespaceOf r = t.namespaceName)
    (types : List TypeDef) : OneEach record? kind types (types.filterMap record?) := by
  rw [OneEach]
  induction types with
  | nil => exact .nil
  | cons t types ih =>
    cases hrecord : record? t with
    | none =>
      have ht : ¬ kind t = true := by simp [← hkind t, hrecord]
      rw [List.filter_cons_of_neg ht, List.filterMap_cons_none hrecord]
      exact ih
    | some r =>
      have ht : kind t = true := by simp [← hkind t, hrecord]
      rw [List.filter_cons_of_pos ht, List.filterMap_cons_some hrecord]
      exact .cons ⟨hrecord, howner t r hrecord⟩ ih

theorem extract_eq_of_mem_iff (m : Module) {selection other : List Category}
    (h : ∀ c, c ∈ other ↔ c ∈ selection) : m.extract other = m.extract selection := by
  apply Extraction.eq_of_records_eq
  intro c
  have hc : other.contains c = selection.contains c := by
    rw [Bool.eq_iff_iff, List.contains_iff_mem, List.contains_iff_mem]
    exact h c
  rw [records_extract, records_extract, hc]

theorem extract_append (m n : Module) (selection : List Category) :
    ({ types := m.types ++ n.types } : Module).extract selection =
      (m.extract selection).append (n.extract selection) := by
  apply Extraction.eq_of_records_eq
  intro c
  rw [Extraction.records_append, records_extract, records_extract, records_extract]
  split
  · exact List.flatMap_append
  · rfl

/-- A sum on the way to the selected records is no machine word: the number of operands in front of a
tooltip line of an item. -/
def Overflows (m : Module) (selection : List Category) : Prop :=
  .items ∈ selection ∧ ∃ t ∈ m.types, t.marks.item = true ∧
    ∃ i, OverflowsAt (t.methodCode "ModifyTooltips") i

theorem overflow?_eq_some {m : Module} {selection : List Category} {overflow : Overflow} :
    m.overflow? selection = some overflow ↔ overflow = .add ∧ m.Overflows selection := by
  have honly : ∀ t ∈ m.types, ∀ y, itemOverflow? t = some y → y = .add :=
    fun _ _ _ hy => (itemOverflow?_eq_some.1 hy).1
  rw [overflow?, Overflows, ← List.contains_iff_mem]
  by_cases hitems : selection.contains .items = true
  · rw [if_pos hitems, findSome?_eq_some_of_unique Overflow.add honly]
    simp only [itemOverflow?_eq_some, hitems, true_and]
  · rw [if_neg hitems]
    simp only [hitems, false_and, and_false, reduceCtorEq, Bool.false_eq_true]

theorem extractChecked_eq_error {m : Module} {selection : List Category} {overflow : Overflow} :
    m.extractChecked selection = .error overflow ↔ overflow = .add ∧ m.Overflows selection := by
  rw [← overflow?_eq_some, extractChecked]
  cases m.overflow? selection <;> simp

theorem extractChecked_eq_ok {m : Module} {selection : List Category} {e : Extraction} :
    m.extractChecked selection = .ok e ↔ e = m.extract selection ∧ ¬ m.Overflows selection := by
  have hadd : m.overflow? selection = some .add ↔ m.Overflows selection := by
    rw [overflow?_eq_some, and_iff_right rfl]
  rw [← hadd, extractChecked]
  cases hfound : m.overflow? selection with
  | none => simp [eq_comm]
  | some overflow => simp [(overflow?_eq_some.1 hfound).1]

/-- **Extraction goes by category and by type.** For a module and a selection of categories:

* the lists are those of the mixed stream, whose records each go to the end of a list;
* the list of a category is empty if it is not selected, and else what it is if all are selected;
* neither the order of the selection nor a repetition in it changes anything;
* the lists of one module behind another are the lists of the two, one after the other;
* the list of a category is made of what each type holds of it, and that is of this category and in
  the namespace of the type;
* every item and every character has one record, and so has every buff and every tile whose first
  `SetDefaults` has code; no other type has any;
* a program that checks its sums extracts the same, or nothing if one of them is no machine word. -/
theorem extract_by_category_and_type (m : Module) (selection : List Category) :
    m.extract selection = (m.stream selection).foldl Extraction.push {} ∧
    (∀ c, (m.extract selection).records c =
      if c ∈ selection then (m.extract Category.all).records c else []) ∧
    (∀ other : List Category, (∀ c, c ∈ other ↔ c ∈ selection) →
      m.extract other = m.extract selection) ∧
    (∀ n : Module, ({ types := m.types ++ n.types } : Module).extract selection =
      (m.extract selection).append (n.extract selection)) ∧
    (∀ c, (m.extract Category.all).records c = m.types.flatMap (·.records c) ∧
      ∀ t ∈ m.types, ∀ r ∈ t.records c, categoryOf r = c ∧ namespaceOf r = t.namespaceName) ∧
    OneEach itemText? (·.marks.item) m.types (m.extract Category.all).items ∧
    OneEach npcText? (·.marks.npc) m.types (m.extract Category.all).npcs ∧
    OneEach buffText? (fun t => t.marks.buff && t.setsDefaults) m.types
      (m.extract Category.all).buffs ∧
    OneEach tileText? (fun t => t.marks.tile && t.setsDefaults) m.types
      (m.extract Category.all).tiles ∧
    (∀ e, m.extractChecked selection = .ok e ↔ e = m.extract selection ∧ ¬ m.Overflows selection) ∧
    (∀ overflow, m.extractChecked selection = .error overflow ↔
      overflow = .add ∧ m.Overflows selection) := by
  refine ⟨extract_eq_foldl_push m selection, ?_, ?_, ?_, ?_, ?_, ?_, ?_, ?_,
    fun _ => extractChecked_eq_ok, fun _ => extractChecked_eq_error⟩
  · intro c
    rw [records_extract, records_extract_all]
    simp only [List.contains_iff_mem]
  · intro other h
    exact extract_eq_of_mem_iff m h
  · intro n
    exact extract_append m n selection
  · intro c
    refine ⟨records_extract_all m c, ?_⟩
    intro t _ r hr
    exact view_of_mem_records hr
  · exact oneEach_filterMap isSome_itemText? (fun _ _ => owner_of_itemText?) m.types
  · exact oneEach_filterMap isSome_npcText? (fun _ _ => owner_of_npcText?) m.types
  · exact oneEach_filterMap isSome_buffText? (fun _ _ => owner_of_buffText?) m.types
  · exact oneEach_filterMap isSome_tileText? (fun _ _ => owner_of_tileText?) m.types

/-- Tiles asked for twice, of a module with a tile that has code and one that has not. -/
theorem extract_repeated_selection :
    let code : Method := { name := "SetDefaults", body := some {} }
    let m : Module :=
      { types := [{ name := "Forge", namespaceName := "Mod", methods := [code],
                    marks := { tile := true } },
                  { name := "Door", namespaceName := "Mod", marks := { tile := true } }] }
    (∀ c, c ∈ [Category.tiles, .items, .tiles] ↔ c ∈ [Category.items, .tiles]) ∧
      m.extract [.tiles, .items, .tiles] = m.extract [.items, .tiles] ∧
      m.extract [.items, .tiles] =
        { tiles := [{ typeName := "Forge", namespaceName := "Mod" }] } := by
  intro code m
  have hsame : ∀ c, c ∈ [Category.tiles, .items, .tiles] ↔ c ∈ [Category.items, .tiles] := by
    intro c
    cases c <;> decide
  exact ⟨hsame, (extract_by_category_and_type m _).2.2.1 _ hsame, by decide +kernel⟩

/-- A concatenation by a method with the largest number of parameters has no operands, or is the end. -/
example :
    let code : List Instruction := [.pushString "Old", .call ⟨"String", "Concat", 0xFFFFFFFFFFFFFFFF⟩,
      .newObject ⟨"TooltipLine", ".ctor", 3⟩]
    let m : Module :=
      { types := [{ name := "Relic", marks := { item := true },
                    methods := [{ name := "ModifyTooltips", body := some ⟨0, code⟩ }] }] }
    m.extract [.items] = { items := [{ typeName := "Relic", namespaceName := "" }] } ∧
      m.extractChecked [.items] = .error .add ∧ m.extractChecked [.misc] = .ok {} := by
  decide +kernel

end Module

end ModText
