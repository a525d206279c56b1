import Mathlib.Data.List.Perm.Basic
import ModText.Proofs.Code.Ancestors
import ModText.Proofs.Extraction.Selection
import ModText.Proofs.Output.Plan
import ModText.Proofs.Record.Groups

/-!
# The order of types

If no two types of a module have the same full name, then a full name stands for the same type in
whatever order the types come, so they have the same ancestors and the same marks. What is extracted
are the records of one type after the other, so another order of types is another order of the same
blocks, and the groups made of them differ in nothing but order.
-/

namespace ModText

/-! ## Marks -/

namespace Module

variable {m n : Module}

/-- A full name stands for the one type that has it. -/
theorem declares_iff_mem (hdistinct : (m.types.map TypeDef.fullName).Nodup) {name : String}
    {t : TypeDef} : m.Declares name t ↔ t ∈ m.types ∧ t.fullName = name := by
  constructor
  · rintro ⟨before, after, htypes, hname, _⟩
    exact ⟨by simp [htypes], hname⟩
  · rintro ⟨hmem, hname⟩
    obtain ⟨before, after, htypes⟩ := List.append_of_mem hmem
    refine ⟨before, after, htypes, hname, ?_⟩
    intro u hu hsame
    rw [htypes, List.map_append, List.map_cons] at hdistinct
    have hnew := (List.nodup_cons.1 (List.nodup_append.1 hdistinct).2.1).1
    exact hnew (List.mem_map.2 ⟨u, hu, hsame.trans hname.symm⟩)

theorem IsAncestor.of_declares {bases : List String} {name : String}
    (hdeclares : ∀ name t, m.Declares name t → n.Declares name t) (h : m.IsAncestor bases name) :
    n.IsAncestor bases name := by
  induction h with
  | base hmem => exact .base hmem
  | up _ hdeclared hbase ih => exact .up ih (hdeclares _ _ hdeclared) hbase

theorem isAncestor_iff_of_perm (hdistinct : (m.types.map TypeDef.fullName).Nodup)
    (hperm : m.types.Perm n.types) {bases : List String} {name : String} :
    m.IsAncestor bases name ↔ n.IsAncestor bases name := by
  have hdistinct' : (n.types.map TypeDef.fullName).Nodup := (hperm.map _).nodup_iff.1 hdistinct
  have hdeclares : ∀ name t, m.Declares name t ↔ n.Declares name t := by
    intro name t
    rw [declares_iff_mem hdistinct, declares_iff_mem hdistinct', hperm.mem_iff]
  exact ⟨.of_declares fun name t => (hdeclares name t).1,
    .of_declares fun name t => (hdeclares name t).2⟩

/-- A type has the same marks wherever it stands. -/
theorem marks_ancestors_of_perm (hdistinct : (m.types.map TypeDef.fullName).Nodup)
    (hperm : m.types.Perm n.types) (names : MarkerNames) (t : TypeDef) :
    names.marks ((Hierarchy.ofTypes n.types).ancestors t) =
      names.marks ((Hierarchy.ofTypes m.types).ancestors t) := by
  apply names.marks_congr
  intro name
  rw [mem_ancestors, mem_ancestors, isAncestor_iff_of_perm hdistinct hperm]

end Module

/-! ## Groups -/

section

variable {α : Type} [Filed α] {records records' : List α}

theorem namespacesOf_perm (h : records.Perm records') :
    (namespacesOf records).Perm (namespacesOf records') := by
  apply (List.perm_ext_iff_of_nodup (nodup_namespacesOf _) (nodup_namespacesOf _)).2
  intro n
  simp only [mem_namespacesOf, h.mem_iff]

/-- Of the same records in another order, grouping makes groups of the same namespaces, and each of
them has the same records. -/
theorem groupByNamespace_perm (h : records.Perm records') {groups groups' : List (Group α)}
    (hgroups : groupByNamespace records = .ok groups)
    (hgroups' : groupByNamespace records' = .ok groups') :
    (groups.map Group.namespaceName).Perm (groups'.map Group.namespaceName) ∧
      ∀ g ∈ groups, ∀ g' ∈ groups', g'.namespaceName = g.namespaceName →
        g.records.Perm g'.records := by
  obtain ⟨_, rfl⟩ := groupByNamespace_eq_ok.1 hgroups
  obtain ⟨_, rfl⟩ := groupByNamespace_eq_ok.1 hgroups'
  constructor
  · simpa [groupsOf, Function.comp_def] using namespacesOf_perm h
  · intro g hg g' hg' hname
    rw [(mem_groupsOf.1 hg).2, (mem_groupsOf.1 hg').2, hname]
    exact h.filter _

/-- Whether there are groups at all has nothing to do with the order of the records. -/
theorem exists_groupByNamespace_of_perm (h : records.Perm records') :
    (∃ groups, groupByNamespace records = .ok groups) ↔
      ∃ groups, groupByNamespace records' = .ok groups := by
  simp only [groupByNamespace_eq_ok, h.mem_iff, exists_and_left, exists_eq, and_true]

end

/-! ## Modules -/

namespace Extraction

variable {e e' : Extraction} {c : Category}

theorem groups_perm (h : (e.records c).Perm (e'.records c)) {groups groups' : List (Group Record)}
    (hgroups : e.groups c = .ok groups) (hgroups' : e'.groups c = .ok groups') :
    (groups.map Group.namespaceName).Perm (groups'.map Group.namespaceName) ∧
      ∀ g ∈ groups, ∀ g' ∈ groups', g'.namespaceName = g.namespaceName →
        g.records.Perm g'.records :=
  groupByNamespace_perm h hgroups hgroups'

theorem isFailed_iff : (CategorySummary.ofExtraction e c).isFailed ↔
    ¬ ∃ groups, e.groups c = .ok groups := by
  rw [CategorySummary.ofExtraction]
  cases e.groups c <;> simp [CategorySummary.isFailed]

theorem isFailed_eq_of_perm (h : (e.records c).Perm (e'.records c)) :
    (CategorySummary.ofExtraction e c).isFailed =
      (CategorySummary.ofExtraction e' c).isFailed := by
  rw [Bool.eq_iff_iff, isFailed_iff, isFailed_iff]
  exact not_congr (exists_groupByNamespace_of_perm h)

end Extraction

namespace Module

/-- The records of a type with these marks in a category, none if the category is not selected. -/
def block (selection : List Category) (c : Category) (t : TypeDef) (marks : Marks) : List Record :=
  if c ∈ selection then { t with marks := marks }.records c else []

/-- **The order of types is seen in the order of records, and nowhere else.** For a module whose
types have different full names and any other order of these types, every type has the same marks.
Whatever is selected, the list of a category is made of the same blocks, one for each type, in the
order of the types. The category fails in both orders or in none, and if it does not, then its
groups are of the same namespaces and have the same records. A program that checks its sums extracts
nothing in both orders or in none. -/
theorem extract_of_types_permuted {m n : Module} (hdistinct : (m.types.map TypeDef.fullName).Nodup)
    (hperm : m.types.Perm n.types) (names : MarkerNames) :
    ∃ marksOf : TypeDef → Marks,
      (m.mark names).types = m.types.map (fun t => { t with marks := marksOf t }) ∧
      (n.mark names).types = n.types.map (fun t => { t with marks := marksOf t }) ∧
      (∀ selection overflow, (n.mark names).extractChecked selection = .error overflow ↔
        (m.mark names).extractChecked selection = .error overflow) ∧
      ∀ selection c,
        let e := (m.mark names).extract selection
        let e' := (n.mark names).extract selection
        e.records c = m.types.flatMap (fun t => block selection c t (marksOf t)) ∧
        e'.records c = n.types.flatMap (fun t => block selection c t (marksOf t)) ∧
        (CategorySummary.ofExtraction e c).isFailed =
          (CategorySummary.ofExtraction e' c).isFailed ∧
        ∀ groups groups', e.groups c = .ok groups → e'.groups c = .ok groups' →
          (groups.map Group.namespaceName).Perm (groups'.map Group.namespaceName) ∧
          ∀ g ∈ groups, ∀ g' ∈ groups', g'.namespaceName = g.namespaceName →
            g.records.Perm g'.records := by
  let marksOf := fun t => names.marks ((Hierarchy.ofTypes m.types).ancestors t)
  have hmark : (m.mark names).types = m.types.map (fun t => { t with marks := marksOf t }) := rfl
  have hmark' : (n.mark names).types = n.types.map (fun t => { t with marks := marksOf t }) := by
    rw [mark]
    apply List.map_congr_left
    intro t _
    rw [marks_ancestors_of_perm hdistinct hperm]
  have hoverflows : ∀ selection, (n.mark names).Overflows selection ↔ (m.mark names).Overflows selection := by
    intro selection
    have htypes : (m.mark names).types.Perm (n.mark names).types := by
      rw [hmark, hmark']
      exact hperm.map _
    simp only [Overflows, htypes.mem_iff]
  refine ⟨marksOf, hmark, hmark', ?_, fun selection c => ?_⟩
  · intro selection overflow
    rw [extractChecked_eq_error, extractChecked_eq_error, hoverflows]
  have hblocks : ∀ {k : Module}, (k.mark names).types =
      k.types.map (fun t => { t with marks := marksOf t }) →
        ((k.mark names).extract selection).records c =
          k.types.flatMap (fun t => block selection c t (marksOf t)) := by
    intro k hk
    rw [records_extract, hk, List.flatMap_map]
    by_cases hc : c ∈ selection <;> simp [block, hc]
  have hrecords : (((m.mark names).extract selection).records c).Perm
      (((n.mark names).extract selection).records c) := by
    rw [hblocks hmark, hblocks hmark']
    exact hperm.flatMap_right _
  exact ⟨hblocks hmark, hblocks hmark', Extraction.isFailed_eq_of_perm hrecords,
    fun groups groups' => Extraction.groups_perm hrecords⟩

/-- A method that sends one message. -/
def salute (text : String) : Method where
  name := "Salute"
  body := some ⟨0, [.pushString text, .other, .other, .other, .other, .call ⟨"Main", "NewText", 0⟩]⟩

/-- A sword is an item because its base, the blade, is one, and so is an axe whose base it is. -/
def armoury : Module where
  types := [
    { name := "Sword", namespaceName := "Arms.Long", baseTypes := ["Arms.Blade"],
      methods := [salute "first"] },
    { name := "Blade", namespaceName := "Arms", baseTypes := ["Terraria.ModLoader.ModItem"],
      methods := [salute "second"] },
    { name := "Axe", namespaceName := "Arms", baseTypes := ["Arms.Long.Sword"],
      methods := [salute "third"] }]

theorem extract_of_armoury_reversed :
    let n : Module := ⟨armoury.types.reverse⟩
    (armoury.types.map TypeDef.fullName).Nodup ∧ armoury.types.Perm n.types ∧
      ∃ marksOf : TypeDef → Marks,
        (armoury.mark {}).types = armoury.types.map (fun t => { t with marks := marksOf t }) ∧
        (n.mark {}).types = n.types.map (fun t => { t with marks := marksOf t }) ∧
        ∃ groups groups', ((armoury.mark {}).extract [.misc]).groups .misc = .ok groups ∧
          ((n.mark {}).extract [.misc]).groups .misc = .ok groups' ∧
          groups.map Group.namespaceName = ["Arms.Long", "Arms"] ∧
          groups'.map Group.namespaceName = ["Arms", "Arms.Long"] ∧
          ∀ g ∈ groups, ∀ g' ∈ groups', g'.namespaceName = g.namespaceName →
            g.records.Perm g'.records := by
  intro n
  have hdistinct : (armoury.types.map TypeDef.fullName).Nodup := by decide +kernel
  have hperm : armoury.types.Perm n.types := (List.reverse_perm _).symm
  have hgroups : (((armoury.mark {}).extract [.misc]).groups .misc).toOption.map
      (List.map Group.namespaceName) = some ["Arms.Long", "Arms"] := by decide +kernel
  have hgroups' : (((n.mark {}).extract [.misc]).groups .misc).toOption.map
      (List.map Group.namespaceName) = some ["Arms", "Arms.Long"] := by decide +kernel
  obtain ⟨groups, hok, hnames⟩ := Option.map_eq_some_iff.1 hgroups
  obtain ⟨groups', hok', hnames'⟩ := Option.map_eq_some_iff.1 hgroups'
  have hfound := eq_ok_of_toOption hok
  have hfound' := eq_ok_of_toOption hok'
  obtain ⟨marksOf, hmark, hmark', _, hall⟩ := extract_of_types_permuted hdistinct hperm {}
  exact ⟨hdistinct, hperm, marksOf, hmark, hmark', groups, groups', hfound, hfound', hnames, hnames',
    ((hall [.misc] .misc).2.2.2 groups groups' hfound hfound').2⟩

end Module

end ModText
