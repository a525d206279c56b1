import ModText.Proofs.Code.Ancestors
import ModText.Proofs.Extraction.Alike

/-!
# Direct bases and whole chains

Whoever decodes a module may know of a type the base type only, or all that is above it. For the
marks this makes no difference. Base types can be added to any types, in any order and any number of
times, as long as what is added could be reached before (`Fills`): a walk that takes the short way
ends where the long way does, and the long way is still there. The whole chain of a type is the most
that can be added.
-/

namespace ModText

namespace Module

variable {m n : Module} {bases : List String} {name : String}

/-! ## Ways up -/

/-- Where one gets from places that can be reached can be reached. -/
theorem IsAncestor.of_bases {bases' : List String} (h : m.IsAncestor bases' name)
    (hbases : ∀ base ∈ bases', m.IsAncestor bases base) : m.IsAncestor bases name := by
  induction h with
  | base hmem => exact hbases _ hmem
  | up _ hdeclares hbase ih => exact .up ih hdeclares hbase

/-- What is above a declared type is above everything that this type is above of. -/
theorem IsAncestor.up_chain {t : TypeDef} {above : String} (h : m.IsAncestor bases name)
    (hdeclares : m.Declares name t) (habove : m.IsAncestor t.baseTypes above) :
    m.IsAncestor bases above :=
  habove.of_bases fun _ hbase => .up h hdeclares hbase

/-- The second type has the name of the first one. Its base types are those of the first one and,
at most, names that these lead to in the module. -/
structure Fills (m : Module) (t u : TypeDef) : Prop where
  fullName : u.fullName = t.fullName
  recorded : t.baseTypes ⊆ u.baseTypes
  reached : ∀ base ∈ u.baseTypes, m.IsAncestor t.baseTypes base

theorem fills_of_baseTypes_eq {t u : TypeDef} (hname : u.fullName = t.fullName)
    (hbases : u.baseTypes = t.baseTypes) : m.Fills t u :=
  ⟨hname, hbases ▸ List.Subset.refl _, fun _ hbase => .base (hbases ▸ hbase)⟩

/-- If types of one name stand one by one in two modules, then a name stands in both of them for
types at one place. -/
theorem exists_declares {related : TypeDef → TypeDef → Prop}
    (hname : ∀ t u, related t u → u.fullName = t.fullName)
    (h : List.Forall₂ related m.types n.types) {t : TypeDef} (hdeclares : m.Declares name t) :
    ∃ u, n.Declares name u ∧ related t u := by
  have hfound := find?_of_forall₂ (List.rel_reverse h) (p := (·.fullName == name))
    (q := (·.fullName == name)) fun t u htu => by rw [hname t u htu]
  rw [(m.find?_reverse_eq_some_iff_declares name t).2 hdeclares] at hfound
  cases hu : n.types.reverse.find? (·.fullName == name) with
  | none =>
    rw [hu] at hfound
    cases hfound
  | some u =>
    rw [hu] at hfound
    cases hfound with
    | some htu => exact ⟨u, (n.find?_reverse_eq_some_iff_declares name u).1 hu, htu⟩

/-- Base types that could be reached anyhow lead to nothing new. -/
theorem isAncestor_iff_of_fills (h : List.Forall₂ m.Fills m.types n.types) :
    n.IsAncestor bases name ↔ m.IsAncestor bases name := by
  constructor
  · intro hname
    have hback : List.Forall₂ (flip m.Fills) n.types m.types := h.flip
    induction hname with
    | base hmem => exact .base hmem
    | up _ hdeclares hbase ih =>
      obtain ⟨t, ht, hfills⟩ := exists_declares (fun _ _ hfills => hfills.fullName.symm) hback hdeclares
      exact ih.up_chain ht (hfills.reached _ hbase)
  · intro hname
    induction hname with
    | base hmem => exact .base hmem
    | up _ hdeclares hbase ih =>
      obtain ⟨u, hu, hfills⟩ := exists_declares (fun _ _ hfills => hfills.fullName) h hdeclares
      exact .up ih hu (hfills.recorded hbase)

/-! ## Marks -/

/-- A type has the same marks after base types were filled in, at itself or at others. -/
theorem marks_ancestors_of_fills (h : List.Forall₂ m.Fills m.types n.types) (names : MarkerNames)
    {t u : TypeDef} (hfills : m.Fills t u) :
    names.marks ((Hierarchy.ofTypes n.types).ancestors u) =
      names.marks ((Hierarchy.ofTypes m.types).ancestors t) := by
  apply names.marks_congr
  intro name
  rw [mem_ancestors, mem_ancestors, isAncestor_iff_of_fills h]
  exact ⟨fun hname => hname.of_bases hfills.reached,
    fun hname => hname.of_bases fun _ hbase => .base (hfills.recorded hbase)⟩

/-- Modules that are alike stay so when they are marked, if base types were filled in at most. -/
theorem Alike.mark {R : List Instruction → List Instruction → Prop} (halike : m.Alike R n)
    (hfills : List.Forall₂ m.Fills m.types n.types) (names : MarkerNames) :
    (m.mark names).Alike R (n.mark names) := by
  refine List.forall₂_map_left_iff.2 (List.forall₂_map_right_iff.2 ?_)
  refine List.Forall₂.mp ?_ halike hfills
  intro t u htu hfill
  exact ⟨htu.name, htu.namespaceName, marks_ancestors_of_fills hfills names hfill, htu.methods⟩

/-- The second type is the first one, with the base types it has or with its whole chain in the
module: all its ancestors, in any order. -/
def RecordsChain (m : Module) (t u : TypeDef) : Prop :=
  ∃ chain, u = { t with baseTypes := chain } ∧
    (chain = t.baseTypes ∨ ∀ name, name ∈ chain ↔ m.IsAncestor t.baseTypes name)

theorem RecordsChain.fills {t u : TypeDef} (h : m.RecordsChain t u) : m.Fills t u := by
  obtain ⟨chain, rfl, rfl | hchain⟩ := h
  · exact fills_of_baseTypes_eq rfl rfl
  · exact ⟨rfl, fun _ hbase => (hchain _).2 (.base hbase), fun _ hbase => (hchain _).1 hbase⟩

theorem RecordsChain.alike {t u : TypeDef} (h : m.RecordsChain t u) : t.Alike Eq u := by
  obtain ⟨chain, rfl, -⟩ := h
  refine ⟨rfl, rfl, rfl, List.forall₂_same.2 fun s _ => ⟨rfl, rfl, rfl, rfl, ?_⟩⟩
  cases s.instructions? with
  | none => exact .none
  | some code => exact .some rfl

/-- **Direct bases and whole chains are marked alike.** If the base types of any types of a module are
replaced by the whole chains of these types, then every type gets the same marks, whatever names mark
the kinds, and the same records are extracted. -/
theorem mark_of_chains (h : List.Forall₂ m.RecordsChain m.types n.types) (names : MarkerNames) :
    (n.mark names).types.map (·.marks) = (m.mark names).types.map (·.marks) ∧
      ∀ selection, (n.mark names).extract selection = (m.mark names).extract selection := by
  have hfills : List.Forall₂ m.Fills m.types n.types := h.imp fun _ _ hchain => hchain.fills
  have halike : m.Alike Eq n := h.imp fun _ _ hchain => hchain.alike
  have hmarked := halike.mark hfills names
  constructor
  · exact map_eq_iff_forall₂.2 (hmarked.imp fun _ _ htu => htu.marks)
  · refine extract_alike ?_ hmarked
    rintro code _ rfl
    exact .refl code

/-- Swords that are above each other, one of which is declared twice. The base types of the first type
are given. -/
def forge (bases : List String) : Module where
  types := [
    { name := "FireSword", namespaceName := "Forge", baseTypes := bases },
    { name := "Blade", namespaceName := "Forge", baseTypes := ["Terraria.ModLoader.ModTile"] },
    { name := "Sword", namespaceName := "Forge", baseTypes := ["Forge.Blade", "Forge.FireSword"] },
    { name := "Blade", namespaceName := "Forge",
      baseTypes := ["Forge.Sword", "Terraria.ModLoader.ModItem"] }]

/-- The first type is given its whole chain, backwards. The type itself is in it, and what the later one
of the two types of one name leads to. -/
theorem mark_of_chains_forge :
    let m := forge ["Forge.Sword"]
    let chain := ["Terraria.ModLoader.ModItem", "Forge.FireSword", "Forge.Blade", "Forge.Sword"]
    List.Forall₂ m.RecordsChain m.types (forge chain).types ∧
      ((forge chain).mark {}).types.map (·.marks) = (m.mark {}).types.map (·.marks) ∧
      ((forge chain).mark {}).extract [.items] = (m.mark {}).extract [.items] ∧
      ((m.mark {}).types.map (·.marks)).head? = some { item := true } := by
  intro m chain
  have hbases : ∀ name base, (∃ t, m.Declares name t ∧ base ∈ t.baseTypes) ↔
      base ∈ ((m.types.reverse.find? (·.fullName == name)).map (·.baseTypes)).getD [] :=
    fun name base => by rw [← mem_basesOf_ofTypes, Hierarchy.basesOf_ofTypes]
  have hup : ∀ {name base : String}, m.IsAncestor ["Forge.Sword"] name →
      base ∈ ((m.types.reverse.find? (·.fullName == name)).map (·.baseTypes)).getD [] →
        m.IsAncestor ["Forge.Sword"] base := by
    intro name base hname hbase
    obtain ⟨t, hdeclares, hmem⟩ := (hbases name base).2 hbase
    exact .up hname hdeclares hmem
  have hsword : m.IsAncestor ["Forge.Sword"] "Forge.Sword" := .base (by decide)
  have hblade : m.IsAncestor ["Forge.Sword"] "Forge.Blade" := hup hsword (by decide)
  have hchain : ∀ name, name ∈ chain ↔ m.IsAncestor ["Forge.Sword"] name := by
    intro name
    constructor
    · have hall : ∀ name ∈ chain, m.IsAncestor ["Forge.Sword"] name := by
        simp only [chain, List.forall_mem_cons, List.not_mem_nil, false_imp_iff, implies_true, and_true]
        exact ⟨hup hblade (by decide), hup hsword (by decide), hblade, hsword⟩
      exact hall name
    · intro hname
      have hclosed : ∀ name ∈ chain, ∀ base ∈
          ((m.types.reverse.find? (·.fullName == name)).map (·.baseTypes)).getD [], base ∈ chain := by
        decide
      induction hname with
      | base hmem =>
        rw [List.mem_singleton.1 hmem]
        decide
      | up _ hdeclares hbase ih => exact hclosed _ ih _ ((hbases _ _).1 ⟨_, hdeclares, hbase⟩)
  have hrecords : List.Forall₂ m.RecordsChain m.types (forge chain).types :=
    .cons ⟨chain, rfl, .inr hchain⟩ (List.forall₂_same.2 fun t _ => ⟨t.baseTypes, rfl, .inl rfl⟩)
  obtain ⟨hmarks, hextract⟩ := mark_of_chains hrecords {}
  refine ⟨hrecords, hmarks, hextract _, ?_⟩
  have hfirst := ({} : MarkerNames).marks_congr fun name =>
    (m.mem_ancestors (m.types.head (by decide)) name).trans (hchain name).symm
  exact congrArg some (hfirst.trans (by decide))

end Module

end ModText
