import ModText.Proofs.Extraction.Selection
import Mathlib.Algebra.Order.BigOperators.Group.List
import Mathlib.Algebra.Order.Group.Nat

/-!
# Methods without a body

An abstract or external method has no text to find. It still answers to its name: a record looks a
method up by its kind, and if the first method of the kind has no body, then none of those behind it
is looked at. So a method without a body can hide one that has a body. Without the methods that have
no body nothing is hidden; here is told what is hidden otherwise, and that nothing else is lost.
-/

namespace ModText

/-! ## Looking up behind methods without a body -/

namespace TypeDef

/-- A type without its abstract and external methods. -/
def withBodies (t : TypeDef) : TypeDef :=
  { t with methods := t.methods.filter (·.body.isSome) }

/-- The instructions of the first method of a kind; none if it has no body. -/
def codeOf? (t : TypeDef) (kind : Method → Bool) : Option (List Instruction) :=
  (t.methods.find? kind).bind (·.instructions?)

/-- The code belongs to the first method of that kind that has a body, but a method of that kind
that has none comes before it. -/
def Hides (t : TypeDef) (kind : Method → Bool) (code : List Instruction) : Prop :=
  ∃ front hider middle found behind,
    t.methods = front ++ hider :: (middle ++ found :: behind) ∧
    (∀ m ∈ front, kind m = false) ∧
    kind hider ∧ hider.body = none ∧
    (∀ m ∈ middle, kind m → m.body = none) ∧
    kind found ∧ found.instructions? = some code

@[simp] theorem name_withBodies (t : TypeDef) : t.withBodies.name = t.name := rfl

@[simp] theorem namespaceName_withBodies (t : TypeDef) :
    t.withBodies.namespaceName = t.namespaceName := rfl

@[simp] theorem marks_withBodies (t : TypeDef) : t.withBodies.marks = t.marks := rfl

variable {t : TypeDef} {kind : Method → Bool} {code : List Instruction}

theorem methodCode?_eq_codeOf? (t : TypeDef) (name : String) :
    t.methodCode? name = t.codeOf? (Method.isNamed name) :=
  rfl

theorem hookCode?_eq_codeOf? (t : TypeDef) (name : String) :
    t.hookCode? name = t.codeOf? (Method.isHook name) :=
  rfl

theorem bodies_withBodies (t : TypeDef) : t.withBodies.bodies = t.bodies := by
  rw [bodies, bodies, withBodies, List.filterMap_filter]
  congr 1
  funext m
  cases hbody : m.body <;> simp [Method.instructions?, hbody]

/-- Without the methods that have no body, the first of a kind that has one is found. -/
theorem codeOf?_withBodies (t : TypeDef) (kind : Method → Bool) : t.withBodies.codeOf? kind =
    (t.methods.find? fun m => m.body.isSome && kind m).bind (·.instructions?) := by
  rw [codeOf?, withBodies, List.find?_filter]
  simp only [Bool.decide_and, Bool.decide_eq_true]

/-- What is hidden is not found. -/
theorem Hides.codeOf? (h : t.Hides kind code) : t.codeOf? kind = none := by
  obtain ⟨front, hider, middle, found, behind, hmethods, hfront, hkind, hbody, -⟩ := h
  have hfind : t.methods.find? kind = some hider := by
    rw [List.find?_eq_some_iff_append, hmethods]
    exact ⟨hkind, front, _, rfl, by simpa using hfront⟩
  rw [TypeDef.codeOf?, hfind, Option.bind_some, Method.instructions?, hbody, Option.map_none]

/-- What is hidden is found once the methods without a body are gone. -/
theorem Hides.codeOf?_withBodies (h : t.Hides kind code) :
    t.withBodies.codeOf? kind = some code := by
  obtain ⟨front, hider, middle, found, behind, hmethods, hfront, -, hbody, hmiddle, hkind, hcode⟩ :=
    h
  have hfound : found.body.isSome := by
    have hsome : found.instructions?.isSome := by rw [hcode]; rfl
    rwa [Method.instructions?, Option.isSome_map] at hsome
  have hfind : (t.methods.find? fun m => m.body.isSome && kind m) = some found := by
    rw [List.find?_eq_some_iff_append]
    refine ⟨by simp [hfound, hkind], front ++ hider :: middle, behind, by simp [hmethods], ?_⟩
    intro m hm
    rcases List.mem_append.1 hm with hm | hm
    · simp [hfront m hm]
    · rcases List.mem_cons.1 hm with rfl | hm
      · simp [hbody]
      · by_cases hkind : kind m
        · simp [hmiddle m hm hkind]
        · simp [hkind]
  rw [TypeDef.codeOf?_withBodies, hfind, Option.bind_some, hcode]

theorem find?_body_eq_none {methods : List Method} (h : ∀ m ∈ methods, kind m = false) :
    (methods.find? fun m => m.body.isSome && kind m) = none := by
  rw [List.find?_eq_none]
  intro m hm
  simp [h m hm]

/-- A type finds the same code with and without its methods that have no body, unless one of these
hides some. -/
theorem codeOf?_withBodies_or (t : TypeDef) (kind : Method → Bool) :
    t.withBodies.codeOf? kind = t.codeOf? kind ∨ ∃ code, t.Hides kind code := by
  rw [codeOf?_withBodies, codeOf?]
  cases hfind : t.methods.find? kind with
  | none =>
    have hnone : ∀ m ∈ t.methods, kind m = false := by simpa using hfind
    rw [find?_body_eq_none hnone]
    exact .inl rfl
  | some hider =>
    obtain ⟨hkind, front, rest, hmethods, hfront⟩ := List.find?_eq_some_iff_append.1 hfind
    have hfront : ∀ m ∈ front, kind m = false := by simpa using hfront
    rw [hmethods, List.find?_append, find?_body_eq_none hfront, Option.none_or, List.find?_cons]
    cases hbody : hider.body with
    | some body =>
      left
      simp [hkind]
    | none =>
      -- now all depends on whether a method of the kind with a body comes behind
      simp only [Option.isSome_none, Bool.false_and, Option.bind_some]
      rw [Method.instructions?, hbody, Option.map_none]
      cases hlater : rest.find? fun m => m.body.isSome && kind m with
      | none => exact .inl rfl
      | some found =>
        right
        obtain ⟨hfound, middle, behind, hrest, hmiddle⟩ := List.find?_eq_some_iff_append.1 hlater
        obtain ⟨hsome, hkindFound⟩ := Bool.and_eq_true_iff.1 hfound
        obtain ⟨body, hcode⟩ := Option.isSome_iff_exists.1 hsome
        refine ⟨body.instructions, front, hider, middle, found, behind, by rw [hmethods, hrest],
          hfront, hkind, hbody, ?_, hkindFound, by rw [Method.instructions?, hcode]; rfl⟩
        intro m hm hkindM
        simpa [hkindM] using hmiddle m hm

end TypeDef

/-! ## What a record looks up -/

/-- A look at the code of the first method of a kind, and whether code tells it something. -/
structure Look where
  kind : Method → Bool
  tells : List Instruction → Bool

/-- The look for the last default text with a getter. -/
def Look.defaultText (hook getter : String) : Look where
  kind := Method.isHook hook
  tells code := (lastWithGetter? getter (defaultTexts code)).isSome

/-- The look for all texts of a method. -/
def Look.literals (method : String) : Look where
  kind := Method.isNamed method
  tells code := !(stringLiterals code).isEmpty

/-- The look for the last text that goes to an argument of a method. -/
def Look.argumentText (method : String) (argument : UInt16) : Look where
  kind := Method.isNamed method
  tells code := (lastArgumentText? argument code).isSome

namespace Category

/-- What the record of a type looks up, field by field; the records of buffs and tiles themselves
need code. Messages and registered texts are not looked up: they come from all methods. -/
def looks : Category → List Look
  | .items =>
    [.defaultText "SetStaticDefaults" "get_DisplayName",
      .defaultText "SetStaticDefaults" "get_Tooltip",
      ⟨Method.isNamed "ModifyTooltips", fun code => !(tooltipLines code).isEmpty⟩,
      ⟨Method.isNamed "UpdateArmorSet", fun code => (lastSetBonus? code).isSome⟩]
  | .npcs =>
    [.defaultText "SetStaticDefaults" "get_DisplayName",
      .literals "GetChat",
      .argumentText "SetChatButtons" 1,
      .argumentText "SetChatButtons" 2,
      .literals "TownNPCName"]
  | .buffs | .tiles => [⟨Method.isHook "SetDefaults", fun _ => true⟩]
  | .misc | .customs => []

/-- Whether a type has the mark of the category. Messages and registered texts need none. -/
def marked : Category → TypeDef → Bool
  | .items, t => t.marks.item
  | .npcs, t => t.marks.npc
  | .buffs, t => t.marks.buff
  | .tiles, t => t.marks.tile
  | .misc, _ | .customs, _ => true

end Category

namespace TypeDef

/-- The type has code that its record in the category would take something from, but a method
without a body hides it. -/
def Loses (t : TypeDef) (c : Category) : Prop :=
  c.marked t ∧ ∃ look ∈ c.looks, ∃ code, t.Hides look.kind code ∧ look.tells code

/-- A look finds nothing more without the methods that have no body. -/
def Keeps (t : TypeDef) (look : Look) : Prop :=
  ∀ code, t.Hides look.kind code → look.tells code = false

variable {t : TypeDef} {look : Look}

theorem not_loses_iff {c : Category} :
    ¬ t.Loses c ↔ (c.marked t → ∀ look ∈ c.looks, t.Keeps look) := by
  simp [Loses, Keeps]

/-- What is taken from the code of a look stays the same without the methods that have no body,
exactly if the look finds nothing more. -/
theorem take_withBodies_iff {α : Type} (look : Look) (take : Option (List Instruction) → α)
    (htells : ∀ code, take (some code) = take none ↔ look.tells code = false) :
    take (t.withBodies.codeOf? look.kind) = take (t.codeOf? look.kind) ↔ t.Keeps look := by
  constructor
  · intro h code hhides
    rwa [hhides.codeOf?, hhides.codeOf?_withBodies, htells] at h
  · intro h
    rcases codeOf?_withBodies_or t look.kind with heq | ⟨code, hhides⟩
    · rw [heq]
    · rw [hhides.codeOf?, hhides.codeOf?_withBodies, htells]
      exact h code hhides

theorem getD_withBodies_iff {α : Type} (kind : Method → Bool) (find : List Instruction → List α) :
    ((t.withBodies.codeOf? kind).map find).getD [] = ((t.codeOf? kind).map find).getD [] ↔
      t.Keeps ⟨kind, fun code => !(find code).isEmpty⟩ :=
  take_withBodies_iff ⟨kind, _⟩ (fun code => (code.map find).getD []) fun code => by simp

theorem bind_withBodies_iff {α : Type} (kind : Method → Bool)
    (find : List Instruction → Option α) :
    (t.withBodies.codeOf? kind).bind find = (t.codeOf? kind).bind find ↔
      t.Keeps ⟨kind, fun code => (find code).isSome⟩ :=
  take_withBodies_iff ⟨kind, _⟩ (·.bind find) fun code => by simp

theorem map_withBodies_iff {α : Type} (kind : Method → Bool) (record : List Instruction → α) :
    (t.withBodies.codeOf? kind).map record = (t.codeOf? kind).map record ↔
      t.Keeps ⟨kind, fun _ => true⟩ :=
  take_withBodies_iff ⟨kind, _⟩ (·.map record) fun code => by simp

theorem lastWithGetter?_withBodies_iff (hook getter : String) :
    lastWithGetter? getter (((t.withBodies.hookCode? hook).map defaultTexts).getD []) =
      lastWithGetter? getter (((t.hookCode? hook).map defaultTexts).getD []) ↔
        t.Keeps (.defaultText hook getter) :=
  take_withBodies_iff (.defaultText hook getter)
    (fun code => lastWithGetter? getter ((code.map defaultTexts).getD []))
    fun code => by simp [Look.defaultText, lastWithGetter?]

theorem itemText?_withBodies_iff (t : TypeDef) :
    itemText? t.withBodies = itemText? t ↔ ¬ t.Loses .items := by
  rw [not_loses_iff]
  simp only [Category.looks, List.forall_mem_cons, Category.marked]
  rw [← lastWithGetter?_withBodies_iff, ← lastWithGetter?_withBodies_iff, ← getD_withBodies_iff,
    ← bind_withBodies_iff]
  by_cases hmark : t.marks.item <;> simp [itemText?, hmark, methodCode?_eq_codeOf?]

theorem npcText?_withBodies_iff (t : TypeDef) :
    npcText? t.withBodies = npcText? t ↔ ¬ t.Loses .npcs := by
  rw [not_loses_iff]
  simp only [Category.looks, List.forall_mem_cons, Category.marked]
  rw [← lastWithGetter?_withBodies_iff, Look.literals, Look.literals, Look.argumentText,
    Look.argumentText, ← getD_withBodies_iff, ← bind_withBodies_iff, ← bind_withBodies_iff,
    ← getD_withBodies_iff]
  by_cases hmark : t.marks.npc <;> simp [npcText?, hmark, methodCode?_eq_codeOf?]

theorem buffText?_withBodies_iff (t : TypeDef) :
    buffText? t.withBodies = buffText? t ↔ ¬ t.Loses .buffs := by
  rw [not_loses_iff]
  simp only [Category.looks, List.forall_mem_singleton, Category.marked]
  by_cases hmark : t.marks.buff
  · simp only [buffText?, marks_withBodies, hmark, if_true, hookCode?_eq_codeOf?, forall_const]
    exact map_withBodies_iff _ _
  · simp [buffText?, hmark]

theorem tileText?_withBodies_iff (t : TypeDef) :
    tileText? t.withBodies = tileText? t ↔ ¬ t.Loses .tiles := by
  rw [not_loses_iff]
  simp only [Category.looks, List.forall_mem_singleton, Category.marked]
  by_cases hmark : t.marks.tile
  · simp only [tileText?, marks_withBodies, hmark, if_true, hookCode?_eq_codeOf?, forall_const]
    exact map_withBodies_iff _ _
  · simp [tileText?, hmark]

theorem chatTexts_withBodies (t : TypeDef) : chatTexts t.withBodies = chatTexts t := by
  rw [chatTexts, chatTexts, withBodies, List.filterMap_filter]
  congr 1
  funext m
  cases hbody : m.body <;> simp [chatText?, Method.instructions?, hbody]

theorem customTexts_withBodies (t : TypeDef) : customTexts t.withBodies = customTexts t := by
  rw [customTexts, customTexts, bodies_withBodies, namespaceName_withBodies]

/-- Lists of at most one record are the same exactly if the records are. -/
theorem toList_map_inj {α : Type} {f : α → Record} (hf : Function.Injective f) {a b : Option α} :
    (a.map f).toList = (b.map f).toList ↔ a = b := by
  cases a <;> cases b <;> simp [hf.eq_iff]

/-- The records of a type in a category stay the same without its methods that have no body, exactly
if none of these hides code that the record would take something from. -/
theorem records_withBodies_iff (t : TypeDef) (c : Category) :
    t.withBodies.records c = t.records c ↔ ¬ t.Loses c := by
  cases c with
  | items =>
    rw [← itemText?_withBodies_iff]
    exact toList_map_inj fun _ _ => Record.item.inj
  | npcs =>
    rw [← npcText?_withBodies_iff]
    exact toList_map_inj fun _ _ => Record.npc.inj
  | buffs =>
    rw [← buffText?_withBodies_iff]
    exact toList_map_inj fun _ _ => Record.buff.inj
  | tiles =>
    rw [← tileText?_withBodies_iff]
    exact toList_map_inj fun _ _ => Record.tile.inj
  | misc => simp [records, chatTexts_withBodies, Loses, Category.looks]
  | customs => simp [records, customTexts_withBodies, Loses, Category.looks]

theorem isSome_codeOf?_withBodies (t : TypeDef) (kind : Method → Bool)
    (h : (t.codeOf? kind).isSome) : (t.withBodies.codeOf? kind).isSome := by
  rcases codeOf?_withBodies_or t kind with heq | ⟨code, hhides⟩
  · rwa [heq]
  · rw [hhides.codeOf?_withBodies]
    rfl

/-- No record is lost with the methods that have no body. -/
theorem length_records_le_withBodies (t : TypeDef) (c : Category) :
    (t.records c).length ≤ (t.withBodies.records c).length := by
  have hdefaults := t.isSome_codeOf?_withBodies (Method.isHook "SetDefaults")
  have hlength : ∀ {α : Type} {f : α → Record} {a b : Option α}, (a.isSome → b.isSome) →
      (a.map f).toList.length ≤ (b.map f).toList.length := by
    intro α f a b h
    cases a <;> cases b <;> simp_all
  cases c with
  | items => exact hlength (by simp [isSome_itemText?])
  | npcs => exact hlength (by simp [isSome_npcText?])
  | buffs =>
    apply hlength
    simp only [isSome_buffText?, ← isSome_hookCode?_setDefaults, Bool.and_eq_true, marks_withBodies]
    exact And.imp_right hdefaults
  | tiles =>
    apply hlength
    simp only [isSome_tileText?, ← isSome_hookCode?_setDefaults, Bool.and_eq_true, marks_withBodies]
    exact And.imp_right hdefaults
  | misc => simp [records, chatTexts_withBodies]
  | customs => simp [records, customTexts_withBodies]

end TypeDef

/-! ## What is extracted -/

/-- Lists of which one is member by member no longer than the other are the same exactly if they are
the same member by member. -/
theorem flatMap_eq_flatMap_iff {α β : Type} {f g : α → List β} {xs : List α}
    (hle : ∀ x ∈ xs, (g x).length ≤ (f x).length) :
    xs.flatMap f = xs.flatMap g ↔ ∀ x ∈ xs, f x = g x := by
  induction xs with
  | nil => simp
  | cons x xs ih =>
    obtain ⟨hx, hxs⟩ := List.forall_mem_cons.1 hle
    rw [List.flatMap_cons, List.flatMap_cons, List.forall_mem_cons, ← ih hxs]
    constructor
    · intro h
      have htotal := congrArg List.length h
      have hrest : (xs.flatMap g).length ≤ (xs.flatMap f).length := by
        rw [List.length_flatMap, List.length_flatMap]
        exact List.sum_le_sum hxs
      rw [List.length_append, List.length_append] at htotal
      exact List.append_inj h (by omega)
    · rintro ⟨hfirst, hrest⟩
      rw [hfirst, hrest]

namespace Module

/-- A module without its abstract and external methods. -/
def withBodies (m : Module) : Module :=
  { types := m.types.map (·.withBodies) }

/-- **What methods without a body hide.** Without them a module has the same lists for a selection,
exactly if in no selected category a type of the module loses anything: if code that a record would
take something from is not hidden by a method of the same kind that stands before it and has no
body. Messages and registered texts are never lost. -/
theorem extract_withBodies (m : Module) (selection : List Category) :
    m.withBodies.extract selection = m.extract selection ↔
      ∀ c ∈ selection, ∀ t ∈ m.types, ¬ t.Loses c := by
  have hcategory : ∀ c, m.withBodies.types.flatMap (·.records c) = m.types.flatMap (·.records c) ↔
      ∀ t ∈ m.types, ¬ t.Loses c := by
    intro c
    rw [withBodies, List.flatMap_map, flatMap_eq_flatMap_iff fun t _ =>
      t.length_records_le_withBodies c]
    simp only [TypeDef.records_withBodies_iff]
  constructor
  · intro h c hc
    have hrecords := congrArg (Extraction.records · c) h
    rw [records_extract, records_extract, if_pos (List.contains_iff_mem.2 hc),
      if_pos (List.contains_iff_mem.2 hc), hcategory] at hrecords
    exact hrecords
  · intro h
    apply Extraction.eq_of_records_eq
    intro c
    rw [records_extract, records_extract]
    split
    · rename_i hc
      exact (hcategory c).2 (h c (List.contains_iff_mem.1 hc))
    · rfl

/-- An abstract `GetChat` in front of one that says something. -/
theorem extract_withBodies_of_merchant :
    let silent : Method := { name := "GetChat" }
    let greeting : Method :=
      { name := "GetChat", body := some { instructions := [.pushString "Hi"] } }
    let merchant : TypeDef :=
      { name := "Merchant", marks := { npc := true }, methods := [silent, greeting] }
    let m : Module := { types := [merchant] }
    merchant.Loses .npcs ∧ m.withBodies.extract [.npcs] ≠ m.extract [.npcs] ∧
      (m.extract [.npcs]).npcs.map (·.chatTexts) = [[]] ∧
      (m.withBodies.extract [.npcs]).npcs.map (·.chatTexts) = [["Hi"]] := by
  intro silent greeting merchant m
  have hloses : merchant.Loses .npcs := by
    refine ⟨rfl, .literals "GetChat", by simp [Category.looks], [.pushString "Hi"], ?_, by decide⟩
    exact ⟨[], silent, [], greeting, [], rfl, by simp, by decide, rfl, by simp, by decide, rfl⟩
  refine ⟨hloses, ?_, by decide +kernel, by decide +kernel⟩
  intro hsame
  exact (extract_withBodies m [.npcs]).1 hsame .npcs (by simp) merchant (by simp [m]) hloses

end Module

end ModText
