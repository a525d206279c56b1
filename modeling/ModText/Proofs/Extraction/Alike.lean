import ModText.Proofs.Extraction.Selection
import Mathlib.Data.List.Forall2

/-!
# Modules that differ in code only

Extraction reads code through a few scans, and it looks methods up by their names and signatures. So if
two modules have the same types with the same methods, and all scans find the same in the code of each
two methods that go together, then the same records are extracted from both. What "the same in all
scans" comes to is another question for each change that is made to code; it is asked here through a
relation of streams.
-/

namespace ModText

/-- All scans find the same in both streams. -/
structure FindsAlike (code other : List Instruction) : Prop where
  defaults : defaultTexts other = defaultTexts code
  literals : stringLiterals other = stringLiterals code
  lines : tooltipLines other = tooltipLines code
  overflow : tooltipOverflow? other = tooltipOverflow? code
  bonus : lastSetBonus? other = lastSetBonus? code
  arguments : ∀ n, lastArgumentText? n other = lastArgumentText? n code
  messages : messages other = messages code
  registrations : registrations other = registrations code

namespace FindsAlike

variable {a b c : List Instruction}

theorem refl (a : List Instruction) : FindsAlike a a :=
  ⟨rfl, rfl, rfl, rfl, rfl, fun _ => rfl, rfl, rfl⟩

theorem symm (h : FindsAlike a b) : FindsAlike b a where
  defaults := h.defaults.symm
  literals := h.literals.symm
  lines := h.lines.symm
  overflow := h.overflow.symm
  bonus := h.bonus.symm
  arguments n := (h.arguments n).symm
  messages := h.messages.symm
  registrations := h.registrations.symm

theorem trans (h : FindsAlike a b) (h' : FindsAlike b c) : FindsAlike a c where
  defaults := h'.defaults.trans h.defaults
  literals := h'.literals.trans h.literals
  lines := h'.lines.trans h.lines
  overflow := h'.overflow.trans h.overflow
  bonus := h'.bonus.trans h.bonus
  arguments n := (h'.arguments n).trans (h.arguments n)
  messages := h'.messages.trans h.messages
  registrations := h'.registrations.trans h.registrations

end FindsAlike

/-- Methods of one name and signature: both have code, which is related, or none has. -/
structure Method.Alike (R : List Instruction → List Instruction → Prop) (m n : Method) : Prop where
  name : n.name = m.name
  isInstance : n.isInstance = m.isInstance
  parameterCount : n.parameterCount = m.parameterCount
  returnsVoid : n.returnsVoid = m.returnsVoid
  code : Option.Rel R m.instructions? n.instructions?

/-- Types of one name and with the same marks, whose methods are alike one by one. -/
structure TypeDef.Alike (R : List Instruction → List Instruction → Prop) (t u : TypeDef) : Prop where
  name : u.name = t.name
  namespaceName : u.namespaceName = t.namespaceName
  marks : u.marks = t.marks
  methods : List.Forall₂ (Method.Alike R) t.methods u.methods

/-- Modules whose types are alike one by one. -/
def Module.Alike (R : List Instruction → List Instruction → Prop) (m n : Module) : Prop :=
  List.Forall₂ (TypeDef.Alike R) m.types n.types

/-- Lists whose members yield the same one by one yield the same. -/
theorem flatMap_eq_of_forall₂ {α β γ : Type} {related : α → β → Prop} {f : α → List γ}
    {g : β → List γ} {xs : List α} {ys : List β} (h : List.Forall₂ related xs ys)
    (hfg : ∀ x y, related x y → g y = f x) : ys.flatMap g = xs.flatMap f := by
  induction h with
  | nil => rfl
  | cons hxy _ ih => rw [List.flatMap_cons, List.flatMap_cons, hfg _ _ hxy, ih]

/-- Lists have the same images if their members have the same images one by one, and only then. -/
theorem map_eq_iff_forall₂ {α β γ : Type} {f : α → γ} {g : β → γ} {xs : List α} {ys : List β} :
    ys.map g = xs.map f ↔ List.Forall₂ (fun x y => g y = f x) xs ys := by
  rw [← List.forall₂_eq_eq_eq, List.forall₂_map_left_iff, List.forall₂_map_right_iff]
  exact ⟨List.Forall₂.flip, List.Forall₂.flip⟩

/-- In lists whose members satisfy the same one by one, what is found goes together. -/
theorem find?_of_forall₂ {α β : Type} {related : α → β → Prop} {p : α → Bool} {q : β → Bool}
    {xs : List α} {ys : List β} (h : List.Forall₂ related xs ys)
    (hpq : ∀ x y, related x y → q y = p x) : Option.Rel related (xs.find? p) (ys.find? q) := by
  induction h with
  | nil => exact .none
  | @cons x y xs ys hxy _ ih =>
    rw [List.find?_cons, List.find?_cons, hpq x y hxy]
    cases p x with
    | true => exact .some hxy
    | false => exact ih

/-! ## Looking methods up -/

section

variable {R : List Instruction → List Instruction → Prop}

theorem find?_alike {kind : Method → Bool} (hkind : ∀ {m n}, Method.Alike R m n → kind n = kind m)
    {methods others : List Method} (h : List.Forall₂ (Method.Alike R) methods others) :
    Option.Rel R ((methods.find? kind).bind (·.instructions?))
      ((others.find? kind).bind (·.instructions?)) := by
  have hfound := find?_of_forall₂ h fun m n hmn => hkind hmn
  generalize methods.find? kind = found at hfound ⊢
  generalize others.find? kind = found' at hfound ⊢
  cases hfound with
  | some hmn => exact hmn.code
  | none => exact .none

variable {t u : TypeDef}

theorem TypeDef.Alike.methodCode? (h : t.Alike R u) (name : String) :
    Option.Rel R (t.methodCode? name) (u.methodCode? name) :=
  find?_alike (fun hmn => by rw [Method.isNamed, Method.isNamed, hmn.name]) h.methods

theorem TypeDef.Alike.hookCode? (h : t.Alike R u) (name : String) :
    Option.Rel R (t.hookCode? name) (u.hookCode? name) :=
  find?_alike (fun hmn => by
    rw [Method.isHook, Method.isHook, hmn.name, hmn.isInstance, hmn.parameterCount, hmn.returnsVoid])
    h.methods

/-! ## Records -/

variable (hR : ∀ {code other}, R code other → FindsAlike code other)

include hR

theorem map_eq_of_rel {β : Type} (find : List Instruction → β)
    (hfind : ∀ {code other}, FindsAlike code other → find other = find code)
    {code other : Option (List Instruction)} (h : Option.Rel R code other) :
    other.map find = code.map find := by
  cases h with
  | some hcode => exact congrArg some (hfind (hR hcode))
  | none => rfl

theorem bind_eq_of_rel {β : Type} (find : List Instruction → Option β)
    (hfind : ∀ {code other}, FindsAlike code other → find other = find code)
    {code other : Option (List Instruction)} (h : Option.Rel R code other) :
    other.bind find = code.bind find := by
  cases h with
  | some hcode => exact hfind (hR hcode)
  | none => rfl

theorem itemText?_alike (h : t.Alike R u) : itemText? u = itemText? t := by
  rw [itemText?, itemText?, h.marks, h.name, h.namespaceName,
    map_eq_of_rel hR defaultTexts FindsAlike.defaults (h.hookCode? _),
    map_eq_of_rel hR tooltipLines FindsAlike.lines (h.methodCode? _),
    bind_eq_of_rel hR lastSetBonus? FindsAlike.bonus (h.methodCode? _)]

theorem itemOverflow?_alike (h : t.Alike R u) : itemOverflow? u = itemOverflow? t := by
  rw [itemOverflow?, itemOverflow?, h.marks,
    bind_eq_of_rel hR tooltipOverflow? FindsAlike.overflow (h.methodCode? _)]

theorem npcText?_alike (h : t.Alike R u) : npcText? u = npcText? t := by
  have harguments : ∀ argument, (u.methodCode? "SetChatButtons").bind (lastArgumentText? argument) =
      (t.methodCode? "SetChatButtons").bind (lastArgumentText? argument) := fun argument =>
    bind_eq_of_rel hR (lastArgumentText? argument) (fun hcode => hcode.arguments argument)
      (h.methodCode? _)
  simp only [npcText?, h.marks, h.name, h.namespaceName, harguments,
    map_eq_of_rel hR defaultTexts FindsAlike.defaults (h.hookCode? _),
    map_eq_of_rel hR stringLiterals FindsAlike.literals (h.methodCode? _)]

theorem buffText?_alike (h : t.Alike R u) : buffText? u = buffText? t := by
  rw [buffText?, buffText?, h.marks, h.name, h.namespaceName,
    map_eq_of_rel hR _ (fun hcode => by rw [hcode.defaults]) (h.hookCode? _)]

theorem tileText?_alike (h : t.Alike R u) : tileText? u = tileText? t := by
  rw [tileText?, tileText?, h.marks, h.name, h.namespaceName,
    map_eq_of_rel hR _ (fun hcode => by rw [hcode.defaults]) (h.hookCode? _)]

theorem chatText?_alike (h : t.Alike R u) {m n : Method} (hmn : m.Alike R n) :
    chatText? u n = chatText? t m := by
  have hcode := hmn.code
  rw [chatText?, chatText?, h.name, h.namespaceName, hmn.name]
  generalize m.instructions? = code at hcode ⊢
  generalize n.instructions? = other at hcode ⊢
  cases hcode with
  | some hcode => simp only [(hR hcode).messages]
  | none => rfl

theorem chatTexts_alike (h : t.Alike R u) : chatTexts u = chatTexts t := by
  rw [chatTexts, chatTexts, List.filterMap_eq_flatMap_toList, List.filterMap_eq_flatMap_toList]
  exact flatMap_eq_of_forall₂ h.methods fun m n hmn => by rw [chatText?_alike hR h hmn]

theorem customTexts_alike (h : t.Alike R u) : customTexts u = customTexts t := by
  have hbodies : List.Forall₂ R t.bodies u.bodies :=
    List.rel_filterMap (fun _ _ hmn => hmn.code) h.methods
  rw [customTexts, customTexts, h.namespaceName,
    flatMap_eq_of_forall₂ hbodies fun code other hcode => (hR hcode).registrations]

theorem TypeDef.records_alike (h : t.Alike R u) (c : Category) : u.records c = t.records c := by
  cases c with
  | items => rw [records, records, itemText?_alike hR h]
  | npcs => rw [records, records, npcText?_alike hR h]
  | buffs => rw [records, records, buffText?_alike hR h]
  | misc => rw [records, records, chatTexts_alike hR h]
  | tiles => rw [records, records, tileText?_alike hR h]
  | customs => rw [records, records, customTexts_alike hR h]

/-- Modules that are alike hold the same records if the code of methods that go together is alike to
all scans. -/
theorem Module.extract_alike {m n : Module} (h : m.Alike R n) (selection : List Category) :
    n.extract selection = m.extract selection := by
  apply Extraction.eq_of_records_eq
  intro c
  rw [records_extract, records_extract,
    flatMap_eq_of_forall₂ h fun t u htu => TypeDef.records_alike hR htu c]

/-- So it is for a program that checks its sums. -/
theorem Module.extractChecked_alike {m n : Module} (h : m.Alike R n) (selection : List Category) :
    n.extractChecked selection = m.extractChecked selection := by
  have hoverflow : n.overflow? selection = m.overflow? selection := by
    rw [overflow?, overflow?, ← List.head?_filterMap, ← List.head?_filterMap, List.filterMap_eq_flatMap_toList,
      List.filterMap_eq_flatMap_toList,
      flatMap_eq_of_forall₂ h fun t u htu => by rw [itemOverflow?_alike hR htu]]
  rw [extractChecked, extractChecked, hoverflow, extract_alike hR h]

end

end ModText
