import Mathlib.Logic.Relation
import ModText.Code.Format
import ModText.Proofs.Json.Latitude

/-!
# Modules that are written down differently

What a payload holds as a module does not depend on how it is put. Fields may be in any order, fields
that an object does not know may come and go, and so may fields that hold their defaults, anywhere in
the nest of modules, types, methods, bodies, instructions and member references.

An instruction is not read like the other objects: its members are taken in before its `op` tells
what they mean. So its order does not matter for another reason (`decode_object_eq_ok`), the names
that it knows depend on its `op`, and what is inserted into it has to be free of faults and is bound
by the limit on nesting, while all the others skip what they do not know.
-/

namespace ModText

open Json (Draft Decoded Medium Shape)

/-! ## Member references -/

namespace MemberRef

/-- The values of a member reference may be nested one level less than the reference itself. -/
def latitude : Json.Latitude where
  defaults := [("parameterCount", .number (some (.integer 0)))]
  spare d := (d.settle? (Instruction.valueLevels - 1)).isSome
  within _ _ _ := False

/-- One change of a member reference. -/
def Restates : Draft → Draft → Prop :=
  shape.Restates latitude

theorem commutes_shape : shape.Commutes := by
  have htype : shape.Puts "declaringType" Draft.text fun v m => { m with declaringType := v } :=
    fun _ _ => rfl
  have hname : shape.Puts "name" Draft.text fun v m => { m with name := v } := fun _ _ => rfl
  have hcount : shape.Puts "parameterCount" Draft.word64 fun v m =>
    { m with parameterCount := v } := fun _ _ => rfl
  have hfields : shape.fields.map Prod.fst = ["declaringType", "name", "parameterCount"] := rfl
  rw [Shape.Commutes, hfields]
  simp only [List.pairwise_cons, List.forall_mem_cons, List.not_mem_nil, List.Pairwise.nil,
    IsEmpty.forall_iff, implies_true, and_true]
  exact ⟨⟨htype.commuteAt hname fun _ _ _ => rfl, htype.commuteAt hcount fun _ _ _ => rfl⟩,
    hname.commuteAt hcount fun _ _ _ => rfl⟩

theorem bears_latitude : shape.Bears latitude where
  commutes := commutes_shape
  defaults f hf := by
    obtain rfl := List.mem_singleton.1 hf
    exact ⟨by decide, by decide, rfl⟩
  spare d hd := Draft.isWhole_of_settles hd
  within _ _ _ h := h.elim

theorem settles_of_restates {d d' : Draft} (h : Restates d d')
    (hd : (d.settle? Instruction.valueLevels).isSome) :
    (d'.settle? Instruction.valueLevels).isSome := by
  rw [Instruction.valueLevels] at hd ⊢
  cases h with
  | permute hperm =>
    rw [Draft.settles_object] at hd ⊢
    exact fun m hm => hd m (hperm.mem_iff.2 hm)
  | insert _ hspare =>
    rw [Draft.settles_object] at hd ⊢
    exact List.forall_mem_cons.2 ⟨⟨rfl, hspare⟩, hd⟩
  | leaveOut =>
    rw [Draft.settles_object, List.forall_mem_cons] at hd
    exact Draft.settles_object.2 hd.2
  | member hwithin => exact hwithin.elim
  | item _ hwithin => exact hwithin.elim

end MemberRef

/-! ## Instructions -/

namespace Instruction

/-- The operations with a meaning. Every other `op` is opaque. -/
def operations : List String :=
  ["ldstr", "call", "callvirt", "newobj", "stfld", "stloc", "ldloc", "ldarg", "ldelem_ref"]

/-- The operations on a member, each with the name under which it has the member. -/
def references : List (String × String) :=
  [("call", "method"), ("callvirt", "method"), ("newobj", "ctor"), ("stfld", "field")]

/-- One change of an instruction. Which names it knows depends on its `op`. -/
inductive Restates : Draft → Draft → Prop
  | permute {members members' : List (Option String × Draft)} : members.Perm members' →
      Restates (.object members true) (.object members' true)
  | insert {op name : String} {d : Draft} {members : List (Option String × Draft)} :
      (some "op", .string (some op)) ∈ members → name ≠ "op" →
      (shapeOf op).hasField name = false → (d.settle? valueLevels).isSome →
      Restates (.object members true) (.object ((some name, d) :: members) true)
  | operand {op field : String} {d d' : Draft} {members : List (Option String × Draft)} :
      (some "op", .string (some op)) ∈ members → (op, field) ∈ references →
      MemberRef.Restates d d' →
      Restates (.object ((some field, d) :: members) true)
        (.object ((some field, d') :: members) true)
  | operandItem {op field : String} {d d' : Draft} :
      (op, field) ∈ references → MemberRef.Restates d d' →
      Restates (.array [.string (some op), d] true) (.array [.string (some op), d'] true)
  | rename {op op' : String} {members : List (Option String × Draft)} :
      op ∉ operations → op' ∉ operations →
      Restates (.object ((some "op", .string (some op)) :: members) true)
        (.object ((some "op", .string (some op')) :: members) true)
  | renameItem {op op' : String} {items : List Draft} :
      op ∉ operations → op' ∉ operations →
      Restates (.array (.string (some op) :: items) true)
        (.array (.string (some op') :: items) true)

theorem shapeOf_eq_bare {op : String} (h : op ∉ operations) : shapeOf op = bare .other := by
  simp only [operations, List.mem_cons, not_or] at h
  rw [shapeOf] <;> simp_all

theorem shapeOf_reference {op field : String} (h : (op, field) ∈ references) :
    field ≠ "op" ∧ ∃ make, shapeOf op = operand field (MemberRef.shape.decode .value) make := by
  simp only [references, List.mem_cons, Prod.mk.injEq, List.not_mem_nil, or_false] at h
  rcases h with ⟨rfl, rfl⟩ | ⟨rfl, rfl⟩ | ⟨rfl, rfl⟩ | ⟨rfl, rfl⟩ <;> exact ⟨by decide, _, rfl⟩

theorem fields_reference {op field : String} (h : (op, field) ∈ references) :
    (shapeOf op).fields = [(field, .required)] := by
  obtain ⟨-, make, hshape⟩ := shapeOf_reference h
  rw [hshape]
  rfl

theorem commutes_shapeOf (op : String) : (shapeOf op).Commutes := by
  have hbare (i : Instruction) : (bare i).Commutes := .nil
  have hoperand {α : Type} (field : String) (value : Draft → Decoded α) (make : α → Instruction) :
      (operand field value make).Commutes := List.pairwise_singleton _ _
  unfold shapeOf
  split <;> first | exact hbare _ | exact hoperand _ _ _

/-- A member that an instruction takes in for its shape. -/
def TakesIn (medium : Medium) (m : Option String × Draft) : Prop :=
  ∃ name, m.1 = some name ∧ name ≠ "op" ∧ settled medium m.2 = .ok m.2

theorem eq_of_settled {medium : Medium} {d d' : Draft} (h : settled medium d = .ok d') :
    d' = d := by
  cases medium with
  | value => exact (Except.ok.inj h).symm
  | text =>
    rw [settled] at h
    split at h
    · exact (Except.ok.inj h).symm
    · cases h

theorem text_eq_ok {d : Draft} {t : String} : d.text = .ok t ↔ d = .string (some t) := by
  constructor
  · intro h
    cases d with
    | string o => cases o with
      | some t' => exact congrArg _ (congrArg some (Except.ok.inj h))
      | none => cases h
    | null | bool | number | array | object | broken => cases h
  · rintro rfl
    rfl

section TakeMembers

variable {medium : Medium} {op : String} {members rest : List (Option String × Draft)}

theorem takeMembers_some {op' : Option String} :
    takeMembers medium (some op) members = .ok (op', rest) ↔
      op' = some op ∧ rest = members ∧ ∀ m ∈ members, TakesIn medium m := by
  induction members generalizing op' rest with
  | nil => simp [takeMembers, eq_comm]
  | cons m tail ih =>
    obtain ⟨_ | name, d⟩ := m
    · simp [takeMembers, TakesIn]
    rw [takeMembers]
    by_cases hname : name = "op"
    · simp [hname, TakesIn]
    rw [if_neg hname, Decoded.bind_eq_ok]
    simp only [Decoded.bind_eq_ok, Prod.exists, ih]
    constructor
    · rintro ⟨d', hd, _, _, ⟨rfl, rfl, htail⟩, ⟨⟩⟩
      obtain rfl := eq_of_settled hd
      exact ⟨rfl, rfl, List.forall_mem_cons.2 ⟨⟨name, rfl, hname, hd⟩, htail⟩⟩
    · rintro ⟨rfl, rfl, hmembers⟩
      obtain ⟨⟨_, ⟨⟩, -, hd⟩, htail⟩ := List.forall_mem_cons.1 hmembers
      exact ⟨d, hd, some op, tail, ⟨rfl, rfl, htail⟩, rfl⟩

theorem takeMembers_none :
    takeMembers medium none members = .ok (some op, rest) ↔
      ∃ front behind, members = front ++ (some "op", .string (some op)) :: behind ∧
        rest = front ++ behind ∧ ∀ m ∈ rest, TakesIn medium m := by
  induction members generalizing rest with
  | nil => simp [takeMembers]
  | cons m tail ih =>
    obtain ⟨_ | name, d⟩ := m
    · constructor
      · intro h
        cases h
      · rintro ⟨_ | ⟨_, front⟩, behind, ⟨⟩, rfl, htakes⟩
        obtain ⟨_, ⟨⟩, -⟩ := htakes _ List.mem_cons_self
    rw [takeMembers]
    by_cases hname : name = "op"
    · rw [if_pos hname, Decoded.bind_eq_ok]
      simp only [takeMembers_some, text_eq_ok, Option.some.injEq]
      constructor
      · rintro ⟨o, rfl, rfl, rfl, htail⟩
        exact ⟨[], rest, by rw [hname, List.nil_append], rfl, htail⟩
      · rintro ⟨_ | ⟨_, front⟩, behind, ⟨⟩, rfl, htakes⟩
        · exact ⟨op, rfl, rfl, rfl, htakes⟩
        · obtain ⟨_, ⟨⟩, hne, -⟩ := htakes _ List.mem_cons_self
          exact absurd hname hne
    · rw [if_neg hname, Decoded.bind_eq_ok]
      simp only [Decoded.bind_eq_ok, Prod.exists]
      constructor
      · rintro ⟨d', hd, o, ms, htail, hend⟩
        obtain ⟨rfl, rfl⟩ := Prod.mk.inj (Except.ok.inj hend)
        obtain rfl := eq_of_settled hd
        obtain ⟨front, behind, rfl, rfl, htakes⟩ := ih.1 htail
        exact ⟨(some name, d') :: front, behind, rfl, rfl,
          List.forall_mem_cons.2 ⟨⟨name, rfl, hname, hd⟩, htakes⟩⟩
      · rintro ⟨_ | ⟨_, front⟩, behind, ⟨⟩, rfl, htakes⟩
        · exact absurd rfl hname
        · obtain ⟨⟨_, ⟨⟩, -, hd⟩, htail⟩ := List.forall_mem_cons.1 htakes
          exact ⟨d, hd, some op, front ++ behind, ih.2 ⟨front, behind, rfl, rfl, htail⟩, rfl⟩

end TakeMembers

section Decode

variable {medium : Medium} {op : String} {i : Instruction}
  {members rest : List (Option String × Draft)}

/-- An object is decoded by the shape that goes with its `op`, wherever that stands. -/
theorem decode_object_eq_ok :
    decode medium (.object members true) = .ok i ↔
      ∃ op rest, members.Perm ((some "op", .string (some op)) :: rest) ∧
        (∀ m ∈ rest, TakesIn medium m) ∧ (shapeOf op).Reads rest i := by
  constructor
  · intro h
    obtain ⟨⟨_ | op, rest⟩, htake, hdecode⟩ := Decoded.bind_eq_ok.1 h
    · cases hdecode
    have hdecode : (shapeOf op).decode .value (.object rest true) = .ok i := hdecode
    have hreads := Shape.decode_object_eq_ok.1 hdecode
    obtain ⟨front, behind, rfl, rfl, htakes⟩ := takeMembers_none.1 htake
    exact ⟨op, front ++ behind, List.perm_middle, htakes, hreads⟩
  · rintro ⟨op, rest, hperm, htakes, hreads⟩
    obtain ⟨front, behind, rfl⟩ := List.append_of_mem (hperm.mem_iff.2 List.mem_cons_self)
    have hrest : (front ++ behind).Perm rest := (List.perm_middle.symm.trans hperm).cons_inv
    have htake : takeMembers medium none _ = .ok (some op, front ++ behind) := takeMembers_none.2
      ⟨front, behind, rfl, rfl, fun m hm => htakes m (hrest.mem_iff.1 hm)⟩
    have hdecode : (shapeOf op).decode .value (.object (front ++ behind) true) = .ok i :=
      Shape.decode_object_eq_ok.2 (hreads.perm (commutes_shapeOf op) hrest.symm)
    exact Decoded.bind_eq_ok.2 ⟨_, htake, hdecode⟩

/-- There is no second `op`. -/
theorem op_unique {op' : String} (hop : (some "op", .string (some op)) ∈ members)
    (hperm : members.Perm ((some "op", .string (some op')) :: rest))
    (htakes : ∀ m ∈ rest, TakesIn medium m) : op' = op := by
  rcases List.mem_cons.1 (hperm.mem_iff.1 hop) with heq | hmem
  · simpa using heq.symm
  · obtain ⟨_, ⟨⟩, hne, -⟩ := htakes _ hmem
    exact absurd rfl hne

theorem mapM_settled {ds ds' : List Draft} :
    ds.mapM (settled medium) = .ok ds' ↔ ds' = ds ∧ ∀ d ∈ ds, settled medium d = .ok d := by
  induction ds generalizing ds' with
  | nil => simp [pure, Except.pure, eq_comm]
  | cons d ds ih =>
    rw [List.mapM_cons, Decoded.bind_eq_ok]
    simp only [Decoded.bind_eq_ok, ih]
    constructor
    · rintro ⟨d', hd, _, ⟨rfl, hds⟩, ⟨⟩⟩
      obtain rfl := eq_of_settled hd
      exact ⟨rfl, List.forall_mem_cons.2 ⟨hd, hds⟩⟩
    · rintro ⟨rfl, hds⟩
      rw [List.forall_mem_cons] at hds
      exact ⟨d, hds.1, ds, ⟨rfl, hds.2⟩, rfl⟩

/-- An array is decoded by the shape that goes with its first item. -/
theorem decode_array_eq_ok {items : List Draft} :
    decode medium (.array (.string (some op) :: items) true) = .ok i ↔
      (∀ d ∈ items, settled medium d = .ok d) ∧
        (shapeOf op).decode .value (.array items true) = .ok i := by
  have hdecode : decode medium (.array (.string (some op) :: items) true) =
      (items.mapM (settled medium) >>= fun ds => (shapeOf op).decode .value (.array ds true)) :=
    rfl
  rw [hdecode, Decoded.bind_eq_ok]
  simp only [mapM_settled]
  constructor
  · rintro ⟨_, ⟨rfl, hsettled⟩, h⟩
    exact ⟨hsettled, h⟩
  · rintro ⟨hsettled, h⟩
    exact ⟨items, ⟨rfl, hsettled⟩, h⟩

theorem settled_of_restates {d d' : Draft} (h : MemberRef.Restates d d')
    (hd : settled medium d = .ok d) : settled medium d' = .ok d' := by
  cases medium with
  | value => rfl
  | text =>
    rw [settled] at hd ⊢
    split at hd
    · rename_i hsettles
      exact if_pos (MemberRef.settles_of_restates h hsettles)
    · cases hd

/-- The shape of an operation on a member reads changed references as the member they are. -/
theorem read_reference {field : String} (h : (op, field) ∈ references) {d d' : Draft}
    (hd : MemberRef.Restates d d') (a b : Instruction) :
    (shapeOf op).read field d a = .ok b → (shapeOf op).read field d' a = .ok b := by
  obtain ⟨-, make, hshape⟩ := shapeOf_reference h
  rw [hshape]
  intro hread
  obtain ⟨m, hm, hb⟩ := Decoded.bind_eq_ok.1 hread
  exact Decoded.bind_eq_ok.2 ⟨m, MemberRef.bears_latitude.decode_restates hd hm, hb⟩

/-- Documents that say the same are decoded as the same instruction. -/
theorem decode_restates {d d' : Draft} (hrestates : Restates d d') (hd : decode .text d = .ok i) :
    decode .text d' = .ok i := by
  cases hrestates with
  | permute hperm =>
    rw [decode_object_eq_ok] at hd ⊢
    obtain ⟨op, rest, hmembers, htakes, hreads⟩ := hd
    exact ⟨op, rest, hperm.symm.trans hmembers, htakes, hreads⟩
  | @insert op name d members hop hne hname hsettles =>
    rw [decode_object_eq_ok] at hd ⊢
    obtain ⟨op', rest, hmembers, htakes, hreads⟩ := hd
    obtain rfl := op_unique hop hmembers htakes
    have hnew : TakesIn .text (some name, d) := ⟨name, rfl, hne, if_pos hsettles⟩
    exact ⟨op', (some name, d) :: rest, (hmembers.cons _).trans (.swap ..),
      List.forall_mem_cons.2 ⟨hnew, htakes⟩,
      hreads.cons_other hname (Draft.isWhole_of_settles hsettles)⟩
  | @operand op field d d' members hop hfield hd' =>
    rw [decode_object_eq_ok] at hd ⊢
    obtain ⟨op', rest, hmembers, htakes, hreads⟩ := hd
    obtain rfl := op_unique (List.mem_cons_of_mem _ hop) hmembers htakes
    have hne : field ≠ "op" := (shapeOf_reference hfield).1
    have hmem : (some field, d) ∈ rest := by
      refine (List.mem_cons.1 (hmembers.mem_iff.1 List.mem_cons_self)).resolve_left ?_
      simp [hne]
    -- The reference comes first in what is taken in, so that only the head changes.
    obtain ⟨front, behind, rfl⟩ := List.append_of_mem hmem
    have hrest : (front ++ (some field, d) :: behind).Perm ((some field, d) :: (front ++ behind)) :=
      List.perm_middle
    have hmembers := (hmembers.trans ((hrest.cons _).trans (.swap ..))).cons_inv
    obtain ⟨⟨_, ⟨⟩, -, hd⟩, htakes⟩ := List.forall_mem_cons.1
      fun m hm => htakes m (hrest.mem_iff.2 hm)
    have hnew : TakesIn .text (some field, d') := ⟨field, rfl, hne, settled_of_restates hd' hd⟩
    have hfirst := hreads.perm (commutes_shapeOf op') hrest
    have hhas : (shapeOf op').hasField field = true := by
      simp [Shape.hasField, fields_reference hfield]
    exact ⟨op', (some field, d') :: (front ++ behind), (hmembers.cons _).trans (.swap ..),
      List.forall_mem_cons.2 ⟨hnew, htakes⟩, hfirst.cons_congr hhas (read_reference hfield hd')⟩
  | @operandItem op field d d' hfield hd' =>
    rw [decode_array_eq_ok] at hd ⊢
    simp only [List.mem_singleton, forall_eq] at hd ⊢
    have hplace : ((shapeOf op).fields.map Prod.fst)[([] : List Draft).length]? = some field := by
      simp [fields_reference hfield]
    exact ⟨settled_of_restates hd' hd.1, Shape.decode_array_congr
      (fun _ => Shape.readItems_congr [] hplace (read_reference hfield hd')) hd.2⟩
  | @rename op op' members hop hop' =>
    rw [decode_object_eq_ok] at hd ⊢
    obtain ⟨op'', rest, hmembers, htakes, hreads⟩ := hd
    obtain rfl := op_unique List.mem_cons_self hmembers htakes
    rw [shapeOf_eq_bare hop] at hreads
    rw [← shapeOf_eq_bare hop'] at hreads
    exact ⟨op', rest, hmembers.cons_inv.cons _, htakes, hreads⟩
  | @renameItem op op' items hop hop' =>
    rw [decode_array_eq_ok] at hd ⊢
    rwa [shapeOf_eq_bare hop', ← shapeOf_eq_bare hop]

end Decode

end Instruction

/-! ## Bodies, methods, types and modules -/

namespace MethodBody

/-- What the document of a method body leaves open. -/
def latitude : Json.Latitude where
  defaults := [("locals", .number (some (.integer 0))), ("instructions", .array [] true)]
  spare d := d.isWhole
  within name d d' := name = "instructions" ∧ Draft.ItemChange Instruction.Restates d d'

theorem bears_latitude : (shape .text).Bears latitude := by
  have hlocals : (shape .text).Puts "locals" Draft.word16 fun v b => { b with locals := v } :=
    fun _ _ => rfl
  have hinstructions : (shape .text).Puts "instructions"
      (Draft.list (Instruction.decode .text)) fun v b => { b with instructions := v } :=
    fun _ _ => rfl
  have hcommutes : (shape .text).Commutes :=
    List.pairwise_pair.2 (hlocals.commuteAt hinstructions fun _ _ _ => rfl)
  refine ⟨hcommutes, ?_, fun _ h => h, ?_⟩
  · simp only [latitude, List.forall_mem_cons, List.not_mem_nil, IsEmpty.forall_iff, implies_true,
      and_true]
    exact ⟨⟨rfl, by simp [shape], rfl⟩, rfl, by simp [shape], rfl⟩
  · rintro _ d d' ⟨rfl, hchange⟩
    exact ⟨rfl, fun a b => hinstructions.read_congr fun _ =>
      hchange.list_congr Instruction.decode_restates⟩

end MethodBody

namespace Method

/-- What the document of a method leaves open. -/
def latitude : Json.Latitude where
  defaults := [("isInstance", .bool true), ("parameterCount", .number (some (.integer 0))),
    ("returnsVoid", .bool true), ("body", .null)]
  spare d := d.isWhole
  within name d d' := name = "body" ∧ (MethodBody.shape .text).Restates MethodBody.latitude d d'

theorem bears_latitude : (shape .text).Bears latitude := by
  have hname : (shape .text).Puts "name" Draft.text fun v m => { m with name := v } :=
    fun _ _ => rfl
  have hinstance : (shape .text).Puts "isInstance" Draft.flag fun v m =>
    { m with isInstance := v } := fun _ _ => rfl
  have hcount : (shape .text).Puts "parameterCount" Draft.word64 fun v m =>
    { m with parameterCount := v } := fun _ _ => rfl
  have hvoid : (shape .text).Puts "returnsVoid" Draft.flag fun v m =>
    { m with returnsVoid := v } := fun _ _ => rfl
  have hbody : (shape .text).Puts "body"
      (Draft.optional ((MethodBody.shape .text).decode .text)) fun v m => { m with body := v } :=
    fun _ _ => rfl
  have hfields : (shape .text).fields.map Prod.fst =
      ["name", "isInstance", "parameterCount", "returnsVoid", "body"] := rfl
  refine ⟨?_, ?_, fun _ h => h, ?_⟩
  · rw [Shape.Commutes, hfields]
    simp only [List.pairwise_cons, List.forall_mem_cons, List.not_mem_nil, List.Pairwise.nil,
      IsEmpty.forall_iff, implies_true, and_true]
    exact ⟨⟨hname.commuteAt hinstance fun _ _ _ => rfl, hname.commuteAt hcount fun _ _ _ => rfl,
        hname.commuteAt hvoid fun _ _ _ => rfl, hname.commuteAt hbody fun _ _ _ => rfl⟩,
      ⟨hinstance.commuteAt hcount fun _ _ _ => rfl, hinstance.commuteAt hvoid fun _ _ _ => rfl,
        hinstance.commuteAt hbody fun _ _ _ => rfl⟩,
      ⟨hcount.commuteAt hvoid fun _ _ _ => rfl, hcount.commuteAt hbody fun _ _ _ => rfl⟩,
      hvoid.commuteAt hbody fun _ _ _ => rfl⟩
  · simp only [latitude, List.forall_mem_cons, List.not_mem_nil, IsEmpty.forall_iff, implies_true,
      and_true]
    exact ⟨⟨rfl, by simp [shape], rfl⟩, ⟨rfl, by simp [shape], rfl⟩, ⟨rfl, by simp [shape], rfl⟩,
      rfl, by simp [shape], rfl⟩
  · rintro _ d d' ⟨rfl, hchange⟩
    exact ⟨rfl, fun a b => hbody.read_congr fun _ =>
      Draft.optional_congr hchange.ne_null.1 hchange.ne_null.2 fun _ =>
        MethodBody.bears_latitude.decode_restates hchange⟩

end Method

namespace TypeDef

/-- What the document of a type leaves open. -/
def latitude : Json.Latitude where
  defaults := [("namespace", .string (some "")), ("baseTypes", .array [] true),
    ("methods", .array [] true)]
  spare d := d.isWhole
  within name d d' := name = "methods" ∧
    Draft.ItemChange ((Method.shape .text).Restates Method.latitude) d d'

theorem bears_latitude : (shape .text).Bears latitude := by
  have hname : (shape .text).Puts "name" Draft.text fun v t => { t with name := v } :=
    fun _ _ => rfl
  have hnamespace : (shape .text).Puts "namespace" Draft.text fun v t =>
    { t with namespaceName := v } := fun _ _ => rfl
  have hbases : (shape .text).Puts "baseTypes" (Draft.list Draft.text) fun v t =>
    { t with baseTypes := v } := fun _ _ => rfl
  have hmethods : (shape .text).Puts "methods" (Draft.list ((Method.shape .text).decode .text))
      fun v t => { t with methods := v } := fun _ _ => rfl
  have hfields : (shape .text).fields.map Prod.fst =
      ["name", "namespace", "baseTypes", "methods"] := rfl
  refine ⟨?_, ?_, fun _ h => h, ?_⟩
  · rw [Shape.Commutes, hfields]
    simp only [List.pairwise_cons, List.forall_mem_cons, List.not_mem_nil, List.Pairwise.nil,
      IsEmpty.forall_iff, implies_true, and_true]
    exact ⟨⟨hname.commuteAt hnamespace fun _ _ _ => rfl, hname.commuteAt hbases fun _ _ _ => rfl,
        hname.commuteAt hmethods fun _ _ _ => rfl⟩,
      ⟨hnamespace.commuteAt hbases fun _ _ _ => rfl,
        hnamespace.commuteAt hmethods fun _ _ _ => rfl⟩,
      hbases.commuteAt hmethods fun _ _ _ => rfl⟩
  · simp only [latitude, List.forall_mem_cons, List.not_mem_nil, IsEmpty.forall_iff, implies_true,
      and_true]
    exact ⟨⟨rfl, by simp [shape], rfl⟩, ⟨rfl, by simp [shape], rfl⟩, rfl, by simp [shape], rfl⟩
  · rintro _ d d' ⟨rfl, hchange⟩
    exact ⟨rfl, fun a b => hmethods.read_congr fun _ =>
      hchange.list_congr Method.bears_latitude.decode_restates⟩

end TypeDef

namespace Module

/-- What the document of a module leaves open. -/
def latitude : Json.Latitude where
  defaults := [("types", .array [] true)]
  spare d := d.isWhole
  within name d d' := name = "types" ∧
    Draft.ItemChange ((TypeDef.shape .text).Restates TypeDef.latitude) d d'

/-- One change of the document of a module. -/
def Restates : Draft → Draft → Prop :=
  (shape .text).Restates latitude

theorem bears_latitude : (shape .text).Bears latitude := by
  have htypes : (shape .text).Puts "types" (Draft.list ((TypeDef.shape .text).decode .text))
      fun v m => { m with types := v } := fun _ _ => rfl
  refine ⟨List.pairwise_singleton _ _, ?_, fun _ h => h, ?_⟩
  · simp only [latitude, List.forall_mem_singleton]
    exact ⟨rfl, by simp [shape], rfl⟩
  · rintro _ d d' ⟨rfl, hchange⟩
    exact ⟨rfl, fun a b => htypes.read_congr fun _ =>
      hchange.list_congr TypeDef.bears_latitude.decode_restates⟩

theorem decode_restated {d d' : Draft} (h : Relation.ReflTransGen Restates d d') {m : Module}
    (hd : (shape .text).decode .text d = .ok m) : (shape .text).decode .text d' = .ok m := by
  induction h with
  | refl => exact hd
  | tail _ hstep ih => exact bears_latitude.decode_restates hstep ih

/-- **A module does not depend on how it is written down**: when a payload is decoded as a module, so
is every other payload whose document is reached from the document of the first by any number of
changes. The document of a payload is what its text spells (`Draft.ofSymbols_of_spells`). -/
theorem ofPayload_restated {payload payload' : ByteArray} {d d' : Draft} {m : Module}
    (hd : Draft.ofSymbols (Text.symbols payload) = (d, true))
    (hd' : Draft.ofSymbols (Text.symbols payload') = (d', true))
    (hchanges : Relation.ReflTransGen Restates d d') (hm : ofPayload payload = .ok m) :
    ofPayload payload' = .ok m := by
  rw [ofPayload, Json.decodeText, hd] at hm
  obtain ⟨_, hdecode, ⟨⟩⟩ := Decoded.bind_eq_ok.1 hm
  rw [ofPayload, Json.decodeText, hd']
  exact Decoded.bind_eq_ok.2 ⟨m, decode_restated hchanges hdecode, rfl⟩

/-- An opaque instruction may name another operation and hold its members in another order. -/
theorem ofPayload_restated_opaque :
    let code (i : Json) : Json := .object [("types", .array [.object [("methods", .array [.object
      [("body", .object [("instructions", .array [i])]), ("name", .string "Load")]]),
      ("name", .string "Hook")]])]
    let before := code (.object [("op", .string "nop"), ("size", .ofNat 1)])
    let after := code (.object [("size", .ofNat 1), ("op", .string "break")])
    let m : Module :=
      ⟨[{ name := "Hook", methods := [{ name := "Load", body := some ⟨0, [.other]⟩ }] }]⟩
    Draft.ofSymbols (Text.symbols before.toCompact.toUTF8) = (before.draft, true) ∧
      Draft.ofSymbols (Text.symbols after.toCompact.toUTF8) = (after.draft, true) ∧
      Relation.ReflTransGen Restates before.draft after.draft ∧
      ofPayload before.toCompact.toUTF8 = .ok m ∧ ofPayload after.toCompact.toUTF8 = .ok m := by
  intro code before after m
  have hsize : (Json.ofNat 1).Held := Json.held_ofNat (by decide)
  have hread (i : Json) (hi : i.Held) :
      Draft.ofSymbols (Text.symbols (code i).toCompact.toUTF8) = ((code i).draft, true) := by
    have hcode : (code i).Held := by simp [code, hi]
    have htext := (Json.ofSymbols_text hcode [] Json.blanks_nil).1
    rwa [String.ofList_nil, String.append_empty] at htext
  have hbefore := hread (.object [("op", .string "nop"), ("size", .ofNat 1)]) (by simp [hsize])
  have hafter := hread (.object [("size", .ofNat 1), ("op", .string "break")]) (by simp [hsize])
  have hinside {i j : Json} (h : Instruction.Restates i.draft j.draft) :
      Restates (code i).draft (code j).draft :=
    Shape.Restates.member ⟨rfl, .mk [] [] (.member ⟨rfl, .mk [] []
      (.member ⟨rfl, .member ⟨rfl, .mk [] [] h⟩⟩)⟩)⟩
  have hchanges : Relation.ReflTransGen Restates before.draft after.draft := by
    have hop : Restates before.draft
        (code (.object [("op", .string "break"), ("size", .ofNat 1)])).draft :=
      hinside (Instruction.Restates.rename (by decide) (by decide))
    exact (Relation.ReflTransGen.single hop).tail (hinside (.permute (.swap ..)))
  have hm : ofPayload before.toCompact.toUTF8 = .ok m := by
    rw [ofPayload, Json.decodeText, hbefore]
    rfl
  exact ⟨hbefore, hafter, hchanges, hm, ofPayload_restated hbefore hafter hchanges hm⟩

end Module

end ModText
