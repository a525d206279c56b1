import Mathlib.Data.List.Nodup
import Mathlib.Data.List.Pairwise
import ModText.Json.Decoder
import ModText.Proofs.Json.Printing

/-!
# What it takes to read a structure

A structure is read from an object member by member, and the reading stops at the first fault. Read
as a whole it is simpler: `Reads` says that the members have names, that those of no field can be
skipped, that no field comes twice and none is missing that has to be there, and that the fields are
read in their order. An object is decoded exactly if its members are such (`decode_object_eq_ok`), and
what is proved about objects further on is proved of `Reads`.

Two kinds of members are looked at here. An object that was written from a structure has the fields
of the structure in their order (`decode_draft`). And fields that can be read in either order two by
two can be read in any order (`Reads.perm`).
-/

namespace ModText.Json

namespace Decoded

variable {α β : Type}

@[simp] theorem ok_bind (a : α) (f : α → Decoded β) : (Except.ok a >>= f) = f a :=
  rfl

@[simp] theorem map_ok (f : α → β) (a : α) : (f <$> Except.ok a : Decoded β) = .ok (f a) :=
  rfl

theorem bind_eq_ok {x : Decoded α} {f : α → Decoded β} {b : β} :
    x >>= f = .ok b ↔ ∃ a, x = .ok a ∧ f a = .ok b := by
  cases x with
  | error e => simp [bind, Except.bind]
  | ok a => simp

end Decoded

theorem draftMembers_eq_map (members : List (String × Json)) :
    draftMembers members = members.map fun m => (some m.1, m.2.draft) := by
  induction members with
  | nil => rfl
  | cons m rest ih => rw [draftMembers, ih, List.map_cons]

/-! ## Documents that are written -/

theorem held_ofNat {n : Nat} (h : n < UInt64.size) : (ofNat n).Held :=
  .number (Number.held_integer ⟨by simp [Int64.minValue], Int.ofNat_lt.2 h⟩)

@[simp] theorem held_word16 (n : UInt16) : (ofNat n.toNat).Held :=
  held_ofNat (Nat.lt_trans n.toNat_lt_size (by decide))

@[simp] theorem held_word64 (n : UInt64) : (ofNat n.toNat).Held :=
  held_ofNat n.toNat_lt_size

theorem held_ofList {α : Type} {toJson : α → Json} (h : ∀ a, (toJson a).Held) (xs : List α) :
    (ofList toJson xs).Held := by
  refine .array fun j hj => ?_
  obtain ⟨a, -, rfl⟩ := List.mem_map.1 hj
  exact h a

theorem held_ofOption {α : Type} {toJson : α → Json} (h : ∀ a, (toJson a).Held) (x : Option α) :
    (ofOption toJson x).Held := by
  cases x with
  | none => exact .null
  | some a => exact h a

namespace Draft

theorem natural_ofNat {bound n : Nat} (h : n < bound) :
    (Json.ofNat n).draft.natural bound = .ok n := by
  rw [Json.ofNat, draft, natural, if_pos ⟨Int.natCast_nonneg n, Int.ofNat_lt.2 h⟩, Int.toNat_natCast]

theorem word16_ofNat (n : UInt16) : (Json.ofNat n.toNat).draft.word16 = .ok n := by
  rw [word16, natural_ofNat n.toNat_lt_size, Except.map, UInt16.ofNat_toNat]

theorem word64_ofNat (n : UInt64) : (Json.ofNat n.toNat).draft.word64 = .ok n := by
  rw [word64, natural_ofNat n.toNat_lt_size, Except.map, UInt64.ofNat_toNat]

/-- A list comes back from the items that were made of it. -/
theorem list_ofList {α β : Type} {item : Draft → Decoded β} {toJson : α → Json} {f : α → β}
    (xs : List α) (h : ∀ x ∈ xs, item (toJson x).draft = .ok (f x)) :
    (Json.ofList toJson xs).draft.list item = .ok (xs.map f) := by
  have hitems : (draftItems (xs.map toJson)).mapM item = .ok (xs.map f) := by
    induction xs with
    | nil => rfl
    | cons x xs ih =>
      rw [List.map_cons, draftItems, List.mapM_cons, h x List.mem_cons_self,
        ih fun y hy => h y (List.mem_cons_of_mem x hy)]
      rfl
  rw [Json.ofList, draft, list, hitems]
  rfl

theorem list_strings (xs : List String) : (Json.ofList .string xs).draft.list text = .ok xs := by
  have h : ∀ x ∈ xs, text (Json.string x).draft = .ok (id x) := fun _ _ => rfl
  simpa using list_ofList xs h

theorem optional_ofOption {α β : Type} {value : Draft → Decoded β} {toJson : α → Json} {f : α → β}
    (h : ∀ a, value (toJson a).draft = .ok (f a)) (hnull : ∀ a, (toJson a).draft ≠ .null)
    (x : Option α) : (Json.ofOption toJson x).draft.optional value = .ok (x.map f) := by
  cases x with
  | none => rfl
  | some a =>
    rw [Json.ofOption, optional, h]
    · rfl
    · exact hnull a

end Draft

/-! ## Objects -/

namespace Shape

variable {α : Type} {s : Shape α} {members members' : List (Option String × Draft)} {a b : α}

theorem decode_object (s : Shape α) (medium : Medium) (members : List (Option String × Draft)) :
    s.decode medium (.object members true) = (do
      let (a, seen) ← s.readMembers members [] s.absent
      match s.firstMissing? seen with
      | some name => .error (.missingField name)
      | none => .ok a) :=
  rfl

/-- The members that are fields, in their order. -/
def known (s : Shape α) (members : List (Option String × Draft)) : List (String × Draft) :=
  members.filterMap fun m => (m.1.filter s.hasField).map (·, m.2)

/-- Reads drafts as fields, one after the other. -/
def readFields (s : Shape α) (fields : List (String × Draft)) (a : α) : Decoded α :=
  fields.foldlM (fun a field => s.read field.1 field.2 a) a

/-- The member has a name, and a value that can be skipped if no field has that name. -/
def Takes (s : Shape α) (m : Option String × Draft) : Prop :=
  ∃ name, m.1 = some name ∧ (s.hasField name = false → m.2.isWhole)

theorem known_cons_field {name : String} (h : s.hasField name = true) (d : Draft)
    (members : List (Option String × Draft)) :
    s.known ((some name, d) :: members) = (name, d) :: s.known members := by
  rw [known, List.filterMap_cons_some]
  · rfl
  · simp [h]

theorem known_cons_other {name : String} (h : s.hasField name = false) (d : Draft)
    (members : List (Option String × Draft)) :
    s.known ((some name, d) :: members) = s.known members := by
  rw [known, List.filterMap_cons_none]
  · rfl
  · simp [h]

theorem readFields_cons {name : String} {d : Draft} {fields : List (String × Draft)} :
    s.readFields ((name, d) :: fields) a = .ok b ↔
      ∃ c, s.read name d a = .ok c ∧ s.readFields fields c = .ok b := by
  rw [readFields, List.foldlM_cons, Decoded.bind_eq_ok]
  rfl

theorem skip_eq_ok {d : Draft} : d.skip = .ok () ↔ d.isWhole := by
  rw [Draft.skip]
  split <;> simp_all

theorem readMembers_eq_ok {seen seen' : List String} (hseen : seen.Nodup) :
    s.readMembers members seen a = .ok (b, seen') ↔
      (∀ m ∈ members, s.Takes m) ∧ s.readFields (s.known members) a = .ok b ∧
      seen' = ((s.known members).map Prod.fst).reverse ++ seen ∧ seen'.Nodup := by
  induction members generalizing seen a with
  | nil =>
    simp only [readMembers, readFields, known, List.filterMap_nil, List.foldlM_nil, pure,
      Except.pure, Except.ok.injEq, Prod.mk.injEq, List.map_nil, List.reverse_nil, List.nil_append]
    constructor
    · rintro ⟨hb, rfl⟩
      exact ⟨by simp, hb, rfl, hseen⟩
    · rintro ⟨-, hb, hseen', -⟩
      exact ⟨hb, hseen'.symm⟩
  | cons m rest ih =>
    obtain ⟨_ | name, d⟩ := m
    · simp [readMembers, Takes]
    by_cases hfield : s.hasField name = true
    · have htakes : s.Takes (some name, d) := ⟨name, rfl, by simp [hfield]⟩
      rw [readMembers, if_pos hfield, known_cons_field hfield]
      by_cases hmem : name ∈ seen
      · -- A field that comes again would stand twice among the names that are read.
        simp only [hmem, if_true, reduceCtorEq, false_iff, not_and]
        rintro - - rfl honce
        simp [List.nodup_append, hmem] at honce
      · have ih := fun c => ih (a := c) (List.nodup_cons.2 ⟨hmem, hseen⟩)
        rw [if_neg hmem, Decoded.bind_eq_ok]
        simp only [ih, readFields_cons, List.map_cons, List.reverse_cons, List.append_assoc,
          List.singleton_append, List.forall_mem_cons]
        constructor
        · rintro ⟨c, hread, hrest, hvalue, hseen'⟩
          exact ⟨⟨htakes, hrest⟩, ⟨c, hread, hvalue⟩, hseen'⟩
        · rintro ⟨⟨-, hrest⟩, ⟨c, hread, hvalue⟩, hseen'⟩
          exact ⟨c, hread, hrest, hvalue, hseen'⟩
    · have hother : s.hasField name = false := by simpa using hfield
      have htakes : s.Takes (some name, d) ↔ d.skip = .ok () := by
        simp [Takes, hother, skip_eq_ok]
      rw [readMembers, if_neg hfield, known_cons_other hother, Decoded.bind_eq_ok]
      simp only [ih hseen, List.forall_mem_cons, htakes]
      constructor
      · rintro ⟨⟨⟩, hskip, hrest, hread⟩
        exact ⟨⟨hskip, hrest⟩, hread⟩
      · rintro ⟨⟨hskip, hrest⟩, hread⟩
        exact ⟨(), hskip, hrest, hread⟩

/-- What it takes for members to be an object of the structure: all of them have names, those that
belong to no field can be skipped, no field comes twice, none that has to be there is missing, and
reading the fields in their order gives the structure. -/
structure Reads (s : Shape α) (members : List (Option String × Draft)) (a : α) : Prop where
  takes : ∀ m ∈ members, s.Takes m
  once : ((s.known members).map Prod.fst).Nodup
  complete : ∀ name, (name, Presence.required) ∈ s.fields → name ∈ (s.known members).map Prod.fst
  value : s.readFields (s.known members) s.absent = .ok a

theorem firstMissing?_eq_none {seen : List String} :
    s.firstMissing? seen = none ↔ ∀ name, (name, Presence.required) ∈ s.fields → name ∈ seen := by
  rw [firstMissing?, Option.map_eq_none_iff, List.find?_eq_none]
  constructor
  · intro h name hname
    simpa using h _ hname
  · rintro h ⟨name, presence⟩ hfield
    simp only [decide_eq_true_eq, not_and, Decidable.not_not]
    rintro rfl
    exact h name hfield

/-- An object is decoded exactly as its members say. -/
theorem decode_object_eq_ok {medium : Medium} :
    s.decode medium (.object members true) = .ok a ↔ s.Reads members a := by
  rw [decode_object, Decoded.bind_eq_ok]
  constructor
  · rintro ⟨⟨b, seen⟩, hread, hend⟩
    obtain ⟨htakes, hvalue, rfl, honce⟩ := (readMembers_eq_ok List.nodup_nil).1 hread
    rw [List.append_nil] at hend honce
    cases hmissing : s.firstMissing? ((s.known members).map Prod.fst).reverse with
    | some name => simp [hmissing] at hend
    | none =>
      simp only [hmissing, Except.ok.injEq] at hend
      subst hend
      refine ⟨htakes, List.nodup_reverse.1 honce, fun name hname => ?_, hvalue⟩
      exact List.mem_reverse.1 (firstMissing?_eq_none.1 hmissing name hname)
  · intro h
    refine ⟨(a, ((s.known members).map Prod.fst).reverse), ?_, ?_⟩
    · refine (readMembers_eq_ok List.nodup_nil).2 ⟨h.takes, h.value, by simp, ?_⟩
      exact List.nodup_reverse.2 h.once
    · have hmissing := firstMissing?_eq_none.2 fun name hname =>
        List.mem_reverse.2 (h.complete name hname)
      simp only [hmissing]

theorem hasField_iff {name : String} :
    s.hasField name = true ↔ name ∈ s.fields.map Prod.fst := by
  simp [hasField]

/-- Members that give each field its value, in the order of the fields, are read as those values. -/
theorem decode_draft {values : List (String × Json)}
    (hnames : values.map Prod.fst = s.fields.map Prod.fst) (honce : (s.fields.map Prod.fst).Nodup)
    (hvalue : s.readFields (values.map fun v => (v.1, v.2.draft)) s.absent = .ok a)
    (medium : Medium) : s.decode medium (Json.object values).draft = .ok a := by
  have hfield : ∀ v ∈ values, s.hasField v.1 = true := fun v hv =>
    hasField_iff.2 (hnames ▸ List.mem_map_of_mem hv)
  have hknown : s.known (draftMembers values) = values.map fun v => (v.1, v.2.draft) := by
    rw [known, draftMembers_eq_map, List.filterMap_map]
    refine List.filterMap_eq_map_iff_forall_eq_some.2 fun v hv => ?_
    simp [hfield v hv]
  have hsame : (s.known (draftMembers values)).map Prod.fst = s.fields.map Prod.fst := by
    rw [hknown, List.map_map, ← hnames]
    rfl
  refine decode_object_eq_ok.2 ⟨?_, hsame ▸ honce, ?_, hknown ▸ hvalue⟩
  · intro m hm
    rw [draftMembers_eq_map] at hm
    obtain ⟨v, hv, rfl⟩ := List.mem_map.1 hm
    exact ⟨v.1, rfl, by simp [hfield v hv]⟩
  · intro name hname
    rw [hsame]
    exact List.mem_map_of_mem hname

/-! ### The order of fields -/

/-- Two fields can be read in either order. -/
def CommuteAt (s : Shape α) (name name' : String) : Prop :=
  ∀ d d' a c, (∃ b, s.read name d a = .ok b ∧ s.read name' d' b = .ok c) ↔
    ∃ b, s.read name' d' a = .ok b ∧ s.read name d b = .ok c

/-- Any two fields can be read in either order. -/
def Commutes (s : Shape α) : Prop :=
  (s.fields.map Prod.fst).Pairwise s.CommuteAt

/-- The field of that name takes the value and puts it into the structure. -/
def Puts {β : Type} (s : Shape α) (name : String) (value : Draft → Decoded β)
    (put : β → α → α) : Prop :=
  ∀ d a, s.read name d a = (do return put (← value d) a)

theorem Puts.eq_ok {β : Type} {name : String} {value : Draft → Decoded β} {put : β → α → α}
    (h : s.Puts name value put) {d : Draft} :
    s.read name d a = .ok b ↔ ∃ v, value d = .ok v ∧ put v a = b := by
  rw [h, Decoded.bind_eq_ok]
  simp [pure, Except.pure]

theorem Puts.commuteAt {β γ : Type} {name name' : String} {value : Draft → Decoded β}
    {value' : Draft → Decoded γ} {put : β → α → α} {put' : γ → α → α} (h : s.Puts name value put)
    (h' : s.Puts name' value' put') (hput : ∀ v w a, put' w (put v a) = put v (put' w a)) :
    s.CommuteAt name name' := by
  intro d d' a c
  simp only [h.eq_ok, h'.eq_ok]
  constructor
  · rintro ⟨b, ⟨v, hv, rfl⟩, w, hw, rfl⟩
    exact ⟨_, ⟨w, hw, rfl⟩, v, hv, (hput v w a).symm⟩
  · rintro ⟨b, ⟨w, hw, rfl⟩, v, hv, rfl⟩
    exact ⟨_, ⟨v, hv, rfl⟩, w, hw, hput v w a⟩

theorem Commutes.commuteAt (hs : s.Commutes) {name name' : String} (hname : s.hasField name = true)
    (hname' : s.hasField name' = true) (hne : name ≠ name') : s.CommuteAt name name' := by
  have : Std.Symm s.CommuteAt := ⟨fun _ _ h d d' a c => (h d' d a c).symm⟩
  exact List.Pairwise.forall hs (hasField_iff.1 hname) (hasField_iff.1 hname') hne

theorem hasField_of_mem_known {f : String × Draft} (hf : f ∈ s.known members) :
    s.hasField f.1 = true := by
  obtain ⟨m, -, hm⟩ := List.mem_filterMap.1 hf
  obtain ⟨name, hname, rfl⟩ := Option.map_eq_some_iff.1 hm
  exact (Option.filter_eq_some_iff.1 hname).2

theorem readFields_perm (hs : s.Commutes) {fields fields' : List (String × Draft)}
    (hperm : fields.Perm fields') (hfields : ∀ f ∈ fields, s.hasField f.1 = true)
    (honce : (fields.map Prod.fst).Nodup) (h : s.readFields fields a = .ok b) :
    s.readFields fields' a = .ok b := by
  induction hperm generalizing a with
  | nil => exact h
  | cons f _ ih =>
    obtain ⟨c, hread, hrest⟩ := readFields_cons.1 h
    rw [List.forall_mem_cons] at hfields
    exact readFields_cons.2 ⟨c, hread, ih hfields.2 (List.nodup_cons.1 honce).2 hrest⟩
  | swap f g rest =>
    obtain ⟨c, hg, hrest⟩ := readFields_cons.1 h
    obtain ⟨e, hf, hrest⟩ := readFields_cons.1 hrest
    simp only [List.forall_mem_cons] at hfields
    have hne : g.1 ≠ f.1 := fun heq => (List.nodup_cons.1 honce).1 (by simp [heq])
    obtain ⟨c', hf', hg'⟩ := (hs.commuteAt hfields.1 hfields.2.1 hne _ _ _ _).1 ⟨c, hg, hf⟩
    exact readFields_cons.2 ⟨c', hf', readFields_cons.2 ⟨e, hg', hrest⟩⟩
  | trans hperm _ ih ih' =>
    have honce' := (hperm.map Prod.fst).nodup_iff.1 honce
    exact ih' (fun f hf => hfields f (hperm.mem_iff.2 hf)) honce' (ih hfields honce h)

theorem Reads.perm (hs : s.Commutes) (h : s.Reads members a) (hperm : members.Perm members') :
    s.Reads members' a := by
  have hknown : (s.known members).Perm (s.known members') := hperm.filterMap _
  have hnames := hknown.map Prod.fst
  exact ⟨fun m hm => h.takes m (hperm.mem_iff.2 hm), hnames.nodup_iff.1 h.once,
    fun name hname => hnames.mem_iff.1 (h.complete name hname),
    readFields_perm hs hknown (fun _ => hasField_of_mem_known) h.once h.value⟩

theorem Reads.cons_other {name : String} {d : Draft} (h : s.Reads members a)
    (hname : s.hasField name = false) (hd : d.isWhole) :
    s.Reads ((some name, d) :: members) a := by
  have hknown := known_cons_other hname d members
  exact ⟨List.forall_mem_cons.2 ⟨⟨name, rfl, fun _ => hd⟩, h.takes⟩, by simpa [hknown] using h.once,
    by simpa [hknown] using h.complete, by simpa [hknown] using h.value⟩

theorem Reads.of_cons_field {name : String} {d : Draft} (h : s.Reads ((some name, d) :: members) a)
    (hname : s.hasField name = true) (hoptional : (name, Presence.required) ∉ s.fields)
    (hread : s.read name d s.absent = .ok s.absent) : s.Reads members a := by
  have hknown := known_cons_field hname d members
  obtain ⟨htakes, honce, hcomplete, hvalue⟩ := h
  rw [hknown, List.map_cons] at honce hcomplete
  rw [hknown, readFields_cons, hread] at hvalue
  refine ⟨fun m hm => htakes m (List.mem_cons_of_mem _ hm), (List.nodup_cons.1 honce).2, ?_, ?_⟩
  · intro n hn
    rcases List.mem_cons.1 (hcomplete n hn) with rfl | hmem
    · exact absurd hn hoptional
    · exact hmem
  · obtain ⟨b, ⟨⟩, hrest⟩ := hvalue
    exact hrest

theorem Reads.cons_congr {name : String} {d d' : Draft} (h : s.Reads ((some name, d) :: members) a)
    (hname : s.hasField name = true)
    (hread : ∀ b c, s.read name d b = .ok c → s.read name d' b = .ok c) :
    s.Reads ((some name, d') :: members) a := by
  have hknown (e : Draft) := known_cons_field hname e members
  obtain ⟨htakes, honce, hcomplete, hvalue⟩ := h
  rw [hknown, List.map_cons] at honce hcomplete
  rw [hknown, readFields_cons] at hvalue
  refine ⟨?_, by simpa [hknown] using honce, by simpa [hknown] using hcomplete, ?_⟩
  · refine List.forall_mem_cons.2 ⟨⟨name, rfl, by simp [hname]⟩, ?_⟩
    exact fun m hm => htakes m (List.mem_cons_of_mem _ hm)
  · obtain ⟨b, hb, hrest⟩ := hvalue
    rw [hknown, readFields_cons]
    exact ⟨b, hread _ _ hb, hrest⟩

end Shape

end ModText.Json
