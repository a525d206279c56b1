import ModText.Proofs.Json.Structures

/-!
# What the writer of a document is free to do

A structure can be written down in many ways. Its members may stand in any order, members that nobody
asks for may stand between them, and a field with a default may be left out. `Restates` is one such
change in the document of one structure, or inside the value of a field, and `Latitude` says what
values and what inner changes a structure bears. The main statement is `Bears.decode_restates`: a
structure that bears a latitude is decoded as the same from both documents.
-/

namespace ModText.Json

/-- The document is an array, and one of its items is changed as `R` has it. -/
inductive Draft.ItemChange (R : Draft → Draft → Prop) : Draft → Draft → Prop
  | mk (front behind : List Draft) {d d' : Draft} : R d d' →
      ItemChange R (.array (front ++ d :: behind) true) (.array (front ++ d' :: behind) true)

/-- What a document of a structure leaves to whoever writes it: values that say as much as no field,
values that may stand under names of no field, and changes inside the values of fields. -/
structure Latitude where
  defaults : List (String × Draft)
  spare : Draft → Prop
  within : String → Draft → Draft → Prop

namespace Shape

variable {α : Type} {s : Shape α} {l : Latitude} {a b : α}

/-- One change of the document of a structure. Since members may be put into any order, it is enough
to tell of the first one how it is inserted, left out or changed. -/
inductive Restates (s : Shape α) (l : Latitude) : Draft → Draft → Prop
  | permute {members members' : List (Option String × Draft)} : members.Perm members' →
      Restates s l (.object members true) (.object members' true)
  | insert {name : String} {d : Draft} {members : List (Option String × Draft)} :
      s.hasField name = false → l.spare d →
      Restates s l (.object members true) (.object ((some name, d) :: members) true)
  | leaveOut {name : String} {d : Draft} {members : List (Option String × Draft)} :
      (name, d) ∈ l.defaults →
      Restates s l (.object ((some name, d) :: members) true) (.object members true)
  | member {name : String} {d d' : Draft} {members : List (Option String × Draft)} :
      l.within name d d' →
      Restates s l (.object ((some name, d) :: members) true)
        (.object ((some name, d') :: members) true)
  | item {name : String} {d d' : Draft} {front behind : List Draft} :
      (s.fields.map Prod.fst)[front.length]? = some name → l.within name d d' →
      Restates s l (.array (front ++ d :: behind) true) (.array (front ++ d' :: behind) true)

/-- The structure is decoded without regard to what the latitude leaves open. -/
structure Bears (s : Shape α) (l : Latitude) : Prop where
  commutes : s.Commutes
  defaults : ∀ f ∈ l.defaults, s.hasField f.1 = true ∧ (f.1, .required) ∉ s.fields ∧
    s.read f.1 f.2 s.absent = .ok s.absent
  spare : ∀ d, l.spare d → d.isWhole
  within : ∀ name d d', l.within name d d' → s.hasField name = true ∧
    ∀ a b, s.read name d a = .ok b → s.read name d' a = .ok b

theorem readItems_congr (front : List Draft) {behind : List Draft} {name : String} {d d' : Draft}
    {fields : List (String × Presence)} {r : α × List (String × Presence) × List Draft}
    (hname : (fields.map Prod.fst)[front.length]? = some name)
    (hread : ∀ a b, s.read name d a = .ok b → s.read name d' a = .ok b)
    (h : s.readItems fields (front ++ d :: behind) a = .ok r) :
    s.readItems fields (front ++ d' :: behind) a = .ok r := by
  induction front generalizing fields a with
  | nil =>
    obtain _ | ⟨⟨n, presence⟩, fields⟩ := fields
    · simp at hname
    · obtain rfl : n = name := by simpa using hname
      rw [List.nil_append, readItems, Decoded.bind_eq_ok] at h ⊢
      obtain ⟨b, hb, hrest⟩ := h
      exact ⟨b, hread a b hb, hrest⟩
  | cons e front ih =>
    obtain _ | ⟨⟨n, presence⟩, fields⟩ := fields
    · simp at hname
    · rw [List.cons_append, readItems, Decoded.bind_eq_ok] at h ⊢
      obtain ⟨b, hb, hrest⟩ := h
      exact ⟨b, hb, ih (by simpa using hname) hrest⟩

theorem decode_array_congr {medium : Medium} {items items' : List Draft}
    (hitems : ∀ r, s.readItems s.fields items s.absent = .ok r →
      s.readItems s.fields items' s.absent = .ok r)
    (h : s.decode medium (.array items true) = .ok a) :
    s.decode medium (.array items' true) = .ok a := by
  obtain ⟨r, hr, hend⟩ := Decoded.bind_eq_ok.1 h
  exact Decoded.bind_eq_ok.2 ⟨r, hitems r hr, hend⟩

/-- Documents that say the same are decoded as the same structure. -/
theorem Bears.decode_restates (h : s.Bears l) {medium : Medium} {d d' : Draft}
    (hrestates : s.Restates l d d') (hd : s.decode medium d = .ok a) :
    s.decode medium d' = .ok a := by
  cases hrestates with
  | permute hperm =>
    rw [decode_object_eq_ok] at hd ⊢
    exact hd.perm h.commutes hperm
  | insert hname hspare =>
    rw [decode_object_eq_ok] at hd ⊢
    exact hd.cons_other hname (h.spare _ hspare)
  | leaveOut hdefault =>
    obtain ⟨hname, hoptional, hread⟩ := h.defaults _ hdefault
    rw [decode_object_eq_ok] at hd ⊢
    exact hd.of_cons_field hname hoptional hread
  | member hwithin =>
    obtain ⟨hname, hread⟩ := h.within _ _ _ hwithin
    rw [decode_object_eq_ok] at hd ⊢
    exact hd.cons_congr hname hread
  | item hname hwithin =>
    have hread := (h.within _ _ _ hwithin).2
    exact decode_array_congr (fun _ => readItems_congr _ hname hread) hd

theorem Restates.ne_null {d d' : Draft} (h : s.Restates l d d') : d ≠ .null ∧ d' ≠ .null := by
  cases h <;> simp

theorem Puts.read_congr {β : Type} {name : String} {value : Draft → Decoded β} {put : β → α → α}
    (h : s.Puts name value put) {d d' : Draft}
    (hvalue : ∀ v, value d = .ok v → value d' = .ok v) (hread : s.read name d a = .ok b) :
    s.read name d' a = .ok b := by
  obtain ⟨v, hv, hb⟩ := h.eq_ok.1 hread
  exact h.eq_ok.2 ⟨v, hvalue v hv, hb⟩

end Shape

theorem Draft.ItemChange.list_congr {α : Type} {R : Draft → Draft → Prop}
    {item : Draft → Decoded α} {d d' : Draft} (h : ItemChange R d d')
    (hitem : ∀ {d d' a}, R d d' → item d = .ok a → item d' = .ok a) {as : List α}
    (hd : d.list item = .ok as) : d'.list item = .ok as := by
  obtain ⟨front, behind, hR⟩ := h
  rw [Draft.list, Decoded.bind_eq_ok] at hd ⊢
  obtain ⟨as, hitems, hend⟩ := hd
  refine ⟨as, ?_, hend⟩
  rw [List.mapM_append, List.mapM_cons] at hitems ⊢
  simp only [Decoded.bind_eq_ok] at hitems ⊢
  obtain ⟨xs, hxs, ys, ⟨x, hx, hys⟩, has⟩ := hitems
  exact ⟨xs, hxs, ys, ⟨x, hitem hR hx, hys⟩, has⟩

theorem Draft.optional_congr {α : Type} {value : Draft → Decoded α} {d d' : Draft}
    (hd : d ≠ .null) (hd' : d' ≠ .null) (hvalue : ∀ a, value d = .ok a → value d' = .ok a)
    {a : Option α} (h : d.optional value = .ok a) : d'.optional value = .ok a := by
  rw [Draft.optional] at h ⊢
  · cases hv : value d with
    | error e => simp [hv, Except.map] at h
    | ok v => rwa [hvalue v hv, ← hv]
  · exact hd'
  · exact hd

theorem Draft.isWhole_of_settles {d : Draft} {n : Nat} (h : (d.settle? n).isSome) :
    d.isWhole := by
  cases d with
  | array items closed => cases closed <;> cases n <;> simp_all [settle?, isWhole]
  | object members closed => cases closed <;> cases n <;> simp_all [settle?, isWhole]
  | broken => simp [settle?] at h
  | null | bool | number | string => rfl

theorem Draft.settles_object {members : List (Option String × Draft)} {n : Nat} :
    ((Draft.object members true).settle? (n + 1)).isSome ↔
      ∀ m ∈ members, m.1.isSome ∧ (m.2.settle? n).isSome := by
  rw [settle?, Option.isSome_map]
  induction members with
  | nil => simp [settleMembers?]
  | cons m rest ih =>
    obtain ⟨name, d⟩ := m
    rw [settleMembers?, List.forall_mem_cons, ← ih]
    cases name <;> cases d.settle? n <;> cases settleMembers? n rest <;> simp

end ModText.Json
