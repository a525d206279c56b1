import ModText.Proofs.Json.Structures

/-!
# Objects with some of their fields

Where every field has a default, an object can hold any of the fields, in any order and between
others that nobody asked for. What it says depends on the fields that it holds (`decode_of_holds`),
and reading these one by one changes what each of them stands for and nothing else
(`Sets.readFields_chosen`).
-/

namespace ModText.Json

/-! ## Members that are spelled -/

/-- A value that can be spelled. -/
def Draft.IsSpelled (d : Draft) : Prop :=
  ∃ cs, Spells (.value d) cs

theorem Draft.IsSpelled.isWhole {d : Draft} (h : d.IsSpelled) : d.isWhole := by
  obtain ⟨cs, h⟩ := h
  cases h <;> rfl

theorem Draft.isSpelled_of_spells {d : Draft} {cs : List Text.Symbol} (h : Spells (.element d) cs) :
    d.IsSpelled := by
  cases h with
  | element _ h _ => exact ⟨_, h⟩

/-- What is spelled is spelled in all its members. -/
theorem Draft.IsSpelled.members {ms : List (Option String × Draft)}
    (h : (Draft.object ms true).IsSpelled) : ∀ m ∈ ms, m.2.IsSpelled := by
  have hmembers : ∀ {part : Stretch} {cs : List Text.Symbol}, Spells part cs →
      ∀ ms, part = .members ms → ∀ m ∈ ms, m.2.IsSpelled := by
    intro part cs h
    induction h with
    | member _ _ _ hd =>
      rintro _ ⟨⟩
      exact List.forall_mem_singleton.2 (isSpelled_of_spells hd)
    | members _ _ _ hd _ _ ih =>
      rintro _ ⟨⟩
      exact List.forall_mem_cons.2 ⟨isSpelled_of_spells hd, ih _ rfl⟩
    | _ =>
      intro ms hms
      cases hms
  obtain ⟨cs, h⟩ := h
  cases h with
  | emptyObject => simp
  | object h => exact hmembers h _ rfl

/-! ## Chosen fields -/

namespace Shape

variable {α β : Type} {s : Shape α} {fields : List (String × Draft)}
  {members : List (Option String × Draft)} {a : α}

/-- The members are these fields, in any order, and others that have names of no fields. -/
structure Holds (s : Shape α) (fields : List (String × Draft))
    (members : List (Option String × Draft)) : Prop where
  known : (s.known members).Perm fields
  named : ∀ m ∈ members, m.1.isSome

theorem decode_of_holds {medium : Medium} (hs : s.Commutes)
    (hdefaulted : ∀ name, (name, Presence.required) ∉ s.fields) (h : s.Holds fields members)
    (hspelled : (Draft.object members true).IsSpelled) (honce : (fields.map Prod.fst).Nodup)
    (hvalue : s.readFields fields s.absent = .ok a) :
    s.decode medium (.object members true) = .ok a := by
  refine decode_object_eq_ok.2 ⟨?_, ?_, ?_, ?_⟩
  · intro m hm
    obtain ⟨name, hname⟩ := Option.isSome_iff_exists.1 (h.named m hm)
    exact ⟨name, hname, fun _ => (hspelled.members m hm).isWhole⟩
  · exact (h.known.map Prod.fst).nodup_iff.2 honce
  · intro name hname
    exact absurd hname (hdefaulted name)
  · refine readFields_perm hs h.known.symm ?_ honce hvalue
    intro f hf
    exact hasField_of_mem_known (h.known.mem_iff.2 hf)

theorem Holds.mem {f : String × Draft} (h : s.Holds fields members) (hf : f ∈ fields) :
    (some f.1, f.2) ∈ members := by
  obtain ⟨m, hm, hfield⟩ := List.mem_filterMap.1 (h.known.mem_iff.2 hf)
  obtain ⟨name, hname, rfl⟩ := Option.map_eq_some_iff.1 hfield
  rw [← (Option.filter_eq_some_iff.1 hname).1]
  exact hm

/-- The field of that name takes the value and puts it where it is got from. -/
structure Sets (s : Shape α) (name : String) (value : Draft → Decoded β) (get : α → β)
    (put : β → α → α) : Prop where
  puts : s.Puts name value put
  put_get : ∀ a, put (get a) a = a

end Shape

/-- A field with its value, if it is one of the chosen. -/
def chosen (p : Prop) [Decidable p] (name : String) (j : Json) : List (String × Draft) :=
  if p then [(name, j.draft)] else []

theorem sublist_chosen (p : Prop) [Decidable p] (name : String) (j : Json) :
    ((chosen p name j).map Prod.fst).Sublist [name] := by
  rw [chosen]
  split
  · exact List.Sublist.refl _
  · exact List.nil_sublist _

namespace Shape

variable {α β : Type} {s : Shape α} {a : α}

/-- A chosen field gets its value, and one that is not chosen keeps the one it has. -/
theorem Sets.readFields_chosen {name : String} {value : Draft → Decoded β} {get : α → β}
    {put : β → α → α} (h : s.Sets name value get put) {j : Json} {v : β}
    (hvalue : value j.draft = .ok v) (p : Prop) [Decidable p] (rest : List (String × Draft)) :
    s.readFields (chosen p name j ++ rest) a =
      s.readFields rest (put (if p then v else get a) a) := by
  rw [chosen]
  split
  · rw [readFields, List.singleton_append, List.foldlM_cons, h.puts, hvalue]
    rfl
  · rw [h.put_get, List.nil_append]

end Shape

end ModText.Json
