import ModText.Disk.Location

/-!
# Branches

A file, or a folder with all that lies below it. The names in a folder stand in their order, so a
folder has each name once and is written down in one way only.

A branch is looked at through `at?`. `at?_changeAt_append` and `node_changeAt` say what a change in
one folder does to that view: everything at and below the folder follows from its new names, and
everything else stays.
-/

namespace ModText

/-- A file, or a folder with the branches in it by their names. -/
inductive Branch where
  | file (content : ByteArray)
  | folder (children : List (String × Branch))
  deriving Inhabited

namespace Branch

/-- What is at the place of a branch. -/
def node : Branch → Node
  | .file content => .file content
  | .folder _ => .folder

/-- The branch with nothing below it. -/
def ofNode : Node → Branch
  | .file content => .file content
  | .folder => .folder []

/-- The branch at a place below. -/
def at? (b : Branch) : Location → Option Branch
  | [] => some b
  | name :: l =>
    match b with
    | .file _ => none
    | .folder children => (children.lookup name).bind (·.at? l)

/-- The names in a folder with one of them given to a branch. -/
def insert (name : String) (b : Branch) : List (String × Branch) → List (String × Branch)
  | [] => [(name, b)]
  | (s, c) :: rest =>
    if name < s then (name, b) :: (s, c) :: rest
    else if name = s then (name, b) :: rest
    else (s, c) :: insert name b rest

/-- The names in a folder without one of them. -/
def erase (name : String) (children : List (String × Branch)) : List (String × Branch) :=
  children.filter (·.1 ≠ name)

/-- The branch with a change made to the names in the folder at a place, if there is one. -/
def changeAt (change : List (String × Branch) → List (String × Branch)) :
    Location → Branch → Branch
  | _, .file content => .file content
  | [], .folder children => .folder (change children)
  | name :: l, .folder children =>
    .folder (children.map fun (s, b) => if s = name then (s, changeAt change l b) else (s, b))

mutual

/-- All that lies below a branch, each with the names that lead to it, a folder right in front of
what it holds. -/
def listing : Branch → List (Location × Node)
  | .file _ => []
  | .folder children => listChildren children

/-- All that lies in a folder. -/
def listChildren : List (String × Branch) → List (Location × Node)
  | [] => []
  | (name, b) :: rest =>
    ([name], b.node) :: (b.listing.map fun (l, n) => (name :: l, n)) ++ listChildren rest

end

/-! ## What changes do to the view -/

theorem at?_nil (b : Branch) : b.at? [] = some b := by
  cases b <;> rfl

theorem at?_append (b : Branch) (l m : Location) :
    b.at? (l ++ m) = (b.at? l).bind (·.at? m) := by
  induction l generalizing b with
  | nil => simp [at?_nil]
  | cons name l ih =>
    cases b with
    | file => simp [at?]
    | folder children =>
      cases h : children.lookup name <;> simp [at?, h, ih]

theorem lookup_cons (s t : String) (c : Branch) (rest : List (String × Branch)) :
    List.lookup s ((t, c) :: rest) = if s = t then some c else rest.lookup s := by
  rw [List.lookup_cons]
  by_cases h : s = t
  · simp [h]
  · simp [h, beq_false_of_ne h]

theorem lookup_insert (name : String) (b : Branch) (children : List (String × Branch))
    (s : String) :
    (insert name b children).lookup s = if s = name then some b else children.lookup s := by
  induction children with
  | nil => simp [insert, lookup_cons]
  | cons child rest ih =>
    obtain ⟨t, c⟩ := child
    rw [insert]
    split
    · rw [lookup_cons]
    · split
      · rename_i hname
        rw [lookup_cons, lookup_cons, hname]
        by_cases hs : s = t <;> simp [hs]
      · rename_i hname
        rw [lookup_cons, lookup_cons, ih]
        by_cases hs : s = t
        · simp [hs, Ne.symm hname]
        · simp [hs]

theorem lookup_erase (name : String) (children : List (String × Branch)) (s : String) :
    (erase name children).lookup s = if s = name then none else children.lookup s := by
  induction children with
  | nil => simp [erase]
  | cons child rest ih =>
    obtain ⟨t, c⟩ := child
    rw [erase] at ih ⊢
    rw [List.filter_cons]
    by_cases ht : t = name
    · rw [if_neg (by simp [ht]), ih, lookup_cons, ht]
      by_cases hs : s = name <;> simp [hs]
    · rw [if_pos (by simp [ht]), lookup_cons, lookup_cons, ih]
      by_cases hs : s = t
      · simp [hs, ht]
      · simp [hs]

theorem lookup_map (name : String) (f : Branch → Branch) (children : List (String × Branch))
    (s : String) :
    (children.map fun (t, b) => if t = name then (t, f b) else (t, b)).lookup s =
      if s = name then (children.lookup s).map f else children.lookup s := by
  induction children with
  | nil => simp
  | cons child rest ih =>
    obtain ⟨t, c⟩ := child
    rw [List.map_cons, lookup_cons]
    by_cases ht : t = name
    · simp only [ht, if_true]
      rw [lookup_cons, ih]
      by_cases hs : s = name <;> simp [hs]
    · simp only [ht, if_false]
      rw [lookup_cons, ih]
      by_cases hs : s = t
      · simp [hs, ht]
      · simp [hs]

theorem mem_of_lookup_eq {children : List (String × Branch)} {s : String} {b : Branch}
    (h : children.lookup s = some b) : (s, b) ∈ children := by
  induction children with
  | nil => simp at h
  | cons child rest ih =>
    obtain ⟨t, c⟩ := child
    rw [lookup_cons] at h
    split at h
    · rename_i heq
      rw [heq, Option.some.inj h]
      exact List.mem_cons_self
    · exact List.mem_cons_of_mem _ (ih h)

theorem lookup_eq_of_mem {children : List (String × Branch)} {s : String} {b : Branch}
    (hpairwise : (children.map Prod.fst).Pairwise (· < ·)) (h : (s, b) ∈ children) :
    children.lookup s = some b := by
  induction children with
  | nil => simp at h
  | cons child rest ih =>
    obtain ⟨t, c⟩ := child
    rw [List.map_cons, List.pairwise_cons] at hpairwise
    rw [lookup_cons]
    rcases List.mem_cons.1 h with heq | hrest
    · obtain ⟨rfl, rfl⟩ := Prod.mk.inj heq
      rw [if_pos rfl]
    · have hlt := hpairwise.1 s (List.mem_map.2 ⟨_, hrest, rfl⟩)
      have hne : s ≠ t := fun heq => String.lt_irrefl t (heq ▸ hlt)
      rw [if_neg hne]
      exact ih hpairwise.2 hrest

theorem at?_changeAt_append (change : List (String × Branch) → List (String × Branch))
    (l m : Location) (b : Branch) :
    (changeAt change l b).at? (l ++ m) =
      match b.at? l with
      | some (.folder children) => (folder (change children)).at? m
      | _ => b.at? (l ++ m) := by
  induction l generalizing b with
  | nil => cases b <;> simp [changeAt, at?_nil]
  | cons name l ih =>
    cases b with
    | file => simp [changeAt, at?]
    | folder children =>
      cases h : children.lookup name <;> simp [changeAt, at?, lookup_map, h, ih]

/-- A change in a folder is not seen at a place that does not lie in it. -/
theorem node_changeAt (change : List (String × Branch) → List (String × Branch))
    {l m : Location} (hout : ¬ l <+: m) (b : Branch) :
    ((changeAt change l b).at? m).map node = (b.at? m).map node := by
  induction l generalizing b m with
  | nil => exact absurd List.nil_prefix hout
  | cons name l ih =>
    cases b with
    | file => simp [changeAt]
    | folder children =>
      cases m with
      | nil => simp [changeAt, at?, node]
      | cons s m =>
        simp only [changeAt, at?, lookup_map]
        by_cases hs : s = name
        · subst hs
          have hrest : ¬ l <+: m := fun h => hout (List.cons_prefix_cons.2 ⟨rfl, h⟩)
          cases children.lookup s <;> simp [ih hrest]
        · simp [hs]

theorem node_changeAt_self (change : List (String × Branch) → List (String × Branch))
    (l : Location) (b : Branch) : (changeAt change l b).node = b.node := by
  cases b <;> cases l <;> rfl

/-! ## Order -/

/-- Every folder of the branch holds its names in their order, and disks allow them. -/
inductive Ordered : Branch → Prop where
  | file (content : ByteArray) : Ordered (.file content)
  | folder (children : List (String × Branch)) :
      (children.map Prod.fst).Pairwise (· < ·) →
      (∀ s b, (s, b) ∈ children → IsName s) →
      (∀ s b, (s, b) ∈ children → Ordered b) →
      Ordered (.folder children)

theorem ordered_nil : (folder []).Ordered :=
  .folder [] List.Pairwise.nil (by simp) (by simp)

theorem ordered_ofNode (n : Node) : (ofNode n).Ordered := by
  cases n with
  | file content => exact .file content
  | folder => exact ordered_nil

theorem mem_insert {name s : String} {b c : Branch} {children : List (String × Branch)}
    (h : (s, c) ∈ insert name b children) : (s = name ∧ c = b) ∨ (s, c) ∈ children := by
  induction children with
  | nil => simpa [insert] using h
  | cons child rest ih =>
    obtain ⟨t, d⟩ := child
    rw [insert] at h
    split at h
    · simpa using h
    · split at h
      · rcases List.mem_cons.1 h with h | h
        · exact Or.inl (Prod.mk.inj h)
        · exact Or.inr (List.mem_cons_of_mem _ h)
      · rcases List.mem_cons.1 h with h | h
        · exact Or.inr (h ▸ List.mem_cons_self)
        · exact (ih h).imp_right (List.mem_cons_of_mem _)

theorem pairwise_insert (name : String) (b : Branch) {children : List (String × Branch)}
    (h : (children.map Prod.fst).Pairwise (· < ·)) :
    ((insert name b children).map Prod.fst).Pairwise (· < ·) := by
  induction children with
  | nil => simp [insert]
  | cons child rest ih =>
    obtain ⟨t, c⟩ := child
    rw [List.map_cons, List.pairwise_cons] at h
    obtain ⟨hfirst, hrest⟩ := h
    rw [insert]
    split
    · rename_i hlt
      rw [List.map_cons, List.map_cons, List.pairwise_cons, List.pairwise_cons]
      refine ⟨fun s hs => ?_, hfirst, hrest⟩
      rcases List.mem_cons.1 hs with rfl | hs
      · exact hlt
      · exact String.lt_trans hlt (hfirst s hs)
    · rename_i hnot
      split
      · rename_i heq
        subst heq
        rw [List.map_cons, List.pairwise_cons]
        exact ⟨hfirst, hrest⟩
      · rename_i hne
        rw [List.map_cons, List.pairwise_cons]
        refine ⟨fun s hs => ?_, ih hrest⟩
        obtain ⟨⟨u, d⟩, hmem, rfl⟩ := List.mem_map.1 hs
        rcases mem_insert hmem with ⟨rfl, _⟩ | hold
        · exact Std.lt_of_le_of_ne hnot (Ne.symm hne)
        · exact hfirst u (List.mem_map.2 ⟨_, hold, rfl⟩)

theorem ordered_insert {name : String} {b : Branch} {children : List (String × Branch)}
    (hname : IsName name) (hb : b.Ordered) (h : (folder children).Ordered) :
    (folder (insert name b children)).Ordered := by
  cases h with
  | folder _ hpairwise hnames hbelow =>
    refine .folder _ (pairwise_insert name b hpairwise) (fun s c hmem => ?_) fun s c hmem => ?_
    · rcases mem_insert hmem with ⟨rfl, _⟩ | hold
      · exact hname
      · exact hnames s c hold
    · rcases mem_insert hmem with ⟨_, rfl⟩ | hold
      · exact hb
      · exact hbelow s c hold

theorem ordered_erase (name : String) {children : List (String × Branch)}
    (h : (folder children).Ordered) : (folder (erase name children)).Ordered := by
  cases h with
  | folder _ hpairwise hnames hbelow =>
    refine .folder _ (hpairwise.sublist (List.filter_sublist.map _)) (fun s c hmem => ?_)
      fun s c hmem => ?_
    · exact hnames s c (List.mem_filter.1 hmem).1
    · exact hbelow s c (List.mem_filter.1 hmem).1

theorem ordered_changeAt {change : List (String × Branch) → List (String × Branch)}
    (hchange : ∀ children, (folder children).Ordered → (folder (change children)).Ordered)
    (l : Location) {b : Branch} (h : b.Ordered) : (changeAt change l b).Ordered := by
  induction l generalizing b with
  | nil =>
    cases b with
    | file content => exact .file content
    | folder children => exact hchange children h
  | cons name l ih =>
    cases h with
    | file content => exact .file content
    | folder children hpairwise hnames hbelow =>
      have hfst : (children.map fun (s, b) =>
          if s = name then (s, changeAt change l b) else (s, b)).map Prod.fst =
            children.map Prod.fst := by
        rw [List.map_map]
        refine List.map_congr_left fun child _ => ?_
        by_cases hs : child.1 = name <;> simp [hs]
      have hold : ∀ s c, (s, c) ∈ (children.map fun (s, b) =>
          if s = name then (s, changeAt change l b) else (s, b)) →
            ∃ b, (s, b) ∈ children ∧ (c = changeAt change l b ∨ c = b) := by
        intro s c hmem
        obtain ⟨⟨t, b⟩, hchild, heq⟩ := List.mem_map.1 hmem
        by_cases ht : t = name
        · simp only [ht, if_true, Prod.mk.injEq] at heq
          exact ⟨b, by rw [← heq.1, ← ht]; exact hchild, Or.inl heq.2.symm⟩
        · simp only [ht, if_false, Prod.mk.injEq] at heq
          exact ⟨b, by rw [← heq.1]; exact hchild, Or.inr heq.2.symm⟩
      refine .folder _ (by rwa [hfst]) (fun s c hmem => ?_) fun s c hmem => ?_
      · obtain ⟨b, hchild, _⟩ := hold s c hmem
        exact hnames s b hchild
      · obtain ⟨b, hchild, rfl | rfl⟩ := hold s c hmem
        · exact ih (hbelow s b hchild)
        · exact hbelow s _ hchild

theorem ordered_of_at? {b c : Branch} {l : Location} (hb : b.Ordered) (h : b.at? l = some c) :
    c.Ordered := by
  induction l generalizing b with
  | nil =>
    rw [at?_nil, Option.some.injEq] at h
    exact h ▸ hb
  | cons name l ih =>
    cases hb with
    | file => simp [at?] at h
    | folder children hpairwise hnames hbelow =>
      obtain ⟨d, hlookup, hd⟩ := Option.bind_eq_some_iff.1 h
      exact ih (hbelow name d (mem_of_lookup_eq hlookup)) hd

/-! ## Listings -/

theorem mem_listChildren {children : List (String × Branch)} {m : Location} {n : Node} :
    (m, n) ∈ listChildren children ↔
      ∃ name b, (name, b) ∈ children ∧
        (m = [name] ∧ n = b.node ∨ ∃ l, m = name :: l ∧ (l, n) ∈ b.listing) := by
  induction children with
  | nil => simp [listChildren]
  | cons child rest ih =>
    obtain ⟨t, c⟩ := child
    rw [listChildren, List.mem_append, List.mem_cons, List.mem_map, ih]
    constructor
    · rintro ((heq | ⟨⟨l, k⟩, hl, heq⟩) | ⟨name, b, hmem, hat⟩)
      · obtain ⟨rfl, rfl⟩ := Prod.mk.inj heq
        exact ⟨t, c, List.mem_cons_self, Or.inl ⟨rfl, rfl⟩⟩
      · obtain ⟨rfl, rfl⟩ := Prod.mk.inj heq
        exact ⟨t, c, List.mem_cons_self, Or.inr ⟨l, rfl, hl⟩⟩
      · exact ⟨name, b, List.mem_cons_of_mem _ hmem, hat⟩
    · rintro ⟨name, b, hmem, hat⟩
      rcases List.mem_cons.1 hmem with heq | hmem
      · obtain ⟨rfl, rfl⟩ := Prod.mk.inj heq
        rcases hat with ⟨rfl, rfl⟩ | ⟨l, rfl, hl⟩
        · exact Or.inl (Or.inl rfl)
        · exact Or.inl (Or.inr ⟨(l, n), hl, rfl⟩)
      · exact Or.inr ⟨name, b, hmem, hat⟩

/-- A listing shows what is at each place below. -/
theorem mem_listing {b : Branch} (hb : b.Ordered) {m : Location} {n : Node} :
    (m, n) ∈ b.listing ↔ m ≠ [] ∧ (b.at? m).map node = some n := by
  induction m generalizing b with
  | nil =>
    cases b with
    | file => simp [listing]
    | folder children => simp [listing, mem_listChildren]
  | cons s m ih =>
    cases hb with
    | file => simp [listing, at?]
    | folder children hpairwise hnames hbelow =>
      rw [listing, mem_listChildren]
      constructor
      · rintro ⟨name, b, hmem, hat⟩
        have hlookup := lookup_eq_of_mem hpairwise hmem
        refine ⟨List.cons_ne_nil s m, ?_⟩
        rcases hat with ⟨heq, rfl⟩ | ⟨l, heq, hl⟩
        · obtain ⟨rfl, rfl⟩ := List.cons.inj heq
          simp [at?, hlookup]
        · obtain ⟨rfl, rfl⟩ := List.cons.inj heq
          simpa [at?, hlookup] using ((ih (hbelow s b hmem)).1 hl).2
      · rintro ⟨_, hat⟩
        rw [at?] at hat
        cases hlookup : children.lookup s with
        | none => simp [hlookup] at hat
        | some b =>
          have hmem := mem_of_lookup_eq hlookup
          rw [hlookup, Option.bind_some] at hat
          refine ⟨s, b, hmem, ?_⟩
          cases m with
          | nil => exact Or.inl ⟨rfl, by simpa [at?_nil, eq_comm] using hat⟩
          | cons t m =>
            exact Or.inr ⟨t :: m, rfl, (ih (hbelow s b hmem)).2 ⟨List.cons_ne_nil t m, hat⟩⟩

theorem eq_cons_of_mem_listChildren {children : List (String × Branch)} {m : Location} {n : Node}
    (h : (m, n) ∈ listChildren children) : ∃ s l, s ∈ children.map Prod.fst ∧ m = s :: l := by
  obtain ⟨s, b, hmem, ⟨rfl, _⟩ | ⟨l, rfl, _⟩⟩ := mem_listChildren.1 h
  · exact ⟨s, [], List.mem_map.2 ⟨_, hmem, rfl⟩, rfl⟩
  · exact ⟨s, l, List.mem_map.2 ⟨_, hmem, rfl⟩, rfl⟩

theorem nil_lt_of_mem_listing {b : Branch} {m : Location} {n : Node} (h : (m, n) ∈ b.listing) :
    [] < m := by
  cases b with
  | file => simp [listing] at h
  | folder children =>
    rw [listing] at h
    obtain ⟨s, l, _, rfl⟩ := eq_cons_of_mem_listChildren h
    exact List.nil_lt_cons s l

/-- A listing is in order: names by their characters, and a folder before what it holds. -/
theorem pairwise_listing {b : Branch} (hb : b.Ordered) :
    (b.listing.map Prod.fst).Pairwise (· < ·) := by
  induction hb with
  | file content => simp [listing]
  | folder children hpairwise hnames hbelow ih =>
    clear hnames hbelow
    rw [listing]
    induction children with
    | nil => simp [listChildren]
    | cons child rest ihrest =>
      obtain ⟨s, c⟩ := child
      rw [List.map_cons, List.pairwise_cons] at hpairwise
      have hchild : ((c.listing.map fun (l, n) => (s :: l, n)).map Prod.fst) =
          (c.listing.map Prod.fst).map (s :: ·) := by
        rw [List.map_map, List.map_map]
        rfl
      rw [listChildren, List.cons_append, List.map_cons, List.map_append, hchild,
        List.pairwise_cons, List.pairwise_append]
      refine ⟨fun m hm => ?_, ?_, ?_, fun m hm k hk => ?_⟩
      · rcases List.mem_append.1 hm with hm | hm
        · obtain ⟨l, hl, rfl⟩ := List.mem_map.1 hm
          obtain ⟨⟨l, n⟩, hentry, rfl⟩ := List.mem_map.1 hl
          exact List.cons_lt_cons_iff.2 (Or.inr ⟨rfl, nil_lt_of_mem_listing hentry⟩)
        · obtain ⟨⟨k, n⟩, hentry, rfl⟩ := List.mem_map.1 hm
          obtain ⟨t, l, ht, rfl⟩ := eq_cons_of_mem_listChildren hentry
          exact List.cons_lt_cons_iff.2 (Or.inl (hpairwise.1 t ht))
      · refine List.pairwise_map.2 ((ih s c List.mem_cons_self).imp fun hlt => ?_)
        exact List.cons_lt_cons_iff.2 (Or.inr ⟨rfl, hlt⟩)
      · exact ihrest hpairwise.2 fun t b hmem => ih t b (List.mem_cons_of_mem _ hmem)
      · obtain ⟨l, _, rfl⟩ := List.mem_map.1 hm
        obtain ⟨⟨k, n⟩, hentry, rfl⟩ := List.mem_map.1 hk
        obtain ⟨t, l, ht, rfl⟩ := eq_cons_of_mem_listChildren hentry
        exact List.cons_lt_cons_iff.2 (Or.inl (hpairwise.1 t ht))

end Branch

end ModText
