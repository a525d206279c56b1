import ModText.Disk.Branch

/-!
# File trees

The files and folders of a disk: a folder, the root, with all that lies below it.

A tree is looked at through `node?`. Beside each operation stands what it does to that view.
-/

namespace ModText

/-- The files and folders of a disk. -/
structure FileTree where
  root : Branch
  isFolder : root.node = .folder
  ordered : root.Ordered

namespace FileTree

/-- The tree with nothing in it. -/
def empty : FileTree where
  root := .ofNode .folder
  isFolder := rfl
  ordered := Branch.ordered_ofNode .folder

instance : Inhabited FileTree := ⟨empty⟩

/-- What is at a place. -/
def node? (t : FileTree) (l : Location) : Option Node :=
  (t.root.at? l).map (·.node)

theorem node?_nil (t : FileTree) : t.node? [] = some .folder := by
  rw [node?, Branch.at?_nil, Option.map_some, t.isFolder]

theorem node?_empty (l : Location) :
    empty.node? l = if l = [] then some .folder else none := by
  cases l <;> rfl

theorem at?_of_node?_eq_folder {t : FileTree} {l : Location} (h : t.node? l = some .folder) :
    ∃ children, t.root.at? l = some (.folder children) := by
  obtain ⟨b, hb, hnode⟩ := Option.map_eq_some_iff.1 h
  cases b with
  | file => cases hnode
  | folder children => exact ⟨children, hb⟩

/-- What is at a place lies in a folder and has a name. -/
theorem parent_of_node? {t : FileTree} {l : Location} {n : Node} (hroot : l ≠ [])
    (h : t.node? l = some n) :
    ∃ parent name, l = parent ++ [name] ∧ IsName name ∧ t.node? parent = some .folder := by
  obtain ⟨parent, name, rfl⟩ : ∃ parent name, l = parent ++ [name] :=
    ⟨l.dropLast, l.getLast hroot, (List.dropLast_concat_getLast hroot).symm⟩
  refine ⟨parent, name, rfl, ?_⟩
  rw [node?, Branch.at?_append] at h
  cases hparent : t.root.at? parent with
  | none => simp [hparent] at h
  | some b =>
    have hb := Branch.ordered_of_at? t.ordered hparent
    cases hb with
    | file => simp [hparent, Branch.at?] at h
    | folder children hpairwise hnames hbelow =>
      cases hlookup : children.lookup name with
      | none => simp [hparent, Branch.at?, hlookup] at h
      | some c =>
        refine ⟨hnames name c (Branch.mem_of_lookup_eq hlookup), ?_⟩
        simp [node?, hparent, Branch.node]

/-- The tree with a change made to the names in the folder at a place, if there is one. -/
def change (t : FileTree) (l : Location) (f : List (String × Branch) → List (String × Branch))
    (hf : ∀ children, (Branch.folder children).Ordered → (Branch.folder (f children)).Ordered) :
    FileTree where
  root := Branch.changeAt f l t.root
  isFolder := by rw [Branch.node_changeAt_self, t.isFolder]
  ordered := Branch.ordered_changeAt hf l t.ordered

theorem node?_change_of_not_prefix (t : FileTree) {l m : Location}
    {f : List (String × Branch) → List (String × Branch)}
    (hf : ∀ children, (Branch.folder children).Ordered → (Branch.folder (f children)).Ordered)
    (hout : ¬ l <+: m) : (t.change l f hf).node? m = t.node? m :=
  Branch.node_changeAt f hout t.root

theorem node?_change_append (t : FileTree) (l m : Location)
    {f : List (String × Branch) → List (String × Branch)}
    (hf : ∀ children, (Branch.folder children).Ordered → (Branch.folder (f children)).Ordered) :
    (t.change l f hf).node? (l ++ m) =
      match t.root.at? l with
      | some (.folder children) => ((Branch.folder (f children)).at? m).map (·.node)
      | _ => t.node? (l ++ m) := by
  rw [node?, change, Branch.at?_changeAt_append]
  cases h : t.root.at? l with
  | none => rw [node?]
  | some b => cases b <;> rw [node?]

/-- The tree with a file or an empty folder in a folder. -/
def put (t : FileTree) (parent : Location) (name : String) (n : Node) (hname : IsName name) :
    FileTree :=
  t.change parent (Branch.insert name (.ofNode n)) fun _ h =>
    Branch.ordered_insert hname (Branch.ordered_ofNode n) h

theorem node?_put (t : FileTree) (parent : Location) (name : String) (n : Node)
    (hname : IsName name) (hparent : t.node? parent = some .folder)
    (hfree : t.node? (parent ++ [name]) ≠ some .folder) (l : Location) :
    (t.put parent name n hname).node? l =
      if l = parent ++ [name] then some n else t.node? l := by
  obtain ⟨children, hchildren⟩ := at?_of_node?_eq_folder hparent
  by_cases hin : parent <+: l
  · obtain ⟨m, rfl⟩ := hin
    rw [put, node?_change_append, hchildren, node?, Branch.at?_append, hchildren,
      Option.bind_some]
    cases m with
    | nil => simp [Branch.at?_nil, Branch.node]
    | cons s m =>
      simp only [Branch.at?, Branch.lookup_insert, List.append_cancel_left_eq, List.cons.injEq]
      by_cases hs : s = name
      · subst hs
        rw [if_pos rfl, Option.bind_some]
        cases m with
        | nil => cases n <;> simp [Branch.ofNode, Branch.at?, Branch.node]
        | cons s' m =>
          have hbelow : (children.lookup s).bind (·.at? (s' :: m)) = none := by
            rw [node?, Branch.at?_append, hchildren, Option.bind_some, Branch.at?] at hfree
            cases hlookup : children.lookup s with
            | none => rfl
            | some b =>
              cases b with
              | file content => rfl
              | folder below => simp [hlookup, Branch.at?_nil, Branch.node] at hfree
          rw [hbelow]
          cases n <;> simp [Branch.ofNode, Branch.at?]
      · simp [hs]
  · have hne : l ≠ parent ++ [name] := by
      rintro rfl
      exact hin (List.prefix_append _ _)
    rw [if_neg hne]
    exact t.node?_change_of_not_prefix _ hin

/-- The tree without what has a name in a folder, and without what lies below it. -/
def erase (t : FileTree) (parent : Location) (name : String) : FileTree :=
  t.change parent (Branch.erase name) fun _ h => Branch.ordered_erase name h

theorem node?_erase (t : FileTree) (parent : Location) (name : String) (l : Location) :
    (t.erase parent name).node? l = if parent ++ [name] <+: l then none else t.node? l := by
  by_cases hin : parent <+: l
  · obtain ⟨m, rfl⟩ := hin
    simp only [List.prefix_append_right_inj]
    rw [erase, node?_change_append]
    split
    · rename_i children hchildren
      rw [node?, Branch.at?_append, hchildren, Option.bind_some]
      cases m with
      | nil => simp [Branch.at?_nil, Branch.node]
      | cons s m =>
        simp only [Branch.at?, Branch.lookup_erase, List.cons_prefix_cons, List.nil_prefix,
          and_true]
        by_cases hs : s = name
        · simp [hs]
        · simp [hs, Ne.symm hs]
    · rename_i hnone
      split
      · rename_i hbelow
        obtain ⟨m, rfl⟩ := hbelow
        rw [node?, Branch.at?_append]
        cases hparent : t.root.at? parent with
        | none => rfl
        | some b =>
          cases b with
          | file content => rfl
          | folder children => exact absurd hparent (hnone children)
      · rfl
  · rw [if_neg fun h => hin ((List.prefix_append _ _).trans h)]
    exact t.node?_change_of_not_prefix _ hin

/-- The tree without what lies below a place. -/
def clear (t : FileTree) (l : Location) : FileTree :=
  t.change l (fun _ => []) fun _ _ => Branch.ordered_nil

theorem node?_clear (t : FileTree) (l m : Location) :
    (t.clear l).node? m = if l <+: m ∧ l ≠ m then none else t.node? m := by
  by_cases hin : l <+: m
  · obtain ⟨k, rfl⟩ := hin
    rw [clear, node?_change_append]
    cases k with
    | nil =>
      rw [if_neg (by simp), List.append_nil, node?]
      split
      · rename_i children hchildren
        simp [hchildren, Branch.at?, Branch.node]
      · rfl
    | cons s k =>
      rw [if_pos (by simp)]
      split
      · simp [Branch.at?]
      · rename_i hnone
        rw [node?, Branch.at?_append]
        cases hl : t.root.at? l with
        | none => rfl
        | some b =>
          cases b with
          | file content => rfl
          | folder children => exact absurd hl (hnone children)
  · rw [if_neg fun h => hin h.1]
    exact t.node?_change_of_not_prefix _ hin

/-- What lies below a place, each with the names that lead to it from there, in the order of a
listing. -/
def listing (t : FileTree) (l : Location) : List (Location × Node) :=
  ((t.root.at? l).map (·.listing)).getD []

theorem mem_listing {t : FileTree} {l m : Location} {n : Node} :
    (m, n) ∈ t.listing l ↔ m ≠ [] ∧ t.node? (l ++ m) = some n := by
  rw [listing, node?, Branch.at?_append]
  cases hl : t.root.at? l with
  | none => simp
  | some b => exact Branch.mem_listing (Branch.ordered_of_at? t.ordered hl)

theorem pairwise_listing (t : FileTree) (l : Location) :
    ((t.listing l).map Prod.fst).Pairwise (· < ·) := by
  rw [listing]
  cases hl : t.root.at? l with
  | none => exact List.Pairwise.nil
  | some b => exact Branch.pairwise_listing (Branch.ordered_of_at? t.ordered hl)

/-- The files below a place, each with the names that lead to it from there. -/
def filesBelow (t : FileTree) (l : Location) : List Location :=
  (t.listing l).filterMap fun (m, n) =>
    match n with
    | .file _ => some m
    | .folder => none

theorem mem_filesBelow {t : FileTree} {l m : Location} :
    m ∈ t.filesBelow l ↔ m ≠ [] ∧ ∃ content, t.node? (l ++ m) = some (.file content) := by
  rw [filesBelow, List.mem_filterMap]
  constructor
  · rintro ⟨⟨k, n⟩, hmem, hkept⟩
    obtain ⟨hne, hnode⟩ := mem_listing.1 hmem
    cases n with
    | folder => simp at hkept
    | file content =>
      obtain rfl : k = m := by simpa using hkept
      exact ⟨hne, content, hnode⟩
  · rintro ⟨hne, content, hnode⟩
    exact ⟨(m, .file content), mem_listing.2 ⟨hne, hnode⟩, rfl⟩

end FileTree

end ModText
