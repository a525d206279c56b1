import ModText.Proofs.Disk.Walks

/-!
# A disk is what is at its places

Folders keep their names in order, so there is one way only to keep what is at the places of a disk:
two disks with the same at every place are the same. For the same reason the files that are found
below a place are told in order by what is there, and files that lie elsewhere make no difference.
-/

namespace ModText

/-- What is kept in order is known from what it is made of. -/
theorem eq_of_pairwise_of_mem_iff {α β : Type} [LT β] [Std.Asymm fun a b : β => a < b]
    {key : α → β} {xs ys : List α} (hxs : (xs.map key).Pairwise (· < ·))
    (hys : (ys.map key).Pairwise (· < ·)) (h : ∀ a, a ∈ xs ↔ a ∈ ys) : xs = ys := by
  have hasymm : ∀ {a b : β}, a < b → ¬ b < a := fun hab hba =>
    Std.Asymm.asymm (r := fun a b : β => a < b) _ _ hab hba
  have hnodup : ∀ {zs : List α}, (zs.map key).Pairwise (· < ·) → zs.Nodup := by
    intro zs hzs
    apply (List.pairwise_map.1 hzs).imp
    intro a b hlt heq
    rw [heq] at hlt
    exact hasymm hlt hlt
  have hperm : xs.Perm ys := (List.perm_ext_iff_of_nodup (hnodup hxs) (hnodup hys)).2 h
  refine hperm.eq_of_pairwise ?_ (List.pairwise_map.1 hxs) (List.pairwise_map.1 hys)
  intro a b _ _ hab hba
  exact absurd hba (hasymm hab)

namespace Branch

/-- What has a name in a folder has the same at every place below it as long as the folder has. -/
theorem exists_lookup_eq {children children' : List (String × Branch)}
    (h : ∀ l, ((folder children).at? l).map node = ((folder children').at? l).map node)
    {s : String} {b : Branch} (hb : children.lookup s = some b) :
    ∃ b', children'.lookup s = some b' ∧ ∀ l, (b.at? l).map node = (b'.at? l).map node := by
  have hbelow : ∀ l, (b.at? l).map node = ((children'.lookup s).bind (·.at? l)).map node := by
    intro l
    have hl := h (s :: l)
    rwa [at?, at?, hb, Option.bind_some] at hl
  cases hb' : children'.lookup s with
  | none =>
    have hnone := hbelow []
    rw [hb', at?_nil] at hnone
    cases hnone
  | some b' =>
    refine ⟨b', rfl, ?_⟩
    intro l
    rw [hbelow l, hb', Option.bind_some]

theorem eq_of_node_eq {b b' : Branch} (hb : b.Ordered) (hb' : b'.Ordered)
    (h : ∀ l, (b.at? l).map node = (b'.at? l).map node) : b = b' := by
  induction hb generalizing b' with
  | file content =>
    have hroot := h []
    rw [at?_nil, at?_nil, Option.map_some, Option.map_some, Option.some.injEq] at hroot
    cases b' with
    | file content' => rw [node, node, Node.file.injEq] at hroot; rw [hroot]
    | folder => cases hroot
  | folder children hpairwise hnames hbelow ih =>
    cases hb' with
    | file content' =>
      have hroot := h []
      rw [at?_nil, at?_nil, Option.map_some, Option.map_some] at hroot
      cases hroot
    | folder children' hpairwise' hnames' hbelow' =>
      rw [folder.injEq]
      refine eq_of_pairwise_of_mem_iff hpairwise hpairwise' ?_
      intro child
      obtain ⟨s, b⟩ := child
      constructor
      · intro hmem
        obtain ⟨b', hlookup, hsame⟩ := exists_lookup_eq h (lookup_eq_of_mem hpairwise hmem)
        have hmem' := mem_of_lookup_eq hlookup
        rwa [ih s b hmem (hbelow' s b' hmem') hsame]
      · intro hmem'
        obtain ⟨b', hlookup, hsame⟩ :=
          exists_lookup_eq (fun l => (h l).symm) (lookup_eq_of_mem hpairwise' hmem')
        have hmem := mem_of_lookup_eq hlookup
        rwa [← ih s b' hmem (hbelow' s b hmem') fun l => (hsame l).symm]

end Branch

namespace FileTree

variable {t t' : FileTree}

/-- **Two disks with the same at every place are the same.** -/
theorem eq_of_node?_eq (h : ∀ l, t.node? l = t'.node? l) : t = t' := by
  have hroot := Branch.eq_of_node_eq t.ordered t'.ordered h
  cases t
  cases t'
  simp_all

theorem pairwise_filesBelow (t : FileTree) (l : Location) :
    (t.filesBelow l).Pairwise (· < ·) := by
  refine List.Pairwise.sublist ?_ (t.pairwise_listing l)
  rw [filesBelow]
  generalize t.listing l = found
  induction found with
  | nil => exact .slnil
  | cons entry found ih =>
    obtain ⟨m, n⟩ := entry
    cases n with
    | folder => exact ih.cons m
    | file content => exact ih.cons_cons m

/-- Of the files below a place, those are the same that are told by places with the same files. -/
theorem filter_filesBelow_eq {l : Location} {keep : Location → Bool}
    (h : ∀ m, keep m → (∀ s ∈ m, IsName s) → ∀ content,
      t.node? (l ++ m) = some (.file content) ↔ t'.node? (l ++ m) = some (.file content)) :
    (t.filesBelow l).filter keep = (t'.filesBelow l).filter keep := by
  have hsorted : ∀ u : FileTree,
      (((u.filesBelow l).filter keep).map id).Pairwise (· < ·) := by
    intro u
    rw [List.map_id]
    exact (u.pairwise_filesBelow l).filter keep
  have hmem : ∀ (u : FileTree) (m : Location), m ∈ (u.filesBelow l).filter keep ↔
      keep m = true ∧ m ≠ [] ∧ (∀ s ∈ m, IsName s) ∧
        ∃ content, u.node? (l ++ m) = some (.file content) := by
    intro u m
    rw [List.mem_filter, mem_filesBelow]
    constructor
    · rintro ⟨⟨hne, content, hfile⟩, hkeep⟩
      exact ⟨hkeep, hne, fun s hs => isName_of_mem hfile s (List.mem_append_right l hs), _, hfile⟩
    · rintro ⟨hkeep, hne, _, hfile⟩
      exact ⟨⟨hne, hfile⟩, hkeep⟩
  apply eq_of_pairwise_of_mem_iff (hsorted t) (hsorted t')
  intro m
  rw [hmem t, hmem t']
  constructor
  · rintro ⟨hkeep, hne, hnames, content, hfile⟩
    exact ⟨hkeep, hne, hnames, content, (h m hkeep hnames content).1 hfile⟩
  · rintro ⟨hkeep, hne, hnames, content, hfile⟩
    exact ⟨hkeep, hne, hnames, content, (h m hkeep hnames content).2 hfile⟩

end FileTree

end ModText
