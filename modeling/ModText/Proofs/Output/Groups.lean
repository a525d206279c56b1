import ModText.Proofs.Output.Plan
import ModText.Proofs.Record.Groups

/-!
# The files of groups

Groups are told apart by their namespaces, and files by the places that their paths lead to. Two
namespaces can lead to one place, as `N` and `./N` do, and then the group that is written last is the
one that is found there, by the paths of both. If no two groups meet in this way, then every file
holds its group. Namespaces without a slash never meet.
-/

namespace ModText

namespace Layout

/-- The steps with which groups of a category are written into a fresh output. -/
def freshWrites (l : Layout) (prepared : List Category) (c : Category)
    (groups : List (Group Record)) : List Write :=
  l.prepare prepared ++ groups.map (l.groupWrite c)

/-- The file of a group, as it is written. -/
def groupContent (g : Group Record) : ByteArray :=
  ((Json.ofList Record.toJson g.records).toPretty ++ "\n").toUTF8

/-- Whether the files of two groups are at one place. -/
def Meet (l : Layout) (here : Location) (c : Category) (g q : Group Record) : Prop :=
  (l.namespaceFile c g.namespaceName).target here = (l.namespaceFile c q.namespaceName).target here

instance (l : Layout) (here : Location) (c : Category) (g q : Group Record) :
    Decidable (l.Meet here c g q) :=
  inferInstanceAs (Decidable (_ = _))

variable {m : Mod} {w w' : Workspace} {here : Location} {l : Layout} {prepared : List Category}
  {c : Category} {groups front back : List (Group Record)} {g q : Group Record}

theorem freshWrites_eq : l.freshWrites prepared c groups =
    .clear l.root :: ((prepared.map fun k => .create (l.categoryFolder k)) ++
      groups.map (l.groupWrite c)) :=
  rfl

theorem removes_of_mem_groupWrites {step : Write}
    (h : step ∈ (prepared.map fun k => .create (l.categoryFolder k)) ++
      groups.map (l.groupWrite c)) : step.removes = false := by
  rcases List.mem_append.1 h with h | h
  · obtain ⟨_, _, rfl⟩ := List.mem_map.1 h
    rfl
  · obtain ⟨_, _, rfl⟩ := List.mem_map.1 h
    rfl

/-- After groups have been written, the last one of those that meet is read by the paths of all of
them. -/
theorem read?_of_freshWrites (hground : w.IsGrounded) (hhere : w.cwd.Of here)
    (hwrite : Write.performAll m w (l.freshWrites prepared c (front ++ g :: back)) = (w', none))
    (hlast : ∀ r ∈ back, ¬ l.Meet here c r g) (hq : q ∈ front ++ g :: back)
    (hmeet : l.Meet here c q g) :
    w'.read? (l.namespaceFile c q.namespaceName) = some (groupContent g) := by
  rw [freshWrites_eq] at hwrite
  obtain ⟨v, s, hclear, ⟨rfl, hrest⟩ | ⟨hsome, rfl, _⟩⟩ := Write.performAll_cons hwrite
  · have hcwd := (Write.clearFolder_spec hhere hclear).1
    have hv := Write.clearFolder_isGrounded hhere hground hclear
    have hadd : ∀ step ∈ (prepared.map fun k => .create (l.categoryFolder k)) ++
        (front ++ g :: back).map (l.groupWrite c), step.removes = false := fun _ =>
      removes_of_mem_groupWrites
    -- the place is as the last step for it has left it
    have hfile : w'.tree.node? ((l.namespaceFile c q.namespaceName).target here) =
        some (.file (groupContent g)) := by
      have hsplit : (prepared.map fun k => .create (l.categoryFolder k)) ++
          (front ++ g :: back).map (l.groupWrite c) =
          ((prepared.map fun k => .create (l.categoryFolder k)) ++ front.map (l.groupWrite c)) ++
            l.groupWrite c g :: back.map (l.groupWrite c) := by
        simp
      have hlater : ∀ r ∈ back.map (l.groupWrite c),
          ¬ r.WritesAt here ((l.namespaceFile c g.namespaceName).target here) := by
        intro r hr hwrites
        obtain ⟨p, hp, rfl⟩ := List.mem_map.1 hr
        exact hlast p hp ((Write.writesAt_iff rfl).1 hwrites)
      rw [hsplit] at hrest hadd
      obtain ⟨_, content, _, hcontent, hnode⟩ :=
        Write.performAll_last hcwd hadd hrest ((Write.writesAt_iff rfl).2 rfl) hlater
      rw [groupWrite, Write.content?_document] at hcontent
      rw [hmeet, hnode, ← Option.some.inj hcontent]
      rfl
    have hstep : Write.document (l.namespaceFile c q.namespaceName)
        (.ofList Record.toJson q.records) ∈
        (prepared.map fun k => .create (l.categoryFolder k)) ++
          (front ++ g :: back).map (l.groupWrite c) :=
      List.mem_append_right _ (List.mem_map.2 ⟨q, hq, rfl⟩)
    obtain ⟨u, _, _, hu, hground', site, hgrows⟩ :=
      Write.exists_site_of_performAll hcwd hv hadd hrest hstep
    obtain ⟨_, _, hsegments, hname⟩ := l.segments_namespaceFile c q.namespaceName
    exact Workspace.read?_of_isSite hu hground' hsegments hname site hgrows hfile
  · cases hsome

/-- Groups do not meet if they are of different namespaces without a slash. -/
theorem eq_of_meet (hg : '/' ∉ g.namespaceName.toList) (hq : '/' ∉ q.namespaceName.toList)
    (hmeet : l.Meet here c g q) : g.namespaceName = q.namespaceName := by
  rw [Meet, ((l.namespaceFile_isBelow c hg).2 here).1, ((l.namespaceFile_isBelow c hq).2 here).1]
    at hmeet
  have hnames := List.append_cancel_left hmeet
  simpa using hnames

/-- **What is read back of groups.** Let the records of a category be grouped and written into a fresh
output, and all of it succeed. No record is lost in the groups, which are those of the namespaces.
By the path of a group the group itself is read, unless another one that meets it is written later;
of groups that meet, it is the last that is read by the paths of all of them. So each group is read
by its own path if no two groups meet, and none do if the namespaces are without slashes. -/
theorem read_back_groups {records : List Record} (hground : w.IsGrounded) (hhere : w.cwd.Of here)
    (hgroup : groupByNamespace records = .ok groups)
    (hwrite : Write.performAll m w (l.freshWrites prepared c groups) = (w', none)) :
    groups = groupsOf records ∧ (groups.flatMap Group.records).Perm records ∧
    (∀ front g back, groups = front ++ g :: back → (∀ r ∈ back, ¬ l.Meet here c r g) →
      ∀ q ∈ groups, l.Meet here c q g →
        w'.read? (l.namespaceFile c q.namespaceName) = some (groupContent g)) ∧
    ((∀ g ∈ groups, ∀ q ∈ groups, l.Meet here c g q → g = q) →
      ∀ g ∈ groups, w'.read? (l.namespaceFile c g.namespaceName) = some (groupContent g)) ∧
    ((∀ r ∈ records, '/' ∉ (namespaceOf r).toList) →
      ∀ g ∈ groups, ∀ q ∈ groups, l.Meet here c g q → g = q) := by
  obtain ⟨_, rfl⟩ := groupByNamespace_eq_ok.1 hgroup
  have hlast : ∀ front g back, groupsOf records = front ++ g :: back →
      (∀ r ∈ back, ¬ l.Meet here c r g) → ∀ q ∈ groupsOf records, l.Meet here c q g →
        w'.read? (l.namespaceFile c q.namespaceName) = some (groupContent g) := by
    intro front g back hsplit hback q hq hmeet
    rw [hsplit] at hwrite hq
    exact read?_of_freshWrites hground hhere hwrite hback hq hmeet
  refine ⟨rfl, flatMap_groupsOf records, hlast, ?_, ?_⟩
  · intro hapart g hg
    obtain ⟨front, back, hsplit⟩ := List.append_of_mem hg
    have hnodup := nodup_groupsOf records
    rw [hsplit, List.nodup_append] at hnodup
    have hnew : g ∉ back := (List.nodup_cons.1 hnodup.2.1).1
    apply hlast front g back hsplit _ g hg rfl
    intro r hr hmeet
    have hr' : r ∈ groupsOf records := by simp [hsplit, hr]
    exact hnew (hapart r hr' g hg hmeet ▸ hr)
  · intro hslash g hg q hq hmeet
    have hflat : ∀ p ∈ groupsOf records, '/' ∉ p.namespaceName.toList := by
      intro p hp
      obtain ⟨r, hr, hname⟩ := (mem_groupsOf.1 hp).1
      rw [← hname]
      exact hslash r hr
    exact eq_of_namespaceName_eq hg hq (eq_of_meet (hflat g hg) (hflat q hq) hmeet)

/-- Two texts in namespaces that lead to one place: what is read by both paths is the second. -/
theorem read_back_meeting_groups :
    let m : Mod := { name := "Mod", code := fun _ => .ok .empty, read := fun _ _ => .ok .empty }
    let w : Workspace := ⟨.empty, {}⟩
    let l : Layout := ⟨⟨"out/Mod"⟩⟩
    let records := [Record.custom ⟨"a", "N", "first"⟩, .custom ⟨"b", "./N", "second"⟩]
    let first : Group Record := ⟨"N", [.custom ⟨"a", "N", "first"⟩]⟩
    let second : Group Record := ⟨"./N", [.custom ⟨"b", "./N", "second"⟩]⟩
    w.IsGrounded ∧ w.cwd.Of [] ∧ groupByNamespace records = .ok [first, second] ∧
      ∃ w', Write.performAll m w (l.freshWrites [.customs] .customs [first, second]) = (w', none) ∧
        w'.read? (l.namespaceFile .customs "N") = some (groupContent second) ∧
        w'.read? (l.namespaceFile .customs "./N") = some (groupContent second) := by
  intro m w l records first second
  have hground : w.IsGrounded := by decide +kernel
  have hhere : w.cwd.Of [] := Position.of_root
  have hgroup : groupByNamespace records = .ok [first, second] :=
    eq_ok_of_toOption (by decide +kernel)
  have hdone :
      (Write.performAll m w (l.freshWrites [.customs] .customs [first, second])).2 = none := by
    decide +kernel
  have hmeet : l.Meet [] .customs first second := by decide +kernel
  generalize hwrite :
    Write.performAll m w (l.freshWrites [.customs] .customs [first, second]) = result
    at hdone
  obtain ⟨w', r⟩ := result
  obtain rfl := hdone
  have hread := (read_back_groups hground hhere hgroup hwrite).2.2.1 [first] second [] rfl (by simp)
  exact ⟨hground, hhere, hgroup, w', rfl, hread first (by simp) hmeet, hread second (by simp) rfl⟩

end Layout

end ModText
