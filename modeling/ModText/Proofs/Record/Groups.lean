import ModText.Record.Grouping
import Mathlib.Data.List.Induction
import Mathlib.Data.List.Nodup

/-!
# The groups of records

Grouping goes through the records one by one. What it makes of them can be told at once: there is a
group for each namespace, in the order in which the namespaces are first met, and it holds the
records of that namespace as they come in the list.
-/

namespace ModText

variable {α : Type} [Filed α]

/-- The namespaces of records in the order in which they are first met. -/
def namespacesOf (records : List α) : List String :=
  (records.map namespaceOf).eraseDups

/-- The groups of records, told at once. -/
def groupsOf (records : List α) : List (Group α) :=
  (namespacesOf records).map fun n => ⟨n, records.filter (namespaceOf · = n)⟩

theorem mem_namespacesOf {records : List α} {n : String} :
    n ∈ namespacesOf records ↔ ∃ r ∈ records, namespaceOf r = n := by
  rw [namespacesOf, List.mem_eraseDups, List.mem_map]

theorem mem_groupsOf {records : List α} {g : Group α} :
    g ∈ groupsOf records ↔ (∃ r ∈ records, namespaceOf r = g.namespaceName) ∧
      g.records = records.filter (namespaceOf · = g.namespaceName) := by
  rw [groupsOf, List.mem_map]
  constructor
  · rintro ⟨n, hn, rfl⟩
    exact ⟨mem_namespacesOf.1 hn, rfl⟩
  · rintro ⟨hmet, hrecords⟩
    exact ⟨g.namespaceName, mem_namespacesOf.2 hmet, by rw [← hrecords]⟩

/-- One record more brings at most one namespace more, and that is the last one. -/
theorem namespacesOf_concat (records : List α) (r : α) :
    namespacesOf (records ++ [r]) =
      if namespaceOf r ∈ namespacesOf records then namespacesOf records
      else namespacesOf records ++ [namespaceOf r] := by
  rw [namespacesOf, namespacesOf, List.map_append, List.eraseDups_append]
  split
  · rename_i hmet
    rw [List.mem_eraseDups] at hmet
    rw [List.map_singleton, List.removeAll, List.filter_cons_of_neg (by simpa using hmet)]
    simp
  · rename_i hnew
    rw [List.mem_eraseDups] at hnew
    rw [List.map_singleton, List.removeAll, List.filter_cons_of_pos (by simpa using hnew)]
    simp [List.eraseDups_cons]

theorem nodup_namespacesOf_concat {records : List α} (h : (namespacesOf records).Nodup) (r : α) :
    (namespacesOf (records ++ [r])).Nodup := by
  rw [namespacesOf_concat]
  split
  · exact h
  · rename_i hnew
    rw [List.nodup_append]
    refine ⟨h, by simp, fun a ha b hb => ?_⟩
    rw [List.mem_singleton.1 hb]
    rintro rfl
    exact hnew ha

/-- A record goes to the group of its namespace, or to a new last one. -/
theorem addToGroups_map {names : List String} (hnames : names.Nodup) (recordsOf : String → List α)
    (r : α) :
    addToGroups (names.map fun n => ⟨n, recordsOf n⟩) r =
      if namespaceOf r ∈ names then
        names.map fun n => ⟨n, recordsOf n ++ if namespaceOf r = n then [r] else []⟩
      else (names.map fun n => ⟨n, recordsOf n⟩) ++ [⟨namespaceOf r, [r]⟩] := by
  induction names with
  | nil => rfl
  | cons n names ih =>
    obtain ⟨hn, hnames⟩ := List.nodup_cons.1 hnames
    rw [List.map_cons, addToGroups]
    by_cases heq : n = namespaceOf r
    · -- no later group is of this namespace, so the others stay as they are
      have hrest : names.map (fun n => (⟨n, recordsOf n⟩ : Group α)) =
          names.map fun n => ⟨n, recordsOf n ++ if namespaceOf r = n then [r] else []⟩ := by
        apply List.map_congr_left
        intro k hk
        rw [if_neg, List.append_nil]
        rintro rfl
        exact hn (heq ▸ hk)
      simp [heq, hrest]
    · rw [if_neg heq, ih hnames]
      have hmem : namespaceOf r ∈ n :: names ↔ namespaceOf r ∈ names := by
        simp [Ne.symm heq]
      by_cases hmet : namespaceOf r ∈ names
      · simp [hmet, Ne.symm heq]
      · rw [if_neg hmet, if_neg (fun h => hmet (hmem.1 h)), List.cons_append]

theorem addToGroups_groupsOf {records : List α} (h : (namespacesOf records).Nodup) (r : α) :
    addToGroups (groupsOf records) r = groupsOf (records ++ [r]) := by
  rw [groupsOf, addToGroups_map h, groupsOf, namespacesOf_concat]
  simp only [List.filter_append]
  split
  · apply List.map_congr_left
    intro n _
    by_cases hn : namespaceOf r = n <;> simp [hn]
  · rename_i hnew
    rw [List.map_append]
    congr 1
    · apply List.map_congr_left
      intro n hn
      have hne : namespaceOf r ≠ n := by
        rintro rfl
        exact hnew hn
      simp [hne]
    · have hnone : records.filter (namespaceOf · = namespaceOf r) = [] := by
        rw [List.filter_eq_nil_iff]
        intro s hs hsame
        exact hnew (mem_namespacesOf.2 ⟨s, hs, by simpa using hsame⟩)
      simp [hnone]

theorem groupOnto_groupsOf (done rest : List α) (hdone : (namespacesOf done).Nodup) :
    (groupOnto (groupsOf done) rest).toOption =
      if ∀ r ∈ rest, namespaceOf r ≠ "" then some (groupsOf (done ++ rest)) else none := by
  induction rest generalizing done with
  | nil => simp [groupOnto, Except.toOption]
  | cons r rest ih =>
    rw [groupOnto]
    by_cases hempty : namespaceOf r = ""
    · rw [if_pos hempty, if_neg fun h => h r List.mem_cons_self hempty]
      rfl
    · rw [if_neg hempty, addToGroups_groupsOf hdone, ih _ (nodup_namespacesOf_concat hdone r)]
      simp [hempty]

/-- Grouping succeeds exactly if no record is without a namespace, and then it makes the groups that
can be told at once. -/
theorem groupByNamespace_eq_ok {records : List α} {groups : List (Group α)} :
    groupByNamespace records = .ok groups ↔
      (∀ r ∈ records, namespaceOf r ≠ "") ∧ groups = groupsOf records := by
  have hgroups := groupOnto_groupsOf [] records List.nodup_nil
  change (groupByNamespace records).toOption = _ at hgroups
  cases hresult : groupByNamespace records with
  | error missing =>
    rw [hresult] at hgroups
    split at hgroups
    · cases hgroups
    · rename_i hempty
      constructor
      · intro h
        cases h
      · exact fun h => absurd h.1 hempty
  | ok found =>
    rw [hresult] at hgroups
    split at hgroups
    · rename_i hnames
      obtain rfl := Option.some.inj hgroups
      constructor
      · exact fun h => ⟨hnames, (Except.ok.inj h).symm⟩
      · exact fun h => by rw [h.2, List.nil_append]
    · cases hgroups

theorem groupOnto_of_find? (groups : List (Group α)) {records : List α} {r : α}
    (h : records.find? (namespaceOf · = "") = some r) :
    groupOnto groups records = .error ⟨categoryOf r, ownerOf r⟩ := by
  induction records generalizing groups with
  | nil => cases h
  | cons first records ih =>
    rw [groupOnto]
    by_cases hfirst : namespaceOf first = ""
    · rw [List.find?_cons_of_pos (by simpa using hfirst)] at h
      rw [if_pos hfirst, Option.some.inj h]
    · rw [List.find?_cons_of_neg (by simpa using hfirst)] at h
      rw [if_neg hfirst]
      exact ih _ h

/-- If a record is without a namespace, then the first one that is so is named. -/
theorem groupByNamespace_of_find? {records : List α} {r : α}
    (h : records.find? (namespaceOf · = "") = some r) :
    groupByNamespace records = .error ⟨categoryOf r, ownerOf r⟩ :=
  groupOnto_of_find? [] h

theorem nodup_namespacesOf (records : List α) : (namespacesOf records).Nodup := by
  induction records using List.reverseRecOn with
  | nil => exact List.nodup_nil
  | append_singleton records r ih => exact nodup_namespacesOf_concat ih r

theorem map_namespaceName_groupsOf (records : List α) :
    (groupsOf records).map Group.namespaceName = namespacesOf records := by
  simp [groupsOf, Function.comp_def]

theorem nodup_groupsOf (records : List α) : (groupsOf records).Nodup := by
  apply List.Nodup.of_map Group.namespaceName
  rw [map_namespaceName_groupsOf]
  exact nodup_namespacesOf records

theorem eq_of_namespaceName_eq {records : List α} {g q : Group α} (hg : g ∈ groupsOf records)
    (hq : q ∈ groupsOf records) (h : g.namespaceName = q.namespaceName) : g = q := by
  have hgr := (mem_groupsOf.1 hg).2
  have hqr := (mem_groupsOf.1 hq).2
  cases g
  cases q
  simp_all

theorem flatMap_addToGroups (groups : List (Group α)) (r : α) :
    ((addToGroups groups r).flatMap Group.records).Perm (groups.flatMap Group.records ++ [r]) := by
  induction groups with
  | nil => exact .refl _
  | cons g groups ih =>
    rw [addToGroups, List.flatMap_cons, List.append_assoc]
    split
    · rw [List.flatMap_cons, List.append_assoc]
      exact List.perm_append_comm.append_left g.records
    · rw [List.flatMap_cons]
      exact ih.append_left g.records

/-- No record is lost in the groups, and none comes twice. -/
theorem flatMap_groupsOf (records : List α) :
    ((groupsOf records).flatMap Group.records).Perm records := by
  induction records using List.reverseRecOn with
  | nil => exact .refl _
  | append_singleton records r ih =>
    rw [← addToGroups_groupsOf (nodup_namespacesOf records)]
    exact (flatMap_addToGroups _ r).trans (ih.append_right [r])

theorem groupByNamespace_eq_error {records : List α} {missing : MissingNamespace} :
    groupByNamespace records = .error missing ↔ ∃ r, records.find? (namespaceOf · = "") = some r ∧
      missing = ⟨categoryOf r, ownerOf r⟩ := by
  constructor
  · intro h
    cases hfirst : records.find? (namespaceOf · = "") with
    | none =>
      have hok : groupByNamespace records = .ok (groupsOf records) :=
        groupByNamespace_eq_ok.2 ⟨by simpa using hfirst, rfl⟩
      rw [hok] at h
      cases h
    | some r =>
      rw [groupByNamespace_of_find? hfirst] at h
      exact ⟨r, rfl, (Except.error.inj h).symm⟩
  · rintro ⟨r, hfirst, rfl⟩
    exact groupByNamespace_of_find? hfirst

/-- A record is in the group of its namespace and in no other. -/
theorem mem_records_of_mem_groupsOf {records : List α} {g : Group α} (hg : g ∈ groupsOf records)
    {r : α} : r ∈ g.records ↔ r ∈ records ∧ namespaceOf r = g.namespaceName := by
  rw [(mem_groupsOf.1 hg).2, List.mem_filter, decide_eq_true_iff]

theorem existsUnique_mem_groupsOf {records : List α} {r : α} (hr : r ∈ records) :
    ∃! g, g ∈ groupsOf records ∧ r ∈ g.records := by
  obtain ⟨g, hg, hname⟩ : ∃ g ∈ groupsOf records, g.namespaceName = namespaceOf r := by
    rw [← List.mem_map, map_namespaceName_groupsOf]
    exact mem_namespacesOf.2 ⟨r, hr, rfl⟩
  refine ⟨g, ⟨hg, (mem_records_of_mem_groupsOf hg).2 ⟨hr, hname.symm⟩⟩, ?_⟩
  rintro q ⟨hq, hrq⟩
  exact eq_of_namespaceName_eq hq hg
    (((mem_records_of_mem_groupsOf hq).1 hrq).2.symm.trans hname.symm)

/-- Records that come namespace by namespace meet the namespaces in that order. -/
theorem namespacesOf_flatMap {names : List String} (hnames : names.Nodup)
    {recordsOf : String → List α} (hown : ∀ n ∈ names, ∀ r ∈ recordsOf n, namespaceOf r = n)
    (hsome : ∀ n ∈ names, recordsOf n ≠ []) :
    namespacesOf (names.flatMap recordsOf) = names := by
  induction names with
  | nil => rfl
  | cons n names ih =>
    obtain ⟨hn, hrestNames⟩ := List.nodup_cons.1 hnames
    obtain ⟨hownFirst, hownRest⟩ := List.forall_mem_cons.1 hown
    obtain ⟨hsomeFirst, hsomeRest⟩ := List.forall_mem_cons.1 hsome
    obtain ⟨r, rs, hrs⟩ := List.exists_cons_of_ne_nil hsomeFirst
    rw [hrs] at hownFirst
    obtain ⟨rfl, hownFirst⟩ := List.forall_mem_cons.1 hownFirst
    -- the namespace of the first records is none of those of the rest
    have hrest : ∀ s ∈ names.flatMap recordsOf, namespaceOf s ≠ namespaceOf r := by
      intro s hs
      obtain ⟨m, hm, hsm⟩ := List.mem_flatMap.1 hs
      rw [hownRest m hm s hsm]
      rintro rfl
      exact hn hm
    have hkeep : (rs ++ names.flatMap recordsOf).filter (namespaceOf · != namespaceOf r) =
        names.flatMap recordsOf := by
      rw [List.filter_append, List.filter_eq_nil_iff.2, List.nil_append, List.filter_eq_self]
      · simpa using hrest
      · simpa using hownFirst
    calc namespacesOf ((namespaceOf r :: names).flatMap recordsOf)
        = namespacesOf (r :: (rs ++ names.flatMap recordsOf)) := by
          rw [List.flatMap_cons, hrs, List.cons_append]
      _ = namespaceOf r :: namespacesOf ((rs ++ names.flatMap recordsOf).filter
            (namespaceOf · != namespaceOf r)) := by
          rw [namespacesOf, List.map_cons, List.eraseDups_cons, List.filter_map]
          rfl
      _ = namespaceOf r :: names := by
          rw [hkeep, ih hrestNames hownRest hsomeRest]

theorem filter_flatMap_of_notMem {names : List String} {n : String} (hn : n ∉ names)
    (records : List α) :
    (names.flatMap fun k => records.filter (namespaceOf · = k)).filter (namespaceOf · = n) = [] := by
  rw [List.filter_eq_nil_iff]
  intro r hr hrn
  obtain ⟨k, hk, hrk⟩ := List.mem_flatMap.1 hr
  simp only [List.mem_filter, decide_eq_true_eq] at hrk hrn
  exact hn (hrn ▸ hrk.2 ▸ hk)

/-- The records of a namespace keep their order when all records come group by group. -/
theorem filter_flatMap_groupsOf (records : List α) (n : String) :
    ((groupsOf records).flatMap Group.records).filter (namespaceOf · = n) =
      records.filter (namespaceOf · = n) := by
  rw [groupsOf, List.flatMap_map]
  by_cases hn : n ∈ namespacesOf records
  · obtain ⟨front, back, hnames⟩ := List.append_of_mem hn
    have hnodup := nodup_namespacesOf records
    rw [hnames, List.nodup_append, List.nodup_cons] at hnodup
    obtain ⟨-, ⟨hback, -⟩, hapart⟩ := hnodup
    have hfront : n ∉ front := fun h => hapart n h n List.mem_cons_self rfl
    rw [hnames, List.flatMap_append, List.flatMap_cons, List.filter_append, List.filter_append,
      filter_flatMap_of_notMem hfront, filter_flatMap_of_notMem hback, List.filter_filter]
    simp
  · rw [filter_flatMap_of_notMem hn, eq_comm, List.filter_eq_nil_iff]
    intro r hr hrn
    exact hn (mem_namespacesOf.2 ⟨r, hr, by simpa using hrn⟩)

/-- Records that come group by group already have the same groups. -/
theorem groupsOf_flatMap_groupsOf (records : List α) :
    groupsOf ((groupsOf records).flatMap Group.records) = groupsOf records := by
  have hnames : namespacesOf ((groupsOf records).flatMap Group.records) = namespacesOf records := by
    rw [groupsOf, List.flatMap_map]
    apply namespacesOf_flatMap (nodup_namespacesOf records)
    · intro n _ r hr
      simpa using (List.mem_filter.1 hr).2
    · intro n hn
      obtain ⟨r, hr, hrn⟩ := mem_namespacesOf.1 hn
      exact List.ne_nil_of_mem (List.mem_filter.2 ⟨hr, by simpa using hrn⟩)
  have hrecords : ∀ n, ((groupsOf records).flatMap Group.records).filter (namespaceOf · = n) =
      records.filter (namespaceOf · = n) := filter_flatMap_groupsOf records
  rw [groupsOf, hnames]
  simp only [hrecords]
  rfl

/-- Grouping fails exactly if some record has no namespace, and names the first such record.
Otherwise there is a group for each namespace, in the order in which they are first met, with the
records of that namespace in the order of the list. So every record is in exactly one group, none
is lost, and grouping the records as they then come makes the same groups. -/
theorem groupByNamespace_by_first_met (records : List α) :
    ((∃ missing, groupByNamespace records = .error missing) ↔
      ∃ r ∈ records, namespaceOf r = "") ∧
    (∀ missing, groupByNamespace records = .error missing ↔
      ∃ front r back, records = front ++ r :: back ∧ (∀ s ∈ front, namespaceOf s ≠ "") ∧
        namespaceOf r = "" ∧ missing = ⟨categoryOf r, ownerOf r⟩) ∧
    ∀ groups, groupByNamespace records = .ok groups →
      groups.map Group.namespaceName = (records.map namespaceOf).eraseDups ∧
      (∀ g ∈ groups, g.records = records.filter (namespaceOf · = g.namespaceName)) ∧
      (∀ r ∈ records, ∃! g, g ∈ groups ∧ r ∈ g.records) ∧
      (groups.flatMap Group.records).Perm records ∧
      groupByNamespace (groups.flatMap Group.records) = .ok groups := by
  have hfirst : ∀ missing, groupByNamespace records = .error missing ↔
      ∃ front r back, records = front ++ r :: back ∧ (∀ s ∈ front, namespaceOf s ≠ "") ∧
        namespaceOf r = "" ∧ missing = ⟨categoryOf r, ownerOf r⟩ := by
    intro missing
    rw [groupByNamespace_eq_error]
    constructor
    · rintro ⟨r, hr, hmissing⟩
      obtain ⟨hempty, front, back, hrecords, hfront⟩ := List.find?_eq_some_iff_append.1 hr
      exact ⟨front, r, back, hrecords, by simpa using hfront, by simpa using hempty, hmissing⟩
    · rintro ⟨front, r, back, hrecords, hfront, hempty, hmissing⟩
      refine ⟨r, List.find?_eq_some_iff_append.2 ⟨?_, front, back, hrecords, ?_⟩, hmissing⟩
      · simpa using hempty
      · simpa using hfront
  refine ⟨?_, hfirst, ?_⟩
  · constructor
    · rintro ⟨missing, hmissing⟩
      obtain ⟨front, r, back, rfl, -, hempty, -⟩ := (hfirst missing).1 hmissing
      exact ⟨r, List.mem_append_right front List.mem_cons_self, hempty⟩
    · rintro ⟨r, hr, hempty⟩
      cases hresult : groupByNamespace records with
      | error missing => exact ⟨missing, rfl⟩
      | ok groups => exact absurd hempty ((groupByNamespace_eq_ok.1 hresult).1 r hr)
  · intro groups hgroups
    obtain ⟨hnamed, rfl⟩ := groupByNamespace_eq_ok.1 hgroups
    have hall : ((groupsOf records).flatMap Group.records).Perm records := flatMap_groupsOf records
    refine ⟨map_namespaceName_groupsOf records, fun g hg => (mem_groupsOf.1 hg).2,
      fun r hr => existsUnique_mem_groupsOf hr, hall, groupByNamespace_eq_ok.2 ⟨?_, ?_⟩⟩
    · exact fun r hr => hnamed r (hall.mem_iff.1 hr)
    · exact (groupsOf_flatMap_groupsOf records).symm

/-- Three texts of two namespaces, which are met in turns. -/
def interleavedTexts : List CustomText :=
  [⟨"a", "N", "first"⟩, ⟨"b", "M", "second"⟩, ⟨"c", "N", "third"⟩]

theorem groupByNamespace_of_interleavedTexts :
    groupByNamespace interleavedTexts =
      .ok [⟨"N", [⟨"a", "N", "first"⟩, ⟨"c", "N", "third"⟩]⟩, ⟨"M", [⟨"b", "M", "second"⟩]⟩] ∧
    groupByNamespace ([⟨"a", "N", "first"⟩, ⟨"c", "N", "third"⟩, ⟨"b", "M", "second"⟩] :
      List CustomText) =
      .ok [⟨"N", [⟨"a", "N", "first"⟩, ⟨"c", "N", "third"⟩]⟩, ⟨"M", [⟨"b", "M", "second"⟩]⟩] :=
  have hgroups : groupByNamespace interleavedTexts =
      .ok [⟨"N", [⟨"a", "N", "first"⟩, ⟨"c", "N", "third"⟩]⟩, ⟨"M", [⟨"b", "M", "second"⟩]⟩] := rfl
  ⟨hgroups, ((groupByNamespace_by_first_met interleavedTexts).2.2 _ hgroups).2.2.2.2⟩

end ModText
