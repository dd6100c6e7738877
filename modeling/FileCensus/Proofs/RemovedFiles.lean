import FileCensus.Proofs.ChangedFiles

/-!
# Trees without some files

Taking a node away leaves nothing at its location, and every other location as it was unless it is
below. So a tree differs in files only from the tree without some of its files.
-/

namespace FileCensus

namespace Node

theorem findEntry_filter (name other : Path.Name) (entries : List (Path.Name × Node)) :
    findEntry other (entries.filter (·.1 ≠ name)) =
      if other = name then none else findEntry other entries := by
  induction entries with
  | nil => simp [findEntry]
  | cons e entries ih =>
    rw [List.filter_cons]
    by_cases he : e.1 = name
    · subst he
      rw [if_neg (by simp), ih, findEntry]
      by_cases h : other = e.1
      · rw [if_pos h, if_pos h]
      · rw [if_neg h, if_neg h, if_neg (Ne.symm h)]
    · rw [if_pos (by simpa using he), findEntry, findEntry, ih]
      by_cases h : e.1 = other
      · rw [if_pos h, if_pos h, if_neg fun ho => he (h.trans ho)]
      · rw [if_neg h, if_neg h]

theorem remove_cons {name next : Path.Name} {rest : Location} {mode : Mode}
    {entries : List (Path.Name × Node)} :
    remove (name :: next :: rest) (.directory mode entries) =
      match findEntry name entries with
      | some child => .directory mode (putEntry name (remove (next :: rest) child) entries)
      | none => .directory mode entries :=
  rfl

/-- Only from a directory something can be taken away. -/
theorem remove_of_not_directory {n : Node} (h : n.isDirectory = false) (l : Location) :
    remove l n = n := by
  cases n with
  | file content modified mode => rcases l with _ | ⟨a, _ | ⟨b, l⟩⟩ <;> rfl
  | link target => rcases l with _ | ⟨a, _ | ⟨b, l⟩⟩ <;> rfl
  | directory mode entries => exact Bool.noConfusion h

/-- A node below which there is nothing can be taken away and leaves every other location alone. -/
theorem at?_remove {n : Node} {l m : Location} (hold : ∀ old, n.at? l = some old → old.entries = [])
    (hm : m ≠ l) : Option.Rel Like (n.at? m) ((remove l n).at? m) := by
  induction l generalizing n m with
  | nil => exact rel_refl _
  | cons a l ih =>
    cases n with
    | file content modified mode =>
      rw [remove_of_not_directory rfl]
      exact rel_refl _
    | link target =>
      rw [remove_of_not_directory rfl]
      exact rel_refl _
    | directory mode entries =>
      cases l with
      | nil =>
        refine rel_of_entries (fun b hb => by rw [findEntry_filter, if_neg hb]) ?_
        rintro rest rfl
        rw [findEntry_filter, if_pos rfl, Option.bind_none]
        cases hentry : findEntry a entries with
        | none => exact .none
        | some old =>
          have hbare : old.entries = [] := hold old (by rw [at?_cons, Node.entries, hentry]; rfl)
          cases rest with
          | nil => exact absurd rfl hm
          | cons b rest =>
            rw [Option.bind_some, at?_cons_of_bare hbare]
            exact .none
      | cons b l =>
        rw [remove_cons]
        split
        · rename_i child hchild
          refine rel_of_entries (fun b hb => by rw [findEntry_putEntry, if_neg hb]) ?_
          rintro rest rfl
          rw [findEntry_putEntry, if_pos rfl, hchild]
          refine ih (fun old hat => hold old ?_) (fun he => hm (by rw [he]))
          rw [at?_cons, Node.entries, hchild]
          exact hat
        · exact rel_refl _

theorem at?_remove_self {n : Node} {l : Location} (hl : l ≠ []) : (remove l n).at? l = none := by
  induction l generalizing n with
  | nil => exact absurd rfl hl
  | cons a l ih =>
    cases n with
    | file content modified mode => rw [remove_of_not_directory rfl, at?_cons_of_bare rfl]
    | link target => rw [remove_of_not_directory rfl, at?_cons_of_bare rfl]
    | directory mode entries =>
      cases l with
      | nil => rw [remove, at?_cons, Node.entries, findEntry_filter, if_pos rfl, Option.bind_none]
      | cons b l =>
        rw [remove_cons]
        cases hchild : findEntry a entries with
        | none => rw [at?_cons, Node.entries, hchild, Option.bind_none]
        | some child =>
          rw [at?_cons, Node.entries, findEntry_putEntry, if_pos rfl]
          exact ih (List.cons_ne_nil b l)

theorem Distinct.remove {n : Node} {l : Location} (h : n.Distinct) : (remove l n).Distinct := by
  induction l generalizing n with
  | nil => exact h
  | cons a l ih =>
    cases n with
    | file content modified mode => rwa [remove_of_not_directory rfl]
    | link target => rwa [remove_of_not_directory rfl]
    | directory mode entries =>
      have hnames : (entries.map (·.1)).Nodup := h [] mode entries rfl
      cases l with
      | nil =>
        refine distinct_directory (hnames.sublist (List.filter_sublist.map _)) ?_
        intro name child hchild
        rw [findEntry_filter] at hchild
        split at hchild
        · cases hchild
        · exact h.child hchild
      | cons b l =>
        rw [remove_cons]
        split
        · rename_i child hchild
          refine distinct_directory (nodup_putEntry hnames) fun name other hother => ?_
          rw [findEntry_putEntry] at hother
          split at hother
          · rw [← Option.some.inj hother]
            exact ih (h.child hchild)
          · exact h.child hother
        · exact h

end Node

namespace FileTree

/-- The tree without what stands at some locations. -/
def without (t : FileTree) (gone : List Location) : FileTree :=
  { t with root := gone.foldl (fun n l => n.remove l) t.root }

variable {t : FileTree} {gone : List Location}

theorem without_cons (t : FileTree) (l : Location) (gone : List Location) :
    t.without (l :: gone) = (t.without [l]).without gone := rfl

theorem distinct_without (h : t.root.Distinct) : (t.without gone).root.Distinct := by
  induction gone generalizing t with
  | nil => exact h
  | cons l gone ih =>
    rw [without_cons]
    exact ih h.remove

/-- Locations that are not that of the root, and hold nothing but files. -/
def HoldsFiles (t : FileTree) (locations : List Location) : Prop :=
  ∀ l ∈ locations, l ≠ [] ∧ ∀ n, t.root.at? l = some n → n.isFile

theorem without_one {l : Location} (hl : l ≠ []) (hfile : ∀ n, t.root.at? l = some n → n.isFile) :
    FilesDiffer t (t.without [l]) (· = l) ∧ (t.without [l]).root.at? l = none := by
  have hnone : (t.without [l]).root.at? l = none := Node.at?_remove_self hl
  have hbare : ∀ old, t.root.at? l = some old → old.entries = [] := by
    intro old hold
    obtain ⟨content, modified, mode, rfl⟩ := Node.exists_file (hfile old hold)
    rfl
  refine ⟨⟨rfl, rfl, fun m hm => Node.at?_remove hbare hm, ?_, ?_⟩, hnone⟩
  · rintro m rfl
    exact hfile
  · rintro m rfl n hn
    rw [hnone] at hn
    cases hn

/-- Taking files away changes no other location, and nothing stands where they stood. -/
theorem filesDiffer_without (h : t.HoldsFiles gone) :
    FilesDiffer t (t.without gone) (· ∈ gone) ∧ ∀ l ∈ gone, (t.without gone).root.at? l = none := by
  induction gone generalizing t with
  | nil =>
    refine ⟨?_, fun l hl => absurd hl List.not_mem_nil⟩
    simp only [List.not_mem_nil]
    exact .refl t
  | cons l gone ih =>
    obtain ⟨⟨hl, hfile⟩, hgone⟩ := List.forall_mem_cons.1 h
    obtain ⟨hone, hnone⟩ := without_one hl hfile
    have hgone' : (t.without [l]).HoldsFiles gone := by
      intro m hm
      refine ⟨(hgone m hm).1, fun n hn => ?_⟩
      by_cases he : m = l
      · rw [he, hnone] at hn
        cases hn
      · obtain ⟨n', hn', hlike⟩ := hone.symm.exists_like he hn
        rw [← hlike.isFile]
        exact (hgone m hm).2 n' hn'
    obtain ⟨hrest, hempty⟩ := ih hgone'
    rw [without_cons]
    constructor
    · simpa only [List.mem_cons] using hone.trans hrest
    · refine List.forall_mem_cons.2 ⟨?_, hempty⟩
      by_cases hmem : l ∈ gone
      · exact hempty l hmem
      · exact hrest.at?_eq_none hmem hnone

end FileTree

end FileCensus
