import FileCensus.FileTree.Access

/-!
# Trees after a write

Writing a file changes the node at one location and the entries of the directory around it. Every
other location holds what it held before, and the directories on the way keep their modes.
-/

namespace FileCensus

namespace Node

/-- The same node, but for the entries of a directory. -/
inductive Like : Node → Node → Prop
  | file (content : Bytes) (modified : Int) (mode : Mode) :
    Like (.file content modified mode) (.file content modified mode)
  | link (target : Bytes) : Like (.link target) (.link target)
  | directory (mode : Mode) (before after : List (Path.Name × Node)) :
    Like (.directory mode before) (.directory mode after)

theorem Like.refl (n : Node) : Like n n := by
  cases n with
  | file content modified mode => exact .file content modified mode
  | link target => exact .link target
  | directory mode entries => exact .directory mode entries entries

theorem Like.isDirectory {n n' : Node} (h : Like n n') : n'.isDirectory = n.isDirectory := by
  cases h <;> rfl

theorem Like.ne_link {n n' : Node} (h : Like n n') (hn : ∀ target, n ≠ .link target) :
    ∀ target, n' ≠ .link target := by
  intro target hlink
  subst hlink
  cases h
  exact hn target rfl

theorem rel_refl (n : Option Node) : Option.Rel Like n n := by
  cases n with
  | none => exact .none
  | some n => exact .some (.refl n)

theorem exists_of_rel {n n' : Option Node} (h : Option.Rel Like n n') {m : Node} (hn : n = some m) :
    ∃ m', n' = some m' ∧ m.Like m' := by
  subst hn
  cases h with
  | some h => exact ⟨_, rfl, h⟩

theorem eq_none_of_rel {n n' : Option Node} (h : Option.Rel Like n n') (hn : n = none) :
    n' = none := by
  subst hn
  cases h
  rfl

theorem at?_cons (n : Node) (name : Path.Name) (l : Location) :
    n.at? (name :: l) = (findEntry name n.entries).bind (·.at? l) := by
  rw [at?, child?]
  cases findEntry name n.entries <;> rfl

theorem at?_cons_of_bare {n : Node} (h : n.entries = []) (name : Path.Name) (l : Location) :
    n.at? (name :: l) = none := by
  rw [at?_cons, h]
  rfl

/-- Below a node without entries there is nothing. -/
theorem at?_of_bare {n m : Node} (h : n.entries = []) {l : Location} :
    n.at? l = some m ↔ l = [] ∧ n = m := by
  cases l with
  | nil => simp
  | cons name l => simp [at?_cons_of_bare h]

/-- A node with a node below it is a directory. -/
theorem directory_of_at?_cons {n m : Node} {name : Path.Name} {l : Location}
    (h : n.at? (name :: l) = some m) :
    ∃ mode entries child, n = .directory mode entries ∧ findEntry name entries = some child ∧
      child.at? l = some m := by
  rw [at?_cons] at h
  obtain ⟨child, hchild, hat⟩ := Option.bind_eq_some_iff.1 h
  cases n with
  | directory mode entries => exact ⟨mode, entries, child, rfl, hchild, hat⟩
  | file content modified mode => simp [entries, findEntry] at hchild
  | link target => simp [entries, findEntry] at hchild

/-- What stands around a node is a directory. -/
theorem directory_above {n m : Node} {l : Location} {name : Path.Name}
    (h : n.at? (l ++ [name]) = some m) :
    ∃ mode entries, n.at? l = some (.directory mode entries) ∧ findEntry name entries = some m := by
  rw [at?_append] at h
  obtain ⟨above, habove, hat⟩ := Option.bind_eq_some_iff.1 h
  obtain ⟨mode, entries, child, rfl, hchild, hm⟩ := directory_of_at?_cons hat
  obtain rfl := Option.some.inj hm
  exact ⟨mode, entries, habove, hchild⟩

theorem at?_concat {n : Node} {l : Location} {mode : Mode} {entries : List (Path.Name × Node)}
    (h : n.at? l = some (.directory mode entries)) (name : Path.Name) :
    n.at? (l ++ [name]) = findEntry name entries := by
  rw [at?_append, h, Option.bind_some, at?_cons]
  change (findEntry name entries).bind some = _
  rw [Option.bind_fun_some]

/-- Two directories are alike at a location if they differ in one entry and are alike below it. -/
theorem rel_of_entries {mode : Mode} {before after : List (Path.Name × Node)} {name : Path.Name}
    (hothers : ∀ other, other ≠ name → findEntry other after = findEntry other before) {l : Location}
    (h : ∀ rest, l = name :: rest → Option.Rel Like ((findEntry name before).bind (·.at? rest))
      ((findEntry name after).bind (·.at? rest))) :
    Option.Rel Like ((directory mode before).at? l) ((directory mode after).at? l) := by
  cases l with
  | nil => exact .some (.directory ..)
  | cons other rest =>
    rw [at?_cons, at?_cons, Node.entries, Node.entries]
    by_cases he : other = name
    · subst he
      exact h rest rfl
    · rw [hothers other he]
      exact rel_refl _

/-- A node that is put where there is none below it leaves every other location alone. -/
theorem at?_put {new n : Node} {l m : Location} (hnew : new.entries = [])
    (hold : ∀ old, n.at? l = some old → old.entries = []) (hm : m ≠ l) :
    Option.Rel Like (n.at? m) ((put new l n).at? m) := by
  induction l generalizing n m with
  | nil =>
    cases m with
    | nil => exact absurd rfl hm
    | cons name m =>
      rw [put, at?_cons_of_bare hnew, at?_cons_of_bare (hold n rfl)]
      exact .none
  | cons a l ih =>
    cases n with
    | file content modified mode => exact rel_refl _
    | link target => exact rel_refl _
    | directory mode entries =>
      have hothers : ∀ x b, b ≠ a → findEntry b (putEntry a x entries) = findEntry b entries := by
        intro x b hb
        rw [findEntry_putEntry, if_neg hb]
      rw [put]
      split
      · rename_i child hchild
        refine rel_of_entries (hothers _) ?_
        rintro rest rfl
        rw [findEntry_putEntry, if_pos rfl, hchild]
        refine ih (fun old hat => hold old ?_) (fun he => hm (by rw [he]))
        rw [at?_cons, Node.entries, hchild]
        exact hat
      · rename_i hnone
        split
        · rename_i hempty
          obtain rfl := List.isEmpty_iff.1 hempty
          refine rel_of_entries (hothers _) ?_
          rintro rest rfl
          rw [findEntry_putEntry, if_pos rfl, hnone]
          cases rest with
          | nil => exact absurd rfl hm
          | cons c rest =>
            rw [Option.bind_some, at?_cons_of_bare hnew]
            exact .none
        · exact rel_refl _

theorem at?_put_self {new n : Node} {l : Location} {name : Path.Name} {mode : Mode}
    {entries : List (Path.Name × Node)} (h : n.at? l = some (.directory mode entries)) :
    (put new (l ++ [name]) n).at? (l ++ [name]) = some new := by
  induction l generalizing n with
  | nil =>
    obtain rfl := Option.some.inj h
    rw [List.nil_append, put]
    cases findEntry name entries with
    | none =>
      simp only [List.isEmpty_nil, if_true]
      rw [at?_cons, Node.entries, findEntry_putEntry, if_pos rfl]
      rfl
    | some child =>
      simp only []
      rw [at?_cons, Node.entries, findEntry_putEntry, if_pos rfl]
      rfl
  | cons a l ih =>
    obtain ⟨mode, entries, child, rfl, hchild, hat⟩ := directory_of_at?_cons h
    rw [List.cons_append, put, hchild]
    simp only []
    rw [at?_cons, Node.entries, findEntry_putEntry, if_pos rfl]
    exact ih hat

theorem putEntry_putEntry (name : Path.Name) (new old : Node) (entries : List (Path.Name × Node)) :
    putEntry name new (putEntry name old entries) = putEntry name new entries := by
  induction entries with
  | nil => exact if_pos rfl
  | cons e entries ih =>
    rw [putEntry, putEntry]
    by_cases he : e.1 = name
    · rw [if_pos he, if_pos he, putEntry, if_pos rfl]
    · rw [if_neg he, if_neg he, putEntry, if_neg he, ih]

/-- Of two nodes that are put at one location the later one stays. -/
theorem put_put (new old n : Node) (l : Location) : put new l (put old l n) = put new l n := by
  induction l generalizing n with
  | nil => rfl
  | cons name l ih =>
    cases n with
    | file content modified mode => rfl
    | link target => rfl
    | directory mode entries =>
      rw [put, put]
      cases hfound : findEntry name entries with
      | some child =>
        simp only []
        rw [put, findEntry_putEntry, if_pos rfl]
        simp only []
        rw [ih, putEntry_putEntry]
      | none =>
        simp only []
        cases l with
        | nil =>
          simp only [List.isEmpty_nil, if_true]
          rw [put, findEntry_putEntry, if_pos rfl]
          simp only []
          rw [putEntry_putEntry]
          rfl
        | cons next l =>
          simp only [List.isEmpty_cons, Bool.false_eq_true, if_false]
          rw [put, hfound]
          rfl

theorem mem_of_findEntry {name : Path.Name} {entries : List (Path.Name × Node)} {n : Node}
    (h : findEntry name entries = some n) : (name, n) ∈ entries := by
  induction entries with
  | nil => simp [findEntry] at h
  | cons e entries ih =>
    rw [findEntry] at h
    split at h
    · rename_i he
      rw [← he, ← Option.some.inj h]
      exact List.mem_cons_self
    · exact List.mem_cons_of_mem _ (ih h)

/-- What holds of the entries of a directory and of every directory below it. -/
theorem forall_directories {p : List (Path.Name × Node) → Prop} {mode : Mode}
    {entries : List (Path.Name × Node)} (hentries : p entries)
    (hbelow : ∀ e ∈ entries, ∀ l mode inner, e.2.at? l = some (.directory mode inner) → p inner) :
    ∀ l mode' inner, (Node.directory mode entries).at? l = some (.directory mode' inner) →
      p inner := by
  intro l mode' inner hat
  cases l with
  | nil =>
    cases hat
    exact hentries
  | cons name l =>
    obtain ⟨_, _, child, hn, hchild, hat⟩ := directory_of_at?_cons hat
    cases hn
    exact hbelow _ (mem_of_findEntry hchild) l mode' inner hat

theorem forall_directories_of_bare {p : List (Path.Name × Node) → Prop} {n : Node}
    (h : n.isDirectory = false) :
    ∀ l mode inner, n.at? l = some (.directory mode inner) → p inner := by
  intro l mode inner hat
  cases l with
  | nil =>
    rw [Option.some.inj hat] at h
    exact Bool.noConfusion h
  | cons name l =>
    obtain ⟨mode', entries, child, rfl, -⟩ := directory_of_at?_cons hat
    exact Bool.noConfusion h

/-- No directory at or below the node has two entries of one name. -/
def Distinct (n : Node) : Prop :=
  ∀ l mode entries, n.at? l = some (.directory mode entries) → (entries.map (·.1)).Nodup

theorem findEntry_eq_some {name : Path.Name} {entries : List (Path.Name × Node)} {n : Node}
    (h : (entries.map (·.1)).Nodup) : findEntry name entries = some n ↔ (name, n) ∈ entries := by
  induction entries with
  | nil => simp [findEntry]
  | cons e entries ih =>
    obtain ⟨other, node⟩ := e
    obtain ⟨hfirst, hrest⟩ := List.nodup_cons.1 h
    rw [findEntry, List.mem_cons]
    by_cases he : other = name
    · subst he
      rw [if_pos rfl]
      constructor
      · intro hn
        exact .inl (by rw [Option.some.inj hn])
      · rintro (hn | hn)
        · rw [(Prod.mk.inj hn).2]
        · exact absurd (List.mem_map.2 ⟨_, hn, rfl⟩) hfirst
    · rw [if_neg he, ih hrest]
      exact ⟨.inr, fun hn => hn.resolve_left fun hp => he (Prod.mk.inj hp).1.symm⟩

theorem keys_putEntry (name : Path.Name) (new : Node) (entries : List (Path.Name × Node)) :
    (putEntry name new entries).map (·.1) =
      if name ∈ entries.map (·.1) then entries.map (·.1) else entries.map (·.1) ++ [name] := by
  induction entries with
  | nil => rfl
  | cons e entries ih =>
    rw [putEntry]
    by_cases he : e.1 = name
    · simp [he]
    · rw [if_neg he, List.map_cons, ih, List.map_cons]
      by_cases hmem : name ∈ entries.map (·.1)
      · rw [if_pos hmem, if_pos (List.mem_cons_of_mem _ hmem)]
      · have hcons : name ∉ e.1 :: entries.map (·.1) := fun h =>
          (List.mem_cons.1 h).elim (fun h => he h.symm) hmem
        rw [if_neg hmem, if_neg hcons]
        rfl

theorem nodup_putEntry {name : Path.Name} {new : Node} {entries : List (Path.Name × Node)}
    (h : (entries.map (·.1)).Nodup) : ((putEntry name new entries).map (·.1)).Nodup := by
  rw [keys_putEntry]
  split
  · exact h
  · rename_i hmem
    rw [List.nodup_append]
    refine ⟨h, by simp, fun x hx y hy he => hmem ?_⟩
    rw [List.mem_singleton.1 hy] at he
    exact he ▸ hx

theorem Distinct.child {n child : Node} {name : Path.Name}
    (h : n.Distinct) (hc : findEntry name n.entries = some child) : child.Distinct := by
  intro l mode entries hat
  refine h (name :: l) mode entries ?_
  rw [at?_cons, hc]
  exact hat

/-- A directory is distinct if its names are and its nodes are. -/
theorem distinct_directory {mode : Mode} {entries : List (Path.Name × Node)}
    (hnames : (entries.map (·.1)).Nodup)
    (hnodes : ∀ name child, findEntry name entries = some child → child.Distinct) :
    (Node.directory mode entries).Distinct :=
  forall_directories hnames fun e hmem => hnodes e.1 e.2 ((findEntry_eq_some hnames).2 hmem)

theorem Distinct.put {new n : Node} {l : Location} (h : n.Distinct) (hnew : new.Distinct) :
    (put new l n).Distinct := by
  induction l generalizing n with
  | nil => exact hnew
  | cons a l ih =>
    cases n with
    | file content modified mode => exact h
    | link target => exact h
    | directory mode entries =>
      have hnames : (entries.map (·.1)).Nodup := h [] mode entries rfl
      have hput : ∀ x : Node, x.Distinct → (Node.directory mode (putEntry a x entries)).Distinct := by
        intro x hx
        apply distinct_directory (nodup_putEntry hnames)
        intro name child hchild
        rw [findEntry_putEntry] at hchild
        split at hchild
        · rw [← Option.some.inj hchild]
          exact hx
        · exact h.child hchild
      rw [Node.put]
      split
      · rename_i child hchild
        exact hput _ (ih (h.child hchild))
      · split
        · exact hput new hnew
        · exact h

end Node

namespace FileTree

/-- One tree is the other with a file written at a location. -/
structure Rewritten (before after : FileTree) (location : Location) (file : Node) : Prop where
  cwd : after.cwd = before.cwd
  privileged : after.privileged = before.privileged
  elsewhere : ∀ l, l ≠ location → Option.Rel Node.Like (before.root.at? l) (after.root.at? l)
  replaced : before.root.at? location = none ∨
    ∃ content modified mode, before.root.at? location = some (.file content modified mode)
  written : after.root.at? location = some file

section

variable {before after : FileTree} {location l : Location} {file n : Node}

theorem Rewritten.node_elsewhere (h : Rewritten before after location file) (hne : l ≠ location)
    (hn : before.root.at? l = some n) : ∃ n', after.root.at? l = some n' ∧ n.Like n' :=
  Node.exists_of_rel (h.elsewhere l hne) hn

/-- Only a file can have stood where one was written. -/
theorem Rewritten.file_before (h : Rewritten before after location file)
    (hn : before.root.at? location = some n) :
    ∃ content modified mode, n = .file content modified mode := by
  rcases h.replaced with hnone | ⟨content, modified, mode, hold⟩
  · rw [hnone] at hn
    simp at hn
  · rw [hold] at hn
    exact ⟨content, modified, mode, (Option.some.inj hn).symm⟩

end

/-- A file can be written only in a directory, or over a file. -/
theorem writableMode_eq_ok {t : FileTree} {l : Location} {mode : Mode}
    (h : t.writableMode l = .ok mode) :
    (∃ content modified, t.root.at? l = some (.file content modified mode)) ∨
      (t.root.at? l = none ∧ mode = newFileMode ∧
        ∃ above entries, t.root.at? l.dropLast = some (.directory above entries)) := by
  rw [writableMode] at h
  split at h
  · rename_i content modified own hat
    split at h
    · obtain rfl := Except.ok.inj h
      exact .inl ⟨content, modified, hat⟩
    · simp at h
  · simp at h
  · rename_i hat
    split at h
    · rename_i above entries habove
      split at h
      · exact .inr ⟨hat, (Except.ok.inj h).symm, above, entries, habove⟩
      · simp at h
    · simp at h

end FileTree

end FileCensus
