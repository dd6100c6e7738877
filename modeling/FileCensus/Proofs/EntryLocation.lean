import FileCensus.Proofs.LocationPaths

/-!
# Where the last name of a path stands

The location of the last name of a path is the location that a write to the path changes, or a link
stands there.
-/

namespace FileCensus

/-! ### The parts of a path -/

namespace Path

theorem join_prefix (segments more : List Bytes) : join segments <+: join (segments ++ more) := by
  induction segments with
  | nil => exact List.nil_prefix
  | cons a segments ih =>
    cases segments with
    | nil =>
      cases more with
      | nil => exact List.prefix_refl _
      | cons b more =>
        rw [List.singleton_append, join_cons_cons]
        have hjoin : join [a] = a := by simp [join]
        rw [hjoin]
        exact List.prefix_append _ _
    | cons b segments =>
      rw [List.cons_append, List.cons_append, join_cons_cons, join_cons_cons]
      obtain ⟨back, hback⟩ := ih
      exact ⟨back, by rw [List.append_assoc, List.cons_append, hback, List.cons_append]⟩

theorem text_split (path : Bytes) : (split path).text = path := by
  have hpath : join (cutAt slash path) = path := intercalate_cutAt slash path
  rw [split]
  split
  · rename_i hcut
    exact absurd hcut (cutAt_ne_nil _ _)
  · rename_i first rest hcut
    rw [hcut] at hpath
    split
    · rename_i hroot
      cases rest with
      | nil => simp at hroot
      | cons second rest =>
        have hfirst : first = [] := by simpa using hroot
        rw [hfirst, join_cons_cons] at hpath
        exact hpath
    · split
      · rename_i hdot
        rw [hdot] at hpath
        exact hpath
      · exact hpath

theorem mem_body_split {path segment : Bytes} (h : segment ∈ (split path).body) :
    slash ∉ segment := by
  have hmem : segment ∈ cutAt slash path := by
    rw [split] at h
    split at h
    · exact absurd h List.not_mem_nil
    · rename_i first rest hcut
      rw [hcut]
      split at h
      · exact List.mem_cons_of_mem _ h
      · split at h
        · exact List.mem_cons_of_mem _ h
        · exact h
  exact not_mem_of_mem_cutAt hmem

/-- A path without a lead begins with a segment that is not empty, unless it is one segment. -/
theorem split_lead (path : Bytes) :
    (split path).lead = some .root ∨ (split path).lead = some .current ∨
      ((split path).lead = none ∧
        ∀ first rest, (split path).body = first :: rest → rest ≠ [] → first ≠ []) := by
  rw [split]
  split
  · exact .inr (.inr ⟨rfl, fun first rest h => by simp at h⟩)
  · rename_i first rest hcut
    split
    · exact .inl rfl
    · rename_i hroot
      split
      · exact .inr (.inl rfl)
      · refine .inr (.inr ⟨rfl, fun a b h hb ha => hroot ?_⟩)
        obtain ⟨rfl, rfl⟩ := List.cons.inj h
        simp [ha, hb]

/-- The idle segments at the end are all that is cut off. -/
theorem trimBody_append (body : List Bytes) :
    ∃ idle, body = trimBody body ++ idle ∧ ∀ segment ∈ idle, isIdle segment := by
  refine ⟨(body.reverse.takeWhile isIdle).reverse, ?_, ?_⟩
  · rw [trimBody, ← List.reverse_append, List.takeWhile_append_dropWhile, List.reverse_reverse]
  · intro segment h
    exact List.all_eq_true.1 List.all_takeWhile segment (List.mem_reverse.1 h)

theorem trimBody_concat {body : List Bytes} {segment : Bytes} (h : isIdle segment = false) :
    trimBody (body ++ [segment]) = body ++ [segment] := by
  rw [trimBody, List.reverse_append, List.reverse_singleton, List.singleton_append,
    List.dropWhile_cons_of_neg (by simp [h]), List.reverse_cons, List.reverse_reverse]

theorem Split.text_prefix (lead : Option Component) (front back : List Bytes) :
    Split.text ⟨lead, front⟩ <+: Split.text ⟨lead, front ++ back⟩ := by
  simp only [Split.text]
  split
  · exact List.cons_prefix_cons.2 ⟨rfl, join_prefix front back⟩
  · exact join_prefix (dot :: front) back
  · exact join_prefix front back

/-- The parent of a path that ends in a name keeps what says something before the name. -/
theorem parent_eq {path segment : Bytes} {front : List Bytes}
    (hbody : (split path).body = front ++ [segment]) (h : isIdle segment = false) :
    parent path = Split.text ⟨(split path).lead, trimBody front⟩ := by
  rw [parent, hbody, trimBody_concat h, List.dropLast_concat]

theorem parent_prefix {path segment : Bytes} {front : List Bytes}
    (hbody : (split path).body = front ++ [segment]) (h : isIdle segment = false) :
    parent path <+: path := by
  obtain ⟨idle, hidle, -⟩ := trimBody_append front
  have hpath : Split.text ⟨(split path).lead, (split path).body⟩ = path := text_split path
  have hparts : (split path).body = trimBody front ++ (idle ++ [segment]) := by
    rw [hbody, ← List.append_assoc, ← hidle]
  have hprefix := Split.text_prefix (split path).lead (trimBody front) (idle ++ [segment])
  rw [← hparts, hpath] at hprefix
  rwa [parent_eq hbody h]

end Path

namespace FileTree

theorem start_eq (here : Location) (path : Bytes) :
    start here path =
      match (Path.split path).lead with
      | some .root => ([], (Path.split path).body)
      | some .current => (here, Path.dot :: (Path.split path).body)
      | _ => (here, (Path.split path).body) := by
  rw [start, Path.split]
  cases hcut : cutAt Path.slash path with
  | nil => rfl
  | cons first rest =>
    simp only []
    by_cases hroot : first.isEmpty && !rest.isEmpty
    · rw [if_pos hroot, if_pos hroot]
    · rw [if_neg hroot, if_neg hroot]
      by_cases hdot : first = Path.dot
      · rw [if_pos hdot, hdot]
      · rw [if_neg hdot]

/-! ### The last step of a path -/

variable {t : FileTree} {last : PathEnd} {links : Nat} {here l : Location}

theorem directory_above_directory {mode : Mode} {entries : List (Path.Name × Node)}
    (h : t.root.at? l = some (.directory mode entries)) :
    ∃ mode entries, t.root.at? l.dropLast = some (.directory mode entries) := by
  rcases List.eq_nil_or_concat l with rfl | ⟨above, name, hl⟩
  · exact ⟨mode, entries, h⟩
  · rw [List.concat_eq_append] at hl
    subst hl
    obtain ⟨mode', entries', habove, -⟩ := Node.directory_above h
    rw [List.dropLast_concat]
    exact ⟨mode', entries', habove⟩

/-- A path that does not lead to a directory ends in a name: what it leads to stands under that name,
or a link does. -/
theorem Leads.last_name {front : List Bytes} {segment : Bytes}
    (h : Leads t last links here (front ++ [segment]) l)
    (hl : ∀ mode entries, t.root.at? l ≠ some (.directory mode entries)) :
    ∃ middle mode entries, Leads t .existing links here front middle ∧ Enterable segment ∧
      t.root.at? middle = some (.directory mode entries) ∧ t.allows mode .search ∧
      (l = middle ++ [segment] ∨ ∃ target, t.root.at? (middle ++ [segment]) = some (.link target)) := by
  obtain ⟨links', middle, hfront, hlast⟩ := h.append rfl (List.cons_ne_nil _ _)
  cases hlast with
  | empty hdir h =>
    cases h
    exact absurd hdir (hl _ _)
  | dot hdir hsearch h =>
    cases h
    exact absurd hdir (hl _ _)
  | up hdir hsearch h =>
    cases h
    obtain ⟨mode, entries, habove⟩ := directory_above_directory hdir
    exact absurd habove (hl _ _)
  | create hdir hsearch hname hnone hlast =>
    exact ⟨middle, _, _, hfront, hname, hdir, hsearch, .inl rfl⟩
  | link hdir hsearch hname hend hentry h =>
    have htarget := Node.at?_concat hdir segment
    rw [hentry] at htarget
    exact ⟨middle, _, _, hfront, hname, hdir, hsearch, .inr ⟨_, htarget⟩⟩
  | enter hdir hsearch hname hend hentry hn h =>
    cases h
    exact ⟨middle, _, _, hfront, hname, hdir, hsearch, .inl rfl⟩

theorem Enterable.isIdle {segment : Bytes} (h : Enterable segment) :
    Path.isIdle segment = false := by
  cases segment with
  | nil => exact absurd rfl h.ne_nil
  | cons b segment => simpa [Path.isIdle] using h.ne_dot

/-- Segments that say nothing lead nowhere else. -/
theorem Leads.idle {segments : List Bytes} (h : Leads t last links here segments l)
    (hidle : ∀ segment ∈ segments, Path.isIdle segment) : l = here := by
  induction h with
  | done => rfl
  | empty hdir h ih => exact ih fun s hs => hidle s (List.mem_cons_of_mem _ hs)
  | dot hdir hsearch h ih => exact ih fun s hs => hidle s (List.mem_cons_of_mem _ hs)
  | up hdir hsearch h ih => exact absurd (hidle _ List.mem_cons_self) (by decide)
  | create hdir hsearch hname hnone hlast =>
    have hfirst := hidle _ List.mem_cons_self
    rw [hname.isIdle] at hfirst
    exact Bool.noConfusion hfirst
  | link hdir hsearch hname hend hentry h ih =>
    have hfirst := hidle _ List.mem_cons_self
    rw [hname.isIdle] at hfirst
    exact Bool.noConfusion hfirst
  | enter hdir hsearch hname hend hentry hn h ih =>
    have hfirst := hidle _ List.mem_cons_self
    rw [hname.isIdle] at hfirst
    exact Bool.noConfusion hfirst

/-- Segments that say nothing can be left out at the end. -/
theorem Leads.trim {segments idle : List Bytes}
    (h : Leads t .existing links here (segments ++ idle) l)
    (hidle : ∀ segment ∈ idle, Path.isIdle segment) : Leads t .existing links here segments l := by
  by_cases hnil : idle = []
  · rw [hnil, List.append_nil] at h
    exact h
  · obtain ⟨links', middle, hfront, hback⟩ := h.append rfl hnil
    rw [hback.idle hidle]
    exact hfront

/-! ### The location of the last name -/

theorem start_join {first : Bytes} {rest : List Bytes} (hfirst : first ≠ [])
    (h : ∀ s ∈ first :: rest, Path.slash ∉ s) (here : Location) :
    start here (Path.join (first :: rest)) = (here, first :: rest) := by
  rw [start, Path.cutAt_join (List.cons_ne_nil _ _) h]
  have hempty : first.isEmpty = false := by simpa using hfirst
  simp only [hempty, Bool.false_and, Bool.false_eq_true, if_false]

theorem Path.join_ne_nil {first : Bytes} {rest : List Bytes} (hfirst : first ≠ []) :
    Path.join (first :: rest) ≠ [] := by
  obtain ⟨back, hback⟩ := Path.join_prefix [first] rest
  have hjoin : Path.join [first] = first := by simp [Path.join]
  rw [hjoin, List.singleton_append] at hback
  rw [← hback]
  exact fun he => hfirst (List.append_eq_nil_iff.1 he).1

/-- A part at the front of a path is no worse as a path than the whole. -/
theorem resolve_of_prefix {path front : Bytes} (hfront : front <+: path) (hne : front ≠ [])
    (hzero : path.contains 0 = false) (hlong : path.length ≤ pathLimit)
    (h : Leads t last linkLimit (start t.cwd front).1 (start t.cwd front).2 l) :
    t.resolve last front = .ok l := by
  refine resolve_eq_ok.2 ⟨?_, hne, Nat.le_trans hfront.length_le hlong, h⟩
  rw [Bool.eq_false_iff, ne_eq, List.contains_iff_mem] at hzero ⊢
  exact fun hmem => hzero (hfront.subset hmem)

/-- What the parent of a path is called leads where the path leads before its last name. -/
theorem resolve_parent {path : Bytes} {front : List Bytes} {segment : Bytes} {middle : Location}
    {mode : Mode} {entries : List (Path.Name × Node)}
    (hzero : path.contains 0 = false) (hlong : path.length ≤ pathLimit)
    (hbody : (Path.split path).body = front ++ [segment]) (hname : Enterable segment)
    (hfront : Leads t .existing linkLimit
      (start t.cwd path).1 ((start t.cwd path).2.dropLast) middle)
    (hdir : t.root.at? middle = some (.directory mode entries)) (hsearch : t.allows mode .search) :
    t.resolve .existing (if (Path.parent path).isEmpty then Path.dot else Path.parent path) =
      .ok middle := by
  obtain ⟨idle, hidle, hall⟩ := Path.trimBody_append front
  have hparent := Path.parent_eq hbody hname.isIdle
  have hprefix := Path.parent_prefix hbody hname.isIdle
  have hslash : ∀ s ∈ Path.trimBody front, Path.slash ∉ s := by
    intro s hs
    have hsegment : s ∈ (Path.split path).body := by
      rw [hbody, hidle]
      simp [hs]
    exact Path.mem_body_split hsegment
  rw [hparent] at hprefix ⊢
  rw [start_eq] at hfront
  rcases Path.split_lead path with hlead | hlead | ⟨hlead, hfirst⟩
  · simp only [hlead, hbody, List.dropLast_concat] at hfront
    rw [hidle] at hfront
    have hmiddle := hfront.trim hall
    simp only [hlead, Path.Split.text] at hprefix ⊢
    simp only [List.isEmpty_cons, Bool.false_eq_true, if_false]
    refine resolve_of_prefix hprefix (List.cons_ne_nil _ _) hzero hlong ?_
    by_cases hnil : Path.trimBody front = []
    · rw [hnil] at hmiddle ⊢
      cases hmiddle
      exact .empty hdir .done
    · have hstart := start_path hnil hslash t.cwd
      rw [Location.path] at hstart
      rw [hstart]
      exact hmiddle
  · simp only [hlead, hbody] at hfront
    rw [← List.cons_append, List.dropLast_concat, hidle, ← List.cons_append] at hfront
    have hmiddle := hfront.trim hall
    have hdot : Path.dot ≠ [] := List.cons_ne_nil _ _
    have hne : Path.join (Path.dot :: Path.trimBody front) ≠ [] := Path.join_ne_nil hdot
    simp only [hlead, Path.Split.text] at hprefix ⊢
    simp only [List.isEmpty_iff, hne, if_false]
    refine resolve_of_prefix hprefix hne hzero hlong ?_
    rw [start_join hdot (List.forall_mem_cons.2 ⟨by decide, hslash⟩)]
    exact hmiddle
  · simp only [hlead, hbody, List.dropLast_concat] at hfront
    rw [hidle] at hfront
    have hmiddle := hfront.trim hall
    simp only [hlead, Path.Split.text] at hprefix ⊢
    cases htrim : Path.trimBody front with
    | nil =>
      rw [htrim] at hmiddle
      cases hmiddle
      exact resolve_eq_ok.2 ⟨by decide, List.cons_ne_nil _ _, by decide, .dot hdir hsearch .done⟩
    | cons first rest =>
      rw [htrim] at hmiddle hprefix hslash hidle
      have hne : first ≠ [] := by
        refine hfirst first (rest ++ (idle ++ [segment])) ?_ (by simp)
        rw [hbody, hidle]
        simp
      have hjoined : Path.join (first :: rest) ≠ [] := Path.join_ne_nil hne
      simp only [List.isEmpty_iff, hjoined, if_false]
      refine resolve_of_prefix hprefix hjoined hzero hlong ?_
      rw [start_join hne hslash]
      exact hmiddle

theorem fileName_of_body {path : Bytes} {front : List Bytes} {segment : Bytes}
    (hbody : (Path.split path).body = front ++ [segment]) (hname : Enterable segment) :
    Path.fileName path = some segment := by
  have hcomponent : Path.component? segment = some (.name segment) := by
    rw [Path.component?, hname.isIdle, if_neg Bool.false_ne_true, if_neg hname.ne_dotDot]
  rw [Path.fileName, Path.Split.components, hbody, List.filterMap_append]
  simp [hcomponent]

/-- The segments of a path end in a name only if the path itself does. -/
theorem body_of_start {path : Bytes} {front : List Bytes} {segment : Bytes}
    (h : (start here path).2 = front ++ [segment]) (hname : Enterable segment) :
    ∃ before, (Path.split path).body = before ++ [segment] := by
  rw [start_eq] at h
  split at h
  · exact ⟨front, h⟩
  · cases front with
    | nil => exact absurd (List.cons.inj h).1.symm hname.ne_dot
    | cons first front => exact ⟨front, (List.cons.inj h).2⟩
  · exact ⟨front, h⟩

/-- Where the last name of a written path stands is the written location, or there is a link. -/
theorem entryLocation_of_written {path : Bytes} {mode : Mode}
    (h : t.resolve .creatable path = .ok l) (hmode : t.writableMode l = .ok mode) :
    ∃ entry, t.entryLocation? path = some entry ∧
      (entry = l ∨ ∃ target, t.root.at? entry = some (.link target)) := by
  obtain ⟨hzero, -, hlong, hleads⟩ := resolve_eq_ok.1 h
  have hfile : ∀ mode entries, t.root.at? l ≠ some (.directory mode entries) := by
    intro mode' entries hdir
    rcases writableMode_eq_ok hmode with ⟨content, modified, hat⟩ | ⟨hat, -⟩
    · rw [hat] at hdir
      simp at hdir
    · rw [hat] at hdir
      simp at hdir
  obtain ⟨front, segment, hstart⟩ : ∃ front segment, (start t.cwd path).2 = front ++ [segment] :=
    ⟨_, _, (List.dropLast_concat_getLast (start_ne_nil t.cwd path)).symm⟩
  rw [hstart] at hleads
  obtain ⟨middle, mode', entries, hfront, hname, hdir, hsearch, hend⟩ := hleads.last_name hfile
  obtain ⟨before, hbody⟩ := body_of_start hstart hname
  have hparent := resolve_parent hzero hlong hbody hname
    (by rwa [hstart, List.dropLast_concat]) hdir hsearch
  refine ⟨middle ++ [segment], ?_, hend.imp_left Eq.symm⟩
  rw [entryLocation?, fileName_of_body hbody hname]
  simp only [Option.bind_eq_bind, Option.bind_some, hparent]
  rfl

end FileTree

end FileCensus
