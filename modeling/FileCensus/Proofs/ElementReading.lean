import FileCensus.Proofs.FileElement
import FileCensus.Proofs.ReadingProgress

/-!
# Documents as trees

What a sequence of events is read as is what the elements it consists of say: one element at the top,
with the name of a snapshot, whose direct children named file make up the records. If they do not, the
fault is the first of those that the elements have in the order of the document.
-/

namespace FileCensus.Markup.Outline

/-- The tags of the elements at the top. -/
def topTags (o : Outline) : List Tag :=
  o.complete.map Element.tag ++ (o.unclosed.head?.map (·.1)).toList

/-- The tags of the elements directly inside the first element at the top. -/
def innerTags (o : Outline) : List Tag :=
  match o.complete, o.unclosed with
  | root :: _, _ => root.children.map Element.tag
  | [], (_, children) :: inner => children.map Element.tag ++ (inner.head?.map (·.1)).toList
  | [], [] => []

end FileCensus.Markup.Outline

namespace FileCensus.Document

open Markup Utf8

/-! ### What a tree says -/

/-- The direct children of the outermost element that are files. -/
def fileTags (o : Outline) : List Tag := o.innerTags.filter (·.name = encode "file")

/-- The name in the outermost element: the value of the first attribute under it, whatever comes after
that. Without such an attribute it is empty, but then all of them must be well-formed. -/
def name? (root : Tag) : Option String :=
  let attributes := root.attributes false
  if encode "name" ∈ attributes.found.map (·.key) then valueUnder "name" attributes.found
  else if attributes.fault = none then some ""
  else none

/-- The document of one snapshot. -/
structure IsSnapshot (o : Outline) (root : Element) (name : String) : Prop where
  complete : o.complete = [root]
  closed : o.unclosed = []
  root_name : root.tag.name = encode "snapshot"
  name : name? root.tag = some name
  readable : ∀ tag ∈ fileTags o, ReadableFile tag
  distinct : ((fileTags o).map path?).Nodup

/-- What is wrong with files from the `node`th one on, after files at other paths. -/
def fileFaults (earlier : List String) (node : Nat) : List Tag → List Fault
  | [] => []
  | tag :: tags =>
    tagFaults node tag
      ++ ((path? tag).filter (· ∈ earlier)).toList.map (.malformed node <| .duplicatePath ·)
      ++ fileFaults ((path? tag).toList ++ earlier) (node + 1) tags

/-- What is wrong with attributes up to the name, and with what ends them if there is no name. -/
def nameFaults : List RawAttribute → Option (Nat × AttributeFault) → List Fault
  | [], fault => (fault.map fun p => .markup (.attribute p.1 p.2)).toList
  | a :: as, fault =>
    if a.key = encode "name" then
      match unescape a.value with
      | .error reason => [.markup reason]
      | .ok _ => []
    else nameFaults as fault

def rootFaults (root : Tag) : List Fault :=
  if root.name ≠ encode "snapshot" then [.malformed 0 (.wrongRoot (decodeLossy root.name))]
  else nameFaults (root.attributes false).found (root.attributes false).fault

/-- Everything that is wrong with a document, in the order in which it is written; what is missing is
missing at the end. -/
def outlineFaults (o : Outline) : List Fault :=
  match o.topTags with
  | [] => [.malformed 0 .noRoot]
  | root :: others =>
    rootFaults root ++ fileFaults [] 1 (fileTags o) ++ others.map (fun _ => .malformed 0 .secondRoot)
      ++ if o.unclosed.isEmpty then [] else [.malformed 0 .truncated]

/-! ### Reading the name -/

theorem nameFaults_eq (as : List RawAttribute) (fault : Option (Nat × AttributeFault)) :
    nameFaults as fault =
      match as.find? (·.key = encode "name") with
      | some a =>
        match unescape a.value with
        | .error reason => [.markup reason]
        | .ok _ => []
      | none => (fault.map fun p => .markup (.attribute p.1 p.2)).toList := by
  induction as with
  | nil => rfl
  | cons a as ih =>
    rw [nameFaults, List.find?_cons]
    by_cases ha : a.key = encode "name"
    · rw [if_pos ha, decide_eq_true ha]
    · rw [if_neg ha, decide_eq_false ha, ih]

/-- The name is read, or what is wrong up to it is the fault. -/
theorem snapshotName_cases (root : Tag) :
    (∃ fault, nameFaults (root.attributes false).found (root.attributes false).fault = [fault] ∧
        name? root = none ∧ snapshotName root = .error fault) ∨
      (nameFaults (root.attributes false).found (root.attributes false).fault = [] ∧
        ∃ name, name? root = some name ∧ snapshotName root = .ok name) := by
  have hkey : nameKey = encode "name" := rfl
  simp only [snapshotName, name?, nameFaults_eq, valueUnder, hkey]
  cases hfind : (root.attributes false).found.find? (·.key = encode "name") with
  | some a =>
    have hname := List.find?_some hfind
    have hmem : encode "name" ∈ (root.attributes false).found.map (·.key) :=
      List.mem_map.2 ⟨a, List.mem_of_find?_eq_some hfind, of_decide_eq_true hname⟩
    simp only [if_pos hmem, Option.bind_some]
    cases unescape a.value with
    | error reason => exact .inl ⟨_, rfl, rfl, rfl⟩
    | ok name => exact .inr ⟨rfl, name, rfl, rfl⟩
  | none =>
    have hmem : encode "name" ∉ (root.attributes false).found.map (·.key) := by
      intro hmem
      obtain ⟨a, ha, he⟩ := List.mem_map.1 hmem
      exact List.find?_eq_none.1 hfind a ha (decide_eq_true he)
    simp only [if_neg hmem]
    cases (root.attributes false).fault with
    | some fault => exact .inl ⟨_, rfl, rfl, rfl⟩
    | none => exact .inr ⟨rfl, "", rfl, rfl⟩

/-! ### Reading the files -/

theorem isSome_get? {s : Snapshot} {path : String} :
    (s.get? path).isSome ↔ ∃ r ∈ s.files, r.path.text = path := by
  simp [Snapshot.get?, Record.find, List.find?_isSome]

theorem perm_place {r : Record} {files : List Record} (h : ∀ x ∈ files, x.path.text ≠ r.path.text) :
    (r.place files).Perm (r :: files) := by
  induction files with
  | nil => exact .refl _
  | cons x files ih =>
    have hne : r.path ≠ x.path := by
      intro he
      exact h x List.mem_cons_self (by rw [he])
    rw [Record.place, if_neg hne]
    split
    · exact .refl _
    · exact ((ih fun y hy => h y (List.mem_cons_of_mem _ hy)).cons x).trans (.swap ..)

theorem perm_insert {s : Snapshot} {r : Record} (h : (s.get? r.path.text).isSome = false) :
    (s.insert r).2.files.Perm (r :: s.files) := by
  apply perm_place
  intro x hx he
  rw [isSome_get?.2 ⟨x, hx, he⟩] at h
  exact Bool.noConfusion h

theorem isSome_get?_insert {s : Snapshot} {r : Record} (h : (s.get? r.path.text).isSome = false)
    (path : String) :
    ((s.insert r).2.get? path).isSome ↔ path = r.path.text ∨ (s.get? path).isSome := by
  simp only [isSome_get?, (perm_insert h).mem_iff, List.mem_cons, exists_eq_or_imp]
  exact or_congr_left eq_comm

/-- The files are entered one after the other. The invariant is that the snapshot holds exactly the
paths of the files before. -/
theorem enterAll_cases {s : Snapshot} {earlier : List String} (files : Nat) (tags : List Tag)
    (h : ∀ path, path ∈ earlier ↔ (s.get? path).isSome) :
    (∃ fault, (fileFaults earlier (files + 1) (tags.filter (·.name = encode "file"))).head? = some fault ∧
        Progress.enterAll ⟨some s, 1, files, false⟩ tags = .error fault) ∨
      ((fileFaults earlier (files + 1) (tags.filter (·.name = encode "file"))).head? = none ∧
        ∃ t n, Progress.enterAll ⟨some s, 1, files, false⟩ tags = .ok ⟨some t, 1, n, false⟩ ∧
          t.name = s.name ∧ (t.files.map some).Perm
            (s.files.map some ++ (tags.filter (·.name = encode "file")).map record?)) := by
  induction tags generalizing s earlier files with
  | nil => exact .inr ⟨rfl, s, files, rfl, rfl, by simp⟩
  | cons tag tags ih =>
    by_cases hname : tag.name = encode "file"
    · have henter : Progress.enter ⟨some s, 1, files, false⟩ tag =
          Progress.addFile ⟨some s, 1, files, false⟩ s tag := if_pos hname
      rw [List.filter_cons_of_pos (by simpa using hname), Progress.enterAll, henter, fileFaults,
        List.append_assoc, List.head?_append, Progress.addFile]
      rcases record_cases (files + 1) tag with ⟨fault, hfault, hrecord⟩ | ⟨hnone, r, hr, hrecord⟩
      · simp only [hfault, hrecord]
        exact .inl ⟨fault, rfl, rfl⟩
      · have hpath := path_of_record? hr
        simp only [hnone, hrecord, hpath, Option.none_or, List.head?_append]
        cases hget : (s.get? r.path.text).isSome with
        | true =>
          have hmem := (h r.path.text).2 hget
          refine .inl ⟨.malformed (files + 1) (.duplicatePath r.path.text), ?_, rfl⟩
          simp [hmem]
        | false =>
          have hmem : r.path.text ∉ earlier := by
            intro hmem
            rw [(h _).1 hmem] at hget
            exact Bool.noConfusion hget
          have hearlier : ∀ path, path ∈ (some r.path.text).toList ++ earlier ↔
              ((s.insert r).2.get? path).isSome := by
            intro path
            rw [isSome_get?_insert hget, ← h path]
            simp
          have hfresh : (Option.filter (· ∈ earlier) (some r.path.text)) = none := by
            simpa using hmem
          simp only [hfresh, Option.toList_none, List.map_nil, List.head?_nil, Option.none_or,
            Bool.false_eq_true, if_false]
          rcases ih (files + 1) hearlier with ⟨fault, hfault, hall⟩ |
            ⟨hfault, t, n, hall, htname, hperm⟩
          · exact .inl ⟨fault, hfault, hall⟩
          · refine .inr ⟨hfault, t, n, hall, htname, hperm.trans ?_⟩
            have hinsert := (perm_insert hget).map some
            rw [List.map_cons, hr]
            exact (hinsert.append_right _).trans List.perm_middle.symm
    · have henter : Progress.enter ⟨some s, 1, files, false⟩ tag = .ok ⟨some s, 1, files, false⟩ := by
        rw [Progress.enter]
        exact if_neg hname
      rw [List.filter_cons_of_neg (by simpa using hname), Progress.enterAll, henter]
      exact ih files h

/-! ### Reading a whole document -/

theorem enter_start_cases (root : Tag) :
    (∃ fault, (rootFaults root).head? = some fault ∧ Progress.start.enter root = .error fault) ∨
      (rootFaults root = [] ∧ ∃ name, name? root = some name ∧
        Progress.start.enter root = .ok ⟨some (.empty name), 0, 0, false⟩) := by
  have henter : Progress.start.enter root =
      if root.name ≠ encode "snapshot" then .error (.malformed 0 (.wrongRoot (decodeLossy root.name)))
      else (snapshotName root).map fun name => ⟨some (.empty name), 0, 0, false⟩ := rfl
  rw [henter, rootFaults]
  by_cases hname : root.name = encode "snapshot"
  · rw [if_neg (not_not_intro hname), if_neg (not_not_intro hname)]
    rcases snapshotName_cases root with ⟨fault, hfaults, -, hread⟩ | ⟨hnone, name, hname, hread⟩
    · exact .inl ⟨fault, by rw [hfaults]; rfl, by rw [hread]; rfl⟩
    · exact .inr ⟨hnone, name, hname, by rw [hread]; rfl⟩
  · rw [if_pos hname, if_pos hname]
    exact .inl ⟨_, rfl, rfl⟩

/-- Enters the outermost element and the elements directly inside it. -/
def Progress.enterTop (root : Tag) (inner : List Tag) : Except Fault Progress :=
  match Progress.start.enter root with
  | .error fault => .error fault
  | .ok p => Progress.enterAll { p with depth := 1 } inner

theorem enterTop_cases (root : Tag) (inner : List Tag) :
    (∃ fault, (rootFaults root ++ fileFaults [] 1 (inner.filter (·.name = encode "file"))).head? =
        some fault ∧ Progress.enterTop root inner = .error fault) ∨
      ((rootFaults root ++ fileFaults [] 1 (inner.filter (·.name = encode "file"))).head? = none ∧
        ∃ s n, Progress.enterTop root inner = .ok ⟨some s, 1, n, false⟩ ∧
          name? root = some s.name ∧
          (s.files.map some).Perm ((inner.filter (·.name = encode "file")).map record?)) := by
  rw [Progress.enterTop, List.head?_append]
  rcases enter_start_cases root with ⟨fault, hfault, henter⟩ | ⟨hroot, name, hname, henter⟩
  · rw [hfault, henter]
    exact .inl ⟨fault, rfl, rfl⟩
  · have hempty : ∀ path, path ∈ ([] : List String) ↔ ((Snapshot.empty name).get? path).isSome :=
      fun path => ⟨fun h => absurd h List.not_mem_nil, fun h => Bool.noConfusion h⟩
    rw [hroot, henter, List.head?_nil, Option.none_or]
    rcases enterAll_cases 0 inner hempty with
      ⟨fault, hfault, hall⟩ | ⟨hfault, s, n, hall, hs, hperm⟩
    · exact .inl ⟨fault, hfault, hall⟩
    · exact .inr ⟨hfault, s, n, hall, hname.trans (congrArg some hs.symm), hperm⟩

/-- What the first element at the top does, and that the document is complete after it. -/
theorem steps_root (root : Element) (rest : List Event) :
    Progress.start.steps (root.events ++ rest) =
      match Progress.enterTop root.tag (root.children.map Element.tag) with
      | .error fault => .error fault
      | .ok p => Progress.steps { p with depth := 0, closed := true } rest := by
  cases root with
  | empty tag =>
    rw [Element.events, List.singleton_append, Progress.steps, Progress.step, Element.tag,
      Progress.enterTop]
    cases henter : Progress.start.enter tag with
    | error fault => rfl
    | ok p =>
      have hdepth : p.depth = 0 := (Progress.enter_frame henter).1
      change Progress.steps (if p.depth = 0 then { p with closed := true } else p) rest =
        Progress.steps { p with depth := 0, closed := true } rest
      rw [if_pos hdepth, ← hdepth]
  | holding tag children =>
    rw [Element.events, List.cons_append, List.append_assoc, List.singleton_append,
      Progress.steps_opening, Element.tag, Element.children, Progress.enterTop]
    cases henter : Progress.start.enter tag with
    | error fault => rfl
    | ok p =>
      have hdepth : p.depth = 0 := (Progress.enter_frame henter).1
      simp only [hdepth]
      rw [Progress.steps_eventsOf_inside rfl]
      cases hall : Progress.enterAll { p with depth := 0 + 1 } (children.map Element.tag) with
      | error fault => rfl
      | ok q =>
        have hone : q.depth = 1 := (Progress.enterAll_frame hall).1
        have hclosed : (q.closed || decide (q.depth ≤ 1)) = true := by
          rw [hone, decide_eq_true (Nat.le_refl 1), Bool.or_true]
        change Progress.steps ⟨q.snapshot, q.depth - 1, q.files, q.closed || decide (q.depth ≤ 1)⟩ rest =
          Progress.steps ⟨q.snapshot, 0, q.files, true⟩ rest
        rw [hclosed, hone]

theorem steps_eventsOfUnclosed_within {p : Progress} (hd : 2 ≤ p.depth)
    (unclosed : List (Tag × List Element)) :
    ∃ depth, p.steps (Outline.eventsOfUnclosed unclosed) = .ok { p with depth } := by
  induction unclosed generalizing p with
  | nil => exact ⟨p.depth, rfl⟩
  | cons x unclosed ih =>
    obtain ⟨tag, children⟩ := x
    have hdepth : 2 ≤ ({ p with depth := p.depth + 1 } : Progress).depth := Nat.le_succ_of_le hd
    obtain ⟨depth, hrest⟩ := ih hdepth
    refine ⟨depth, ?_⟩
    rw [Outline.eventsOfUnclosed] at hrest ⊢
    rw [List.flatMap_cons, List.cons_append, Progress.steps_opening, Progress.enter_within hd]
    simp only []
    rw [Progress.steps_eventsOf_within hdepth, hrest]

/-- Inside the outermost element, the next element that is left open is entered like those that are
complete, and nothing inside it is looked at. -/
theorem steps_unclosed {p : Progress} (hd : p.depth = 1) (children : List Element)
    (inner : List (Tag × List Element)) :
    ∃ depth, p.steps (eventsOf children ++ Outline.eventsOfUnclosed inner) =
      (p.enterAll (children.map Element.tag ++ (inner.head?.map (·.1)).toList)).map
        fun q => { q with depth } := by
  rw [Progress.steps_eventsOf_inside hd, Progress.enterAll_append]
  cases hall : p.enterAll (children.map Element.tag) with
  | error fault => exact ⟨0, rfl⟩
  | ok q =>
    have hone : q.depth = 1 := (Progress.enterAll_frame hall).1.trans hd
    cases inner with
    | nil => exact ⟨q.depth, rfl⟩
    | cons x inner =>
      obtain ⟨tag, within⟩ := x
      rw [Outline.eventsOfUnclosed, List.flatMap_cons, List.cons_append]
      simp only [Progress.steps_opening, List.head?_cons, Option.map_some, Option.toList_some,
        Progress.enterAll]
      cases henter : q.enter tag with
      | error fault => exact ⟨0, rfl⟩
      | ok r =>
        have hdepth : 2 ≤ ({ r with depth := r.depth + 1 } : Progress).depth := by
          have := (Progress.enter_frame henter).1
          change 2 ≤ r.depth + 1
          omega
        obtain ⟨depth, hrest⟩ := steps_eventsOfUnclosed_within hdepth inner
        rw [Outline.eventsOfUnclosed] at hrest
        refine ⟨depth, ?_⟩
        simp only []
        rw [Progress.steps_eventsOf_within hdepth, hrest]
        rfl

theorem steps_unclosed_root (root : Tag) (children : List Element)
    (inner : List (Tag × List Element)) :
    ∃ depth, Progress.start.steps (.opening root :: (eventsOf children
        ++ Outline.eventsOfUnclosed inner)) =
      (Progress.enterTop root (children.map Element.tag ++ (inner.head?.map (·.1)).toList)).map
        fun p => { p with depth } := by
  rw [Progress.steps_opening, Progress.enterTop]
  cases henter : Progress.start.enter root with
  | error fault => exact ⟨0, rfl⟩
  | ok p =>
    have hdepth : p.depth = 0 := (Progress.enter_frame henter).1
    simp only [hdepth]
    exact steps_unclosed rfl children inner

/-- A second element at the top is refused when it begins. -/
theorem steps_second {p : Progress} {s : Snapshot} (hd : p.depth = 0) (hs : p.snapshot = some s)
    {o : Outline} (ho : o.topTags ≠ []) :
    p.steps o.events = .error (.malformed 0 .secondRoot) := by
  have henter : ∀ tag, p.enter tag = .error (.malformed 0 .secondRoot) := by
    intro tag
    rw [Progress.enter, hd, hs]
    rfl
  obtain ⟨complete, unclosed⟩ := o
  rw [Outline.events]
  cases complete with
  | cons e complete =>
    rw [eventsOf, List.append_assoc]
    cases e with
    | empty tag =>
      rw [Element.events, List.singleton_append, Progress.steps, Progress.step, henter]
      rfl
    | holding tag children =>
      rw [Element.events, List.cons_append, Progress.steps_opening, henter]
  | nil =>
    cases unclosed with
    | nil => exact absurd rfl ho
    | cons x unclosed =>
      rw [eventsOf, List.nil_append, Outline.eventsOfUnclosed, List.flatMap_cons, List.cons_append,
        Progress.steps_opening, henter]

theorem outlineFaults_cons {o : Outline} {root : Tag} {others : List Tag}
    (h : o.topTags = root :: others) :
    outlineFaults o = rootFaults root ++ fileFaults [] 1 (fileTags o)
      ++ (others.map (fun _ => .malformed 0 .secondRoot)
        ++ if o.unclosed.isEmpty then [] else [.malformed 0 .truncated]) := by
  rw [outlineFaults, h, ← List.append_assoc]

/-- The reading ends with the first fault of the outline, or with the snapshot that it describes. -/
theorem readEvents_cases (o : Outline) :
    (∃ fault, (outlineFaults o).head? = some fault ∧ readEvents ⟨o.events, none⟩ = .error fault) ∨
      ((outlineFaults o).head? = none ∧ ∃ root s, o.complete = [root] ∧
        readEvents ⟨o.events, none⟩ = .ok s ∧ name? root.tag = some s.name ∧
        (s.files.map some).Perm ((fileTags o).map record?)) := by
  obtain ⟨complete, unclosed⟩ := o
  rw [readEvents]
  cases complete with
  | nil =>
    cases unclosed with
    | nil => exact .inl ⟨.malformed 0 .noRoot, rfl, rfl⟩
    | cons x inner =>
      obtain ⟨root, children⟩ := x
      have hevents : (⟨[], (root, children) :: inner⟩ : Outline).events =
          .opening root :: (eventsOf children ++ Outline.eventsOfUnclosed inner) := rfl
      obtain ⟨depth, hsteps⟩ := steps_unclosed_root root children inner
      rw [hevents, outlineFaults_cons rfl, List.head?_append]
      simp only [hsteps]
      rcases enterTop_cases root (children.map Element.tag ++ (inner.head?.map (·.1)).toList) with
        ⟨fault, hfault, htop⟩ | ⟨hfault, s, n, htop, -, -⟩
      · refine .inl ⟨fault, ?_, by rw [htop]; rfl⟩
        rw [fileTags, Outline.innerTags, hfault]
        rfl
      · refine .inl ⟨.malformed 0 .truncated, ?_, by rw [htop]; rfl⟩
        rw [fileTags, Outline.innerTags, hfault]
        rfl
  | cons root others =>
    have hevents : (⟨root :: others, unclosed⟩ : Outline).events =
        root.events ++ (⟨others, unclosed⟩ : Outline).events := List.append_assoc ..
    have htags : (⟨root :: others, unclosed⟩ : Outline).topTags =
        root.tag :: (⟨others, unclosed⟩ : Outline).topTags := rfl
    rw [hevents, outlineFaults_cons htags, List.head?_append, steps_root]
    rcases enterTop_cases root.tag (root.children.map Element.tag) with
      ⟨fault, hfault, htop⟩ | ⟨hfault, s, n, htop, hname, hperm⟩
    · refine .inl ⟨fault, ?_, by rw [htop]⟩
      rw [fileTags, Outline.innerTags, hfault]
      rfl
    · rw [fileTags, Outline.innerTags, hfault, htop, Option.none_or]
      cases hmore : (⟨others, unclosed⟩ : Outline).topTags with
      | nil =>
        obtain ⟨hothers, hunclosed⟩ := List.append_eq_nil_iff.1 hmore
        obtain rfl := List.map_eq_nil_iff.1 hothers
        cases unclosed with
        | cons x unclosed => exact absurd hunclosed (List.cons_ne_nil _ _)
        | nil => exact .inr ⟨rfl, root, s, rfl, rfl, hname, hperm⟩
      | cons tag tags =>
        refine .inl ⟨.malformed 0 .secondRoot, rfl, ?_⟩
        simp only []
        rw [steps_second rfl rfl (by rw [hmore]; exact List.cons_ne_nil _ _)]

/-! ### Documents without faults -/

theorem rootFaults_eq_nil {root : Tag} :
    rootFaults root = [] ↔ root.name = encode "snapshot" ∧ ∃ name, name? root = some name := by
  rw [rootFaults]
  by_cases hname : root.name = encode "snapshot"
  · rw [if_neg (not_not_intro hname), and_iff_right hname]
    rcases snapshotName_cases root with ⟨fault, hfaults, hnone, -⟩ | ⟨hnil, name, hsome, -⟩
    · simp [hfaults, hnone]
    · simp [hnil, hsome]
  · rw [if_pos hname]
    exact ⟨fun h => absurd h (List.cons_ne_nil _ _), fun h => absurd h.1 hname⟩

/-- Files are without faults if each of them is and no two are at one path. -/
theorem fileFaults_eq_nil {earlier : List String} {node : Nat} {tags : List Tag} :
    fileFaults earlier node tags = [] ↔
      (∀ tag ∈ tags, ReadableFile tag) ∧ (tags.map path?).Nodup ∧
        ∀ tag ∈ tags, ∀ path, path? tag = some path → path ∉ earlier := by
  induction tags generalizing earlier node with
  | nil => simp [fileFaults]
  | cons tag tags ih =>
    have hrepeated : ((path? tag).filter (· ∈ earlier)).toList.map
        (Fault.malformed node <| .duplicatePath ·) = [] ↔
          ∀ path, path? tag = some path → path ∉ earlier := by
      cases path? tag <;> simp
    rw [fileFaults, List.append_eq_nil_iff, List.append_eq_nil_iff, tagFaults_eq_nil, ih, hrepeated]
    constructor
    · rintro ⟨⟨htag, hfirst⟩, htags, hnodup, hfresh⟩
      obtain ⟨path, hpath⟩ := Option.isSome_iff_exists.1 htag.path
      refine ⟨List.forall_mem_cons.2 ⟨htag, htags⟩, ?_, ?_⟩
      · refine List.nodup_cons.2 ⟨?_, hnodup⟩
        intro hmem
        obtain ⟨other, hother, he⟩ := List.mem_map.1 hmem
        exact hfresh other hother path (he.trans hpath) (by simp [hpath])
      · refine List.forall_mem_cons.2 ⟨hfirst, ?_⟩
        intro other hother q hq hmem
        exact hfresh other hother q hq (List.mem_append_right _ hmem)
    · rintro ⟨hreadable, hnodup, hfresh⟩
      obtain ⟨htag, htags⟩ := List.forall_mem_cons.1 hreadable
      obtain ⟨hfirst, hrest⟩ := List.forall_mem_cons.1 hfresh
      obtain ⟨hnew, hnodup⟩ := List.nodup_cons.1 hnodup
      refine ⟨⟨htag, hfirst⟩, htags, hnodup, ?_⟩
      intro other hother q hq hmem
      rcases List.mem_append.1 hmem with hmem | hmem
      · rw [Option.mem_toList] at hmem
        exact hnew (List.mem_map.2 ⟨other, hother, hq.trans hmem.symm⟩)
      · exact hrest other hother q hq hmem

theorem outlineFaults_eq_nil {o : Outline} :
    outlineFaults o = [] ↔ ∃ root name, IsSnapshot o root name := by
  constructor
  · intro h
    obtain ⟨complete, unclosed⟩ := o
    cases complete with
    | nil =>
      cases unclosed with
      | nil => exact absurd h (List.cons_ne_nil _ _)
      | cons x inner =>
        rw [outlineFaults_cons rfl] at h
        exact absurd (List.append_eq_nil_iff.1 (List.append_eq_nil_iff.1 h).2).2
          (List.cons_ne_nil _ _)
    | cons root others =>
      have htags : (⟨root :: others, unclosed⟩ : Outline).topTags =
          root.tag :: (⟨others, unclosed⟩ : Outline).topTags := rfl
      rw [outlineFaults_cons htags] at h
      obtain ⟨hfront, hend⟩ := List.append_eq_nil_iff.1 h
      obtain ⟨hroot, hfiles⟩ := List.append_eq_nil_iff.1 hfront
      obtain ⟨hmore, hopen⟩ := List.append_eq_nil_iff.1 hend
      obtain ⟨hname, name, hread⟩ := rootFaults_eq_nil.1 hroot
      obtain ⟨hreadable, hnodup, -⟩ := fileFaults_eq_nil.1 hfiles
      obtain ⟨hothers, -⟩ := List.append_eq_nil_iff.1 (List.map_eq_nil_iff.1 hmore)
      obtain rfl := List.map_eq_nil_iff.1 hothers
      cases unclosed with
      | cons x unclosed => exact absurd hopen (List.cons_ne_nil _ _)
      | nil => exact ⟨root, name, rfl, rfl, hname, hread, hreadable, hnodup⟩
  · rintro ⟨root, name, h⟩
    have htags : o.topTags = root.tag :: [] := by
      rw [Outline.topTags, h.complete, h.closed]
      rfl
    have hroot := rootFaults_eq_nil.2 ⟨h.root_name, name, h.name⟩
    have hfiles : fileFaults [] 1 (fileTags o) = [] :=
      fileFaults_eq_nil.2 ⟨h.readable, h.distinct, fun _ _ _ _ => List.not_mem_nil⟩
    rw [outlineFaults_cons htags, hroot, hfiles, h.closed]
    rfl

/-- The events are those of one outline alone, and reading agrees with it: it succeeds exactly for the
document of one snapshot, the result has the name of the outermost element and one record for each of
its files, and the fault is otherwise the first in the order of the document. -/
theorem readEvents_of_balanced {es : List Event} (h : Balanced 0 es) :
    (∀ o : Outline, o.events = es ↔ o = .of es) ∧
      ((∃ s, readEvents ⟨es, none⟩ = .ok s) ↔ ∃ root name, IsSnapshot (.of es) root name) ∧
      (∀ s, readEvents ⟨es, none⟩ = .ok s →
        (∃ root, IsSnapshot (.of es) root s.name) ∧
          (s.files.map some).Perm ((fileTags (.of es)).map record?)) ∧
      ∀ fault, readEvents ⟨es, none⟩ = .error fault →
        (outlineFaults (.of es)).head? = some fault := by
  have hcases := readEvents_cases (Outline.of es)
  rw [Outline.events_of h] at hcases
  refine ⟨fun _ => Outline.events_eq_iff h, ?_⟩
  rw [← outlineFaults_eq_nil]
  rcases hcases with ⟨fault, hfault, hread⟩ | ⟨hnone, root, s, hroot, hread, hname, hperm⟩
  · simp only [hread]
    refine ⟨⟨?_, ?_⟩, ?_, ?_⟩
    · intro h
      obtain ⟨s, hs⟩ := h
      simp at hs
    · intro hnil
      rw [hnil] at hfault
      simp at hfault
    · intro s hs
      simp at hs
    · intro f hf
      rw [hfault, Except.error.inj hf]
  · have hnil := List.head?_eq_none_iff.1 hnone
    obtain ⟨root', name, hsnapshot⟩ := outlineFaults_eq_nil.1 hnil
    have hsame : name = s.name := by
      have hroots : [root'] = [root] := hsnapshot.complete.symm.trans hroot
      have hok := hsnapshot.name
      rw [List.singleton_inj.1 hroots, hname] at hok
      exact (Option.some.inj hok).symm
    simp only [hread]
    refine ⟨⟨fun _ => hnil, fun _ => ⟨s, rfl⟩⟩, ?_, ?_⟩
    · intro t ht
      obtain rfl := Except.ok.inj ht
      exact ⟨⟨root', hsame ▸ hsnapshot⟩, hperm⟩
    · intro fault hf
      simp at hf

/-- A named snapshot of three files. One of them is written with an element inside, and beside them
stands an element that holds a file of its own. -/
def listing : List Event :=
  [.opening ⟨encode "snapshot host=\"h\" name=\"A &amp; B\""⟩,
    .selfClosing ⟨encode "file path=\"src\\a.c\" size=\"+7\" Md5=\"d\""⟩,
    .opening ⟨encode "group"⟩, .selfClosing ⟨encode "file path=\"b\""⟩, .closing,
    .opening ⟨encode "file modified='2020-09-13T12:26:40Z' path='b'"⟩,
    .selfClosing ⟨encode "file"⟩, .closing,
    .selfClosing ⟨encode "file permissions=\"644\" path=\"a\""⟩, .closing]

/-- A snapshot that is left open after a file with a size that is no number before a second path. -/
def damagedListing : List Event :=
  [.opening ⟨encode "snapshot"⟩, .selfClosing ⟨encode "file path=\"b\" size=\"7k\" path=\"c\""⟩]

/-- The listing is read as its name and its three files. In the damaged one the size is the fault. -/
theorem readEvents_listing :
    (∃ s, readEvents ⟨listing, none⟩ = .ok s ∧ s.name = "A & B" ∧
      s.files.Perm [⟨.of "src/a.c", some 7, none, none, none⟩,
        ⟨.of "b", none, some 1600000000000, none, none⟩,
        ⟨.of "a", none, none, none, some "644"⟩]) ∧
    outlineFaults (.of damagedListing) = [.malformed 1 (.badSize "7k"),
      .markup (.attribute 24 (.duplicate 5)), .malformed 0 .truncated] ∧
    readEvents ⟨damagedListing, none⟩ = .error (.malformed 1 (.badSize "7k")) := by
  have hbalanced : Balanced 0 listing := trivial
  have hbalanced' : Balanced 0 damagedListing := trivial
  have hfaults : outlineFaults (.of damagedListing) = [.malformed 1 (.badSize "7k"),
      .markup (.attribute 24 (.duplicate 5)), .malformed 0 .truncated] := by decide +kernel
  refine ⟨?_, hfaults, ?_⟩
  · obtain ⟨-, hok, hread, -⟩ := readEvents_of_balanced hbalanced
    obtain ⟨s, hs⟩ := hok.2 (outlineFaults_eq_nil.1 (by decide +kernel))
    obtain ⟨⟨root, hsnapshot⟩, hfiles⟩ := hread s hs
    refine ⟨s, hs, ?_, ?_⟩
    · have hname : (Outline.of listing).complete.map (name? ·.tag) = [some "A & B"] := by
        decide +kernel
      rw [hsnapshot.complete, List.map_singleton, hsnapshot.name] at hname
      exact Option.some.inj (List.singleton_inj.1 hname)
    · have hrecords := hfiles.filterMap id
      rw [List.filterMap_map, Function.id_comp, List.filterMap_some] at hrecords
      exact hrecords.trans (.of_eq (by decide +kernel))
  · obtain ⟨-, hok, -, herror⟩ := readEvents_of_balanced hbalanced'
    cases hread : readEvents ⟨damagedListing, none⟩ with
    | ok s =>
      have hnil := outlineFaults_eq_nil.2 (hok.1 ⟨s, hread⟩)
      rw [hfaults] at hnil
      cases hnil
    | error fault =>
      have hfirst := herror fault hread
      rw [hfaults] at hfirst
      rw [Option.some.inj hfirst]

end FileCensus.Document
