import FileCensus.Proofs.Stamps
import FileCensus.Proofs.WrittenDocument

/-!
# Reading written documents

A written document reads back as the snapshot it was written of. The only thing that can be lost is a
time whose written form is no time, and then the document is refused at the first file with such a
time.
-/

namespace FileCensus

/-- Why a file is not read back, as the `node`th of its document. -/
def Record.timeFault? (node : Nat) (r : Record) : Option Fault :=
  match r.modified with
  | none => none
  | some millis =>
    if Stamp.legible millis.toInt then none
    else some (.malformed node (.badTime (Stamp.format millis.toInt)))

/-- The first fault of files that are numbered from `node` on. -/
def Record.firstTimeFault? (node : Nat) (files : List Record) : Option Fault :=
  (files.zipIdx node).findSome? fun p => p.1.timeFault? p.2

theorem Record.firstTimeFault?_cons (node : Nat) (r : Record) (files : List Record) :
    firstTimeFault? node (r :: files) = (r.timeFault? node).or (firstTimeFault? (node + 1) files) := by
  rw [firstTimeFault?, List.zipIdx_cons, List.findSome?_cons]
  cases r.timeFault? node with
  | some fault => rfl
  | none => rw [Option.none_or, firstTimeFault?]

/-- A record whose path comes after all others is put at the end. -/
theorem Record.place_last {r : Record} {files : List Record}
    (h : ∀ x ∈ files, x.path.text < r.path.text) : r.place files = files ++ [r] := by
  induction files with
  | nil => rfl
  | cons x files ih =>
    have hx := h x List.mem_cons_self
    have hge : ¬r.path.text < x.path.text := String.lt_asymm hx
    have hne : r.path ≠ x.path := fun he => by rw [he] at hx; exact String.lt_irrefl _ hx
    rw [Record.place, if_neg hge, if_neg hne, ih fun y hy => h y (List.mem_cons_of_mem _ hy)]
    rfl

theorem Record.find_last {path : String} {files : List Record}
    (h : ∀ x ∈ files, x.path.text < path) : Record.find path files = none := by
  rw [Record.find, List.find?_eq_none]
  intro x hx he
  have hlt := h x hx
  rw [of_decide_eq_true he] at hlt
  exact String.lt_irrefl _ hlt

namespace Document

open Markup Utf8

/-! ### The attributes of a file -/

theorem setRaw_rawAttribute (node : Nat) (entry : Entry) (a : String × String) :
    entry.setRaw node (rawAttribute a) = entry.set node a.1 a.2 := by
  simp only [Entry.setRaw, rawAttribute, unescape_escape, decodeLossy_encode]

/-- What the attribute of a record adds to an entry. -/
def Entry.learn (node : Nat) (r : Record) (a : Attribute) (entry : Entry) : Except Fault Entry :=
  match r.shownValue a with
  | none => .ok entry
  | some value => entry.set node a.name value

theorem setAll_cons (node : Nat) (entry : Entry) (a : String × String) (rest : List RawAttribute) :
    entry.setAll node (rawAttribute a :: rest) =
      entry.set node a.1 a.2 >>= fun entry => entry.setAll node rest := by
  rw [Entry.setAll, setRaw_rawAttribute]
  cases entry.set node a.1 a.2 <;> rfl

theorem setAll_shown (node : Nat) (r : Record) (a : Attribute) (as : List Attribute) (entry : Entry) :
    entry.setAll node (((a :: as).filterMap fun a => (r.shownValue a).map fun value =>
        (a.name, value)).map rawAttribute) =
      entry.learn node r a >>= fun entry =>
        entry.setAll node ((as.filterMap fun a => (r.shownValue a).map fun value =>
          (a.name, value)).map rawAttribute) := by
  rw [Entry.learn, List.filterMap_cons]
  cases r.shownValue a with
  | none => rfl
  | some value =>
    simp only [Option.map_some, List.map_cons]
    exact setAll_cons ..

theorem set_name (node : Nat) (entry : Entry) (a : Attribute) (value : String) :
    entry.set node a.name value =
      match a with
      | .size =>
        match Numeral.readNat Numeral.maxSize value.toList with
        | .ok n => .ok { entry with size := some (UInt64.ofNat n) }
        | .error _ => .error (.malformed node (.badSize value))
      | .modified =>
        match Stamp.parse value with
        | some millis => .ok { entry with modified := some (Int64.ofInt millis) }
        | none => .error (.malformed node (.badTime value))
      | .md5 => .ok { entry with md5 := some value }
      | .permissions => .ok { entry with permissions := some value } := by
  have hpath : a.name ≠ "path" := by cases a <;> decide
  rw [Entry.set, if_neg hpath, Attribute.ofName?_name]
  cases a <;> rfl

theorem learn_size (node : Nat) (r : Record) (entry : Entry) (h : entry.size = none) :
    entry.learn node r .size = .ok { entry with size := r.size } := by
  cases hr : r.size with
  | none =>
    have hentry : { entry with size := none } = entry := by rw [← h]
    simp only [Entry.learn, Record.shownValue, Record.value, hr, Option.map_none, hentry]
  | some size =>
    have hlimit : size.toNat ≤ Numeral.maxSize := Nat.le_of_lt_succ size.toNat_lt
    simp only [Entry.learn, Record.shownValue, Record.value, hr, Option.map_some, set_name,
      Numeral.readNat_ofNat hlimit, UInt64.ofNat_toNat]

theorem learn_modified (node : Nat) (r : Record) (entry : Entry) (h : entry.modified = none) :
    entry.learn node r .modified =
      match r.timeFault? node with
      | none => .ok { entry with modified := r.modified }
      | some fault => .error fault := by
  cases hr : r.modified with
  | none =>
    have hentry : { entry with modified := none } = entry := by rw [← h]
    simp only [Entry.learn, Record.shownValue, Record.timeFault?, hr, Option.map_none, hentry]
  | some millis =>
    have hparse := Stamp.parse_format (m := millis.toInt) millis.le_toInt
      (Int.le_of_lt_add_one millis.toInt_lt)
    simp only [Entry.learn, Record.shownValue, Record.timeFault?, hr, Option.map_some, set_name,
      hparse]
    cases Stamp.legible millis.toInt with
    | true => simp only [if_true, Int64.ofInt_toInt]
    | false => rfl

theorem learn_md5 (node : Nat) (r : Record) (entry : Entry) (h : entry.md5 = none) :
    entry.learn node r .md5 = .ok { entry with md5 := r.md5 } := by
  cases hr : r.md5 with
  | none =>
    have hentry : { entry with md5 := none } = entry := by rw [← h]
    simp only [Entry.learn, Record.shownValue, Record.value, hr, hentry]
  | some md5 => simp only [Entry.learn, Record.shownValue, Record.value, hr, set_name]

theorem learn_permissions (node : Nat) (r : Record) (entry : Entry) (h : entry.permissions = none) :
    entry.learn node r .permissions = .ok { entry with permissions := r.permissions } := by
  cases hr : r.permissions with
  | none =>
    have hentry : { entry with permissions := none } = entry := by rw [← h]
    simp only [Entry.learn, Record.shownValue, Record.value, hr, hentry]
  | some permissions => simp only [Entry.learn, Record.shownValue, Record.value, hr, set_name]

/-- A written file is read as its record unless its time is lost. -/
theorem record_fileTag (node : Nat) (r : Record) :
    record node (fileTag r) =
      match r.timeFault? node with
      | none => .ok r
      | some fault => .error fault := by
  have hattributes : (fileTag r).attributes true = ⟨(fileAttributes r).map rawAttribute, none⟩ :=
    Tag.attributes_of (by decide) (plain_fileAttributes r) (nodup_fileAttributes r) true
  have hpath : Entry.empty.set node "path" r.path.text =
      .ok { Entry.empty with path := some r.path.text } := rfl
  have hall : Entry.empty.setAll node ((fileAttributes r).map rawAttribute) =
      match r.timeFault? node with
      | none => .ok ⟨some r.path.text, r.size, r.modified, r.md5, r.permissions⟩
      | some fault => .error fault := by
    rw [fileAttributes, List.map_cons, setAll_cons, hpath, Attribute.all]
    change (Entry.mk (some r.path.text) none none none none).setAll node _ = _
    rw [setAll_shown, learn_size node r _ rfl]
    change (Entry.mk (some r.path.text) r.size none none none).setAll node _ = _
    rw [setAll_shown, learn_modified node r _ rfl]
    cases r.timeFault? node with
    | some fault => rfl
    | none =>
      change (Entry.mk (some r.path.text) r.size r.modified none none).setAll node _ = _
      rw [setAll_shown, learn_md5 node r _ rfl]
      change (Entry.mk (some r.path.text) r.size r.modified r.md5 none).setAll node _ = _
      rw [setAll_shown, learn_permissions node r _ rfl]
      rfl
  simp only [record, hattributes, hall]
  cases r.timeFault? node with
  | some fault => rfl
  | none => simp only [Entry.toRecord, NormalPath.of_text]

theorem snapshotName_rootTag (origin : Origin) (name : String) :
    snapshotName (rootTag origin name) = .ok name := by
  have hkeys : ((["name", "host", "os", "created"]).map encode).Nodup := by decide
  have hattributes : (rootTag origin name).attributes false =
      ⟨(rootAttributes origin name).map rawAttribute, none⟩ :=
    Tag.attributes_of (by decide) (plain_rootAttributes origin name) hkeys false
  have hfind : ((rootAttributes origin name).map rawAttribute).find? (·.key = nameKey) =
      some (rawAttribute ("name", name)) := rfl
  simp only [snapshotName, hattributes, hfind, rawAttribute, unescape_escape]
  rfl

/-! ### The document -/

/-- The progress inside the outermost element when all files so far are in the snapshot. -/
def Progress.inside (s : Snapshot) : Progress := ⟨some s, 1, s.files.length, false⟩

theorem step_opening (origin : Origin) (name : String) :
    Progress.start.step (.opening (rootTag origin name)) = .ok (.inside (.empty name)) := by
  have hname : (rootTag origin name).name = rootName := Tag.name_of (by decide) _
  simp only [Progress.step, Progress.enter, Progress.start, hname, snapshotName_rootTag, ne_eq,
    not_true_eq_false, if_false]
  rfl

/-- A file whose path comes after all others adds its record at the end. -/
theorem step_file {s : Snapshot} {r : Record} (h : ∀ x ∈ s.files, x.path.text < r.path.text)
    (hasc : Record.Ascending (s.files ++ [r])) :
    (Progress.inside s).step (.selfClosing (fileTag r)) =
      match r.timeFault? (s.files.length + 1) with
      | none => .ok (.inside ⟨s.name, s.files ++ [r], hasc⟩)
      | some fault => .error fault := by
  have hname : (fileTag r).name = fileName := Tag.name_of (by decide) _
  have hget : s.get? r.path.text = none := Record.find_last h
  have hinsert : (s.insert r).2 = ⟨s.name, s.files ++ [r], hasc⟩ :=
    Snapshot.ext rfl (Record.place_last h)
  simp only [Progress.step, Progress.enter, Progress.inside, hname, if_pos, Progress.addFile,
    record_fileTag]
  cases r.timeFault? (s.files.length + 1) with
  | some fault => rfl
  | none =>
    simp only [hget, hinsert, List.length_append, List.length_singleton]
    rfl

/-- The invariant of the reading is that the snapshot holds the files read so far; each further file
comes after them because the document lists the files in ascending order. -/
theorem steps_files (s : Snapshot) (files : List Record)
    (hasc : Record.Ascending (s.files ++ files)) :
    (Progress.inside s).steps (files.map (fun r => .selfClosing (fileTag r)) ++ [.closing]) =
      match Record.firstTimeFault? (s.files.length + 1) files with
      | none => .ok ⟨some ⟨s.name, s.files ++ files, hasc⟩, 0, (s.files ++ files).length, true⟩
      | some fault => .error fault := by
  induction files generalizing s with
  | nil =>
    have hs : (⟨s.name, s.files ++ [], hasc⟩ : Snapshot) = s :=
      Snapshot.ext rfl (List.append_nil s.files)
    rw [hs, List.append_nil]
    rfl
  | cons r files ih =>
    have hlast : ∀ x ∈ s.files, x.path.text < r.path.text := fun x hx =>
      (List.pairwise_append.1 hasc).2.2 x hx r List.mem_cons_self
    have hsplit : s.files ++ r :: files = s.files ++ [r] ++ files := by simp
    have hasc' : Record.Ascending (s.files ++ [r] ++ files) := hsplit ▸ hasc
    have hfront : Record.Ascending (s.files ++ [r]) := (List.pairwise_append.1 hasc').1
    have hrest := ih ⟨s.name, s.files ++ [r], hfront⟩ hasc'
    rw [List.map_cons, List.cons_append, Progress.steps, step_file hlast hfront,
      Record.firstTimeFault?_cons]
    cases r.timeFault? (s.files.length + 1) with
    | some fault => rfl
    | none =>
      simp only [Option.none_or]
      rw [hrest]
      simp only [List.length_append, List.length_singleton, hsplit]

theorem readEvents_written (origin : Origin) (s : Snapshot) :
    readEvents ⟨.opening (rootTag origin s.name)
        :: (s.files.map (fun r => .selfClosing (fileTag r)) ++ [.closing]), none⟩ =
      match Record.firstTimeFault? 1 s.files with
      | none => .ok s
      | some fault => .error fault := by
  have hsteps := steps_files (.empty s.name) s.files s.ascending
  rw [readEvents, Progress.steps, step_opening]
  simp only [hsteps]
  have hnode : (Snapshot.empty s.name).files.length + 1 = 1 := rfl
  rw [hnode]
  cases Record.firstTimeFault? 1 s.files <;> rfl

theorem readBytes_writeBytes (origin : Origin) (s : Snapshot) :
    readBytes (writeBytes origin s) =
      match Record.firstTimeFault? 1 s.files with
      | none => .ok s
      | some fault => .error fault := by
  rw [readBytes, readSource, events_writeBytes, readEvents_written]

/-- Reading what was written gives exactly the snapshot that was written, or the fault of the first
file whose time is lost. -/
theorem read_write (origin : Origin) (s : Snapshot) :
    read (write origin s) =
      match Record.firstTimeFault? 1 s.files with
      | none => .ok s
      | some fault => .error fault :=
  readBytes_writeBytes origin s

end Document

end FileCensus
