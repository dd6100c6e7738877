import FileCensus.Proofs.CaptureReads
import FileCensus.Proofs.DigestBlocks
import FileCensus.Proofs.DocumentRoundTrip
import FileCensus.Proofs.Resolution
import FileCensus.Proofs.ScanRecords

/-!
# The two texts of a difference

Values that differ have different texts. Only the text of an unknown value may be that of a captured
one: a digest or permissions that a document holds may be spelled in the same way. Nothing that is read
of a file is.
-/

namespace FileCensus

open ScanSettings (localReads)
open Utf8 (encode)

/-- The captured text is the one that stands for an unknown value. A size or a time has no such text. -/
def Record.LooksUnknown (r : Record) : Attribute → Prop
  | .size => False
  | .modified => False
  | .md5 => r.md5 = some absentText
  | .permissions => r.permissions = some absentText

/-! ### Texts that are not the one for unknown values -/

theorem ofList_ne_absentText {s : List Char} (h : ∀ c ∈ s, c.isDigit) :
    String.ofList s ≠ absentText := by
  intro he
  have hs : s = absentText.toList := by rw [← he, String.toList_ofList]
  have hn : 'n' ∈ s := by
    rw [hs]
    decide
  exact Bool.noConfusion (h 'n' hn)

theorem ofNat_ne_absentText (n : Nat) : Numeral.ofNat n ≠ absentText :=
  ofList_ne_absentText fun _ => Numeral.isDigit_digits

theorem ofInt_ne_absentText (m : Int) : Numeral.ofInt m ≠ absentText := by
  cases m with
  | ofNat n => exact ofNat_ne_absentText n
  | negSucc n =>
    intro he
    have hs := congrArg (fun s : String => s.toList.head?) he
    simp [Numeral.ofInt, absentText] at hs

theorem octal_ne_absentText (n : Nat) : Numeral.octal n ≠ absentText :=
  ofList_ne_absentText fun _ => Nat.isDigit_of_mem_toDigits (by decide) (by decide)

theorem Record.value_eq_absentText {r : Record} {a : Attribute} :
    r.value a = some absentText ↔ r.LooksUnknown a := by
  cases a with
  | size => simp [value, LooksUnknown, ofNat_ne_absentText]
  | modified => simp [value, LooksUnknown, ofInt_ne_absentText]
  | md5 => exact Iff.rfl
  | permissions => exact Iff.rfl

/-! ### What is read of files -/

theorem Content.exists_hex_of_digest {mode : HashMode} {deliveries : List Delivery} {text : String}
    (h : digest mode deliveries = .ok text) : ∃ chain : Md5.Chain, text = chain.hex := by
  rw [digest] at h
  generalize Progress.start = p at h
  induction deliveries generalizing p with
  | nil => exact ⟨_, (Except.ok.inj h).symm⟩
  | cons delivery deliveries ih =>
    cases delivery with
    | bytes b => exact ih _ h
    | failure cause =>
      rw [digestFrom] at h
      split at h
      · exact ih _ h
      · exact nomatch h

namespace FileTree

variable {t : FileTree} {path : Bytes} {text : String}

theorem digest_ne_absentText {mode : HashMode} (h : (t.reads path).digest mode = .ok text) :
    text ≠ absentText := by
  have hbind : (t.openPath path >>= fun source => Content.digest mode source.deliveries) = .ok text :=
    mapError_eq_ok.1 h
  cases hopen : t.openPath path with
  | error cause =>
    rw [hopen] at hbind
    exact nomatch hbind
  | ok source =>
    rw [hopen] at hbind
    obtain ⟨chain, rfl⟩ := Content.exists_hex_of_digest hbind
    intro he
    have hlength := Md5.length_hex chain
    rw [he] at hlength
    exact absurd hlength (by decide)

theorem permissions_ne_absentText (h : (t.reads path).permissions = .ok text) :
    text ≠ absentText := by
  simp only [reads] at h
  split at h
  · exact nomatch h
  · split at h
    · rename_i permissions hpermissions
      obtain ⟨mode, -, hoctal⟩ := Option.map_eq_some_iff.1 hpermissions
      obtain rfl := Except.ok.inj h
      exact hoctal ▸ octal_ne_absentText _
    · exact nomatch h

end FileTree

namespace ScanSettings

variable {s : ScanSettings} {t : FileTree} {root here : Location} {r : Record}

theorem not_looksUnknown_of_capture (h : s.capture (localReads t root) here = .ok r)
    (a : Attribute) : ¬r.LooksUnknown a := by
  intro hlooks
  cases a with
  | size => exact hlooks
  | modified => exact hlooks
  | md5 =>
    have hmd5 : r.captured .md5 = some absentText := hlooks
    exact FileTree.digest_ne_absentText (Reads.read_of_captured h hmd5) rfl
  | permissions =>
    have hpermissions : r.captured .permissions = some absentText := hlooks
    exact FileTree.permissions_ne_absentText (Reads.read_of_captured h hpermissions) rfl

theorem not_looksUnknown_of_scan {name : String} {before : Statistics} {result : ScanResult}
    (h : s.scan t name before = .ok result) (hr : r ∈ result.snapshot.files) (a : Attribute) :
    ¬r.LooksUnknown a := by
  rw [scan] at h
  cases hroot : t.resolve .existing s.target with
  | error cause =>
    rw [hroot] at h
    exact nomatch h
  | ok root =>
    rw [hroot] at h
    have hgathered : s.gathered t root (localReads t root) name = result.snapshot :=
      (scanAt_eq_ok.1 (congrArg (Except.map ScanResult.snapshot) h)).2
    have hget := Snapshot.get?_eq_some.2 ⟨hr, rfl⟩
    rw [← hgathered, get?_gathered] at hget
    obtain ⟨here, -, -, hcapture, -⟩ := record?_eq_some.1 hget
    exact not_looksUnknown_of_capture hcapture a

end ScanSettings

/-! ### Differences -/

theorem getD_eq_getD_iff {u v : Option String} {text : String} (h : u ≠ v) :
    u.getD text = v.getD text ↔ (u = none ∧ v = some text) ∨ (u = some text ∧ v = none) := by
  cases u with
  | none =>
    cases v with
    | none => exact absurd rfl h
    | some v => simp [eq_comm]
  | some u =>
    cases v with
    | none => simp
    | some v => simpa using h

/-- One side is unknown, and the other one looks as if it were. -/
def Record.Confusable (x y : Record) (a : Attribute) : Prop :=
  (x.captured a = none ∧ y.LooksUnknown a) ∨ (x.LooksUnknown a ∧ y.captured a = none)

theorem Record.texts_differenceIn {x y : Record} {a : Attribute} (h : x.captured a ≠ y.captured a) :
    (x.differenceIn y a).left = (x.differenceIn y a).right ↔ x.Confusable y a := by
  rw [differenceIn, getD_eq_getD_iff (mt value_eq_iff.1 h), value_eq_none, value_eq_none,
    value_eq_absentText, value_eq_absentText, Confusable]

namespace Policy

variable {policy : Policy} {l r : Snapshot} {t : Trace} {d : Difference}

/-- A difference of a report is that of the two records of its path in an attribute. -/
theorem exists_of_mem_differences (ht : t ∈ (policy.compareSnapshots l r).traces)
    (hd : d ∈ t.differences) : ∃ x y, l.get? t.path = some x ∧ r.get? t.path = some y ∧
      x.captured d.subject ≠ y.captured d.subject ∧ d = x.differenceIn y d.subject := by
  have hexact := policy.exact_compareSnapshots l r
  obtain ⟨x, y, hx, hy, -⟩ := (hexact.traced t.path).1 (List.mem_map_of_mem ht)
  rw [(hexact.trace_eq t ht x y hx hy).2.2] at hd
  obtain ⟨a, ha, rfl⟩ := List.mem_map.1 hd
  have hne : x.captured a ≠ y.captured a :=
    of_decide_eq_true (Bool.and_eq_true_iff.1 (List.mem_filter.1 ha).2).2
  exact ⟨x, y, hx, hy, hne, rfl⟩

theorem texts_of_mem_differences (ht : t ∈ (policy.compareSnapshots l r).traces)
    (hd : d ∈ t.differences) : ∃ x y, l.get? t.path = some x ∧ r.get? t.path = some y ∧
      (d.left = d.right ↔ x.Confusable y d.subject) := by
  obtain ⟨x, y, hx, hy, hne, hdifference⟩ := exists_of_mem_differences ht hd
  refine ⟨x, y, hx, hy, ?_⟩
  rw [hdifference]
  exact Record.texts_differenceIn hne

/-- The two texts of a difference are the same exactly where the value of one side is unknown and the
other side's digest or permissions are spelled as unknown values are. So they are never the same in
a comparison of directories as they were scanned. -/
theorem texts_of_differences (policy : Policy) :
    (∀ l r : Snapshot, ∀ t ∈ (policy.compareSnapshots l r).traces, ∀ d ∈ t.differences,
      ∃ x y, l.get? t.path = some x ∧ r.get? t.path = some y ∧
        (d.left = d.right ↔ x.Confusable y d.subject)) ∧
    ∀ (s s' : ScanSettings) (tree tree' : FileTree) name name' before before' result result',
      s.scan tree name before = .ok result → s'.scan tree' name' before' = .ok result' →
        ∀ t ∈ (policy.compareSnapshots result.snapshot result'.snapshot).traces,
          ∀ d ∈ t.differences, d.left ≠ d.right := by
  refine ⟨fun l r t ht d hd => texts_of_mem_differences ht hd, ?_⟩
  intro s s' tree tree' name name' before before' result result' hscan hscan' t ht d hd
  obtain ⟨x, y, hx, hy, htexts⟩ := texts_of_mem_differences ht hd
  rw [ne_eq, htexts]
  rintro (⟨-, hlooks⟩ | ⟨hlooks, -⟩)
  · exact ScanSettings.not_looksUnknown_of_scan hscan' (Snapshot.get?_eq_some.1 hy).1 _ hlooks
  · exact ScanSettings.not_looksUnknown_of_scan hscan (Snapshot.get?_eq_some.1 hx).1 _ hlooks

/-! ### A digest that is spelled as an unknown one -/

/-- A snapshot of one file of which at most the digest is known. -/
def digested (name : String) (digest : Option String) : Snapshot :=
  ⟨name, [⟨.of "f", none, none, digest, none⟩], List.pairwise_singleton _ _⟩

/-- Two documents can be read whose difference has one text on both sides. -/
theorem differences_of_one_text :
    (∀ s ∈ [digested "a" (some "null"), digested "b" none],
      Document.readBytes (Document.writeBytes ⟨"", ""⟩ s) = .ok s) ∧
    ∃ t ∈ (everything.compareSnapshots (digested "a" (some "null")) (digested "b" none)).traces,
      ∃ d ∈ t.differences, d.left = d.right := by
  have hread : ∀ name digest,
      Document.readBytes (Document.writeBytes ⟨"", ""⟩ (digested name digest)) =
        .ok (digested name digest) :=
    fun name digest => Document.readBytes_writeBytes ⟨"", ""⟩ (digested name digest)
  have ht : ⟨"f", "a", "b", [⟨.md5, "null", "null"⟩]⟩ ∈
      (everything.compareSnapshots (digested "a" (some "null")) (digested "b" none)).traces := by
    decide +kernel
  refine ⟨?_, _, ht, _, List.mem_singleton_self _, rfl⟩
  simp only [List.forall_mem_cons, hread, true_and]
  exact fun s hs => absurd hs List.not_mem_nil

/-! ### A file that has grown -/

/-- A directory with one file. -/
def oneFile (content : Bytes) : FileTree :=
  ⟨.directory none [(encode "f", .file content 0 none)], [], true⟩

def sizesOnly : ScanSettings :=
  ⟨Path.dot, none, ⟨⟨.set (.const false) .size true, .binary⟩, []⟩, [], [], false, 4, .abort⟩

def sized (name : String) (size : UInt64) : Snapshot :=
  ⟨name, [⟨.of "f", some size, none, none, none⟩], List.pairwise_singleton _ _⟩

theorem node_oneFile (content : Bytes) :
    (oneFile content).node (Location.path [encode "f"]) = .ok (.file content 0 none) := by
  have hresolve : (oneFile content).resolve .existing (Location.path [encode "f"]) =
      .ok [encode "f"] := by
    have hname : FileTree.Enterable (encode "f") := ⟨by decide, by decide, by decide, by decide⟩
    exact FileTree.resolve_eq_ok.2 ⟨by decide, by decide, by decide,
      .enter rfl rfl hname (by decide) rfl nofun .done⟩
  rw [FileTree.node, hresolve]
  rfl

theorem capture_oneFile (content : Bytes) :
    sizesOnly.capture (localReads (oneFile content) []) [encode "f"] =
      .ok ⟨.of "f", some (UInt64.ofNat content.length), none, none, none⟩ := by
  have hsize : ((oneFile content).reads (Location.path [encode "f"])).size =
      .ok (UInt64.ofNat content.length) := by
    simp only [FileTree.reads, FileTree.stat, node_oneFile]
    rfl
  have hpath : NormalPath.of "f" = .of (Location.recordedPath [encode "f"]) := by decide +kernel
  refine Reads.capture_eq_ok.2 ⟨hpath, fun a => ?_⟩
  cases a with
  | size =>
    change Except.map some ((oneFile content).reads (Location.path [encode "f"])).size = _
    rw [hsize]
    rfl
  | modified => rfl
  | md5 => rfl
  | permissions => rfl

theorem scan_oneFile (content : Bytes) (name : String) :
    ∃ result, sizesOnly.scan (oneFile content) name .none = .ok result ∧
      result.snapshot = sized name (UInt64.ofNat content.length) := by
  have hroot : (oneFile content).resolve .existing sizesOnly.target = .ok [] :=
    FileTree.resolve_eq_ok.2 ⟨by decide, by decide, by decide, .dot rfl rfl .done⟩
  have hselected : sizesOnly.selected (oneFile content) [] = [[encode "f"]] := by
    have hfiles : ((sizesOnly.found (oneFile content) []).filterMap Found.file?).filter
        (fun here => sizesOnly.takes (oneFile content) ([] ++ here)) = [[encode "f"]] := by rfl
    rw [ScanSettings.selected, hfiles, List.mergeSort_singleton]
  apply exists_of_map_ok
  rw [ScanSettings.scan, hroot]
  refine ScanSettings.scanAt_eq_ok.2 ⟨fun _ => ⟨?_, ?_⟩, ?_⟩
  · have hfound : sizesOnly.found (oneFile content) [] = [.file [encode "f"]] := by rfl
    simp [hfound]
  · rw [hselected]
    intro here hmem
    rw [List.mem_singleton.1 hmem]
    exact ⟨_, capture_oneFile content⟩
  · rw [ScanSettings.gathered, ScanSettings.records, hselected]
    simp only [List.filterMap_cons, capture_oneFile]
    rfl

/-- The sizes of a file that has grown are told apart. -/
theorem texts_of_differences_grown :
    ∃ old new, sizesOnly.scan (oneFile [1]) "old" .none = .ok old ∧
      sizesOnly.scan (oneFile [1, 2]) "new" .none = .ok new ∧
      ∃ t ∈ (everything.compareSnapshots old.snapshot new.snapshot).traces,
        ∃ d ∈ t.differences, d = ⟨.size, "1", "2"⟩ ∧ d.left ≠ d.right := by
  obtain ⟨old, hold, hsnapshot⟩ := scan_oneFile [1] "old"
  obtain ⟨new, hnew, hsnapshot'⟩ := scan_oneFile [1, 2] "new"
  have ht : ⟨"f", "old", "new", [⟨.size, "1", "2"⟩]⟩ ∈
      (everything.compareSnapshots old.snapshot new.snapshot).traces := by
    rw [hsnapshot, hsnapshot']
    decide +kernel
  exact ⟨old, new, hold, hnew, _, ht, _, List.mem_singleton_self _, rfl,
    (texts_of_differences everything).2 _ _ _ _ _ _ _ _ _ _ hold hnew _ ht _
      (List.mem_singleton_self _)⟩

end Policy

end FileCensus
