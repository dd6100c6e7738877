import FileCensus.Document.Reader
import FileCensus.Proofs.Decoding
import FileCensus.Proofs.Numerals

/-!
# What the attributes of a file say

A file element is read attribute by attribute. What comes out is what looking up each name on its own
gives, and the first attribute that cannot be read makes the fault.
-/

namespace FileCensus.Document

open Markup Utf8

/-! ### Looking up attributes -/

/-- The text of the attribute under a name. -/
def valueUnder (name : String) (as : List RawAttribute) : Option String :=
  (as.find? (·.key = encode name)).bind fun a => (unescape a.value).toOption

/-- The number that a text says in digits, with a plus in front or not, if it has at most 64 bits. -/
def size? (text : String) : Option UInt64 :=
  let digits := if text.toList.head? = some '+' then text.toList.tail else text.toList
  if digits ≠ [] ∧ digits.all Char.isDigit ∧ Nat.ofDigitChars 10 digits 0 < UInt64.size then
    some (UInt64.ofNat (Nat.ofDigitChars 10 digits 0))
  else none

def time? (text : String) : Option Int64 := (Stamp.parse text).map Int64.ofInt

/-- Why an attribute cannot be read, in the `node`th file. -/
def attributeFault? (node : Nat) (a : RawAttribute) : Option Fault :=
  match unescape a.value with
  | .error fault => some (.markup fault)
  | .ok value =>
    if a.key = encode "size" ∧ size? value = none then some (.malformed node (.badSize value))
    else if a.key = encode "modified" ∧ time? value = none then
      some (.malformed node (.badTime value))
    else none

/-- The entry with what the attributes say put over it. -/
def Entry.over (entry : Entry) (as : List RawAttribute) : Entry where
  path := (valueUnder "path" as).or entry.path
  size := ((valueUnder "size" as).bind size?).or entry.size
  modified := ((valueUnder "modified" as).bind time?).or entry.modified
  md5 := (valueUnder "md5" as).or entry.md5
  permissions := (valueUnder "permissions" as).or entry.permissions

theorem size?_eq (text : String) :
    size? text = (Numeral.readNat Numeral.maxSize text.toList).toOption.map UInt64.ofNat := by
  have hlimit : ∀ n, n ≤ Numeral.maxSize ↔ n < UInt64.size := fun n => Nat.lt_succ_iff.symm
  rw [Numeral.toOption_readNat, Numeral.toOption_readDigits, apply_ite (Option.map UInt64.ofNat)]
  simp only [size?, hlimit, Option.map_some, Option.map_none]

theorem encode_inj {s t : String} : encode s = encode t ↔ s = t := by
  constructor
  · intro h
    have hs := decode_encode s
    rw [h, decode_encode] at hs
    exact (Except.ok.inj hs).symm
  · exact congrArg encode

theorem valueUnder_cons (name : String) (a : RawAttribute) (as : List RawAttribute) :
    valueUnder name (a :: as) =
      if a.key = encode name then (unescape a.value).toOption else valueUnder name as := by
  rw [valueUnder, List.find?_cons]
  by_cases ha : a.key = encode name
  · rw [if_pos ha, decide_eq_true ha]
    rfl
  · rw [if_neg ha, decide_eq_false ha]
    rfl

theorem valueUnder_of_not_mem {name : String} {as : List RawAttribute}
    (h : encode name ∉ as.map (·.key)) : valueUnder name as = none := by
  have hfind : as.find? (·.key = encode name) = none := by
    rw [List.find?_eq_none]
    intro a ha he
    exact h (List.mem_map.2 ⟨a, ha, of_decide_eq_true he⟩)
  rw [valueUnder, hfind]
  rfl

theorem valueUnder_eq_some {name text : String} {as : List RawAttribute}
    (h : (as.map (·.key)).Nodup) :
    valueUnder name as = some text ↔
      ∃ a ∈ as, a.key = encode name ∧ unescape a.value = .ok text := by
  induction as with
  | nil => simp [valueUnder]
  | cons a as ih =>
    obtain ⟨hfirst, hrest⟩ := List.nodup_cons.1 h
    rw [valueUnder_cons]
    split
    · rename_i ha
      rw [toOption_eq_some]
      constructor
      · exact fun hvalue => ⟨a, List.mem_cons_self, ha, hvalue⟩
      · rintro ⟨b, hb, hkey, hvalue⟩
        rcases List.mem_cons.1 hb with rfl | hb
        · exact hvalue
        · exact absurd (List.mem_map.2 ⟨b, hb, hkey.trans ha.symm⟩) hfirst
    · rename_i ha
      rw [ih hrest]
      constructor
      · rintro ⟨b, hb, hkey, hvalue⟩
        exact ⟨b, List.mem_cons_of_mem _ hb, hkey, hvalue⟩
      · rintro ⟨b, hb, hkey, hvalue⟩
        rcases List.mem_cons.1 hb with rfl | hb
        · exact absurd hkey ha
        · exact ⟨b, hb, hkey, hvalue⟩

theorem attributeFault?_eq_none {node : Nat} {a : RawAttribute} :
    attributeFault? node a = none ↔
      ∃ value, unescape a.value = .ok value ∧ (a.key = encode "size" → (size? value).isSome) ∧
        (a.key = encode "modified" → (time? value).isSome) := by
  rw [attributeFault?]
  cases unescape a.value with
  | error fault => simp
  | ok value =>
    simp only [Except.ok.injEq, exists_eq_left', ← Option.ne_none_iff_isSome]
    split
    · rename_i hsize
      simp [hsize]
    · rename_i hsize
      split
      · rename_i hmodified
        simp [hmodified]
      · rename_i hmodified
        exact ⟨fun _ => ⟨fun hk hv => hsize ⟨hk, hv⟩, fun hk hv => hmodified ⟨hk, hv⟩⟩, fun _ => rfl⟩

theorem name_of_ofName? {text : String} {a : Attribute} (h : Attribute.ofName? text = some a) :
    a.name = text := by
  have := List.find?_some h
  exact of_decide_eq_true this

/-- A key reads as a known name only if it is exactly that name. -/
theorem decodeLossy_eq_name {key : Bytes} {name : String}
    (hn : name ∈ "path" :: Attribute.all.map Attribute.name) :
    decodeLossy key = name ↔ key = encode name := by
  have hplain : ∀ name ∈ "path" :: Attribute.all.map Attribute.name, '\uFFFD' ∉ name.toList := by
    decide
  exact decodeLossy_eq (hplain name hn)

theorem valueUnder_single {name value : String} {a : RawAttribute} (h : unescape a.value = .ok value) :
    valueUnder name [a] = if a.key = encode name then some value else none := by
  rw [valueUnder_cons, h]
  rfl

theorem set_other {node : Nat} {entry : Entry} {key value : String} (hpath : key ≠ "path")
    (hname : Attribute.ofName? key = none) : entry.set node key value = .ok entry := by
  rw [Entry.set, if_neg hpath, hname]

/-- One attribute puts its value over the entry, or is the fault. -/
theorem setRaw_eq (node : Nat) (entry : Entry) (a : RawAttribute) :
    entry.setRaw node a =
      match attributeFault? node a with
      | some fault => .error fault
      | none => .ok (entry.over [a]) := by
  cases hvalue : unescape a.value with
  | error fault => simp only [Entry.setRaw, attributeFault?, hvalue]
  | ok value =>
    simp only [Entry.setRaw, attributeFault?, hvalue, Entry.over, valueUnder_single hvalue]
    by_cases hpath : decodeLossy a.key = "path"
    · have hkey := (decodeLossy_eq_name (by decide)).1 hpath
      rw [hpath, hkey, Entry.set, if_pos rfl]
      simp [encode_inj]
    cases hname : Attribute.ofName? (decodeLossy a.key) with
    | none =>
      have hother : ∀ b : Attribute, a.key ≠ encode b.name := by
        intro b hb
        rw [hb, decodeLossy_encode, Attribute.ofName?_name] at hname
        simp at hname
      have hkey : a.key ≠ encode "path" := fun he => hpath ((decodeLossy_eq_name (by decide)).2 he)
      have h1 : a.key ≠ encode "size" := hother .size
      have h2 : a.key ≠ encode "modified" := hother .modified
      have h3 : a.key ≠ encode "md5" := hother .md5
      have h4 : a.key ≠ encode "permissions" := hother .permissions
      rw [set_other hpath hname]
      simp [hkey, h1, h2, h3, h4]
    | some b =>
      have hb : decodeLossy a.key = b.name := (name_of_ofName? hname).symm
      have hkey : a.key = encode b.name := by
        refine (decodeLossy_eq_name ?_).1 hb
        exact List.mem_cons_of_mem _ (List.mem_map_of_mem b.mem_all)
      rw [Entry.set, if_neg hpath, hname, hkey]
      cases b with
      | size =>
        cases hsize : Numeral.readNat Numeral.maxSize value.toList with
        | error fault => simp [Attribute.name, hsize, size?_eq, Except.toOption]
        | ok n => simp [Attribute.name, encode_inj, hsize, size?_eq, Except.toOption]
      | modified =>
        cases htime : Stamp.parse value with
        | none => simp [Attribute.name, encode_inj, htime, time?]
        | some millis => simp [Attribute.name, encode_inj, htime, time?]
      | md5 => simp [Attribute.name, encode_inj]
      | permissions => simp [Attribute.name, encode_inj]

/-! ### Whole lists of attributes -/

theorem valueUnder_append (name : String) {a : RawAttribute} {as : List RawAttribute}
    (h : a.key ∉ as.map (·.key)) {α : Type} (f : String → Option α) (x : Option α) :
    ((valueUnder name as).bind f).or (((valueUnder name [a]).bind f).or x) =
      ((valueUnder name (a :: as)).bind f).or x := by
  rw [valueUnder_cons, valueUnder_cons]
  by_cases ha : a.key = encode name
  · rw [if_pos ha, if_pos ha, valueUnder_of_not_mem (ha ▸ h)]
    rfl
  · rw [if_neg ha, if_neg ha]
    rfl

/-- With distinct keys it does not matter that the attributes are put over one after the other. -/
theorem over_over (entry : Entry) {a : RawAttribute} {as : List RawAttribute}
    (h : a.key ∉ as.map (·.key)) : (entry.over [a]).over as = entry.over (a :: as) := by
  have htext : ∀ name x, (valueUnder name as).or ((valueUnder name [a]).or x) =
      (valueUnder name (a :: as)).or x := by
    intro name x
    have := valueUnder_append name h some x
    simpa only [Option.bind_fun_some] using this
  simp only [Entry.over, htext, valueUnder_append _ h]

theorem setAll_eq (node : Nat) {entry : Entry} {as : List RawAttribute}
    (h : (as.map (·.key)).Nodup) :
    entry.setAll node as =
      match (as.filterMap (attributeFault? node)).head? with
      | some fault => .error fault
      | none => .ok (entry.over as) := by
  induction as generalizing entry with
  | nil => rfl
  | cons a as ih =>
    obtain ⟨hfirst, hrest⟩ := List.nodup_cons.1 h
    rw [Entry.setAll, setRaw_eq, List.filterMap_cons]
    cases attributeFault? node a with
    | some fault => rfl
    | none =>
      simp only []
      rw [ih hrest, over_over entry hfirst]

/-- Attributes that are looked at for repeated keys have distinct ones. -/
theorem nodup_scan (total : Nat) (seen : List (Bytes × Nat)) (s : Bytes) :
    ((AttributeList.scan total true seen s).found.map (·.key)).Nodup ∧
      ∀ key ∈ (AttributeList.scan total true seen s).found.map (·.key), key ∉ seen.map (·.1) := by
  fun_induction AttributeList.scan total true seen s with
  | case1 => exact ⟨.nil, fun _ h => absurd h List.not_mem_nil⟩
  | case2 => exact ⟨.nil, fun _ h => absurd h List.not_mem_nil⟩
  | case3 => exact ⟨.nil, fun _ h => absurd h List.not_mem_nil⟩
  | case4 => exact ⟨.nil, fun _ h => absurd h List.not_mem_nil⟩
  | case5 seen s b rest hs key position more he hnone value more' hq ih =>
    obtain ⟨hnodup, hnew⟩ := ih
    have hunseen : key ∉ seen.map (·.1) := by
      intro hmem
      obtain ⟨p, hp, hkey⟩ := List.mem_map.1 hmem
      rw [dif_pos rfl] at hnone
      exact List.find?_eq_none.1 hnone p hp (decide_eq_true hkey)
    have hfirst : key ∉ (AttributeList.scan total true ((key, position) :: seen) more').found.map
        (·.key) := fun hmem => hnew key hmem List.mem_cons_self
    refine ⟨List.nodup_cons.2 ⟨hfirst, hnodup⟩, ?_⟩
    intro k hk
    rcases List.mem_cons.1 hk with rfl | hk
    · exact hunseen
    · exact fun hmem => hnew k hk (List.mem_cons_of_mem _ hmem)

/-! ### Files -/

/-- The text under a name in a tag whose keys are distinct. -/
def value? (tag : Tag) (name : String) : Option String :=
  valueUnder name (tag.attributes true).found

/-- The path of a file as it is recorded. -/
def path? (tag : Tag) : Option String := (value? tag "path").map Path.normalize

/-- The record that the attributes of a file make up. -/
def record? (tag : Tag) : Option Record :=
  (value? tag "path").map fun path =>
    ⟨.of path, (value? tag "size").bind size?, (value? tag "modified").bind time?, value? tag "md5",
      value? tag "permissions"⟩

/-- What is wrong with the `node`th file, in the order in which it is written: its attributes up to
one that is no attribute or repeats a key, and then that it has no path. -/
def tagFaults (node : Nat) (tag : Tag) : List Fault :=
  (tag.attributes true).found.filterMap (attributeFault? node)
    ++ ((tag.attributes true).fault.map fun p => .markup (.attribute p.1 p.2)).toList
    ++ if path? tag = none then [.malformed node .noPath] else []

/-- All of a file's attributes can be read, and one of them is its path. -/
structure ReadableFile (tag : Tag) : Prop where
  attributes : (tag.attributes true).fault = none
  values : ∀ a ∈ (tag.attributes true).found, ∃ value, unescape a.value = .ok value
  size : ∀ text, value? tag "size" = some text → (size? text).isSome
  modified : ∀ text, value? tag "modified" = some text → (time? text).isSome
  path : (path? tag).isSome

theorem tagFaults_eq_nil {node : Nat} {tag : Tag} : tagFaults node tag = [] ↔ ReadableFile tag := by
  have hkeys := (nodup_scan tag.content.length [] (tag.content.drop tag.name.length)).1
  have hvalue : ∀ name text, value? tag name = some text ↔
      ∃ a ∈ (tag.attributes true).found, a.key = encode name ∧ unescape a.value = .ok text :=
    fun name text => valueUnder_eq_some hkeys
  simp only [tagFaults, List.append_eq_nil_iff, List.filterMap_eq_nil_iff, attributeFault?_eq_none]
  constructor
  · rintro ⟨⟨hfound, hfault⟩, hpath⟩
    refine ⟨?_, ?_, ?_, ?_, ?_⟩
    · cases hlist : (tag.attributes true).fault with
      | none => rfl
      | some fault => simp [hlist] at hfault
    · intro a ha
      obtain ⟨value, hv, -⟩ := hfound a ha
      exact ⟨value, hv⟩
    · intro text htext
      obtain ⟨a, ha, hkey, hread⟩ := (hvalue "size" text).1 htext
      obtain ⟨value, hv, hsize, -⟩ := hfound a ha
      obtain rfl := Except.ok.inj (hread.symm.trans hv)
      exact hsize hkey
    · intro text htext
      obtain ⟨a, ha, hkey, hread⟩ := (hvalue "modified" text).1 htext
      obtain ⟨value, hv, -, htime⟩ := hfound a ha
      obtain rfl := Except.ok.inj (hread.symm.trans hv)
      exact htime hkey
    · rw [← Option.ne_none_iff_isSome]
      intro hnone
      simp [hnone] at hpath
  · intro h
    refine ⟨⟨?_, ?_⟩, ?_⟩
    · intro a ha
      obtain ⟨value, hv⟩ := h.values a ha
      exact ⟨value, hv, fun hkey => h.size value ((hvalue "size" value).2 ⟨a, ha, hkey, hv⟩),
        fun hkey => h.modified value ((hvalue "modified" value).2 ⟨a, ha, hkey, hv⟩)⟩
    · rw [h.attributes]
      rfl
    · rw [if_neg]
      exact Option.ne_none_iff_isSome.2 h.path

/-- A file is read as its record, or the first thing that is wrong with it is the fault. -/
theorem record_cases (node : Nat) (tag : Tag) :
    (∃ fault, (tagFaults node tag).head? = some fault ∧ record node tag = .error fault) ∨
      ((tagFaults node tag).head? = none ∧
        ∃ r, record? tag = some r ∧ record node tag = .ok r) := by
  have hall : Entry.empty.setAll node (tag.attributes true).found =
      match ((tag.attributes true).found.filterMap (attributeFault? node)).head? with
      | some fault => .error fault
      | none => .ok (Entry.empty.over (tag.attributes true).found) :=
    setAll_eq node (nodup_scan ..).1
  simp only [tagFaults, List.head?_append, record]
  cases hfault : ((tag.attributes true).found.filterMap (attributeFault? node)).head? with
  | some fault =>
    rw [hfault] at hall
    exact .inl ⟨fault, rfl, by rw [hall]⟩
  | none =>
    rw [hfault] at hall
    simp only [hall]
    cases (tag.attributes true).fault with
    | some fault => exact .inl ⟨_, rfl, rfl⟩
    | none =>
      cases hpath : value? tag "path" with
      | none =>
        have hentry : (Entry.empty.over (tag.attributes true).found).path = none := by
          rw [value?] at hpath
          rw [Entry.over, hpath]
          rfl
        refine .inl ⟨.malformed node .noPath, ?_, ?_⟩
        · simp [path?, hpath]
        · rw [hentry]
      | some path =>
        have hentry : (Entry.empty.over (tag.attributes true).found).path = some path := by
          rw [value?] at hpath
          rw [Entry.over, hpath]
          rfl
        have hrecord : record? tag =
            some ((Entry.empty.over (tag.attributes true).found).toRecord path) := by
          rw [record?, hpath]
          simp [Entry.toRecord, Entry.over, Entry.empty, value?]
        refine .inr ⟨?_, _, hrecord, ?_⟩
        · simp [path?, hpath]
        · rw [hentry]

theorem path_of_record? {tag : Tag} {r : Record} (h : record? tag = some r) :
    path? tag = some r.path.text := by
  obtain ⟨path, hpath, rfl⟩ := Option.map_eq_some_iff.1 h
  rw [path?, hpath]
  rfl

end FileCensus.Document
