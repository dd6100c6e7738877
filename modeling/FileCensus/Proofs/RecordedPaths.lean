import FileCensus.Proofs.Encoding
import FileCensus.Proofs.EntryLocation
import FileCensus.Scan

/-!
# Recorded paths

The path under which a file is recorded is its absolute path seen from the target, in normal form. It
keeps the names on the way to the file apart if these are texts without a backslash, and then files
at two locations have two paths.
-/

namespace FileCensus

open Utf8 (bytesOf encode)

namespace Path

theorem IsName.isIdle {n : Name} (h : IsName n) : isIdle n = false := by
  cases n with
  | nil => exact absurd rfl h.ne_nil
  | cons b n => simpa [Path.isIdle] using h.ne_dot

theorem IsName.component {n : Name} (h : IsName n) : component? n = some (.name n) := by
  rw [component?, h.isIdle, if_neg Bool.false_ne_true, if_neg h.ne_dotDot]

/-! ### Absolute paths -/

theorem split_path {l : Location} (h : ∀ name ∈ l, slash ∉ name) :
    split l.path = ⟨some .root, if l = [] then [[]] else l⟩ := by
  by_cases hl : l = []
  · subst hl
    rfl
  · have hcut : cutAt slash l.path = [] :: l := by
      rw [Location.path, cutAt, if_pos rfl, cutAt_join hl h]
    have hrest : l.isEmpty = false := by simpa using hl
    rw [split, hcut, if_neg hl]
    simp [hrest]

theorem filterMap_component {l : Location} (h : ∀ name ∈ l, IsName name) :
    l.filterMap component? = l.map .name := by
  induction l with
  | nil => rfl
  | cons name l ih =>
    obtain ⟨hname, hl⟩ := List.forall_mem_cons.1 h
    rw [List.filterMap_cons_some hname.component, ih hl, List.map_cons]

theorem components_path {l : Location} (h : ∀ name ∈ l, IsName name) :
    (split l.path).components = .root :: l.map .name := by
  rw [split_path fun name hname => (h name hname).slash_not_mem, Split.components]
  by_cases hl : l = []
  · subst hl
    rfl
  · simp [hl, filterMap_component h]

theorem trimBody_path {l : Location} (h : ∀ name ∈ l, IsName name) :
    trimBody (if l = [] then [[]] else l) = l := by
  rcases List.eq_nil_or_concat l with rfl | ⟨front, name, hl⟩
  · rfl
  · rw [List.concat_eq_append] at hl
    have hname : isIdle name = false := (h name (by simp [hl])).isIdle
    rw [if_neg (by simp [hl]), hl, trimBody_concat hname]

theorem dropComponents_append {front : Location} (h : ∀ name ∈ front, IsName name)
    (back : Location) : dropComponents front.length (front ++ back) = back := by
  induction front with
  | nil => rw [List.length_nil, dropComponents, List.nil_append]
  | cons name front ih =>
    obtain ⟨hname, hfront⟩ := List.forall_mem_cons.1 h
    rw [List.length_cons, List.cons_append, dropComponents, hname.isIdle,
      if_neg Bool.false_ne_true, ih hfront]

/-- The text of the path of a location after the path of a location above it. -/
theorem strip_path {root here : Location} (hroot : ∀ name ∈ root, IsName name)
    (hhere : ∀ name ∈ here, IsName name) :
    strip root.path (root ++ here).path = some (join here) := by
  have hall : ∀ name ∈ root ++ here, IsName name := fun name hname =>
    (List.mem_append.1 hname).elim (hroot name) (hhere name)
  have hprefix : (Component.root :: root.map .name).isPrefixOf
      (Component.root :: (root ++ here).map .name) = true := by
    rw [List.isPrefixOf_iff_prefix, List.map_append, ← List.cons_append]
    exact List.prefix_append _ _
  have hbody : trimBody (split (root ++ here).path).body = root ++ here := by
    rw [split_path fun name hname => (hall name hname).slash_not_mem]
    exact trimBody_path hall
  have hlead : (split (root ++ here).path).lead = some .root := by
    rw [split_path fun name hname => (hall name hname).slash_not_mem]
  have hidle : here.dropWhile isIdle = here := by
    cases here with
    | nil => rfl
    | cons name here =>
      rw [List.dropWhile_cons_of_neg (by simp [(hhere name List.mem_cons_self).isIdle])]
  simp only [strip, components_path hroot, components_path hall, hprefix, hbody, hlead, if_true,
    List.isEmpty_cons, Bool.false_eq_true, if_false, List.length_cons, List.length_map,
    Option.toList_some, List.length_nil, Nat.zero_add, Nat.add_sub_cancel,
    dropComponents_append hroot, hidle]

/-- A file is recorded under its path seen from the target. -/
theorem relative_path {root here : Location} (hroot : ∀ name ∈ root, IsName name)
    (hhere : ∀ name ∈ here, IsName name) :
    relative root.path (root ++ here).path = here.recordedPath := by
  rw [relative, strip_path hroot hhere]
  rfl

/-! ### Names that are kept apart -/

/-- A name that is a text without a backslash. -/
def IsPlain (n : Name) : Prop := ∃ text : String, n = encode text ∧ '\\' ∉ text.toList

theorem collapsed_append {piece rest : List Char} (hne : piece ≠ [])
    (hpiece : ∀ c ∈ piece, isSeparator c = false) (hrest : Collapsed false rest)
    (afterSlash : Bool) : Collapsed afterSlash (piece ++ rest) := by
  induction piece generalizing afterSlash with
  | nil => exact absurd rfl hne
  | cons c piece ih =>
    obtain ⟨hc, hpiece⟩ := List.forall_mem_cons.1 hpiece
    simp only [isSeparator, Bool.or_eq_false_iff, decide_eq_false_iff_not] at hc
    refine ⟨hc.2, fun he => absurd he hc.1, ?_⟩
    simp only [hc.1, decide_false]
    cases piece with
    | nil => exact hrest
    | cons d piece => exact ih (List.cons_ne_nil _ _) hpiece false

/-- A plain name is the bytes of characters that are no separators. -/
theorem IsName.exists_chars {n : Name} (h : IsName n) (hplain : IsPlain n) :
    ∃ piece : List Char, n = bytesOf piece ∧ piece ≠ [] ∧ ∀ c ∈ piece, isSeparator c = false := by
  obtain ⟨text, rfl, hbackslash⟩ := hplain
  rw [Utf8.encode_eq_bytesOf] at h
  refine ⟨text.toList, Utf8.encode_eq_bytesOf text, ?_, ?_⟩
  · intro he
    exact h.ne_nil (by rw [he]; rfl)
  · intro c hc
    have hslash : c ≠ '/' := by
      rintro rfl
      exact h.slash_not_mem (List.mem_flatMap.2 ⟨'/', hc, by decide⟩)
    have hother : c ≠ '\\' := by
      rintro rfl
      exact hbackslash hc
    simp [isSeparator, hslash, hother]

/-- Plain names joined are a text in normal form. -/
theorem exists_normal_join {l : Location} (h : ∀ name ∈ l, IsName name ∧ IsPlain name) :
    ∃ s : List Char, join l = bytesOf s ∧ (∀ afterSlash, Collapsed afterSlash s) ∧
      s.getLast? ≠ some '/' := by
  induction l with
  | nil => exact ⟨[], rfl, fun _ => trivial, nofun⟩
  | cons a l ih =>
    obtain ⟨⟨ha, hplain⟩, hl⟩ := List.forall_mem_cons.1 h
    obtain ⟨piece, rfl, hne, hpiece⟩ := ha.exists_chars hplain
    cases l with
    | nil =>
      refine ⟨piece, by simp [join], ?_, ?_⟩
      · intro afterSlash
        have hcollapsed := collapsed_append hne hpiece (show Collapsed false [] from trivial) afterSlash
        rwa [List.append_nil] at hcollapsed
      · intro hlast
        exact absurd (hpiece '/' (List.mem_of_getLast? hlast)) (by decide)
    | cons b l =>
      obtain ⟨s, hs, hcollapsed, hlast⟩ := ih hl
      have hsne : s ≠ [] := by
        rintro rfl
        exact FileTree.Path.join_ne_nil (hl b List.mem_cons_self).1.ne_nil hs
      refine ⟨piece ++ '/' :: s, ?_, ?_, ?_⟩
      · rw [join_cons_cons, hs, Utf8.bytesOf_append, Utf8.bytesOf_cons_ascii (by decide)]
        rfl
      · have hrest : Collapsed false ('/' :: s) := ⟨by decide, fun _ => rfl, hcollapsed _⟩
        exact collapsed_append hne hpiece hrest
      · have hend := List.getLast?_eq_some_getLast hsne
        rw [List.getLast?_append, List.getLast?_cons_of_ne_nil hsne, hend]
        rwa [hend] at hlast

end Path

namespace Location

/-- The recorded path of plain names is their text. -/
theorem encode_recordedPath {l : Location} (h : ∀ name ∈ l, Path.IsName name ∧ Path.IsPlain name) :
    encode l.recordedPath = Path.join l := by
  obtain ⟨s, hs, hcollapsed, hlast⟩ := Path.exists_normal_join h
  have hnormal : Path.normalizeChars s = s := by
    rw [Path.normalizeChars, Path.collapse_of_collapsed (hcollapsed false), Path.dropFinalSlash,
      if_neg fun he => hlast he.2]
  rw [recordedPath, hs, ← Utf8.encode_ofList, Utf8.decodeLossy_encode, Path.normalize,
    String.toList_ofList, hnormal]

/-- Files with plain names at two locations have two paths. -/
theorem recordedPath_inj {l m : Location}
    (hl : ∀ name ∈ l, Path.IsName name ∧ Path.IsPlain name)
    (hm : ∀ name ∈ m, Path.IsName name ∧ Path.IsPlain name)
    (h : l.recordedPath = m.recordedPath) : l = m := by
  have hjoin : Path.join l = Path.join m := by
    rw [← encode_recordedPath hl, ← encode_recordedPath hm, h]
  have hnil : ∀ {l : Location}, (∀ name ∈ l, Path.IsName name ∧ Path.IsPlain name) →
      Path.join l = [] → l = [] := by
    intro l hl hempty
    cases l with
    | nil => rfl
    | cons name l =>
      exact absurd hempty (FileTree.Path.join_ne_nil (hl name List.mem_cons_self).1.ne_nil)
  by_cases hempty : Path.join l = []
  · rw [hnil hl hempty, hnil hm (hjoin ▸ hempty)]
  · have hlne : l ≠ [] := by
      rintro rfl
      exact hempty rfl
    have hmne : m ≠ [] := by
      rintro rfl
      exact hempty hjoin
    rw [← Path.cutAt_join hlne fun name hname => (hl name hname).1.slash_not_mem, hjoin,
      Path.cutAt_join hmne fun name hname => (hm name hname).1.slash_not_mem]

end Location

end FileCensus
