import FileCensus.Path.Normal
import Mathlib.Data.List.TakeWhile

/-!
# Normal forms of paths

Two things decide the normal form of a path: whether it begins with a separator, and its components.
The form is the components joined by single slashes, after one more slash if the path begins with a
separator. Both can be read off the form again, so paths that differ in either have different forms.
-/

namespace FileCensus.Path

/-- The path begins with a separator. -/
def isRooted (s : List Char) : Bool := s.head?.any isSeparator

def Bare (s : List Char) : Prop := ∀ c ∈ s, isSeparator c = false

/-- What a component can be. -/
structure IsWord (w : List Char) : Prop where
  ne_nil : w ≠ []
  bare : Bare w

/-- The words joined by single slashes, after one more slash if they begin at the root. -/
def spell (rooted : Bool) (words : List (List Char)) : List Char :=
  (if rooted then ['/'] else []) ++ ['/'].intercalate words

/-- No backslash, no two slashes in a row, and no slash at the end of anything but the root. -/
structure IsNormal (s : List Char) : Prop where
  backslash_not_mem : '\\' ∉ s
  no_slashes : ¬['/', '/'] <:+: s
  root_of_final : s.getLast? = some '/' → s = ['/']

/-! ### Texts between separators -/

/-- A text is bare, or a bare text and a separator stand before the rest of it. -/
theorem induct_separators {motive : List Char → Prop} (last : ∀ w, Bare w → motive w)
    (cut : ∀ w c rest, Bare w → isSeparator c → motive rest → motive (w ++ c :: rest))
    (s : List Char) : motive s := by
  induction hn : s.length using Nat.strongRecOn generalizing s with
  | ind n ih =>
    have hbare : Bare (s.takeWhile fun c => !isSeparator c) := fun c hc => by
      simpa using List.mem_takeWhile_imp hc
    have hs := List.takeWhile_append_dropWhile (p := fun c => !isSeparator c) (l := s)
    cases hrest : s.dropWhile fun c => !isSeparator c with
    | nil =>
      rw [hrest, List.append_nil] at hs
      exact hs ▸ last _ hbare
    | cons c rest =>
      rw [hrest] at hs
      have hc : isSeparator c := by
        have hhead := List.head?_dropWhile_not (fun c => !isSeparator c) s
        simpa [hrest] using hhead
      have hlt : rest.length < n := by
        have hlength := congrArg List.length hs
        rw [List.length_append, List.length_cons, hn] at hlength
        omega
      exact hs ▸ cut _ c rest hbare hc (ih _ hlt rest rfl)

theorem Bare.isWord {w : List Char} (h : Bare w) (hne : w ≠ []) : IsWord w := ⟨hne, h⟩

theorem IsWord.slash_not_mem {w : List Char} (h : IsWord w) : '/' ∉ w := by
  intro hmem
  exact Bool.noConfusion (h.bare '/' hmem)

@[simp] theorem components_nil : components [] = [] := rfl

theorem components_append_cons {c : Char} (h : isSeparator c) (s rest : List Char) :
    components (s ++ c :: rest) = components s ++ components rest := by
  simp only [components, List.map_append, List.map_cons, h, if_true, cutAt_append_cons,
    List.filter_append]

theorem components_cons {c : Char} (h : isSeparator c) (rest : List Char) :
    components (c :: rest) = components rest :=
  components_append_cons h [] rest

theorem components_word {w : List Char} (h : IsWord w) : components w = [w] := by
  have hmap : (w.map fun c => if isSeparator c then '/' else c) = w := by
    refine (List.map_congr_left fun c hc => ?_).trans (List.map_id w)
    rw [h.bare c hc]
    rfl
  have hne : w.isEmpty = false := by simpa using h.ne_nil
  rw [components, hmap, cutAt_of_not_mem h.slash_not_mem]
  simp [hne]

theorem isWord_of_mem_components {s w : List Char} (h : w ∈ components s) : IsWord w := by
  have hlast : ∀ s, Bare s → ∀ w ∈ components s, IsWord w := by
    intro s hs w hw
    by_cases hne : s = []
    · simp [hne] at hw
    · rw [components_word (hs.isWord hne), List.mem_singleton] at hw
      exact hw ▸ hs.isWord hne
  induction s using induct_separators generalizing w with
  | last s hs => exact hlast s hs w h
  | cut s c rest hs hc ih =>
    rw [components_append_cons hc] at h
    rcases List.mem_append.1 h with h | h
    · exact hlast s hs w h
    · exact ih h

/-! ### What collapsing makes of a path -/

theorem collapse_bare {w : List Char} (h : Bare w) (rest : List Char) :
    collapse false (w ++ rest) = w ++ collapse false rest := by
  induction w with
  | nil => rfl
  | cons c w ih =>
    have hc := h c List.mem_cons_self
    simp [collapse, hc, ih fun d hd => h d (List.mem_cons_of_mem _ hd)]

/-- A word ends a run of separators. -/
theorem collapse_word {w : List Char} (h : IsWord w) (inRun : Bool) (rest : List Char) :
    collapse inRun (w ++ rest) = w ++ collapse false rest := by
  obtain ⟨hne, hw⟩ := h
  cases w with
  | nil => exact absurd rfl hne
  | cons c w =>
    have hc := hw c List.mem_cons_self
    simp [collapse, hc, collapse_bare fun d hd => hw d (List.mem_cons_of_mem _ hd)]

theorem collapse_false (s : List Char) :
    collapse false s = (if isRooted s then ['/'] else []) ++ collapse true s := by
  cases s with
  | nil => rfl
  | cons c rest => cases hc : isSeparator c <;> simp [collapse, isRooted, hc]

/-- Within a run of separators, the components are left with a slash between any two of them, and
perhaps with one after the last. -/
theorem collapse_true (s : List Char) :
    collapse true s = ['/'].intercalate (components s) ∨
      collapse true s = (components s).flatMap (· ++ ['/']) := by
  induction s using induct_separators with
  | last w hw =>
    by_cases hne : w = []
    · exact .inl (by simp [hne, collapse])
    · have hword := hw.isWord hne
      have hcollapse := collapse_word hword true []
      rw [List.append_nil] at hcollapse
      exact .inl (by simp [hcollapse, components_word hword, collapse])
  | cut w c rest hw hc ih =>
    rw [components_append_cons hc]
    by_cases hne : w = []
    · simpa [hne, collapse, hc] using ih
    · have hword := hw.isWord hne
      have hcollapse : collapse true (w ++ c :: rest) = w ++ '/' :: collapse true rest := by
        rw [collapse_word hword, collapse, if_pos hc]
        rfl
      rw [hcollapse, components_word hword]
      rcases ih with ih | ih
      · cases hwords : components rest with
        | nil => exact .inr (by simp [ih, hwords])
        | cons v words => exact .inl (by simp [ih, hwords])
      · exact .inr (by simp [ih])

/-! ### The normal form -/

theorem flatMap_concat {words : List (List Char)} (h : words ≠ []) :
    words.flatMap (· ++ ['/']) = ['/'].intercalate words ++ ['/'] := by
  induction words with
  | nil => exact absurd rfl h
  | cons w words ih =>
    cases words with
    | nil => simp
    | cons v words =>
      rw [List.flatMap_cons, ih (List.cons_ne_nil _ _)]
      simp

theorem exists_last_word {words : List (List Char)} (h : words ≠ []) :
    ∃ front, ∃ w ∈ words, ['/'].intercalate words = front ++ w := by
  induction words with
  | nil => exact absurd rfl h
  | cons w words ih =>
    cases words with
    | nil => exact ⟨[], w, List.mem_cons_self, by simp⟩
    | cons v words =>
      obtain ⟨front, u, hu, hjoin⟩ := ih (List.cons_ne_nil _ _)
      refine ⟨w ++ '/' :: front, u, List.mem_cons_of_mem _ hu, ?_⟩
      rw [List.append_assoc, List.cons_append, ← hjoin]
      simp

section Spelling

variable {rooted : Bool} {words : List (List Char)}

theorem spell_ne_nil (hwords : ∀ w ∈ words, IsWord w) (hne : words ≠ []) :
    spell rooted words ≠ [] := by
  obtain ⟨front, w, hw, hjoin⟩ := exists_last_word hne
  intro hnil
  rw [spell, hjoin, List.append_eq_nil_iff, List.append_eq_nil_iff] at hnil
  exact (hwords w hw).ne_nil hnil.2.2

/-- Only the root is spelled with a slash at its end. -/
theorem words_eq_nil (hwords : ∀ w ∈ words, IsWord w)
    (hlast : (spell rooted words).getLast? = some '/') : words = [] := by
  by_contra hne
  obtain ⟨front, w, hw, hjoin⟩ := exists_last_word hne
  have hword := hwords w hw
  obtain ⟨c, hc⟩ := Option.ne_none_iff_exists'.1 (mt List.getLast?_eq_none_iff.1 hword.ne_nil)
  rw [spell, hjoin, ← List.append_assoc, List.getLast?_append, hc, Option.some_or,
    Option.some.injEq] at hlast
  exact hword.slash_not_mem (hlast ▸ List.mem_of_getLast? hc)

theorem dropFinalSlash_spell (hwords : ∀ w ∈ words, IsWord w) :
    dropFinalSlash (spell rooted words) = spell rooted words := by
  rw [dropFinalSlash, if_neg]
  rintro ⟨hlength, hlast⟩
  rw [words_eq_nil hwords hlast] at hlength
  cases rooted <;> simp [spell] at hlength

theorem dropFinalSlash_concat {s : List Char} (h : s ≠ []) : dropFinalSlash (s ++ ['/']) = s := by
  have hlength := List.length_pos_iff.2 h
  rw [dropFinalSlash, if_pos, List.dropLast_concat]
  exact ⟨by simpa using hlength, List.getLast?_concat⟩

theorem components_spell (hwords : ∀ w ∈ words, IsWord w) :
    components (spell rooted words) = words := by
  have hjoin : components (['/'].intercalate words) = words := by
    induction words with
    | nil => rfl
    | cons w words ih =>
      have hw := components_word (hwords w List.mem_cons_self)
      have hrest := ih fun v hv => hwords v (List.mem_cons_of_mem _ hv)
      cases words with
      | nil => simpa using hw
      | cons v words =>
        have hcut : ['/'].intercalate (w :: v :: words) =
            w ++ '/' :: ['/'].intercalate (v :: words) := by simp
        rw [hcut, components_append_cons rfl, hw, hrest, List.singleton_append]
  cases rooted with
  | false => exact hjoin
  | true => exact (components_cons rfl _).trans hjoin

theorem isRooted_spell (hwords : ∀ w ∈ words, IsWord w) :
    isRooted (spell rooted words) = rooted := by
  cases rooted with
  | true => rfl
  | false =>
    cases words with
    | nil => rfl
    | cons w words =>
      obtain ⟨hne, hbare⟩ := hwords w List.mem_cons_self
      cases w with
      | nil => exact absurd rfl hne
      | cons c w =>
        have hc := hbare c List.mem_cons_self
        cases words <;> simpa [spell, isRooted] using hc

end Spelling

theorem normalizeChars_eq (s : List Char) :
    normalizeChars s = spell (isRooted s) (components s) := by
  have hwords : ∀ w ∈ components s, IsWord w := fun w => isWord_of_mem_components
  -- Collapsing leaves the spelling, or the spelling and one slash too many.
  rw [normalizeChars, collapse_false]
  rcases collapse_true s with h | h
  · rw [h]
    exact dropFinalSlash_spell hwords
  · by_cases hne : components s = []
    · rw [h, hne]
      exact dropFinalSlash_spell fun w hw => absurd hw List.not_mem_nil
    · rw [h, flatMap_concat hne, ← List.append_assoc]
      exact dropFinalSlash_concat (spell_ne_nil hwords hne)

/-! ### The shape of normal forms -/

theorem collapsed_iff {afterSlash : Bool} {s : List Char} :
    Collapsed afterSlash s ↔
      '\\' ∉ s ∧ ¬['/', '/'] <:+: s ∧ (afterSlash → s.head? ≠ some '/') := by
  induction s generalizing afterSlash with
  | nil => simp [Collapsed]
  | cons c rest ih =>
    have hslashes : ['/', '/'] <+: c :: rest ↔ c = '/' ∧ rest.head? = some '/' := by
      rw [List.cons_prefix_cons, eq_comm]
      cases rest <;> simp [eq_comm]
    rw [Collapsed, ih, List.infix_cons_iff, hslashes, List.mem_cons, List.head?_cons]
    cases afterSlash <;> grind

theorem isNormal_normalizeChars (s : List Char) : IsNormal (normalizeChars s) := by
  obtain ⟨hbackslash, hslashes, -⟩ := collapsed_iff.1 (collapsed_normalizeChars s)
  refine ⟨hbackslash, hslashes, fun hlast => ?_⟩
  rw [normalizeChars_eq] at hlast ⊢
  have hnil := words_eq_nil (fun w => isWord_of_mem_components) hlast
  rw [hnil] at hlast ⊢
  cases hrooted : isRooted s with
  | false => simp [spell, hrooted] at hlast
  | true => rfl

theorem normalizeChars_of_isNormal {s : List Char} (h : IsNormal s) : normalizeChars s = s := by
  have hcollapsed : Collapsed false s :=
    collapsed_iff.2 ⟨h.backslash_not_mem, h.no_slashes, fun hfalse => Bool.noConfusion hfalse⟩
  rw [normalizeChars, collapse_of_collapsed hcollapsed, dropFinalSlash, if_neg]
  rintro ⟨hlength, hlast⟩
  rw [h.root_of_final hlast] at hlength
  exact absurd hlength (by decide)

/-- A separator in front and the components are what the normal form of a path keeps, and they spell it.
Normal forms are the paths of normal shape, and each of these is its own normal form. -/
theorem normalize_spelled :
    (∀ p q : String, normalize p = normalize q ↔
      isRooted p.toList = isRooted q.toList ∧ components p.toList = components q.toList) ∧
    (∀ p : String, (normalize p).toList = spell (isRooted p.toList) (components p.toList)) ∧
    (∀ p : String, normalize (normalize p) = normalize p) ∧
    (∀ p : String, IsNormal (normalize p).toList) ∧
    ∀ p : String, normalize p = p ↔ IsNormal p.toList := by
  have hspell : ∀ p : String,
      (normalize p).toList = spell (isRooted p.toList) (components p.toList) := fun p => by
    rw [normalize, String.toList_ofList, normalizeChars_eq]
  have hshape : ∀ p : String, IsNormal (normalize p).toList := fun p => by
    rw [normalize, String.toList_ofList]
    exact isNormal_normalizeChars _
  refine ⟨fun p q => ⟨fun h => ?_, fun h => ?_⟩, hspell, normalize_idem, hshape,
    fun p => ⟨fun h => h ▸ hshape p, fun h => ?_⟩⟩
  · have hwords : ∀ p : String, ∀ w ∈ components p.toList, IsWord w :=
      fun p w => isWord_of_mem_components
    have hlists := (hspell p).symm.trans ((congrArg String.toList h).trans (hspell q))
    have hrooted := congrArg isRooted hlists
    have hcomponents := congrArg components hlists
    rw [isRooted_spell (hwords p), isRooted_spell (hwords q)] at hrooted
    rw [components_spell (hwords p), components_spell (hwords q)] at hcomponents
    exact ⟨hrooted, hcomponents⟩
  · apply String.toList_inj.1
    rw [hspell, hspell, h.1, h.2]
  · rw [normalize, normalizeChars_of_isNormal h, String.ofList_toList]

end FileCensus.Path
