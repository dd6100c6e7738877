import FileCensus.Text.Cut

/-!
# Paths in normal form

A recorded path uses forward slashes only, never two in a row, and none at the end unless it is the
root. `normalize` brings any text into this form and leaves a text of this form alone, and
`components` are what it keeps.
-/

namespace FileCensus.Path

def isSeparator (c : Char) : Bool := c = '/' || c = '\\'

/-- Every run of separators becomes one slash; the flag says that a run has begun. -/
def collapse : Bool → List Char → List Char
  | _, [] => []
  | inRun, c :: rest =>
    if isSeparator c then
      if inRun then collapse true rest else '/' :: collapse true rest
    else c :: collapse false rest

def dropFinalSlash (s : List Char) : List Char :=
  if 1 < s.length ∧ s.getLast? = some '/' then s.dropLast else s

def normalizeChars (s : List Char) : List Char := dropFinalSlash (collapse false s)

def normalize (s : String) : String := String.ofList (normalizeChars s.toList)

/-- The texts between separators that are not empty. -/
def components (s : List Char) : List (List Char) :=
  (cutAt '/' (s.map fun c => if isSeparator c then '/' else c)).filter fun piece => !piece.isEmpty

/-- Slashes only, and no two in a row; the flag says that one precedes. -/
def Collapsed : Bool → List Char → Prop
  | _, [] => True
  | afterSlash, c :: rest => c ≠ '\\' ∧ (c = '/' → afterSlash = false) ∧ Collapsed (c = '/') rest

theorem collapsed_collapse (inRun : Bool) (s : List Char) : Collapsed inRun (collapse inRun s) := by
  induction s generalizing inRun with
  | nil => trivial
  | cons c rest ih =>
    simp only [collapse]
    split
    · split
      · rename_i h
        simpa [h] using ih true
      · rename_i h
        exact ⟨by decide, fun _ => by simpa using h, by simpa using ih true⟩
    · rename_i h
      simp only [isSeparator, Bool.or_eq_true, decide_eq_true_eq, not_or] at h
      exact ⟨h.2, fun hc => absurd hc h.1, by simpa [h.1] using ih false⟩

theorem collapse_of_collapsed {inRun : Bool} {s : List Char} (h : Collapsed inRun s) :
    collapse inRun s = s := by
  induction s generalizing inRun with
  | nil => rfl
  | cons c rest ih =>
    obtain ⟨hb, hs, hr⟩ := h
    have hrest := ih hr
    by_cases hc : c = '/'
    · subst hc
      simp_all [collapse, isSeparator]
    · simp_all [collapse, isSeparator]

theorem Collapsed.dropLast {inRun : Bool} {s : List Char} (h : Collapsed inRun s) :
    Collapsed inRun s.dropLast := by
  induction s generalizing inRun with
  | nil => trivial
  | cons c rest ih =>
    cases rest with
    | nil => trivial
    | cons d rest => exact ⟨h.1, h.2.1, ih h.2.2⟩

theorem Collapsed.getLast?_dropLast {inRun : Bool} {s : List Char} (h : Collapsed inRun s)
    (hlen : 1 < s.length) (hlast : s.getLast? = some '/') : s.dropLast.getLast? ≠ some '/' := by
  induction s generalizing inRun with
  | nil => simp at hlen
  | cons c rest ih =>
    match rest, h with
    | [d], ⟨_, _, _, hd, _⟩ =>
      simp only [List.getLast?_cons_cons, List.getLast?_singleton, Option.some.injEq] at hlast
      have := hd hlast
      simpa using this
    | d :: e :: rest, ⟨_, _, hr⟩ =>
      simpa using ih hr (by simp) (by simpa using hlast)

theorem dropFinalSlash_idem {s : List Char} (h : Collapsed false s) :
    dropFinalSlash (dropFinalSlash s) = dropFinalSlash s := by
  by_cases hs : 1 < s.length ∧ s.getLast? = some '/'
  · have hlast := h.getLast?_dropLast hs.1 hs.2
    simp only [dropFinalSlash, hs, and_self, ↓reduceIte]
    rw [if_neg (fun h' => hlast h'.2)]
  · simp only [dropFinalSlash, if_neg hs]

theorem collapsed_normalizeChars (s : List Char) : Collapsed false (normalizeChars s) := by
  have hc := collapsed_collapse false s
  unfold normalizeChars dropFinalSlash
  split
  · exact hc.dropLast
  · exact hc

theorem normalizeChars_idem (s : List Char) :
    normalizeChars (normalizeChars s) = normalizeChars s := by
  have hc := collapsed_collapse false s
  rw [normalizeChars, collapse_of_collapsed (collapsed_normalizeChars s), normalizeChars,
    dropFinalSlash_idem hc]

theorem normalize_idem (s : String) : normalize (normalize s) = normalize s := by
  simp [normalize, normalizeChars_idem]

end FileCensus.Path

namespace FileCensus

/-- A text in normal form. -/
structure NormalPath where
  text : String
  normal : Path.normalize text = text
  deriving DecidableEq

namespace NormalPath

def of (s : String) : NormalPath := ⟨Path.normalize s, Path.normalize_idem s⟩

@[simp] theorem text_of (s : String) : (of s).text = Path.normalize s := rfl

@[simp] theorem of_text (p : NormalPath) : of p.text = p := by
  cases p
  simp_all [of]

@[ext] theorem ext {p q : NormalPath} (h : p.text = q.text) : p = q := by
  cases p
  cases q
  simp_all

end NormalPath

end FileCensus
