import FileCensus.Digest.Content

/-!
# Line endings

After line endings have been normalized no carriage return is left, so that normalizing again changes
nothing. The same lines give the same bytes, however each of them is ended: two endings in a row are
never taken for one, and none is taken for two.
-/

namespace FileCensus.Content

theorem normalizeLineEndings_cons {b : UInt8} (h : b ≠ carriageReturn) (rest : Bytes) :
    normalizeLineEndings (b :: rest) = b :: normalizeLineEndings rest := by
  cases rest with
  | nil => simp [normalizeLineEndings, h]
  | cons c rest => rw [normalizeLineEndings, if_pos h]

theorem normalizeLineEndings_pair (rest : Bytes) :
    normalizeLineEndings (carriageReturn :: lineFeed :: rest) =
      lineFeed :: normalizeLineEndings rest := by
  simp [normalizeLineEndings]

theorem normalizeLineEndings_return {rest : Bytes} (h : rest.head? ≠ some lineFeed) :
    normalizeLineEndings (carriageReturn :: rest) = lineFeed :: normalizeLineEndings rest := by
  cases rest with
  | nil => rfl
  | cons c rest =>
    have hc : c ≠ lineFeed := fun he => h (by rw [he, List.head?_cons])
    simp [normalizeLineEndings, hc]

/-! ### Normalizing twice -/

theorem return_not_mem_normalizeLineEndings (bytes : Bytes) :
    carriageReturn ∉ normalizeLineEndings bytes := by
  have hfeed : carriageReturn ≠ lineFeed := by decide
  fun_induction normalizeLineEndings bytes with
  | case1 => exact List.not_mem_nil
  | case2 b =>
    rw [List.mem_singleton]
    split
    · exact hfeed
    · exact fun he => absurd he.symm ‹_›
  | case3 b c rest hb ih => exact List.not_mem_cons_of_ne_of_not_mem (Ne.symm hb) ih
  | case4 b rest hb ih => exact List.not_mem_cons_of_ne_of_not_mem hfeed ih
  | case5 b c rest hb hc ih => exact List.not_mem_cons_of_ne_of_not_mem hfeed ih

/-- In front of bytes without a carriage return nothing changes. -/
theorem normalizeLineEndings_append {bytes : Bytes} (h : carriageReturn ∉ bytes) (rest : Bytes) :
    normalizeLineEndings (bytes ++ rest) = bytes ++ normalizeLineEndings rest := by
  induction bytes with
  | nil => rfl
  | cons b bytes ih =>
    have hb : b ≠ carriageReturn := (List.ne_of_not_mem_cons h).symm
    rw [List.cons_append, normalizeLineEndings_cons hb, ih (List.not_mem_of_not_mem_cons h),
      List.cons_append]

theorem normalizeLineEndings_of_not_mem {bytes : Bytes} (h : carriageReturn ∉ bytes) :
    normalizeLineEndings bytes = bytes := by
  have happend := normalizeLineEndings_append h []
  rwa [List.append_nil, normalizeLineEndings, List.append_nil] at happend

theorem normalizeLineEndings_idem (bytes : Bytes) :
    normalizeLineEndings (normalizeLineEndings bytes) = normalizeLineEndings bytes :=
  normalizeLineEndings_of_not_mem (return_not_mem_normalizeLineEndings bytes)

/-! ### Files of lines -/

/-- A line of text without its ending. -/
structure Line where
  bytes : Bytes
  noReturn : carriageReturn ∉ bytes
  noFeed : lineFeed ∉ bytes

/-- What a platform puts at the end of a line. -/
inductive LineEnding where
  | lineFeed
  | pair
  | carriageReturn
  deriving DecidableEq, Repr

def LineEnding.bytes : LineEnding → Bytes
  | .lineFeed => [Content.lineFeed]
  | .pair => [Content.carriageReturn, Content.lineFeed]
  | .carriageReturn => [Content.carriageReturn]

/-- The file of some lines. The last one is ended only in a terminated file. -/
def fileOf (ending : LineEnding) (terminated : Bool) : List Line → Bytes
  | [] => []
  | [line] => line.bytes ++ if terminated then ending.bytes else []
  | line :: next :: lines => line.bytes ++ (ending.bytes ++ fileOf ending terminated (next :: lines))

theorem Line.head?_append (line : Line) {rest : Bytes} (h : rest.head? ≠ some lineFeed) :
    (line.bytes ++ rest).head? ≠ some lineFeed := by
  obtain ⟨bytes, -, hfeed⟩ := line
  cases bytes with
  | nil => exact h
  | cons b bytes =>
    intro he
    obtain rfl := Option.some.inj he
    exact hfeed List.mem_cons_self

/-- No line feed follows a carriage return that ends a line. -/
theorem head?_fileOf_return (terminated : Bool) (lines : List Line) :
    (fileOf .carriageReturn terminated lines).head? ≠ some lineFeed := by
  have hreturn : ∀ rest, (LineEnding.carriageReturn.bytes ++ rest).head? ≠ some lineFeed := by
    intro rest he
    exact absurd (Option.some.inj he) (by decide)
  match lines with
  | [] => exact nofun
  | [line] =>
    apply line.head?_append
    cases terminated with
    | false => exact nofun
    | true => exact hreturn []
  | line :: next :: lines => exact line.head?_append (hreturn _)

theorem normalizeLineEndings_ending {ending : LineEnding} {rest : Bytes}
    (h : ending = .carriageReturn → rest.head? ≠ some lineFeed) :
    normalizeLineEndings (ending.bytes ++ rest) =
      LineEnding.lineFeed.bytes ++ normalizeLineEndings rest := by
  cases ending with
  | lineFeed => exact normalizeLineEndings_cons (by decide) rest
  | pair => exact normalizeLineEndings_pair rest
  | carriageReturn => exact normalizeLineEndings_return (h rfl)

/-- Normalized, the lines of a file are ended by line feeds. -/
theorem normalizeLineEndings_fileOf (ending : LineEnding) (terminated : Bool) (lines : List Line) :
    normalizeLineEndings (fileOf ending terminated lines) = fileOf .lineFeed terminated lines := by
  induction lines using fileOf.induct with
  | case1 => rfl
  | case2 line =>
    have hlast : normalizeLineEndings (ending.bytes ++ []) = LineEnding.lineFeed.bytes ++ [] :=
      normalizeLineEndings_ending fun _ => nofun
    rw [List.append_nil, List.append_nil] at hlast
    rw [fileOf, fileOf, normalizeLineEndings_append line.noReturn]
    cases terminated with
    | false => rfl
    | true => rw [if_pos rfl, if_pos rfl, hlast]
  | case3 line next lines ih =>
    have hnext : ending = .carriageReturn →
        (fileOf ending terminated (next :: lines)).head? ≠ some lineFeed := by
      rintro rfl
      exact head?_fileOf_return terminated (next :: lines)
    rw [fileOf, fileOf, normalizeLineEndings_append line.noReturn, normalizeLineEndings_ending hnext,
      ih]

end FileCensus.Content
