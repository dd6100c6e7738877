import FileCensus.Json.Printer
import FileCensus.Json.Reader

/-!
# Reading printed JSON

A reader takes what was printed for a value of its shape, with the white space before it, and leaves
every rest. This holds of strings because each character is read back from its escape, and of arrays
and objects if it holds of their members.
-/

namespace FileCensus.Json

variable {α β σ : Type}

/-! ### Steps of readers -/

theorem bind_ok {read : Reader α} {next : α → Reader β} {s rest : List Char} {x : α}
    (h : read s = .ok (x, rest)) : (read >>= next) s = next x rest := by
  change (read s >>= fun p => next p.1 p.2) = next x rest
  rw [h]
  rfl

theorem map_ok {read : Reader α} {f : α → β} {s rest : List Char} {x : α}
    (h : read s = .ok (x, rest)) : (f <$> read) s = .ok (f x, rest) := by
  change (read s >>= fun p => pure (f p.1, p.2)) = .ok (f x, rest)
  rw [h]
  rfl

/-! ### White space -/

def Blank (s : List Char) : Prop := ∀ c ∈ s, isSpace c

theorem blank_nil : Blank [] := fun _ h => absurd h List.not_mem_nil

theorem blank_newline (depth : Nat) : Blank (newline depth) := by
  intro c hc
  rcases List.mem_cons.1 hc with rfl | hc
  · rfl
  · rw [List.eq_of_mem_replicate hc]
    rfl

theorem skipSpace_append {blank : List Char} (h : Blank blank) (s : List Char) :
    skipSpace (blank ++ s) = skipSpace s := by
  rw [skipSpace, List.dropWhile_append_of_pos h]

/-- White space is passed over up to the next mark. -/
theorem peek_mark {early : Flaw} {next : Char → Reader α} {blank rest : List Char} {mark : Char}
    (h : Blank blank) (hmark : isSpace mark = false) :
    peek early next (blank ++ mark :: rest) = next mark (mark :: rest) := by
  have hskip : skipSpace (blank ++ mark :: rest) = mark :: rest := by
    rw [skipSpace_append h, skipSpace, List.dropWhile_cons_of_neg (by simp [hmark])]
  rw [peek, hskip]

/-! ### Strings -/

theorem hexValue?_hexDigit : ∀ n < 16, hexValue? (hexDigit n) = some n := by decide

theorem readEscape_code {c : Char} (h : c.toNat < 0x20) (s : List Char) :
    readEscape ('u' :: '0' :: '0' :: hexDigit (c.toNat / 16) :: hexDigit (c.toNat % 16) :: s) =
      .ok (c, s) := by
  have hcode : readCode ('0' :: '0' :: hexDigit (c.toNat / 16) :: hexDigit (c.toNat % 16) :: s) =
      .ok (c.toNat, s) := by
    have hzero : hexValue? '0' = some 0 := by decide
    have hsum : ((0 * 16 + 0) * 16 + c.toNat / 16) * 16 + c.toNat % 16 = c.toNat := by omega
    simp only [readCode, hzero, hexValue?_hexDigit _ (show c.toNat / 16 < 16 by omega),
      hexValue?_hexDigit _ (show c.toNat % 16 < 16 by omega), hsum]
  have hleading : isLeading c.toNat = false := by
    simp only [isLeading, Bool.and_eq_false_iff, decide_eq_false_iff_not]
    omega
  have htrailing : isTrailing c.toNat = false := by
    simp only [isTrailing, Bool.and_eq_false_iff, decide_eq_false_iff_not]
    omega
  simp [readEscape, hcode, hleading, htrailing, bind, Except.bind]

/-- A character is read back from its escape. -/
theorem charsWith_escapeChar (c : Char) (fuel : Nat) (s : List Char) :
    charsWith readEscape (fuel + 1) (escapeChar c ++ s) =
      (charsWith readEscape fuel s).map fun p => (c :: p.1, p.2) := by
  have hescape : ∀ t, readEscape t = .ok (c, s) →
      charsWith readEscape (fuel + 1) ('\\' :: t) =
        (charsWith readEscape fuel s).map fun p => (c :: p.1, p.2) := by
    intro t ht
    rw [charsWith, if_neg (by decide), if_pos rfl, ht]
    rfl
  rw [escapeChar]
  -- The characters that have a letter of their own come first.
  iterate 7
    split
    · subst_vars
      exact hescape _ rfl
  split
  · rename_i hcontrol
    exact hescape _ (readEscape_code hcontrol s)
  · rename_i hquote hbackslash _ _ _ _ _ hcontrol
    rw [List.singleton_append, charsWith, if_neg hquote, if_neg hbackslash, if_neg hcontrol]
    rfl

theorem charsWith_escaped {fuel : Nat} {text : List Char} (hfuel : text.length < fuel)
    (rest : List Char) :
    charsWith readEscape fuel (text.flatMap escapeChar ++ '"' :: rest) = .ok (text, rest) := by
  induction text generalizing fuel with
  | nil =>
    obtain ⟨fuel, rfl⟩ := Nat.exists_eq_add_one_of_ne_zero (Nat.ne_of_gt hfuel)
    rw [List.flatMap_nil, List.nil_append, charsWith, if_pos rfl]
  | cons c text ih =>
    obtain ⟨fuel, rfl⟩ := Nat.exists_eq_add_one_of_ne_zero (Nat.ne_of_gt (Nat.zero_lt_of_lt hfuel))
    rw [List.flatMap_cons, List.append_assoc, charsWith_escapeChar,
      ih (Nat.lt_of_succ_lt_succ hfuel)]
    rfl

theorem length_le_escaped (text : List Char) :
    text.length ≤ (text.flatMap escapeChar).length := by
  induction text with
  | nil => exact Nat.le_refl 0
  | cons c text ih =>
    have hescape : 0 < (escapeChar c).length := by
      rw [escapeChar]
      repeat' split
      all_goals exact Nat.succ_pos _
    rw [List.flatMap_cons, List.length_append, List.length_cons]
    omega

theorem chars_escaped (text : String) (rest : List Char) :
    chars (text.toList.flatMap escapeChar ++ '"' :: rest) = .ok (text, rest) := by
  have hlength := length_le_escaped text.toList
  have hfuel : text.toList.length <
      (text.toList.flatMap escapeChar ++ '"' :: rest).length + 1 := by
    rw [List.length_append]
    omega
  rw [chars, charsWith_escaped hfuel]
  simp [Except.map]

/-! ### Values -/

/-- A reader takes a text for a value, after white space and before any rest. The text opens with a
mark that is not taken for white space or for the end of an array. -/
structure Takes (read : Reader α) (text : List Char) (x : α) : Prop where
  opens : ∃ mark rest, text = mark :: rest ∧ isSpace mark = false ∧ mark ≠ ']'
  takes : ∀ blank rest, Blank blank → read (blank ++ (text ++ rest)) = .ok (x, rest)

theorem takes_string (text : String) : Takes string? (string text) text where
  opens := ⟨_, _, rfl, rfl, by decide⟩
  takes blank rest hblank := by
    have htext : string text ++ rest = '"' :: (text.toList.flatMap escapeChar ++ '"' :: rest) := by
      simp [string]
    rw [htext, string?, peek_mark hblank rfl, if_pos rfl]
    exact chars_escaped text rest

/-- A text that stands for a value, with white space behind it. -/
theorem readAll_takes {read : Reader α} {text blank : List Char} {x : α} (h : Takes read text x)
    (hblank : Blank blank) : readAll read (String.ofList (text ++ blank)) = .ok x := by
  have hread : read (text ++ blank) = .ok (x, blank) := h.takes [] blank blank_nil
  have hrest : skipSpace blank = [] := by
    simpa [skipSpace] using skipSpace_append hblank []
  rw [readAll, String.toList_ofList, hread]
  simp [bind, Except.bind, hrest]

/-! ### Members -/

/-- What stands between a bracket or a member and the next member, before white space. -/
def separator (first : Bool) : List Char := if first then [] else [',']

/-- Members with what stands before them, and the line of the closing bracket. -/
def membersFrom : Bool → Nat → List (List Char) → List Char
  | false, depth, [] => newline depth
  | first, depth, texts => separator first ++ members depth texts

theorem members_eq (depth : Nat) (texts : List (List Char)) :
    members depth texts = membersFrom true depth texts := by
  cases texts <;> rfl

theorem blank_membersFrom_nil (first : Bool) (depth : Nat) : Blank (membersFrom first depth []) := by
  cases first with
  | false => exact blank_newline depth
  | true => exact blank_nil

theorem membersFrom_cons (first : Bool) (depth : Nat) (text : List Char)
    (texts : List (List Char)) : membersFrom first depth (text :: texts) =
      separator first ++ (newline (depth + 1) ++ (text ++ membersFrom false depth texts)) := by
  cases first <;> cases texts <;> simp [membersFrom, members, separator]

theorem length_le_membersFrom (first : Bool) (depth : Nat) (texts : List (List Char)) :
    texts.length ≤ (membersFrom first depth texts).length := by
  induction texts generalizing first with
  | nil => exact Nat.zero_le _
  | cons text texts ih =>
    have hrest := ih false
    have hline : 0 < (newline (depth + 1)).length := Nat.succ_pos _
    simp only [membersFrom_cons, List.length_append, List.length_cons]
    omega

/-! ### Arrays -/

variable {read : Reader α}

theorem item?_some {text blank : List Char} {x : α} (h : Takes read text x) (hblank : Blank blank)
    (first : Bool) (rest : List Char) :
    item? first read (separator first ++ (blank ++ (text ++ rest))) = .ok (some x, rest) := by
  obtain ⟨mark, back, htext, hspace, hend⟩ := h.opens
  have hread : (some <$> read) (mark :: (back ++ rest)) = .ok (some x, rest) := by
    have htaken := h.takes [] rest blank_nil
    rw [List.nil_append, htext, List.cons_append] at htaken
    exact map_ok htaken
  rw [htext, List.cons_append]
  cases first with
  | true =>
    rw [item?, separator, if_pos rfl, List.nil_append, peek_mark hblank hspace, if_neg hend,
      if_pos rfl]
    exact hread
  | false =>
    have hcomma : item? false read ([] ++ ',' :: (blank ++ mark :: (back ++ rest))) =
        (peek .ended fun c => if c = ']' then fail .malformed else some <$> read)
          (blank ++ mark :: (back ++ rest)) := by
      rw [item?, peek_mark blank_nil rfl, if_neg (by decide), if_neg (by decide), if_pos rfl]
      rfl
    exact hcomma.trans (by rw [peek_mark hblank hspace, if_neg hend, hread])

theorem item?_none {blank : List Char} (hblank : Blank blank) (first : Bool) (rest : List Char) :
    item? first read (blank ++ ']' :: rest) = .ok (none, ']' :: rest) := by
  rw [item?, peek_mark hblank rfl, if_pos rfl]
  rfl

/-- The items of an array are read one by one up to its end. -/
theorem items_membersFrom {print : α → List Char} {xs : List α}
    (h : ∀ x ∈ xs, Takes read (print x) x) {fuel : Nat} (hfuel : xs.length < fuel) (first : Bool)
    (depth : Nat) (rest : List Char) :
    items read fuel first (membersFrom first depth (xs.map print) ++ ']' :: rest) =
      .ok (xs, ']' :: rest) := by
  induction xs generalizing fuel first with
  | nil =>
    obtain ⟨fuel, rfl⟩ := Nat.exists_eq_add_one_of_ne_zero (Nat.ne_of_gt hfuel)
    exact bind_ok (item?_none (blank_membersFrom_nil first depth) first rest)
  | cons x xs ih =>
    obtain ⟨fuel, rfl⟩ := Nat.exists_eq_add_one_of_ne_zero (Nat.ne_of_gt (Nat.zero_lt_of_lt hfuel))
    obtain ⟨hx, hxs⟩ := List.forall_mem_cons.1 h
    have hrest := ih hxs (Nat.lt_of_succ_lt_succ hfuel) false
    rw [List.map_cons, membersFrom_cons]
    simp only [List.append_assoc]
    rw [items, bind_ok (item?_some hx (blank_newline (depth + 1)) first _)]
    exact bind_ok hrest

theorem takes_array {print : α → List Char} {xs : List α} (h : ∀ x ∈ xs, Takes read (print x) x)
    (depth : Nat) : Takes (list read) (array depth (xs.map print)) xs where
  opens := ⟨_, _, rfl, rfl, by decide⟩
  takes blank rest hblank := by
    have htext : array depth (xs.map print) ++ rest =
        '[' :: (membersFrom true depth (xs.map print) ++ ']' :: rest) := by
      simp [array, members_eq]
    have hlength := length_le_membersFrom true depth (xs.map print)
    have hfuel : xs.length < (membersFrom true depth (xs.map print) ++ ']' :: rest).length + 1 := by
      rw [List.length_map] at hlength
      rw [List.length_append]
      omega
    have hend : endArray (']' :: rest) = .ok ((), rest) := rfl
    have hitems : (advance fun s => items read (s.length + 1) true s)
        ('[' :: (membersFrom true depth (xs.map print) ++ ']' :: rest)) = .ok (xs, ']' :: rest) :=
      items_membersFrom h hfuel true depth rest
    rw [htext, list, peek_mark hblank rfl, if_pos rfl, bind_ok hitems, bind_ok hend]
    rfl

/-! ### Objects -/

theorem key?_some {blank : List Char} (hblank : Blank blank) (first : Bool) (name : String)
    (rest : List Char) :
    key? first (separator first ++ (blank ++ (string name ++ rest))) = .ok (some name, rest) := by
  have htext : string name ++ rest = '"' :: (name.toList.flatMap escapeChar ++ '"' :: rest) := by
    simp [string]
  have hread : (some <$> advance chars)
      ('"' :: (name.toList.flatMap escapeChar ++ '"' :: rest)) = .ok (some name, rest) :=
    map_ok (chars_escaped name rest)
  rw [htext]
  cases first with
  | true =>
    rw [key?, separator, if_pos rfl, List.nil_append, peek_mark hblank rfl, if_neg (by decide),
      if_pos rfl, if_pos rfl]
    exact hread
  | false =>
    have hcomma : key? false
        ([] ++ ',' :: (blank ++ '"' :: (name.toList.flatMap escapeChar ++ '"' :: rest))) =
          (peek .ended fun c => if c = '"' then some <$> advance chars else fail .malformed)
            (blank ++ '"' :: (name.toList.flatMap escapeChar ++ '"' :: rest)) := by
      rw [key?, peek_mark blank_nil rfl, if_neg (by decide), if_neg (by decide), if_pos rfl]
      rfl
    exact hcomma.trans (by rw [peek_mark hblank rfl, if_pos rfl, hread])

theorem key?_none {blank : List Char} (hblank : Blank blank) (first : Bool) (rest : List Char) :
    key? first (blank ++ '\x7d' :: rest) = .ok (none, '\x7d' :: rest) := by
  rw [key?, peek_mark hblank rfl, if_pos rfl]
  rfl

/-- The value of a member that was not given yet. -/
theorem once_none {text : List Char} {x : α} (h : Takes read text x) (rest : List Char) :
    once none read (':' :: ' ' :: (text ++ rest)) = .ok (some x, rest) := by
  have hblank : Blank [' '] := by
    intro c hc
    rw [List.mem_singleton.1 hc]
    rfl
  have hcolon : colon (':' :: ' ' :: (text ++ rest)) = .ok ((), ' ' :: (text ++ rest)) := rfl
  exact (bind_ok hcolon).trans (map_ok (h.takes [' '] rest hblank))

/-- Members, each a name and the text of its value, are added to a state one by one. -/
inductive Adds (add : String → σ → Reader σ) : σ → List (String × List Char) → σ → Prop
  | done {state} : Adds add state [] state
  | more {state next final name value members}
      (h : ∀ rest, add name state (':' :: ' ' :: (value ++ rest)) = .ok (next, rest))
      (hmore : Adds add next members final) : Adds add state ((name, value) :: members) final

/-- A member whose value becomes one part of the state and was not given yet. -/
theorem Adds.member {add : String → σ → Reader σ} {state final : σ} {name : String}
    {text : List Char} {x : α} {members : List (String × List Char)} (set : Option α → σ)
    (hadd : add name state = do return set (← once none read)) (h : Takes read text x)
    (hmore : Adds add (set (some x)) members final) :
    Adds add state ((name, text) :: members) final := by
  refine .more (fun rest => ?_) hmore
  rw [hadd]
  exact bind_ok (once_none h rest)

/-- The text of a member of an object. -/
def fieldText (member : String × List Char) : List Char := field member.1 member.2

variable {add : String → σ → Reader σ}

theorem fields_membersFrom {start final : σ} {named : List (String × List Char)}
    (h : Adds add start named final) {fuel : Nat} (hfuel : named.length < fuel) (first : Bool)
    (depth : Nat) (rest : List Char) :
    fields add fuel first start (membersFrom first depth (named.map fieldText) ++ '\x7d' :: rest) =
      .ok (final, '\x7d' :: rest) := by
  induction h generalizing fuel first with
  | done =>
    obtain ⟨fuel, rfl⟩ := Nat.exists_eq_add_one_of_ne_zero (Nat.ne_of_gt hfuel)
    exact bind_ok (key?_none (blank_membersFrom_nil first depth) first rest)
  | @more state next final name value named h hmore ih =>
    obtain ⟨fuel, rfl⟩ := Nat.exists_eq_add_one_of_ne_zero (Nat.ne_of_gt (Nat.zero_lt_of_lt hfuel))
    have hrest := ih (Nat.lt_of_succ_lt_succ hfuel) false
    rw [List.map_cons, membersFrom_cons, fieldText, field]
    simp only [List.append_assoc, List.cons_append]
    rw [fields, bind_ok (key?_some (blank_newline (depth + 1)) first name _)]
    exact (bind_ok (h _)).trans hrest

/-- An object is read if its members can be added and the state then stands for a value. -/
theorem takes_object {ordered : Reader α} {start final : σ} {finish : σ → Reader α} {x : α}
    {named : List (String × List Char)} (h : Adds add start named final)
    (hfinish : ∀ s, finish final s = .ok (x, s)) (depth : Nat) :
    Takes (structured ordered start add finish) (object depth (named.map fieldText)) x where
  opens := ⟨_, _, rfl, rfl, by decide⟩
  takes blank rest hblank := by
    have htext : object depth (named.map fieldText) ++ rest =
        '\x7b' :: (membersFrom true depth (named.map fieldText) ++ '\x7d' :: rest) := by
      simp [object, members_eq]
    have hlength := length_le_membersFrom true depth (named.map fieldText)
    have hfuel : named.length <
        (membersFrom true depth (named.map fieldText) ++ '\x7d' :: rest).length + 1 := by
      rw [List.length_map] at hlength
      rw [List.length_append]
      omega
    have hend : endObject ('\x7d' :: rest) = .ok ((), rest) := rfl
    have hfields : (advance fun s => fields add (s.length + 1) true start s)
        ('\x7b' :: (membersFrom true depth (named.map fieldText) ++ '\x7d' :: rest)) =
          .ok (final, '\x7d' :: rest) :=
      fields_membersFrom h hfuel true depth rest
    rw [htext, structured, peek_mark hblank rfl, if_neg (by decide), if_pos rfl, bind_ok hfields,
      bind_ok (hfinish _), bind_ok hend]
    rfl

end FileCensus.Json
