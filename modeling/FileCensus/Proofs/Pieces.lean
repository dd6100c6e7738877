import FileCensus.Proofs.WrittenMarkup

/-!
# Pieces of markup

A document is read piece by piece: text without an opening bracket, then one lexeme. What a piece adds
to the events does not depend on what follows it, and nothing is read of a piece that is cut off
before its last byte.
-/

namespace FileCensus.Markup

open Utf8

/-! ### Pieces of markup -/

/-- What the piece of markup adds to the events of the text after it. -/
def Lexeme.eventsBefore (failure : Option IoFault) (names : List Bytes) (rest : Bytes) :
    Lexeme → EventList
  | .silent => eventsWithin failure names rest
  | .opening tag => .cons (.opening tag) (eventsWithin failure (tag.name :: names) rest)
  | .selfClosing tag => .cons (.selfClosing tag) (eventsWithin failure names rest)
  | .closing name =>
    match names with
    | [] => .stop (.unmatchedEnd name)
    | innermost :: outer =>
      if name = innermost then .cons .closing (eventsWithin failure outer rest)
      else .stop (.mismatchedEnd innermost name)

theorem ne_bracket {text : Bytes} (h : byte '<' ∉ text) : ∀ b ∈ text, decide (b ≠ byte '<') := by
  intro b hb
  exact decide_eq_true fun he => h (he ▸ hb)

theorem dropWhile_text {text : Bytes} (h : byte '<' ∉ text) (rest : Bytes) :
    (text ++ byte '<' :: rest).dropWhile (· ≠ byte '<') = byte '<' :: rest :=
  dropWhile_append_cons (ne_bracket h) (by decide) rest

theorem eventsWithin_text {failure : Option IoFault} {names : List Bytes} {s : Bytes}
    (h : byte '<' ∉ s) : eventsWithin failure names s = ⟨[], failure.map .io⟩ := by
  have hs : s.dropWhile (· ≠ byte '<') = [] := by
    have hdrop : (s ++ []).dropWhile (· ≠ byte '<') = [].dropWhile (· ≠ byte '<') :=
      List.dropWhile_append_of_pos (ne_bracket h)
    simpa using hdrop
  rw [eventsWithin.eq_def]
  split
  · rfl
  · rename_i hmarkup
    rw [hs] at hmarkup
    exact absurd hmarkup (by simp)

theorem eventsWithin_lexeme {failure : Option IoFault} {names : List Bytes}
    {text markup rest : Bytes} {x : Lexeme} (ht : byte '<' ∉ text)
    (hl : lexeme failure markup = .ok (x, rest)) :
    eventsWithin failure names (text ++ byte '<' :: markup) = x.eventsBefore failure names rest := by
  have hs := dropWhile_text ht markup
  rw [eventsWithin.eq_def]
  split
  · rename_i hnil
    rw [hs] at hnil
    exact absurd hnil (by simp)
  · rename_i hcons
    rw [hs, List.cons.injEq] at hcons
    obtain ⟨-, rfl⟩ := hcons
    split <;> rename_i hfound <;> rw [hl] at hfound <;> simp only [reduceCtorEq, Except.ok.injEq,
      Prod.mk.injEq] at hfound <;> obtain ⟨rfl, rfl⟩ := hfound <;> rfl

theorem eventsWithin_fault {failure : Option IoFault} {names : List Bytes} {text markup : Bytes}
    {fault : Fault} (ht : byte '<' ∉ text) (hl : lexeme failure markup = .error fault) :
    eventsWithin failure names (text ++ byte '<' :: markup) = .stop fault := by
  have hs := dropWhile_text ht markup
  rw [eventsWithin.eq_def]
  split
  · rename_i hnil
    rw [hs] at hnil
    exact absurd hnil (by simp)
  · rename_i hcons
    rw [hs, List.cons.injEq] at hcons
    obtain ⟨-, rfl⟩ := hcons
    split <;> rename_i hfound <;> rw [hl] at hfound <;> simp only [reduceCtorEq,
      Except.error.injEq] at hfound
    rw [hfound]

/-! ### Lexemes of written markup -/

theorem cutWhere_append (ends : Bytes → Bool) (text before : Bytes) (h : byte '>' ∉ text)
    (hends : ends (text.reverse ++ before)) (rest : Bytes) :
    cutWhere ends before (text ++ byte '>' :: rest) = some (before.reverse ++ text, rest) := by
  induction text generalizing before with
  | nil =>
    rw [List.nil_append, cutWhere, if_pos (by simpa using hends), List.append_nil]
  | cons b text ih =>
    obtain ⟨hb, htext⟩ : byte '>' ≠ b ∧ byte '>' ∉ text := by simpa using h
    rw [List.cons_append, cutWhere, if_neg (by simp [Ne.symm hb]), ih _ htext (by simpa using hends)]
    simp

/-- What markup is that is no comment, character data or document type. -/
theorem lexeme_cons {b : UInt8} (h : b ≠ byte '!') (failure : Option IoFault) (rest : Bytes) :
    lexeme failure (b :: rest) =
      if b = byte '?' then
        match cutWhere (fun before => before.head? = some (byte '?')) [] (b :: rest) with
        | none => .error (cutOff failure .instruction)
        | some (text, more) =>
          if text.length < 2 then .error (.unfinished .instruction) else .ok (.silent, more)
      else if b = byte '/' then
        match cutTag none rest with
        | none => .error (cutOff failure .tag)
        | some (text, more) => .ok (.closing (closingName text), more)
      else
        match cutTag none (b :: rest) with
        | none => .error (cutOff failure .tag)
        | some (content, more) => .ok (tagLexeme content, more) := by
  rw [lexeme.eq_def]
  exact if_neg h

/-- Bytes that begin a tag rather than anything else in brackets. -/
def BeginsTag (name : Bytes) : Prop :=
  ∃ b ∈ name.head?, b ≠ byte '!' ∧ b ≠ byte '?' ∧ b ≠ byte '/'

theorem lexeme_tag {name : Bytes} (hb : BeginsTag name) (hn : PlainName name)
    {as : List RawAttribute} (hplain : ∀ a ∈ as, a.Plain) (last : Bytes)
    (hlast : ∀ b ∈ last, isQuote b = false ∧ b ≠ byte '>') (rest : Bytes) :
    lexeme none ((Tag.of name as).content ++ last ++ byte '>' :: rest) =
      .ok (tagLexeme ((Tag.of name as).content ++ last), rest) := by
  have hcut := cutTag_of hn hplain hlast rest
  obtain ⟨b, hhead, hbang, hquestion, hslash⟩ := hb
  obtain ⟨more, hname⟩ : ∃ more, name = b :: more := by
    cases name with
    | nil => simp at hhead
    | cons c more =>
      simp only [List.head?_cons, Option.mem_def, Option.some.injEq] at hhead
      exact ⟨more, by rw [hhead]⟩
  obtain ⟨tail, htail⟩ : ∃ tail, (Tag.of name as).content ++ last ++ byte '>' :: rest = b :: tail := by
    rw [Tag.of, hname]
    exact ⟨_, rfl⟩
  rw [htail] at hcut ⊢
  rw [lexeme_cons hbang, if_neg hquestion, if_neg hslash, hcut]

theorem tagLexeme_selfClosing (content : Bytes) :
    tagLexeme (content ++ [byte '/']) = .selfClosing ⟨content⟩ := by
  rw [tagLexeme, List.getLast?_concat, if_pos rfl, List.dropLast_concat]

/-- A tag whose last attribute has been written does not close itself. -/
theorem tagLexeme_opening (name : Bytes) (as : List RawAttribute) (a : RawAttribute) :
    tagLexeme (Tag.of name (as ++ [a])).content = .opening (Tag.of name (as ++ [a])) := by
  obtain ⟨front, hfront⟩ : ∃ front, (Tag.of name (as ++ [a])).content = front ++ [byte '"'] := by
    refine ⟨name ++ (as.flatMap RawAttribute.written
      ++ (byte ' ' :: (a.key ++ byte '=' :: byte '"' :: a.value))), ?_⟩
    simp [Tag.of, RawAttribute.written]
  rw [tagLexeme, if_neg]
  rw [hfront, List.getLast?_concat]
  decide

/-! ### Markup that is cut off -/

theorem cutTag_take {quote : Option UInt8} {s text rest : Bytes} {n : Nat}
    (h : cutTag quote s = some (text, rest)) (hn : n + rest.length < s.length) :
    cutTag quote (s.take n) = none := by
  induction s generalizing quote text n with
  | nil => simp at hn
  | cons b s ih =>
    cases n with
    | zero => cases quote <;> rfl
    | succ n =>
      have hshort : n + rest.length < s.length := by
        rw [List.length_cons] at hn
        omega
      have hstep : ∀ q (f : Bytes × Bytes → Bytes × Bytes), (∀ p, (f p).2 = p.2) →
          (cutTag q s).map f = some (text, rest) → (cutTag q (s.take n)).map f = none := by
        intro q f hf hq
        obtain ⟨⟨t, r⟩, hc, he⟩ := Option.map_eq_some_iff.1 hq
        have hr : r = rest := (hf (t, r)).symm.trans (congrArg Prod.snd he)
        subst hr
        rw [ih hc hshort]
        rfl
      rw [List.take_succ_cons]
      cases quote with
      | some q =>
        rw [cutTag] at h ⊢
        exact hstep _ _ (fun _ => rfl) h
      | none =>
        rw [cutTag] at h ⊢
        by_cases hb : b = byte '>'
        · rw [if_pos hb, Option.some.injEq, Prod.mk.injEq] at h
          rw [← h.2] at hshort
          omega
        · rw [if_neg hb] at h ⊢
          exact hstep _ _ (fun _ => rfl) h

theorem cutWhere_take {ends : Bytes → Bool} {before s text rest : Bytes} {n : Nat}
    (h : cutWhere ends before s = some (text, rest)) (hn : n + rest.length < s.length) :
    cutWhere ends before (s.take n) = none := by
  induction s generalizing before n with
  | nil => simp at hn
  | cons b s ih =>
    cases n with
    | zero => rfl
    | succ n =>
      have hshort : n + rest.length < s.length := by
        rw [List.length_cons] at hn
        omega
      rw [List.take_succ_cons]
      rw [cutWhere] at h ⊢
      split at h
      · rw [Option.some.injEq, Prod.mk.injEq] at h
        rw [← h.2] at hshort
        omega
      · rename_i hb
        rw [if_neg hb]
        exact ih h hshort

theorem lexeme_declaration_take {s rest : Bytes} {x : Lexeme} {n : Nat}
    (h : lexeme none (byte '!' :: s) = .ok (x, rest)) (hn : n + rest.length < s.length) :
    ∃ fault, lexeme none (byte '!' :: s.take n) = .error fault := by
  cases s with
  | nil => simp at hn
  | cons kind s =>
    cases n with
    | zero => exact ⟨_, rfl⟩
    | succ n =>
      have htake : byte '!' :: kind :: s.take n = (byte '!' :: kind :: s).take (n + 2) := by
        rw [List.take_succ_cons, List.take_succ_cons]
      have hshort : n + 2 + rest.length < (byte '!' :: kind :: s).length := by
        rw [List.length_cons] at hn
        rw [List.length_cons, List.length_cons]
        omega
      rw [List.take_succ_cons]
      simp only [lexeme, if_true] at h ⊢
      cases hkind : declarationKind kind with
      | none => simp [hkind] at h
      | some what =>
        simp only [hkind] at h ⊢
        cases hcut : cutWhere (declarationEnds what) [] (byte '!' :: kind :: s) with
        | none => simp [hcut] at h
        | some found =>
          obtain ⟨text, more⟩ := found
          simp only [hcut] at h
          split at h
          · simp at h
          · simp only [Except.ok.injEq, Prod.mk.injEq] at h
            obtain ⟨-, rfl⟩ := h
            have hnone := cutWhere_take hcut hshort
            rw [← htake] at hnone
            rw [hnone]
            exact ⟨_, rfl⟩

/-- A piece of markup that ends at some byte is not read of a text that ends before it. -/
theorem lexeme_take {s rest : Bytes} {x : Lexeme} {n : Nat} (h : lexeme none s = .ok (x, rest))
    (hn : n + rest.length < s.length) : ∃ fault, lexeme none (s.take n) = .error fault := by
  cases s with
  | nil => simp at hn
  | cons b s =>
    cases n with
    | zero => exact ⟨_, rfl⟩
    | succ n =>
      have hshort : n + rest.length < s.length := by
        rw [List.length_cons] at hn
        omega
      rw [List.take_succ_cons]
      by_cases hbang : b = byte '!'
      · rw [hbang] at h ⊢
        exact lexeme_declaration_take h hshort
      · have htake : b :: s.take n = (b :: s).take (n + 1) := List.take_succ_cons.symm
        simp only [lexeme, if_neg hbang] at h ⊢
        by_cases hquestion : b = byte '?'
        · rw [if_pos hquestion] at h ⊢
          split at h
          · simp at h
          · rename_i hcut
            split at h
            · simp at h
            · simp only [Except.ok.injEq, Prod.mk.injEq] at h
              obtain ⟨-, rfl⟩ := h
              have hnone := cutWhere_take hcut hn
              rw [← htake] at hnone
              rw [hnone]
              exact ⟨_, rfl⟩
        · rw [if_neg hquestion] at h ⊢
          by_cases hslash : b = byte '/'
          · rw [if_pos hslash] at h ⊢
            split at h
            · simp at h
            · rename_i hcut
              simp only [Except.ok.injEq, Prod.mk.injEq] at h
              obtain ⟨-, rfl⟩ := h
              rw [cutTag_take hcut hshort]
              exact ⟨_, rfl⟩
          · rw [if_neg hslash] at h ⊢
            split at h
            · simp at h
            · rename_i hcut
              simp only [Except.ok.injEq, Prod.mk.injEq] at h
              obtain ⟨-, rfl⟩ := h
              have hnone := cutTag_take hcut hn
              rw [← htake] at hnone
              rw [hnone]
              exact ⟨_, rfl⟩

/-- A piece of a document: text, and markup that is read as one lexeme whatever follows. -/
structure Piece where
  text : Bytes
  markup : Bytes
  meaning : Lexeme
  text_plain : byte '<' ∉ text
  reads : ∀ rest, lexeme none (markup ++ rest) = .ok (meaning, rest)

namespace Piece

def bytes (p : Piece) : Bytes := p.text ++ byte '<' :: p.markup

theorem eventsWithin_append (p : Piece) (names : List Bytes) (rest : Bytes) :
    eventsWithin none names (p.bytes ++ rest) = p.meaning.eventsBefore none names rest := by
  rw [bytes, List.append_assoc, List.cons_append]
  exact eventsWithin_lexeme p.text_plain (p.reads rest)

/-- Nothing is read of a piece that is cut off. -/
theorem found_take (p : Piece) {n : Nat} (hn : n < p.bytes.length) (names : List Bytes) :
    (eventsWithin none names (p.bytes.take n)).found = [] := by
  rw [bytes, List.length_append, List.length_cons] at hn
  by_cases htext : n ≤ p.text.length
  · have hplain : byte '<' ∉ p.text.take n := fun h => p.text_plain (List.mem_of_mem_take h)
    rw [bytes, List.take_append_of_le_length htext, eventsWithin_text hplain]
  · obtain ⟨m, rfl⟩ : ∃ m, n = p.text.length + (m + 1) := ⟨n - p.text.length - 1, by omega⟩
    have hreads : lexeme none p.markup = .ok (p.meaning, []) := by
      have := p.reads []
      rwa [List.append_nil] at this
    obtain ⟨fault, hfault⟩ := lexeme_take (n := m) hreads (by rw [List.length_nil]; omega)
    rw [bytes, List.take_length_add_append, List.take_succ_cons,
      eventsWithin_fault p.text_plain hfault]
    rfl

/-- A cut lies within the piece, and nothing is read of it, or after the piece. -/
theorem eventsWithin_take (p : Piece) (names : List Bytes) (rest : Bytes) (n : Nat) :
    (eventsWithin none names ((p.bytes ++ rest).take n)).found = [] ∨
      ∃ m, n = p.bytes.length + m ∧ eventsWithin none names ((p.bytes ++ rest).take n) =
        p.meaning.eventsBefore none names (rest.take m) := by
  rcases Nat.lt_or_ge n p.bytes.length with hn | hn
  · refine .inl ?_
    rw [List.take_append_of_le_length (Nat.le_of_lt hn)]
    exact p.found_take hn names
  · obtain ⟨m, rfl⟩ := Nat.exists_eq_add_of_le hn
    exact .inr ⟨m, rfl, by rw [List.take_length_add_append, p.eventsWithin_append]⟩

end Piece

end FileCensus.Markup

