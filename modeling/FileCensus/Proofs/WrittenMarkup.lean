import FileCensus.Markup.Event
import FileCensus.Markup.Reference
import FileCensus.Proofs.Encoding

/-!
# Reading written markup

A value is written with references in place of the five characters that markup uses, and an attribute
as a blank, its key and its value in double quotes. Reading resolves the references again, finds the
attributes one after the other, and finds the bracket that ends a tag behind its last attribute,
whatever the values hold.
-/

namespace FileCensus.Markup

open Utf8

/-- What holds of all members of a list can be computed. -/
theorem forall_mem_of_all {α : Type} {p : α → Prop} [DecidablePred p] {s : List α}
    (h : s.all fun x => decide (p x)) : ∀ x ∈ s, p x := by
  simpa using h

/-! ### References -/

theorem cutName_append {name : List Char} (h : ∀ c ∈ name, c ≠ ';' ∧ c ≠ '&') (rest : List Char) :
    cutName (name ++ ';' :: rest) = some (name, rest) := by
  induction name with
  | nil => simp [cutName]
  | cons c name ih =>
    obtain ⟨hsemicolon, hampersand⟩ := h c List.mem_cons_self
    have hrest := ih fun x hx => h x (List.mem_cons_of_mem _ hx)
    simp [cutName, hsemicolon, hampersand, hrest]

/-- A named reference in front of a text. -/
theorem unescapeFrom_named (name : List Char) {c : Char} (hn : named? name = some c)
    (hhash : name.head? ≠ some '#') (hsep : ∀ x ∈ name, x ≠ ';' ∧ x ≠ '&') (offset : Nat)
    (rest : List Char) :
    unescapeFrom offset ('&' :: (name ++ ';' :: rest)) =
      (unescapeFrom (offset + 2 + byteCount name) rest).map (c :: ·) := by
  have hresolve : resolve (offset + 1) name = .ok c := by
    rw [resolve.eq_2 _ _ (by rintro digits rfl; exact hhash rfl), hn]
  rw [unescapeFrom, if_pos rfl]
  split
  · rename_i hcut
    simp [cutName_append hsep] at hcut
  · rename_i hcut
    rw [cutName_append hsep, Option.some.injEq, Prod.mk.injEq] at hcut
    rw [← hcut.1, ← hcut.2, hresolve]
    cases unescapeFrom (offset + 2 + byteCount name) rest <;> rfl

/-- The references of one character are read as that character. -/
theorem unescapeFrom_escapeChar (c : Char) (offset : Nat) (rest : List Char) :
    ∃ next, unescapeFrom offset (escapeChar c ++ rest) =
      (unescapeFrom next rest).map (c :: ·) := by
  unfold escapeChar
  split
  · exact ⟨_, unescapeFrom_named "lt".toList rfl (by decide) (forall_mem_of_all (by decide))
      offset rest⟩
  · exact ⟨_, unescapeFrom_named "gt".toList rfl (by decide) (forall_mem_of_all (by decide))
      offset rest⟩
  · exact ⟨_, unescapeFrom_named "amp".toList rfl (by decide) (forall_mem_of_all (by decide))
      offset rest⟩
  · exact ⟨_, unescapeFrom_named "apos".toList rfl (by decide) (forall_mem_of_all (by decide))
      offset rest⟩
  · exact ⟨_, unescapeFrom_named "quot".toList rfl (by decide) (forall_mem_of_all (by decide))
      offset rest⟩
  · rename_i hampersand _ _
    refine ⟨offset + c.utf8Size, ?_⟩
    rw [List.singleton_append, unescapeFrom, if_neg hampersand]
    cases unescapeFrom (offset + c.utf8Size) rest <;> rfl

theorem unescapeFrom_escape (s : List Char) (offset : Nat) :
    unescapeFrom offset (escape s) = .ok s := by
  induction s generalizing offset with
  | nil =>
    rw [escape, List.flatMap_nil, unescapeFrom]
  | cons c s ih =>
    obtain ⟨next, hnext⟩ := unescapeFrom_escapeChar c offset (escape s)
    rw [escape, List.flatMap_cons]
    rw [escape] at hnext ih
    rw [hnext, ih next]
    rfl

/-- Reading a written value gives the value back. -/
theorem unescape_escape (s : String) : unescape (bytesOf (escape s.toList)) = .ok s := by
  rw [unescape, ← encode_ofList, decode_encode]
  simp only [String.toList_ofList, unescapeFrom_escape, String.ofList_toList]

/-- The quote that ends a written value is not in it. -/
theorem quote_not_mem_escape (s : List Char) : '"' ∉ escape s := by
  intro h
  obtain ⟨c, -, hc⟩ := List.mem_flatMap.1 h
  revert hc
  unfold escapeChar
  split
  all_goals first | decide | skip
  rename_i hquote
  rw [List.mem_singleton]
  exact fun he => hquote he.symm

theorem quote_not_mem_value (s : String) : byte '"' ∉ bytesOf (escape s.toList) := fun h =>
  quote_not_mem_escape s.toList (mem_of_mem_bytesOf (by decide) h)

/-! ### Attributes -/

/-- An attribute as it is written in a tag. -/
def RawAttribute.written (a : RawAttribute) : Bytes :=
  byte ' ' :: (a.key ++ byte '=' :: byte '"' :: (a.value ++ [byte '"']))

/-- A key that a reader takes as a whole, and a value that ends at its quote. -/
structure RawAttribute.Plain (a : RawAttribute) : Prop where
  key_ne_nil : a.key ≠ []
  key_byte : ∀ b ∈ a.key, AttributeList.isKeyByte b
  key_quote : ∀ b ∈ a.key, isQuote b = false ∧ b ≠ byte '>'
  value_quote : byte '"' ∉ a.value

theorem takeWhile_append_cons {p : UInt8 → Bool} {s : Bytes} {b : UInt8} (hs : ∀ x ∈ s, p x)
    (hb : p b = false) (rest : Bytes) : (s ++ b :: rest).takeWhile p = s := by
  rw [List.takeWhile_append_of_pos hs, List.takeWhile_cons_of_neg (by simp [hb]), List.append_nil]

theorem dropWhile_append_cons {p : UInt8 → Bool} {s : Bytes} {b : UInt8} (hs : ∀ x ∈ s, p x)
    (hb : p b = false) (rest : Bytes) : (s ++ b :: rest).dropWhile p = b :: rest := by
  rw [List.dropWhile_append_of_pos hs, List.dropWhile_cons_of_neg (by simp [hb])]

namespace AttributeList

theorem afterEquals_written (total : Nat) (rest : Bytes) :
    afterEquals total (byte '=' :: byte '"' :: rest) = .ok (byte '"' :: rest) := by
  have hequals : isSpace (byte '=') = false := by decide
  have hquote : isSpace (byte '"') = false := by decide
  simp [afterEquals, hequals, hquote]

theorem quoted_written {value : Bytes} (h : byte '"' ∉ value) (total : Nat) (rest : Bytes) :
    quoted total (byte '"' :: (value ++ byte '"' :: rest)) = .ok (value, rest) := by
  have hvalue : ∀ b ∈ value, decide (b ≠ byte '"') = true := by
    intro b hb
    exact decide_eq_true fun he => h (he ▸ hb)
  have hstop : decide (byte '"' ≠ byte '"') = false := by decide
  have hquote : isQuote (byte '"') = true := by decide
  simp only [quoted, hquote, if_true, takeWhile_append_cons hvalue hstop,
    dropWhile_append_cons hvalue hstop]

/-- One written attribute, with a key that was not seen before, in front of others. -/
theorem scan_written {a : RawAttribute} (ha : a.Plain) (total : Nat) (unique : Bool)
    {seen : List (Bytes × Nat)} (hseen : ∀ p ∈ seen, p.1 ≠ a.key) (rest : Bytes) :
    ∃ position, scan total unique seen (a.written ++ rest) =
      cons a (scan total unique ((a.key, position) :: seen) rest) := by
  obtain ⟨b, key, hkey⟩ := List.exists_cons_of_ne_nil ha.key_ne_nil
  have hbyte : ∀ x ∈ key, isKeyByte x := fun x hx => ha.key_byte x (hkey ▸ List.mem_cons_of_mem _ hx)
  have hb : isSpace b = false := by
    have := ha.key_byte b (hkey ▸ List.mem_cons_self)
    simp only [isKeyByte, Bool.and_eq_true, Bool.not_eq_true'] at this
    exact this.1
  have hblank : isSpace (byte ' ') = true := by decide
  have hequals : isKeyByte (byte '=') = false := by decide
  have hfind : (if unique then seen.find? (·.1 = a.key) else none) = none := by
    split
    · exact List.find?_eq_none.2 fun p hp => by simpa using hseen p hp
    · rfl
  have htext : (a.written ++ rest).dropWhile isSpace =
      b :: (key ++ byte '=' :: byte '"' :: (a.value ++ byte '"' :: rest)) := by
    simp only [RawAttribute.written, hkey, List.cons_append, List.append_assoc,
      List.dropWhile_cons_of_pos hblank]
    rw [List.nil_append, List.dropWhile_cons_of_neg (by simp [hb])]
  refine ⟨total - ((key ++ byte '=' :: byte '"' :: (a.value ++ byte '"' :: rest)).length + 1), ?_⟩
  have hequalsRead := afterEquals_written total (a.value ++ byte '"' :: rest)
  rw [← dropWhile_append_cons (p := isKeyByte) hbyte hequals] at hequalsRead
  rw [scan.eq_def, htext]
  simp only [takeWhile_append_cons hbyte hequals, ← hkey, hfind]
  split
  · rename_i he
    rw [hequalsRead] at he
    exact absurd he (by simp)
  · rename_i he
    rw [hequalsRead, Except.ok.injEq] at he
    subst he
    have hvalueRead := quoted_written ha.value_quote total rest
    split
    · rename_i hq
      rw [hvalueRead] at hq
      exact absurd hq (by simp)
    · rename_i hq
      rw [hvalueRead, Except.ok.injEq, Prod.mk.injEq] at hq
      rw [← hq.1, ← hq.2]

/-- Written attributes with different keys are all found. -/
theorem scan_flatMap_written {as : List RawAttribute} (hplain : ∀ a ∈ as, a.Plain)
    (hkeys : (as.map (·.key)).Nodup) {total : Nat} {unique : Bool} {seen : List (Bytes × Nat)}
    (hseen : ∀ a ∈ as, ∀ p ∈ seen, p.1 ≠ a.key) :
    scan total unique seen (as.flatMap RawAttribute.written) = ⟨as, none⟩ := by
  induction as generalizing seen with
  | nil =>
    rw [List.flatMap_nil, scan.eq_def]
    rfl
  | cons a as ih =>
    rw [List.map_cons, List.nodup_cons] at hkeys
    obtain ⟨position, hscan⟩ := scan_written (hplain a List.mem_cons_self) total unique
      (hseen a List.mem_cons_self) (as.flatMap RawAttribute.written)
    have hrest : ∀ x ∈ as, ∀ p ∈ (a.key, position) :: seen, p.1 ≠ x.key := by
      intro x hx p hp
      rcases List.mem_cons.1 hp with rfl | hp
      · intro he
        exact hkeys.1 (List.mem_map.2 ⟨x, hx, he.symm⟩)
      · exact hseen x (List.mem_cons_of_mem _ hx) p hp
    rw [List.flatMap_cons, hscan, ih (fun x hx => hplain x (List.mem_cons_of_mem _ hx)) hkeys.2 hrest]
    rfl

end AttributeList

/-! ### Tags -/

/-- A tag of a name and attributes as it is written. -/
def Tag.of (name : Bytes) (as : List RawAttribute) : Tag :=
  ⟨name ++ as.flatMap RawAttribute.written⟩

/-- A name that neither ends nor hides the tag it is in. -/
def PlainName (name : Bytes) : Prop := ∀ b ∈ name, isSpace b = false ∧ isQuote b = false ∧ b ≠ byte '>'

instance (name : Bytes) : Decidable (PlainName name) :=
  decidable_of_iff (name.all fun b => !isSpace b && !isQuote b && b ≠ byte '>')
    (by simp [PlainName, and_assoc])

theorem Tag.name_of {name : Bytes} (hn : PlainName name) (as : List RawAttribute) :
    (Tag.of name as).name = name := by
  have hname : ∀ b ∈ name, (!isSpace b) = true := fun b hb => by rw [(hn b hb).1]; rfl
  have hblank : (!isSpace (byte ' ')) = false := by decide
  cases as with
  | nil =>
    simp only [Tag.of, Tag.name, List.flatMap_nil, List.append_nil]
    have htake : (name ++ []).takeWhile (!isSpace ·) = name ++ [].takeWhile (!isSpace ·) :=
      List.takeWhile_append_of_pos hname
    simpa using htake
  | cons a as =>
    simp only [Tag.of, Tag.name, List.flatMap_cons, RawAttribute.written, List.cons_append]
    exact takeWhile_append_cons hname hblank _

theorem Tag.attributes_of {name : Bytes} (hn : PlainName name) {as : List RawAttribute}
    (hplain : ∀ a ∈ as, a.Plain) (hkeys : (as.map (·.key)).Nodup) (unique : Bool) :
    (Tag.of name as).attributes unique = ⟨as, none⟩ := by
  rw [Tag.attributes, Tag.name_of hn, Tag.of, List.drop_left]
  exact AttributeList.scan_flatMap_written hplain hkeys (by simp)

/-- Outside quotes, bytes that are neither quote nor bracket are passed over. -/
theorem cutTag_append {s : Bytes} (h : ∀ b ∈ s, isQuote b = false ∧ b ≠ byte '>') (rest : Bytes) :
    cutTag none (s ++ rest) = (cutTag none rest).map fun (text, more) => (s ++ text, more) := by
  induction s with
  | nil => simp
  | cons b s ih =>
    obtain ⟨hquote, hbracket⟩ := h b List.mem_cons_self
    rw [List.cons_append, cutTag, if_neg hbracket, hquote,
      if_neg (by simp), ih fun x hx => h x (List.mem_cons_of_mem _ hx), Option.map_map]
    rfl

/-- Inside quotes, everything up to the quote is passed over. -/
theorem cutTag_quoted {value : Bytes} (h : byte '"' ∉ value) (rest : Bytes) :
    cutTag (some (byte '"')) (value ++ byte '"' :: rest) =
      (cutTag none rest).map fun (text, more) => (value ++ byte '"' :: text, more) := by
  induction value with
  | nil =>
    rw [List.nil_append, cutTag, if_pos rfl]
    rfl
  | cons b value ih =>
    have hb : b ≠ byte '"' := fun he => h (he ▸ List.mem_cons_self)
    rw [List.cons_append, cutTag, if_neg hb, ih fun hm => h (List.mem_cons_of_mem _ hm),
      Option.map_map]
    rfl

theorem cutTag_written {a : RawAttribute} (ha : a.Plain) (rest : Bytes) :
    cutTag none (a.written ++ rest) =
      (cutTag none rest).map fun (text, more) => (a.written ++ text, more) := by
  have hopening : ∀ b ∈ byte ' ' :: (a.key ++ [byte '=']), isQuote b = false ∧ b ≠ byte '>' := by
    intro b hb
    rcases List.mem_cons.1 hb with rfl | hb
    · decide
    · rcases List.mem_append.1 hb with hb | hb
      · exact ha.key_quote b hb
      · rw [List.mem_singleton.1 hb]
        decide
  have htext : a.written ++ rest =
      (byte ' ' :: (a.key ++ [byte '='])) ++ byte '"' :: (a.value ++ byte '"' :: rest) := by
    simp [RawAttribute.written]
  have hquote : cutTag none (byte '"' :: (a.value ++ byte '"' :: rest)) =
      (cutTag none rest).map fun (text, more) =>
        (byte '"' :: (a.value ++ byte '"' :: text), more) := by
    rw [cutTag, if_neg (by decide), if_pos (by decide), cutTag_quoted ha.value_quote, Option.map_map]
    rfl
  rw [htext, cutTag_append hopening, hquote, Option.map_map]
  congr 1
  funext p
  simp [RawAttribute.written]

theorem cutTag_flatMap_written {as : List RawAttribute} (h : ∀ a ∈ as, a.Plain) (rest : Bytes) :
    cutTag none (as.flatMap RawAttribute.written ++ rest) =
      (cutTag none rest).map fun (text, more) => (as.flatMap RawAttribute.written ++ text, more) := by
  induction as with
  | nil => simp
  | cons a as ih =>
    rw [List.flatMap_cons, List.append_assoc, cutTag_written (h a List.mem_cons_self),
      ih fun x hx => h x (List.mem_cons_of_mem _ hx), Option.map_map]
    congr 1
    funext p
    simp

/-- A written tag ends where it was ended, also if something plain stands before the bracket. -/
theorem cutTag_of {name : Bytes} (hn : PlainName name) {as : List RawAttribute}
    (hplain : ∀ a ∈ as, a.Plain) {last : Bytes}
    (hlast : ∀ b ∈ last, isQuote b = false ∧ b ≠ byte '>') (rest : Bytes) :
    cutTag none ((Tag.of name as).content ++ last ++ byte '>' :: rest) =
      some ((Tag.of name as).content ++ last, rest) := by
  have hend : cutTag none (byte '>' :: rest) = some ([], rest) := by
    rw [cutTag, if_pos rfl]
  rw [Tag.of, List.append_assoc, List.append_assoc, cutTag_append fun b hb => (hn b hb).2,
    cutTag_flatMap_written hplain, cutTag_append hlast, hend]
  simp

end FileCensus.Markup
