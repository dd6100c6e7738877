import FileCensus.Markup.Tag
import FileCensus.Source

/-!
# Events

A document is read as the sequence of its opening, self-closing and closing tags, up to the first
fault or the end. Text and everything else between tags is passed over, but must be closed. A
closing tag must name the innermost open element; elements left open at the end are no fault here.
-/

namespace FileCensus.Markup

inductive Event where
  | opening (tag : Tag)
  | selfClosing (tag : Tag)
  | closing
  deriving DecidableEq, Repr

/-- Events, and the fault that ends them if there is one. -/
structure EventList where
  found : List Event
  fault : Option Fault
  deriving DecidableEq, Repr

namespace EventList

def stop (fault : Fault) : EventList := ⟨[], some fault⟩

def cons (e : Event) (rest : EventList) : EventList := ⟨e :: rest.found, rest.fault⟩

end EventList

/-- The text up to the first closing bracket before which `ends` holds, and the text after it. The
condition sees the text before the bracket backwards. -/
def cutWhere (ends : Bytes → Bool) : Bytes → Bytes → Option (Bytes × Bytes)
  | _, [] => none
  | before, b :: rest =>
    if b = byte '>' && ends before then some (before.reverse, rest)
    else cutWhere ends (b :: before) rest

/-- The text up to the first closing bracket outside quotes, and the text after it. -/
def cutTag : Option UInt8 → Bytes → Option (Bytes × Bytes)
  | _, [] => none
  | some q, b :: rest =>
    (cutTag (if b = q then none else some q) rest).map fun (text, more) => (b :: text, more)
  | none, b :: rest =>
    if b = byte '>' then some ([], rest)
    else
      (cutTag (if isQuote b then some b else none) rest).map fun (text, more) => (b :: text, more)

/-- What one piece of markup is. -/
inductive Lexeme where
  | silent
  | opening (tag : Tag)
  | selfClosing (tag : Tag)
  | closing (name : Bytes)
  deriving DecidableEq, Repr

def beginsWith (word : String) (s : Bytes) : Bool := (Utf8.encode word).isPrefixOf s

def upper (b : UInt8) : UInt8 := if byte 'a' ≤ b ∧ b ≤ byte 'z' then b - 32 else b

/-- Comments, character data and document types, by the byte after the exclamation mark. -/
def declarationKind (b : UInt8) : Option Construct :=
  if b = byte '-' then some .comment
  else if b = byte '[' then some .cdata
  else if b = byte 'D' ∨ b = byte 'd' then some .doctype
  else none

def declarationEnds : Construct → Bytes → Bool
  | .comment, before => before.take 2 = Utf8.encode "--" && 5 ≤ before.length
  | .cdata, before => before.take 2 = Utf8.encode "]]"
  | _, before => before.count (byte '<') = before.count (byte '>')

/-- What the whole text of a declaration makes of it. -/
def declarationFault : Construct → Bytes → Option Fault
  | .comment, text => if beginsWith "!--" text then none else some (.unfinished .comment)
  | .cdata, text => if beginsWith "![CDATA[" text then none else some (.unfinished .cdata)
  | _, text =>
    if beginsWith "!DOCTYPE" (text.map upper) then
      if (text.drop 8).all isSpace then some .noDoctypeName else none
    else some (.unfinished .doctype)

/-- The name in a closing tag, without white space after it. -/
def closingName (text : Bytes) : Bytes :=
  let name := (text.reverse.dropWhile isSpace).reverse
  if name.isEmpty then text else name

def tagLexeme (content : Bytes) : Lexeme :=
  if content.getLast? = some (byte '/') then .selfClosing ⟨content.dropLast⟩ else .opening ⟨content⟩

/-- The fault of markup that the end of the source cuts off. -/
def cutOff (failure : Option IoFault) (what : Construct) : Fault :=
  match failure with
  | some cause => .io cause
  | none => .unfinished what

/-- The piece of markup after an opening bracket, and the text after it. -/
def lexeme (failure : Option IoFault) (s : Bytes) : Except Fault (Lexeme × Bytes) :=
  match s with
  | [] => .error (cutOff failure .tag)
  | b :: rest =>
    if b = byte '!' then
      match rest with
      | [] => .error (cutOff failure .declaration)
      | kind :: _ =>
        match declarationKind kind with
        | none => .error (.unfinished .declaration)
        | some what =>
          match cutWhere (declarationEnds what) [] s with
          | none => .error (cutOff failure what)
          | some (text, more) =>
            match declarationFault what text with
            | some fault => .error fault
            | none => .ok (.silent, more)
    else if b = byte '?' then
      match cutWhere (fun before => before.head? = some (byte '?')) [] s with
      | none => .error (cutOff failure .instruction)
      | some (text, more) =>
        if text.length < 2 then .error (.unfinished .instruction) else .ok (.silent, more)
    else if b = byte '/' then
      match cutTag none rest with
      | none => .error (cutOff failure .tag)
      | some (text, more) => .ok (.closing (closingName text), more)
    else
      match cutTag none s with
      | none => .error (cutOff failure .tag)
      | some (content, more) => .ok (tagLexeme content, more)

theorem length_cutWhere {ends : Bytes → Bool} {before s text rest : Bytes}
    (h : cutWhere ends before s = some (text, rest)) : rest.length < s.length := by
  induction s generalizing before with
  | nil => simp [cutWhere] at h
  | cons b s ih =>
    simp only [cutWhere] at h
    split at h
    · simp_all
    · have := ih h
      simp only [List.length_cons]
      omega

theorem length_cutTag {quote : Option UInt8} {s text rest : Bytes}
    (h : cutTag quote s = some (text, rest)) : rest.length < s.length := by
  induction s generalizing quote text with
  | nil => cases quote <;> simp [cutTag] at h
  | cons b s ih =>
    have step : ∀ q, (cutTag q s).map (fun (t, more) => (b :: t, more)) = some (text, rest) →
        rest.length < (b :: s).length := by
      intro q hq
      obtain ⟨⟨t, r⟩, hc, he⟩ := Option.map_eq_some_iff.1 hq
      simp only [Prod.mk.injEq] at he
      have := ih (he.2 ▸ hc)
      simp only [List.length_cons]
      omega
    cases quote with
    | some q => exact step _ h
    | none =>
      simp only [cutTag] at h
      split at h
      · simp_all
      · exact step _ h

theorem length_lexeme {failure : Option IoFault} {s rest : Bytes} {x : Lexeme}
    (h : lexeme failure s = .ok (x, rest)) : rest.length < s.length := by
  cases s with
  | nil => simp [lexeme] at h
  | cons b s =>
    simp only [lexeme] at h
    split at h
    · split at h
      · simp at h
      · split at h
        · simp at h
        · split at h
          · simp at h
          · rename_i hc
            split at h
            · simp at h
            · simp only [Except.ok.injEq, Prod.mk.injEq] at h
              exact h.2 ▸ length_cutWhere hc
    · split at h
      · split at h
        · simp at h
        · rename_i hc
          split at h
          · simp at h
          · simp only [Except.ok.injEq, Prod.mk.injEq] at h
            exact h.2 ▸ length_cutWhere hc
      · split at h
        · split at h
          · simp at h
          · rename_i hc
            simp only [Except.ok.injEq, Prod.mk.injEq] at h
            have := length_cutTag hc
            simp only [List.length_cons, ← h.2]
            omega
        · split at h
          · simp at h
          · rename_i hc
            simp only [Except.ok.injEq, Prod.mk.injEq] at h
            exact h.2 ▸ length_cutTag hc

/-- The events of the rest of a document inside elements of these names, innermost first. -/
def eventsWithin (failure : Option IoFault) (names : List Bytes) (s : Bytes) : EventList :=
  match _hs : s.dropWhile (· ≠ byte '<') with
  | [] => ⟨[], failure.map .io⟩
  | _ :: markup =>
    match _hl : lexeme failure markup with
    | .error fault => .stop fault
    | .ok (.silent, rest) => eventsWithin failure names rest
    | .ok (.opening tag, rest) =>
      .cons (.opening tag) (eventsWithin failure (tag.name :: names) rest)
    | .ok (.selfClosing tag, rest) => .cons (.selfClosing tag) (eventsWithin failure names rest)
    | .ok (.closing name, rest) =>
      match names with
      | [] => .stop (.unmatchedEnd name)
      | innermost :: outer =>
        if name = innermost then .cons .closing (eventsWithin failure outer rest)
        else .stop (.mismatchedEnd innermost name)
  termination_by s.length
  decreasing_by
    all_goals
      have h1 := AttributeList.length_dropWhile (· ≠ byte '<') s
      have h2 := length_lexeme _hl
      simp only [_hs, List.length_cons] at h1
      omega

/-- The mark in front of a document that says its bytes are text. -/
def byteOrderMark : Bytes := [0xEF, 0xBB, 0xBF]

/-- The events of a document. -/
def events (source : Source) : EventList :=
  let s := if byteOrderMark.isPrefixOf source.bytes then source.bytes.drop 3 else source.bytes
  eventsWithin source.failure [] s

end FileCensus.Markup
