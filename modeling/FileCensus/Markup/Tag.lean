import FileCensus.Markup.Fault

/-!
# Tags

A tag is the text between its brackets: a name up to the first white space, then attributes. The
attributes are found one after the other up to the first fault, whose position counts from the start
of the name.
-/

namespace FileCensus.Markup

def byte (c : Char) : UInt8 := UInt8.ofNat c.toNat

def isSpace (b : UInt8) : Bool := b = 0x20 || b = 0x09 || b = 0x0D || b = 0x0A

def isQuote (b : UInt8) : Bool := b = byte '"' || b = byte '\''

structure Tag where
  content : Bytes
  deriving DecidableEq, Repr

structure RawAttribute where
  key : Bytes
  value : Bytes
  deriving DecidableEq, Repr

def Tag.name (tag : Tag) : Bytes := tag.content.takeWhile (!isSpace ·)

/-- Attributes, and the fault that ends them if there is one. -/
structure AttributeList where
  found : List RawAttribute
  fault : Option (Nat × AttributeFault)
  deriving DecidableEq, Repr

namespace AttributeList

def stop (position : Nat) (fault : AttributeFault) : AttributeList := ⟨[], some (position, fault)⟩

def cons (a : RawAttribute) (rest : AttributeList) : AttributeList := ⟨a :: rest.found, rest.fault⟩

/-- The bytes after a key that could begin an attribute's value, or the fault before them. -/
def afterEquals (total : Nat) (s : Bytes) : Except (Nat × AttributeFault) Bytes :=
  match s.dropWhile isSpace with
  | [] => .error (total, .noEquals)
  | b :: rest =>
    if b = byte '=' then .ok (rest.dropWhile isSpace)
    else .error (total - (rest.length + 1), .noEquals)

/-- The bytes between quotes and those after, or the fault before them. -/
def quoted (total : Nat) : Bytes → Except (Nat × AttributeFault) (Bytes × Bytes)
  | [] => .error (total, .noValue)
  | q :: s =>
    if isQuote q then
      match s.dropWhile (· ≠ q) with
      | [] => .error (total, .openQuote (Char.ofNat q.toNat))
      | _ :: rest => .ok (s.takeWhile (· ≠ q), rest)
    else .error (total - (s.length + 1), .unquoted)

def isKeyByte (b : UInt8) : Bool := !isSpace b && b ≠ byte '='

theorem length_dropWhile (p : UInt8 → Bool) (s : Bytes) : (s.dropWhile p).length ≤ s.length :=
  (List.dropWhile_sublist p).length_le

theorem length_afterEquals {total : Nat} {s rest : Bytes} (h : afterEquals total s = .ok rest) :
    rest.length ≤ s.length := by
  have hs := length_dropWhile isSpace s
  unfold afterEquals at h
  split at h
  · simp at h
  · rename_i b t ht
    split at h
    · simp only [Except.ok.injEq] at h
      have := length_dropWhile isSpace t
      simp only [ht, List.length_cons] at hs
      simp only [← h]
      omega
    · simp at h

theorem length_quoted {total : Nat} {s value rest : Bytes}
    (h : quoted total s = .ok (value, rest)) : rest.length ≤ s.length := by
  cases s with
  | nil => simp [quoted] at h
  | cons q s =>
    simp only [quoted] at h
    split at h
    · have hs := length_dropWhile (fun b => decide (b ≠ q)) s
      split at h
      · simp at h
      · rename_i t ht
        simp only [Except.ok.injEq, Prod.mk.injEq] at h
        simp only [ht, List.length_cons] at hs
        simp only [← h.2, List.length_cons]
        omega
    · simp at h

/-- The attributes of the last bytes of a tag whose content has `total` bytes. With `unique`, a key
that was seen before is a fault. -/
def scan (total : Nat) (unique : Bool) (seen : List (Bytes × Nat)) (s : Bytes) : AttributeList :=
  match _hs : s.dropWhile isSpace with
  | [] => ⟨[], none⟩
  | b :: rest =>
    let key := b :: rest.takeWhile isKeyByte
    let position := total - (rest.length + 1)
    match _he : afterEquals total (rest.dropWhile isKeyByte) with
    | .error (place, fault) => stop place fault
    | .ok more =>
      match if unique then seen.find? (·.1 = key) else none with
      | some (_, previous) => stop position (.duplicate previous)
      | none =>
        match _hq : quoted total more with
        | .error (place, fault) => stop place fault
        | .ok (value, more) => cons ⟨key, value⟩ (scan total unique ((key, position) :: seen) more)
  termination_by s.length
  decreasing_by
    have h1 := length_dropWhile isSpace s
    have h2 := length_dropWhile isKeyByte rest
    have h3 := length_afterEquals _he
    have h4 := length_quoted _hq
    simp only [_hs, List.length_cons] at h1
    omega

end AttributeList

/-- The attributes of a tag. -/
def Tag.attributes (tag : Tag) (unique : Bool) : AttributeList :=
  .scan tag.content.length unique [] (tag.content.drop tag.name.length)

end FileCensus.Markup
