import FileCensus.Document.Reader
import FileCensus.Document.Writer
import FileCensus.Proofs.Pieces

/-!
# The events of a written document

A written document is a declaration, the opening tag of its outermost element, a self-closing tag for
each file and a closing tag, and its events are those. A document that is cut off lacks at least the
closing one.
-/

namespace FileCensus.Document

open Markup Utf8

/-! ### The pieces of a written document -/

/-- An attribute as it is found in a written tag. -/
def rawAttribute (a : String × String) : RawAttribute :=
  ⟨encode a.1, bytesOf (escape a.2.toList)⟩

/-- A key that can be written. -/
def PlainKey (key : Bytes) : Prop :=
  key ≠ [] ∧ ∀ b ∈ key, AttributeList.isKeyByte b ∧ isQuote b = false ∧ b ≠ byte '>'

instance (key : Bytes) : Decidable (PlainKey key) :=
  decidable_of_iff
    (key ≠ [] ∧ key.all fun b => AttributeList.isKeyByte b && !isQuote b && b ≠ byte '>')
    (by simp [PlainKey, and_assoc])

theorem plain_rawAttribute {a : String × String} (h : PlainKey (encode a.1)) :
    (rawAttribute a).Plain where
  key_ne_nil := h.1
  key_byte b hb := (h.2 b hb).1
  key_quote b hb := (h.2 b hb).2
  value_quote := quote_not_mem_value a.2

theorem bytesOf_attributeText (key value : String) :
    bytesOf (attributeText key value) = (rawAttribute (key, value)).written := by
  simp only [attributeText, List.cons_append, List.append_assoc, RawAttribute.written, rawAttribute,
    encode_eq_bytesOf]
  rw [bytesOf_cons_ascii (by decide), bytesOf_append, bytesOf_cons_ascii (by decide),
    bytesOf_cons_ascii (by decide), bytesOf_append]
  rfl

theorem bytesOf_attributesText (as : List (String × String)) :
    bytesOf (attributesText as) = (as.map rawAttribute).flatMap RawAttribute.written := by
  induction as with
  | nil => rfl
  | cons a as ih =>
    rw [attributesText, List.flatMap_cons, bytesOf_append, bytesOf_attributeText]
    rw [attributesText] at ih
    rw [ih, List.map_cons, List.flatMap_cons]

/-- The tag of the outermost element. -/
def rootTag (origin : Origin) (name : String) : Tag :=
  .of rootName ((rootAttributes origin name).map rawAttribute)

/-- The tag of a file. -/
def fileTag (r : Record) : Tag := .of fileName ((fileAttributes r).map rawAttribute)

theorem plain_rootAttributes (origin : Origin) (name : String) :
    ∀ a ∈ (rootAttributes origin name).map rawAttribute, a.Plain := by
  have hkeys : ∀ key ∈ ["name", "host", "os", "created"], PlainKey (encode key) :=
    forall_mem_of_all (by decide)
  intro a ha
  obtain ⟨p, hp, rfl⟩ := List.mem_map.1 ha
  refine plain_rawAttribute (hkeys p.1 ?_)
  have : p.1 ∈ (rootAttributes origin name).map Prod.fst := List.mem_map_of_mem hp
  exact this

/-- The keys of a file's attributes are those that an attribute of a file can have. -/
theorem keys_fileAttributes (r : Record) :
    (fileAttributes r).map Prod.fst =
      "path" :: (Attribute.all.filter fun a => (r.shownValue a).isSome).map Attribute.name := by
  rw [fileAttributes, List.map_cons]
  congr 1
  induction Attribute.all with
  | nil => rfl
  | cons a as ih =>
    cases h : r.shownValue a with
    | none => simpa [List.filterMap_cons, h] using ih
    | some value => simpa [List.filterMap_cons, h] using ih

def fileKeys : List String := "path" :: Attribute.all.map Attribute.name

theorem keys_sublist (r : Record) : ((fileAttributes r).map Prod.fst).Sublist fileKeys := by
  rw [keys_fileAttributes, fileKeys]
  exact List.Sublist.cons_cons _ (List.filter_sublist.map _)

theorem plain_fileAttributes (r : Record) :
    ∀ a ∈ (fileAttributes r).map rawAttribute, a.Plain := by
  have hkeys : ∀ key ∈ fileKeys, PlainKey (encode key) := forall_mem_of_all (by decide)
  intro a ha
  obtain ⟨p, hp, rfl⟩ := List.mem_map.1 ha
  exact plain_rawAttribute (hkeys p.1 ((keys_sublist r).mem (List.mem_map_of_mem hp)))

theorem nodup_fileAttributes (r : Record) :
    (((fileAttributes r).map rawAttribute).map (·.key)).Nodup := by
  have hkeys : (fileKeys.map encode).Nodup := by decide
  have hmap : ((fileAttributes r).map rawAttribute).map (·.key) =
      ((fileAttributes r).map Prod.fst).map encode := by
    rw [List.map_map, List.map_map]
    rfl
  rw [hmap]
  exact ((keys_sublist r).map encode).nodup hkeys

def declarationPiece : Piece where
  text := []
  markup := encode "?xml version=\"1.0\" encoding=\"UTF-8\"?>"
  meaning := .silent
  text_plain := by simp
  reads rest := by
    have hmarkup : encode "?xml version=\"1.0\" encoding=\"UTF-8\"?>" =
        encode "?xml version=\"1.0\" encoding=\"UTF-8\"?" ++ [byte '>'] := by decide
    have hcut := cutWhere_append (fun before => before.head? = some (byte '?'))
      (encode "?xml version=\"1.0\" encoding=\"UTF-8\"?") [] (by decide) (by decide) rest
    rw [hmarkup, List.append_assoc, List.singleton_append]
    obtain ⟨more, hmore⟩ : ∃ more, encode "?xml version=\"1.0\" encoding=\"UTF-8\"?" =
        byte '?' :: more := ⟨encode "xml version=\"1.0\" encoding=\"UTF-8\"?", by decide⟩
    have hlen : ¬(encode "?xml version=\"1.0\" encoding=\"UTF-8\"?").length < 2 := by decide
    rw [hmore, List.cons_append] at hcut ⊢
    rw [lexeme_cons (by decide), if_pos rfl, hcut]
    rw [hmore] at hlen
    exact if_neg hlen

def rootPiece (origin : Origin) (name : String) : Piece where
  text := [byte '\n']
  markup := (rootTag origin name).content ++ [byte '>']
  meaning := .opening (rootTag origin name)
  text_plain := by decide
  reads rest := by
    have hbegins : BeginsTag rootName := ⟨byte 's', by decide, by decide⟩
    have hlexeme := lexeme_tag hbegins (by decide) (plain_rootAttributes origin name) []
      (by simp) rest
    rw [List.append_nil] at hlexeme
    rw [List.append_assoc, List.singleton_append, rootTag, hlexeme]
    have hopening := tagLexeme_opening rootName
      ([("name", name), ("host", origin.host), ("os", systemName)].map rawAttribute)
      (rawAttribute ("created", origin.created))
    exact congrArg (fun x => Except.ok (x, rest)) hopening

def filePiece (r : Record) : Piece where
  text := encode "\n  "
  markup := (fileTag r).content ++ [byte '/'] ++ [byte '>']
  meaning := .selfClosing (fileTag r)
  text_plain := by decide
  reads rest := by
    have hbegins : BeginsTag fileName := ⟨byte 'f', by decide, by decide⟩
    have hlexeme := lexeme_tag hbegins (by decide) (plain_fileAttributes r) [byte '/']
      (forall_mem_of_all (by decide)) rest
    rw [List.append_assoc ((fileTag r).content ++ [byte '/']), List.singleton_append, fileTag,
      hlexeme, tagLexeme_selfClosing]

def closingPiece : Piece where
  text := [byte '\n']
  markup := byte '/' :: (rootName ++ [byte '>'])
  meaning := .closing rootName
  text_plain := by decide
  reads rest := by
    have hcut : cutTag none (rootName ++ byte '>' :: rest) = some (rootName, rest) := by
      rw [cutTag_append (forall_mem_of_all (by decide)), cutTag, if_pos rfl]
      simp
    have hname : closingName rootName = rootName := by decide
    rw [List.cons_append, List.append_assoc, List.singleton_append, lexeme_cons (by decide),
      if_neg (by decide), if_pos rfl, hcut]
    exact congrArg (fun name => Except.ok (Lexeme.closing name, rest)) hname

/-! ### The document -/

theorem bytes_filePiece (r : Record) : (filePiece r).bytes =
    encode "\n  <file" ++ (((fileAttributes r).map rawAttribute).flatMap RawAttribute.written
      ++ [byte '/', byte '>']) := by
  have hstart : encode "\n  <file" = encode "\n  " ++ byte '<' :: fileName := by decide
  rw [hstart]
  simp only [Piece.bytes, filePiece, fileTag, Tag.of, List.append_assoc, List.cons_append,
    List.nil_append]

theorem bytesOf_fileText (r : Record) : bytesOf (fileText r) = (filePiece r).bytes := by
  have hend : bytesOf "/>".toList = [byte '/', byte '>'] := by decide
  unfold fileText
  rw [bytesOf_append, bytesOf_append, bytesOf_attributesText, hend, bytes_filePiece,
    List.append_assoc, encode_eq_bytesOf]

theorem bytes_rootPiece (origin : Origin) (name : String) : (rootPiece origin name).bytes =
    encode "\n<snapshot" ++ (((rootAttributes origin name).map rawAttribute).flatMap
      RawAttribute.written ++ [byte '>']) := by
  have hstart : encode "\n<snapshot" = [byte '\n'] ++ byte '<' :: rootName := by decide
  rw [hstart]
  simp only [Piece.bytes, rootPiece, rootTag, Tag.of, List.append_assoc, List.cons_append,
    List.nil_append]

theorem bytesOf_openingText (origin : Origin) (name : String) :
    bytesOf (openingText origin name) = declarationPiece.bytes ++ (rootPiece origin name).bytes := by
  have hstart : bytesOf "<?xml version=\"1.0\" encoding=\"UTF-8\"?>\n<snapshot".toList =
      declarationPiece.bytes ++ encode "\n<snapshot" := by decide
  have hend : bytesOf ['>'] = [byte '>'] := by decide
  unfold openingText
  rw [bytesOf_append, bytesOf_append, bytesOf_attributesText, hend, hstart,
    bytes_rootPiece, List.append_assoc, List.append_assoc]

theorem bytesOf_flatMap_fileText (files : List Record) :
    bytesOf (files.flatMap fileText) = files.flatMap fun r => (filePiece r).bytes := by
  induction files with
  | nil => rfl
  | cons r files ih =>
    rw [List.flatMap_cons, bytesOf_append, bytesOf_fileText, ih, List.flatMap_cons]

/-- A written document is the sequence of its pieces. -/
theorem writeBytes_eq (origin : Origin) (s : Snapshot) :
    writeBytes origin s = declarationPiece.bytes ++ ((rootPiece origin s.name).bytes
      ++ (s.files.flatMap (fun r => (filePiece r).bytes) ++ closingPiece.bytes)) := by
  have hend : bytesOf closingText = closingPiece.bytes := by decide
  rw [writeBytes, write, encode_ofList, bytesOf_append, bytesOf_append, bytesOf_openingText,
    bytesOf_flatMap_fileText, hend]
  simp only [List.append_assoc]

/-- The names of the elements that are open between the files. -/
def inside : List Bytes := [rootName]

theorem eventsBefore_opening (origin : Origin) (name : String) (rest : Bytes) :
    (rootPiece origin name).meaning.eventsBefore none [] rest =
      .cons (.opening (rootTag origin name)) (eventsWithin none inside rest) := by
  have hname : (rootTag origin name).name = rootName := Tag.name_of (by decide) _
  change EventList.cons _ (eventsWithin none ((rootTag origin name).name :: []) rest) = _
  rw [hname]
  rfl

theorem eventsWithin_closing : eventsWithin none inside closingPiece.bytes = ⟨[.closing], none⟩ := by
  have hend : eventsWithin none [] [] = ⟨[], none⟩ := eventsWithin_text (by simp)
  have happend := closingPiece.eventsWithin_append inside []
  rw [List.append_nil] at happend
  rw [happend]
  change (if rootName = rootName then EventList.cons .closing (eventsWithin none [] [])
    else .stop (.mismatchedEnd rootName rootName)) = _
  rw [if_pos rfl, hend]
  rfl

theorem eventsWithin_files (files : List Record) (rest : Bytes) :
    eventsWithin none inside (files.flatMap (fun r => (filePiece r).bytes) ++ rest) =
      ⟨files.map (fun r => .selfClosing (fileTag r)) ++ (eventsWithin none inside rest).found,
        (eventsWithin none inside rest).fault⟩ := by
  induction files with
  | nil => rfl
  | cons r files ih =>
    rw [List.flatMap_cons, List.append_assoc, (filePiece r).eventsWithin_append]
    change EventList.cons (.selfClosing (fileTag r)) _ = _
    rw [ih]
    rfl

/-- No written document begins with a byte order mark. -/
theorem events_declaration (rest : Bytes) :
    events (.whole (byte '<' :: rest)) = eventsWithin none [] (byte '<' :: rest) := by
  have hmark : byteOrderMark.isPrefixOf (byte '<' :: rest) = false := rfl
  rw [events, Source.whole, hmark]
  rfl

theorem events_writeBytes (origin : Origin) (s : Snapshot) :
    events (.whole (writeBytes origin s)) =
      ⟨.opening (rootTag origin s.name)
        :: (s.files.map (fun r => .selfClosing (fileTag r)) ++ [.closing]), none⟩ := by
  have hstart : ∃ more, declarationPiece.bytes = byte '<' :: more := ⟨_, rfl⟩
  obtain ⟨more, hmore⟩ := hstart
  rw [writeBytes_eq, hmore, List.cons_append, events_declaration, ← List.cons_append, ← hmore,
    declarationPiece.eventsWithin_append]
  change eventsWithin none [] _ = _
  rw [Piece.eventsWithin_append, eventsBefore_opening, eventsWithin_files, eventsWithin_closing]
  rfl

end FileCensus.Document
