import FileCensus.Fault.Io
import FileCensus.Text.Numeral
import FileCensus.Text.Utf8

/-!
# Faults of markup

Everything for which a document is no well-formed markup, from a failed read to a damaged reference
inside one attribute value.
-/

namespace FileCensus.Markup

/-- What was begun and not finished, or begun wrongly. -/
inductive Construct where
  | declaration
  | instruction
  | comment
  | doctype
  | cdata
  | tag
  deriving DecidableEq, Repr

def Construct.message : Construct → String
  | .declaration => "unknown or missed symbol in markup"
  | .instruction =>
    "processing instruction or xml declaration not closed: `?>` not found before end of input"
  | .comment => "comment not closed: `-->` not found before end of input"
  | .doctype => "DOCTYPE not closed: `>` not found before end of input"
  | .cdata => "CDATA not closed: `]]>` not found before end of input"
  | .tag => "tag not closed: `>` not found before end of input"

inductive AttributeFault where
  | noEquals
  | noValue
  | unquoted
  | openQuote (quote : Char)
  | duplicate (previous : Nat)
  deriving DecidableEq, Repr

def AttributeFault.message : AttributeFault → String
  | .noEquals => "attribute key must be directly followed by `=` or space"
  | .noValue => "`=` must be followed by an attribute value"
  | .unquoted => "attribute value must be enclosed in `\"` or `'`"
  | .openQuote quote => "missing closing quote `" ++ quote.toString ++ "` in attribute value"
  | .duplicate previous => s!"duplicated attribute, previous declaration at position {previous}"

inductive ReferenceFault where
  | unknown (first last : Nat) (name : String)
  | unterminated (first last : Nat)
  | signed
  | number (fault : Numeral.Fault)
  | noCharacter (code : Nat)
  | zero
  deriving DecidableEq, Repr

def ReferenceFault.message : ReferenceFault → String
  | .unknown first last name => s!"at {first}..{last}: unrecognized entity `{name}`"
  | .unterminated first last =>
    s!"Error while escaping character at range {first}..{last}: Cannot find ';' after '&'"
  | .signed => "invalid character reference: unexpected number sign"
  | .number fault => "invalid character reference: " ++ fault.message
  | .noCharacter code => s!"invalid character reference: `{code}` is not a valid codepoint"
  | .zero => "invalid character reference: 0x0 character is not permitted in XML"

inductive Fault where
  | io (cause : IoFault)
  | unfinished (what : Construct)
  | noDoctypeName
  | unmatchedEnd (name : Bytes)
  | mismatchedEnd (expected found : Bytes)
  | attribute (position : Nat) (fault : AttributeFault)
  | reference (fault : ReferenceFault)
  | encoding (fault : Utf8.Fault)
  deriving DecidableEq, Repr

/-- A name as it is shown: empty if it is not text. -/
def shownName (name : Bytes) : String := (Utf8.decode name).toOption.getD ""

def Fault.message : Fault → String
  | .io cause => "I/O error: " ++ cause.text
  | .unfinished what => "syntax error: " ++ what.message
  | .noDoctypeName =>
    "ill-formed document: `<!DOCTYPE>` declaration does not contain a name of a document type"
  | .unmatchedEnd name =>
    "ill-formed document: close tag `</" ++ shownName name ++ ">` does not match any open tag"
  | .mismatchedEnd expected found =>
    "ill-formed document: expected `</" ++ shownName expected ++ ">`, but `</" ++ shownName found
      ++ ">` was found"
  | .attribute position fault =>
    s!"error while parsing attribute: position {position}: " ++ fault.message
  | .reference fault => fault.message
  | .encoding fault => "cannot decode input using UTF-8: " ++ fault.message

end FileCensus.Markup
