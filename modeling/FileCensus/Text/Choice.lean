/-!
# Named choices

A type with few values, each of which has a name by which a text chooses it.
-/

namespace FileCensus

class Choice (α : Type) where
  all : List α
  name : α → String

namespace Choice

variable {α : Type} [Choice α]

/-- The value of exactly this name. -/
def ofName? (text : String) : Option α := all.find? fun x => name x = text

/-- The value of this name, in capitals or not. -/
def ofAnyCase? (text : String) : Option α :=
  all.find? fun x => (name x).map Char.toLower = text.map Char.toLower

end Choice

end FileCensus
