import ProtoBuild.Text.Blank

/-!
# Cutting texts apart and putting them together

Pieces between separators, the two sides of a first or last separator, the
lines of a text and its words.  `splitWhere` is the one cutter, and `join` is
its inverse for a single separator (`join_splitOn`).
-/

namespace ProtoBuild
namespace Text

/-- The pieces between the characters at which `cut` holds.  There is always
one piece more than there are cuts, so an empty text has one empty piece. -/
def splitWhere (cut : Char → Bool) : List Char → List (List Char)
  | [] => [[]]
  | c :: cs =>
    if cut c then [] :: splitWhere cut cs
    else
      match splitWhere cut cs with
      | [] => [[c]]
      | piece :: rest => (c :: piece) :: rest

/-- The pieces between the occurrences of one separator. -/
def splitOn (sep : Char) (cs : List Char) : List (List Char) :=
  splitWhere (· == sep) cs

/-- The pieces with one separator between neighbours. -/
def join (sep : Char) : List (List Char) → List Char
  | [] => []
  | [piece] => piece
  | piece :: rest => piece ++ sep :: join sep rest

theorem splitWhere_ne_nil (cut : Char → Bool) (cs : List Char) : splitWhere cut cs ≠ [] := by
  induction cs with
  | nil => simp [splitWhere]
  | cons c cs _ =>
    unfold splitWhere
    split
    · simp
    · split <;> simp

/-- Joining the pieces gives the text back. -/
theorem join_splitOn (sep : Char) (cs : List Char) : join sep (splitOn sep cs) = cs := by
  unfold splitOn
  induction cs with
  | nil => rfl
  | cons c cs ih =>
    have hne := splitWhere_ne_nil (· == sep) cs
    unfold splitWhere
    split
    · rename_i h
      cases hs : splitWhere (· == sep) cs with
      | nil => exact absurd hs hne
      | cons piece rest =>
        rw [hs] at ih
        simp only [join, List.nil_append, ih]
        simp at h
        simp [h]
    · cases hs : splitWhere (· == sep) cs with
      | nil => exact absurd hs hne
      | cons piece rest =>
        rw [hs] at ih
        cases rest <;> simp_all [join]

/-- The words of a text: its pieces between blanks, empty ones left out. -/
def words (cs : List Char) : List (List Char) :=
  (splitWhere isBlank cs).filter (! ·.isEmpty)

/-- What stands before and after the first separator. -/
def splitFirst? (sep : Char) : List Char → Option (List Char × List Char)
  | [] => none
  | c :: cs =>
    if c == sep then some ([], cs)
    else (splitFirst? sep cs).map fun p => (c :: p.1, p.2)

/-- What stands before and after the last separator. -/
def splitLast? (sep : Char) : List Char → Option (List Char × List Char)
  | [] => none
  | c :: cs =>
    match splitLast? sep cs with
    | some p => some (c :: p.1, p.2)
    | none => if c == sep then some ([], cs) else none

/-- What follows `start` in a text that begins with it. -/
def after? (start : List Char) (cs : List Char) : Option (List Char) :=
  start.isPrefixOf? cs

/-- What stands before `ending` in a text that ends with it. -/
def before? (ending : List Char) (cs : List Char) : Option (List Char) :=
  (ending.reverse.isPrefixOf? cs.reverse).map List.reverse

/-- Whether `needle` stands somewhere in the text. -/
def contains (needle : List Char) : List Char → Bool
  | [] => needle.isEmpty
  | c :: cs => needle.isPrefixOf (c :: cs) || contains needle cs

/-- The line without the carriage return that stands before its line feed. -/
def chompReturn (line : List Char) : List Char :=
  (before? ['\r'] line).getD line

/-- Pieces between line feeds, read as lines: only the last one has no line feed
after it, so it keeps a carriage return, and it is no line when it is empty. -/
def linesOfPieces : List (List Char) → List (List Char)
  | [] => []
  | [last] => if last.isEmpty then [] else [last]
  | piece :: rest => chompReturn piece :: linesOfPieces rest

/-- The lines of a text.  A line feed ends a line, together with a carriage
return before it. -/
def lines (cs : List Char) : List (List Char) :=
  linesOfPieces (splitOn '\n' cs)

/-- The lines of a text, trimmed, those that are then empty left out. -/
def fullLines (cs : List Char) : List (List Char) :=
  ((lines cs).map trim).filter (! ·.isEmpty)

/-- The text with every `old` character written as `new`. -/
def replaceChar (old new : Char) (cs : List Char) : List Char :=
  cs.map fun c => if c == old then new else c

end Text

/-- The strings with a separator between neighbours. -/
def joinStrings (sep : Char) (parts : List String) : String :=
  String.ofList (Text.join sep (parts.map String.toList))

/-- Whether a string begins with another. -/
def beginsWith (start s : String) : Bool :=
  start.toList.isPrefixOf s.toList

/-- Whether a string stands somewhere in another. -/
def occursIn (needle s : String) : Bool :=
  Text.contains needle.toList s.toList

/-- The first line of a string. -/
def firstLine? (s : String) : Option String :=
  (Text.lines s.toList).head?.map String.ofList

/-- Lines as a text, each with a line feed after it. -/
def textOfLines (lines : List String) : String :=
  lines.foldr (fun line rest => line ++ "\n" ++ rest) ""

end ProtoBuild
