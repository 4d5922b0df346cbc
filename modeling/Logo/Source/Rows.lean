import Logo.Text.Classes

/-!
# Rows and columns

Messages count the rows of a text from one and its columns from zero.  A row
ends at a line feed, a carriage return, or both together; the other characters
that end a remark do not end a row.
-/

namespace Logo.Source

/-- The offsets just behind each line break, where `offset` is that of the first
character. -/
def breaks (offset : Nat) : List Char → List Nat
  | [] => []
  | '\r' :: '\n' :: rest => (offset + 2) :: breaks (offset + 2) rest
  | c :: rest =>
    if c = '\r' ∨ c = '\n' then (offset + 1) :: breaks (offset + 1) rest
    else breaks (offset + 1) rest

/-- A text with every line break written as a line feed, as it is when it comes
out of a file. -/
def unified : List Char → List Char
  | [] => []
  | '\r' :: '\n' :: rest => '\n' :: unified rest
  | c :: rest => (if c = '\r' then '\n' else c) :: unified rest

/-- The offsets at which the rows up to a given offset start, the last one
nearest to it. -/
def rowStarts (text : List Char) (offset : Nat) : List Nat :=
  0 :: (breaks 0 text).takeWhile (· ≤ offset)

/-- The row, from one, and the column, from zero, of an offset.  Offsets before
the text lie in a row zero, whose columns are counted from the end of the
text. -/
def rowAndColumn (text : List Char) (offset : Int) : Int × Int :=
  if offset < 0 then (0, offset - text.length)
  else
    let starts := rowStarts text offset.toNat
    (starts.length, offset - starts.getLastD 0)

def rowText (text : List Char) (row : Nat) : List Char :=
  let bounds := 0 :: breaks 0 text ++ [text.length]
  let first := bounds.getD (row - 1) 0
  let last := bounds.getD row text.length
  (text.drop first).take (last - first)

/-- The number of a row, set out so that the rows below it line up. -/
def margin (row : Nat) : String :=
  let number := ' ' :: (toString row).toList
  String.ofList (List.replicate (6 - number.length) ' ' ++ number ++ [' ', '|'])

/-- A row with some of its characters underlined and a caption behind the
underline.  The line below keeps the tabs of the row, so that it lines up with
it. -/
def illustration (row : List Char) (first width : Nat)
    (margin caption : String) : String :=
  let blanks :=
    (margin.toList ++ row.take first).map fun c => if c = '\t' then c else ' '
  let marks := List.replicate (max 1 (min width (row.length - first))) '^'
  margin ++ String.ofList (Text.dropEndWhile Text.isBlank row) ++ "\n" ++
    String.ofList (blanks ++ marks) ++ " " ++ caption

end Logo.Source
