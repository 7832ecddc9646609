/-
The line of a text that holds a byte offset.

Lines keep the line feed that ends them.  An offset at the very end of the text
lies on no line: it is answered by an empty line after the last one.

* `splitLines` cuts a text into its lines.
* `lineAt?` finds a line by an offset, and fails only past the end.
-/
import FrontEnd.Source.Bytes

namespace FrontEnd

/-- Cuts `cs` after every line feed; there is no empty last line. -/
def splitLines : List Char → List (List Char)
  | [] => []
  | c :: cs =>
    if c = '\n' then [c] :: splitLines cs
    else match splitLines cs with
      | [] => [[c]]
      | line :: lines => (c :: line) :: lines

/-- A line of a text, and a place on it. -/
structure Line where
  /-- Counted from one. -/
  number : Nat
  /-- The line with the line feed that ends it. -/
  text : List Char
  /-- Bytes between the start of the line and the place. -/
  offset : Nat
deriving DecidableEq, Repr

/-- The line among `lines`, numbered from `number`, that holds the byte `offset`
counted from the first of them; the empty line after them if none does. -/
def lineIn (number offset : Nat) : List (List Char) → Line
  | [] => ⟨number, [], 0⟩
  | line :: lines =>
    if offset < byteLength line then ⟨number, line, offset⟩
    else lineIn (number + 1) (offset - byteLength line) lines

/-- The line of `content` that holds the byte `offset`. -/
def lineAt? (content : String) (offset : Nat) : Option Line :=
  let cs := content.toList
  if byteLength cs < offset then none else some (lineIn 1 offset (splitLines cs))

/-- The lines put end to end are the text. -/
theorem flatten_splitLines (cs : List Char) : (splitLines cs).flatten = cs := by
  induction cs with
  | nil => rfl
  | cons c cs ih =>
    unfold splitLines
    split
    · simp [ih]
    · split
      · next h => simp [h] at ih; simp [ih]
      · next h => simp [h] at ih; simp [ih]

end FrontEnd
