/-
Byte offsets in a list of characters.

Offsets count the bytes of the UTF-8 form, and an offset names a place between
two characters only if it is the length of a run of leading characters.

* `byteLength` is the length of a text in bytes.
* `splitAtByte?` cuts a text at an offset, and fails past the end and inside a
  character.
* `Position.along` steps over characters of a line without looking at them.
* `Span.slice?` is the text that a span covers.
-/
import FrontEnd.Source.Position

namespace FrontEnd

/-- Bytes of the UTF-8 form of `cs`. -/
def byteLength : List Char → Nat
  | [] => 0
  | c :: cs => c.utf8Size + byteLength cs

/-- Cuts `cs` after exactly `n` bytes. -/
def splitAtByte? : Nat → List Char → Option (List Char × List Char)
  | 0, cs => some ([], cs)
  | _ + 1, [] => none
  | n + 1, c :: cs =>
    if c.utf8Size ≤ n + 1 then
      (splitAtByte? (n + 1 - c.utf8Size) cs).map fun (before, rest) => (c :: before, rest)
    else none

/-- The position `n` bytes after `p` in the text `cs` that starts there, or the
position after all of `cs` if it is shorter. -/
def Position.ahead (p : Position) : Nat → List Char → Position
  | 0, _ => p
  | _ + 1, [] => p
  | n + 1, c :: cs => (p.next c).ahead (n + 1 - c.utf8Size) cs

/-- The position after the characters `cs`, the first of which stands at `p`, when none of
them ends the line. -/
def Position.along (p : Position) (cs : List Char) : Position :=
  ⟨p.offset + byteLength cs, p.line, p.column + cs.length⟩

/-- The part of `source` that `s` covers, for a span inside it that starts and
ends between characters. -/
def Span.slice? (s : Span) (source : String) : Option String := do
  let length ← s.length?
  let (_, rest) ← splitAtByte? s.start.offset source.toList
  let (covered, _) ← splitAtByte? length rest
  return String.ofList covered

@[simp] theorem byteLength_append (cs ds : List Char) :
    byteLength (cs ++ ds) = byteLength cs + byteLength ds := by
  induction cs with
  | nil => simp [byteLength]
  | cons c cs ih => simp [byteLength, ih, Nat.add_assoc]

theorem byteLength_pos {cs : List Char} (h : cs ≠ []) : 0 < byteLength cs := by
  cases cs with
  | nil => exact absurd rfl h
  | cons c cs => exact Nat.lt_of_lt_of_le c.utf8Size_pos (Nat.le_add_right _ _)

/-- Cutting so many bytes behind a leading run cuts what follows the run. -/
theorem splitAtByte?_append_add (cs ds : List Char) (m : Nat) :
    splitAtByte? (byteLength cs + m) (cs ++ ds) =
      (splitAtByte? m ds).map fun (before, rest) => (cs ++ before, rest) := by
  induction cs with
  | nil => simp [byteLength]
  | cons c cs ih =>
    have hpos := c.utf8Size_pos
    obtain ⟨n, hn⟩ : ∃ n, byteLength (c :: cs) + m = n + 1 :=
      ⟨byteLength (c :: cs) + m - 1, by rw [byteLength]; omega⟩
    have hsize : c.utf8Size ≤ n + 1 := by
      rw [← hn, byteLength]
      omega
    have hleft : n + 1 - c.utf8Size = byteLength cs + m := by
      rw [← hn, byteLength]
      omega
    rw [hn, List.cons_append, splitAtByte?, if_pos hsize, hleft, ih, Option.map_map]
    rfl

/-- Cutting after the bytes of a leading run gives that run and the rest. -/
theorem splitAtByte?_append (cs ds : List Char) :
    splitAtByte? (byteLength cs) (cs ++ ds) = some (cs, ds) := by
  simpa [splitAtByte?] using splitAtByte?_append_add cs ds 0

/-- Stepping over a text adds its bytes to the offset. -/
theorem Position.offset_after (p : Position) (cs : List Char) :
    (p.after cs).offset = p.offset + byteLength cs := by
  induction cs generalizing p with
  | nil => simp [byteLength]
  | cons c cs ih =>
    have hnext : (p.next c).offset = p.offset + c.utf8Size := by
      unfold Position.next
      split <;> rfl
    rw [Position.after_cons, ih, hnext, byteLength, Nat.add_assoc]

@[simp] theorem Position.offset_along (p : Position) (cs : List Char) :
    (p.along cs).offset = p.offset + byteLength cs := rfl

/-- Characters of one line are stepped over without looking at them. -/
theorem Position.along_eq_after (p : Position) {cs : List Char} (h : '\n' ∉ cs) :
    p.along cs = p.after cs := by
  induction cs generalizing p with
  | nil => rfl
  | cons c cs ih =>
    rw [List.mem_cons, not_or] at h
    have hnext : p.next c = ⟨p.offset + c.utf8Size, p.line, p.column + 1⟩ :=
      if_neg (Ne.symm h.1)
    rw [after_cons, ← ih _ h.2, hnext]
    simp only [along, byteLength, List.length_cons, mk.injEq, true_and]
    omega

end FrontEnd
