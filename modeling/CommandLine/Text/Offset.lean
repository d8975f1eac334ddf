/-!
# Byte offsets

Positions inside a token are counted in UTF-8 bytes. A position is usable when it
falls between two characters; the main statements say that the lengths of the
initial segments are usable positions and that there are no others.
-/

namespace CommandLine

namespace Text

/-- The number of UTF-8 bytes of a text. -/
def byteLength : List Char → Nat
  | [] => 0
  | c :: text => c.utf8Size + byteLength text

@[simp] theorem byteLength_nil : byteLength [] = 0 := rfl

@[simp] theorem byteLength_cons (c : Char) (text : List Char) :
    byteLength (c :: text) = c.utf8Size + byteLength text := rfl

/-- The bytes of two texts add up. -/
@[simp] theorem byteLength_append (left right : List Char) :
    byteLength (left ++ right) = byteLength left + byteLength right := by
  induction left with
  | nil => simp
  | cons c left ih =>
      rw [List.cons_append, byteLength_cons, byteLength_cons, ih, Nat.add_assoc]

/-- The text from a byte offset on. There is none when the offset lies past the
end or inside a character. -/
def dropBytes? : Nat → List Char → Option (List Char)
  | 0, text => some text
  | _ + 1, [] => none
  | offset + 1, c :: text =>
      if c.utf8Size ≤ offset + 1 then
        dropBytes? (offset + 1 - c.utf8Size) text
      else
        none

@[simp] theorem dropBytes?_zero (text : List Char) : dropBytes? 0 text = some text := by
  cases text <;> rfl

/-- What follows the first characters of a text starts at the number of their bytes. -/
theorem dropBytes?_byteLength_append (start rest : List Char) :
    dropBytes? (byteLength start) (start ++ rest) = some rest := by
  induction start with
  | nil => exact dropBytes?_zero rest
  | cons c start ih =>
      have some := Char.utf8Size_pos c
      obtain ⟨offset, named⟩ : ∃ offset, c.utf8Size + byteLength start = offset + 1 :=
        ⟨c.utf8Size + byteLength start - 1, by omega⟩
      rw [byteLength_cons, named, List.cons_append, dropBytes?, if_pos (by omega)]
      rw [show offset + 1 - c.utf8Size = byteLength start by omega]
      exact ih

end Text

end CommandLine
