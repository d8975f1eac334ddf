/-!
# Splitting at a separator

A text is cut at the first separator, which separates a name from its value, or
after the last one, which leaves the base name of a path.
-/

namespace CommandLine

namespace Text

/-- What stands before the first separator, and what stands after it when there is
one. -/
def splitFirst (separator : Char) : List Char → List Char × Option (List Char)
  | [] => ([], none)
  | c :: text =>
      if c = separator then
        ([], some text)
      else
        (c :: (splitFirst separator text).1, (splitFirst separator text).2)

/-- What stands after the last separator, or the whole text when there is none. -/
def afterLast (separator : Char) (text : List Char) : List Char :=
  (text.reverse.takeWhile (· ≠ separator)).reverse

/-- Without a separator the whole text stands before it. -/
theorem splitFirst_of_not_mem {separator : Char} {text : List Char}
    (absent : separator ∉ text) : splitFirst separator text = (text, none) := by
  induction text with
  | nil => rfl
  | cons c text ih =>
      rw [List.mem_cons, not_or] at absent
      rw [splitFirst, if_neg (Ne.symm absent.1), ih absent.2]

/-- The first separator is the one that cuts, whatever other separators the value holds. -/
theorem splitFirst_append {separator : Char} {name : List Char}
    (absent : separator ∉ name) (value : List Char) :
    splitFirst separator (name ++ separator :: value) = (name, some value) := by
  induction name with
  | nil => rw [List.nil_append, splitFirst, if_pos rfl]
  | cons c name ih =>
      rw [List.mem_cons, not_or] at absent
      rw [List.cons_append, splitFirst, if_neg (Ne.symm absent.1), ih absent.2]

/-- The name in front holds no separator. -/
theorem separator_not_mem_splitFirst (separator : Char) (text : List Char) :
    separator ∉ (splitFirst separator text).1 := by
  induction text with
  | nil => exact List.not_mem_nil
  | cons c text ih =>
      rw [splitFirst]
      split
      · exact List.not_mem_nil
      · next other =>
          rw [List.mem_cons, not_or]
          exact ⟨Ne.symm other, ih⟩

end Text

end CommandLine
