import Mathlib
import CommandLine.Candidates

/-!
# The line of candidates

Of the names that an abbreviation could stand for the first few are kept
(`CommandLine.Candidates.ofNames_eq`). They are shown in a line of less than 64 bytes: in full
when all of them have room and none was left out before, and otherwise as many of the first as
have room in front of the mark for what is left out
(`CommandLine.Candidates.line_shows_what_fits`).
-/

namespace CommandLine

namespace Candidates

/-- Names beyond the first few are left out, which the list tells. -/
theorem ofNames_eq (names : List String) :
    Candidates.ofNames names = ⟨names.take 8, decide (8 < names.length)⟩ := by
  induction names using List.reverseRecOn with
  | nil => rfl
  | append_singleton names name ih =>
      have next : ofNames (names ++ [name]) = (ofNames names).push name := by
        rw [ofNames, List.foldl_append, List.foldl_cons, List.foldl_nil, ofNames]
      have capacity : Candidates.capacity = 8 := rfl
      rw [next, ih, push, List.length_append, List.length_singleton, List.length_take, capacity]
      split
      · next room =>
          have short : names.length < 8 := by omega
          rw [List.take_of_length_le short.le, List.take_of_length_le (by simpa using short)]
          simp [short.le.not_gt, show ¬ 8 < names.length + 1 by omega]
      · next full =>
          have long : 8 ≤ names.length := by omega
          rw [List.take_append_of_le_length long]
          simp [show 8 < names.length + 1 by omega]

/-- All names in one line. -/
def fullLine (names : List String) : String :=
  ", ".intercalate names

/-- The first of the names, each with a separator behind it, and the mark for what is left
out. -/
def cutLine (names : List String) (count : Nat) : String :=
  String.join ((names.take count).map (· ++ ", ")) ++ "..."

/-- A text behind `used` bytes keeps the line below 64 bytes. -/
def HasRoom (used : Nat) (text : String) : Prop :=
  used + text.utf8ByteSize < 64

/-- All names can be shown behind `used` bytes: none was left out before, all but the last have
room in a line that is cut behind them, and the full line has room. -/
structure FullFits (used : Nat) (truncated : Bool) (names : List String) : Prop where
  complete : truncated = false
  others : HasRoom used (cutLine names (names.length - 1))
  full : HasRoom used (fullLine names)

/-- The most names that a cut line can show. Where none was left out before, the mark stands at
least for the last one. -/
def mostShown (truncated : Bool) (names : List String) : Nat :=
  if truncated then names.length else names.length - 1

/-- **A line that shows what has room** behind `used` bytes: all names, or else as many of the
first as have room in a cut line. -/
structure Fills (used : Nat) (truncated : Bool) (names : List String) (line : String) :
    Prop where
  room : HasRoom used line
  full : FullFits used truncated names → line = fullLine names
  cut : ¬ FullFits used truncated names → ∃ count,
    IsGreatest {count | count ≤ mostShown truncated names ∧ HasRoom used (cutLine names count)}
      count ∧
    line = cutLine names count ∧ (truncated = true ∨ count < names.length)

variable {used count : Nat} {truncated : Bool} {name text : String} {names : List String}

@[simp] theorem cutLine_zero (names : List String) : cutLine names 0 = "..." := by
  simp [cutLine]

@[simp] theorem cutLine_cons_succ (name : String) (names : List String) (count : Nat) :
    cutLine (name :: names) (count + 1) = name ++ ", " ++ cutLine names count := by
  simp [cutLine, String.append_assoc]

theorem fullLine_cons (more : names ≠ []) :
    fullLine (name :: names) = name ++ ", " ++ fullLine names :=
  String.intercalate_cons_of_ne_nil more

/-- A name and its separator use up room in front of what follows. -/
theorem hasRoom_append_iff :
    HasRoom used (name ++ ", " ++ text) ↔ HasRoom (used + name.utf8ByteSize + 2) text := by
  have separator : (", " : String).utf8ByteSize = 2 := rfl
  rw [HasRoom, HasRoom, String.utf8ByteSize_append, String.utf8ByteSize_append, separator]
  omega

theorem hasRoom_ellipsis_iff : HasRoom used "..." ↔ used + 3 < 64 := Iff.rfl

/-- Every cut line ends in the mark, so it has room only where the mark has. -/
theorem HasRoom.of_cutLine (room : HasRoom used (cutLine names count)) : used + 3 < 64 := by
  have mark : ("..." : String).utf8ByteSize = 3 := rfl
  rw [HasRoom, cutLine, String.utf8ByteSize_append, mark] at room
  omega

/-- All names are shown when the first one is and the others are behind it. -/
theorem fullFits_cons_iff (more : names ≠ []) :
    FullFits used truncated (name :: names) ↔
      FullFits (used + name.utf8ByteSize + 2) truncated names := by
  obtain ⟨second, rest, rfl⟩ := List.exists_cons_of_ne_nil more
  constructor
  · rintro ⟨complete, others, full⟩
    refine ⟨complete, hasRoom_append_iff.mp ?_, hasRoom_append_iff.mp ?_⟩
    · rw [← cutLine_cons_succ]
      exact others
    · rw [← fullLine_cons more]
      exact full
  · rintro ⟨complete, others, full⟩
    refine ⟨complete, ?_, ?_⟩
    · change HasRoom used (cutLine (name :: second :: rest) (rest.length + 1))
      rw [cutLine_cons_succ]
      exact hasRoom_append_iff.mpr others
    · rw [fullLine_cons more]
      exact hasRoom_append_iff.mpr full

/-- Where not even one name has room in a cut line, the mark alone is shown. -/
theorem fills_ellipsis (room : used + 3 < 64) (unfit : ¬ FullFits used truncated names)
    (nothing : ∀ count, count ≤ mostShown truncated names → HasRoom used (cutLine names count) →
      count = 0)
    (left : truncated = true ∨ 0 < names.length) : Fills used truncated names "..." := by
  refine ⟨hasRoom_ellipsis_iff.mpr room, fun fits => (unfit fits).elim, fun _ => ?_⟩
  refine ⟨0, ⟨⟨Nat.zero_le _, ?_⟩, ?_⟩, (cutLine_zero names).symm, left⟩
  · rw [cutLine_zero]
    exact hasRoom_ellipsis_iff.mpr room
  · rintro count ⟨most, fits⟩
    exact (nothing count most fits).le

/-- A name with a separator is put in front of a line that shows what has room behind it. -/
theorem Fills.cons {line : String}
    (fills : Fills (used + name.utf8ByteSize + 2) truncated names line)
    (more : ¬ (names = [] ∧ truncated = false)) :
    Fills used truncated (name :: names) (name ++ ", " ++ line) := by
  refine ⟨hasRoom_append_iff.mpr fills.room, ?_, ?_⟩
  · intro fits
    have others : names ≠ [] := fun alone => more ⟨alone, fits.complete⟩
    rw [fullLine_cons others, fills.full ((fullFits_cons_iff others).mp fits)]
  · intro unfit
    have still : ¬ FullFits (used + name.utf8ByteSize + 2) truncated names := by
      intro fits
      have others : names ≠ [] := fun alone => more ⟨alone, fits.complete⟩
      exact unfit ((fullFits_cons_iff others).mpr fits)
    obtain ⟨count, ⟨⟨most, fits⟩, greatest⟩, rfl, left⟩ := fills.cut still
    have shown : mostShown truncated (name :: names) = mostShown truncated names + 1 := by
      unfold mostShown
      split
      · rfl
      · next untruncated =>
          have others : names ≠ [] := fun alone => more ⟨alone, by simpa using untruncated⟩
          have positive := List.length_pos_iff.mpr others
          rw [List.length_cons]
          omega
    refine ⟨count + 1, ⟨⟨by omega, ?_⟩, ?_⟩, (cutLine_cons_succ ..).symm, ?_⟩
    · rw [cutLine_cons_succ]
      exact hasRoom_append_iff.mpr fits
    · rintro other ⟨fewer, fits⟩
      cases other with
      | zero => exact Nat.zero_le _
      | succ other =>
          rw [cutLine_cons_succ, hasRoom_append_iff] at fits
          exact Nat.succ_le_succ (greatest ⟨by omega, fits⟩)
    · exact left.imp_right Nat.succ_lt_succ

/-- **Names are shown as long as they have room.** The mark has room behind `used` bytes from the
start, and room for it is kept in front of every name that others follow. -/
theorem fills_renderFrom (truncated : Bool) (names : List String) (room : used + 3 < 64) :
    Fills used truncated names (renderFrom truncated used names) := by
  induction names generalizing used with
  | nil =>
      cases truncated with
      | true =>
          apply fills_ellipsis room _ (by simp [mostShown]) (.inl rfl)
          intro fits
          exact nomatch fits.complete
      | false =>
          have fits : FullFits used false [] := by
            refine ⟨rfl, ?_, ?_⟩
            · exact room
            · exact Nat.lt_of_le_of_lt (Nat.le_add_right used 3) room
          exact ⟨fits.full, fun _ => rfl, fun unfit => (unfit fits).elim⟩
  | cons name names ih =>
      rw [renderFrom]
      split
      · next last =>
          obtain ⟨rfl, rfl⟩ := last
          have full : fullLine [name] = name := String.intercalate_singleton
          split
          · next fits =>
              have whole : FullFits used false [name] := ⟨rfl, room, full.symm ▸ fits⟩
              exact ⟨fits, fun _ => full.symm, fun unfit => (unfit whole).elim⟩
          · next tight =>
              apply fills_ellipsis room
              · intro fits
                exact tight (full ▸ fits.full)
              · simp [mostShown]
              · exact .inr Nat.one_pos
      · next more =>
          split
          · next fits => exact (ih (by change _ < 64 at fits; omega)).cons more
          · next tight =>
              have nothing (count : Nat) :
                  ¬ HasRoom used (cutLine (name :: names) (count + 1)) := by
                intro fits
                rw [cutLine_cons_succ, hasRoom_append_iff] at fits
                have enough := fits.of_cutLine
                change ¬ _ < 64 at tight
                omega
              apply fills_ellipsis room
              · intro fits
                have others : names ≠ [] := fun alone => more ⟨alone, fits.complete⟩
                obtain ⟨second, rest, rfl⟩ := List.exists_cons_of_ne_nil others
                exact nothing rest.length fits.others
              · rintro (_ | count) _ fits
                · rfl
                · exact (nothing count fits).elim
              · exact .inr (Nat.zero_lt_succ _)

/-- **The line of candidates shows what has room.** It is always shorter than 64 bytes, also
where more names were pushed than are kept. It shows all names when none was left out and all have
room, and otherwise the largest number of the first names that has room in front of the mark. -/
theorem line_shows_what_fits (candidates : Candidates) :
    candidates.render.utf8ByteSize < 64 ∧
      Fills 0 candidates.truncated candidates.names candidates.render ∧
      ∀ names, (ofNames names).names = names.take 8 ∧
        ((ofNames names).truncated = true ↔ 8 < names.length) := by
  have fills : Fills 0 candidates.truncated candidates.names candidates.render :=
    fills_renderFrom _ _ (by decide)
  refine ⟨by simpa [HasRoom] using fills.room, fills, fun names => ?_⟩
  rw [ofNames_eq]
  exact ⟨rfl, decide_eq_true_iff⟩

/-- A single name has room up to 63 bytes. -/
example : (Candidates.mk [.ofList (.replicate 63 'n')] false).render = .ofList (.replicate 63 'n') ∧
    (Candidates.mk [.ofList (.replicate 64 'n')] false).render = "..." := by
  decide

end Candidates

end CommandLine
