/-!
# Kinds of tokens

A token of the command line is told apart by how it starts: two hyphens alone end
the options, two hyphens and more start a long option, one hyphen and more start a
cluster of letters, and everything else is an operand. The letters of the tokens bound
the number of steps in which they are read.
-/

namespace CommandLine

/-- What a token is. -/
inductive TokenKind where
  | absent
  /-- Two hyphens, after which everything is an operand. -/
  | terminator
  | shortCluster
  | longOption
  /-- Any other text, a single hyphen and the empty text among them. -/
  | operand
deriving DecidableEq, Repr

/-- What a token is, as long as options are recognised. -/
def TokenKind.ofText : List Char → TokenKind
  | ['-', '-'] => .terminator
  | '-' :: '-' :: _ => .longOption
  | '-' :: _ :: _ => .shortCluster
  | _ => .operand

/-- What a token is. Once options are no longer recognised, all tokens are
operands. -/
def classify (token? : Option String) (operandsOnly : Bool) : TokenKind :=
  match token? with
  | none => .absent
  | some token => if operandsOnly then .operand else .ofText token.toList

@[simp] theorem classify_none (operandsOnly : Bool) :
    classify none operandsOnly = .absent := rfl

@[simp] theorem classify_some_true (token : String) :
    classify (some token) true = .operand := rfl

/-- Nothing but the end of the vector counts as no token. -/
theorem classify_eq_absent_iff {token? : Option String} {operandsOnly : Bool} :
    classify token? operandsOnly = .absent ↔ token? = none := by
  constructor
  · intro absent
    cases token? with
    | none => rfl
    | some token =>
        exfalso
        revert absent
        unfold classify
        dsimp only
        split
        · simp
        · unfold TokenKind.ofText
          split <;> simp
  · rintro rfl
    rfl

namespace TokenKind

/-- Every text is a token of some kind. -/
theorem ofText_ne_absent (text : List Char) : ofText text ≠ .absent := by
  unfold ofText
  split <;> simp

/-- Two hyphens end the options, and no other text does. -/
theorem ofText_eq_terminator_iff {text : List Char} :
    ofText text = .terminator ↔ text = ['-', '-'] := by
  constructor
  · intro kind
    unfold ofText at kind
    split at kind <;> first | rfl | simp at kind
  · rintro rfl
    rfl

/-- A long option has something behind its two hyphens. -/
theorem ofText_eq_longOption_iff {text : List Char} :
    ofText text = .longOption ↔ ∃ c body, text = '-' :: '-' :: c :: body := by
  constructor
  · intro kind
    unfold ofText at kind
    split at kind
    · simp at kind
    · rename_i rest absent
      cases rest with
      | nil => exact (absent rfl).elim
      | cons c body => exact ⟨c, body, rfl⟩
    · simp at kind
    · simp at kind
  · rintro ⟨c, body, rfl⟩
    rfl

/-- A cluster has a letter behind its hyphen, which is not a hyphen itself. -/
theorem ofText_eq_shortCluster_iff {text : List Char} :
    ofText text = .shortCluster ↔ ∃ c letters, text = '-' :: c :: letters ∧ c ≠ '-' := by
  constructor
  · intro kind
    unfold ofText at kind
    split at kind
    · simp at kind
    · simp at kind
    · rename_i c letters _ other
      exact ⟨c, letters, rfl, other⟩
    · simp at kind
  · rintro ⟨c, letters, rfl, other⟩
    unfold ofText
    split <;> simp_all

end TokenKind

/-- The most steps that come before the last one when tokens are read: one for each token,
and one for each letter of a cluster. -/
def stepBound (tokens : List String) : Nat :=
  tokens.foldr (fun token bound => max 1 (token.length - 1) + bound) 0

@[simp] theorem stepBound_nil : stepBound [] = 0 := rfl

/-- A token counts for its letters, and for one step if it has none. -/
theorem stepBound_cons (token : String) (rest : List String) :
    stepBound (token :: rest) = max 1 (token.length - 1) + stepBound rest := rfl

/-- The bounds of two vectors add up to that of both, one behind the other. -/
theorem stepBound_append (before behind : List String) :
    stepBound (before ++ behind) = stepBound before + stepBound behind := by
  induction before with
  | nil => exact (Nat.zero_add _).symm
  | cons token before ih => rw [List.cons_append, stepBound_cons, ih, stepBound_cons, Nat.add_assoc]

end CommandLine
