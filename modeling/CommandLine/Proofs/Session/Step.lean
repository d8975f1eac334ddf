import CommandLine.Proofs.Chain
import CommandLine.Proofs.Reading.Steps
import CommandLine.Session.Turn

/-!
# The step that a session takes on an option

A session that stands at a letter or at a long option takes the step of the one-pass
reading and moves past what that step has read
(`CommandLine.Session.shortOption_eq`, `CommandLine.Session.longOption_eq`). Nothing else
in it changes but the candidates of an ambiguous name.
-/

namespace CommandLine

/-- The candidates of a name that stands for several options. -/
def LongMatch.candidates? : LongMatch → Option Candidates
  | .ambiguous candidates => some candidates
  | _ => none

namespace Session

variable {session : Session} {found : Found}

/-- The tokens behind the next one. -/
def followers (session : Session) : List String :=
  session.tokens.drop (session.next + 1)

/-- The session past what a step on its next token has read, where `after` is the offset
behind the letter that has been read and `letters` is left of the token. -/
def past (session : Session) (extent : Extent) (after : Nat) (letters : List Char) :
    Session :=
  match extent with
  | .letter => session.passLetter after letters
  | .token => session.skip
  | .following => session.skip.skip

/-- A session at the letter `c` of a cluster, which starts at the byte `offset` of its
token and stands before `letters`. -/
structure AtLetter (session : Session) (offset : Nat) (c : Char) (letters : List Char) :
    Prop where
  recognising : session.operandsOnly = false
  started : 1 ≤ offset
  stands : ∃ token start, session.tokens[session.next]? = some token ∧
    TokenKind.ofText token.toList = .shortCluster ∧ token.toList = start ++ c :: letters ∧
    Text.byteLength start = offset

/-- A match of an option of the chain is reported as the reading reports it. -/
theorem report_eq (session : Session) (declared : found ∈ session.chain.options)
    (argument? : Option Value) :
    session.report found argument? =
      .ok ⟨Reading.matchStep session.chain found argument?, session⟩ := by
  obtain ⟨link, stands, _⟩ := Chain.mem_options_iff.mp declared
  unfold report Reading.matchStep
  cases flag : found.decl.flag? with
  | some flag => rfl
  | none =>
      rw [stands]
      cases listens : link.listener? with
      | none => simp only [Option.bind_some, listens]
      | some listener => simp only [Option.bind_some, listens]

/-- An argument that stands apart is taken from the token behind the option. -/
theorem followingArgument_eq (recognising : session.operandsOnly = false)
    (declared : found ∈ session.chain.options) (type : ArgumentType) (option : String)
    (after : Nat) (letters : List Char) :
    session.skip.followingArgument found type option =
      .ok ⟨(Reading.separateArgument session.chain found type option session.followers).1,
        session.past
          (Reading.separateArgument session.chain found type option session.followers).2
          after letters⟩ := by
  have next : session.skip.tokens[session.skip.next]? = session.followers.head? := by
    rw [followers, List.head?_drop]
    rfl
  have latch : session.skip.operandsOnly = false := recognising
  unfold followingArgument
  rw [next, latch]
  have once := report_eq session.skip declared
  have twice := report_eq session.skip.skip declared
  unfold Reading.separateArgument
  cases followers : session.followers with
  | nil =>
      cases optional : found.decl.mode.isOptional with
      | true => exact once none
      | false => rfl
  | cons text rest =>
      simp only [List.head?_cons, classify, Bool.false_eq_true, ↓reduceIte]
      cases kind : TokenKind.ofText text.toList with
      | operand =>
          cases converts : convert type text with
          | ok value =>
              simp only [Option.map_some, converts]
              exact twice (some value)
          | error cause =>
              cases optional : found.decl.mode.isOptional with
              | true =>
                  simp only [Option.map_some, converts, ↓reduceIte]
                  exact once none
              | false =>
                  simp only [Option.map_some, converts, Bool.false_eq_true, ↓reduceIte]
                  rfl
      | absent | terminator | shortCluster | longOption =>
          cases optional : found.decl.mode.isOptional with
          | true =>
              simp only [Option.map_none, ↓reduceIte]
              exact once none
          | false =>
              simp only [Option.map_none, Bool.false_eq_true, ↓reduceIte]
              rfl

/-- An argument in the token of its letter is converted where it stands; what does not
convert may be letters. -/
theorem attached_eq (declared : found ∈ session.chain.options) (type : ArgumentType)
    (option : String) (explicit : Bool) (text : List Char) (after : Nat)
    {letters : List Char} (more : letters ≠ []) :
    (match convert type (String.ofList text) with
      | .ok value => session.skip.report found (some value)
      | .error cause =>
          if found.decl.mode.isOptional ∧ explicit = false then
            { session with pending? := some after }.report found none
          else
            session.skip.reject (.missingArgument option (some cause))) =
      .ok ⟨(Reading.attached session.chain found type option explicit text).1,
        session.past (Reading.attached session.chain found type option explicit text).2
          after letters⟩ := by
  unfold Reading.attached
  cases converts : convert type (String.ofList text) with
  | ok value => exact report_eq session.skip declared (some value)
  | error cause =>
      by_cases optional : found.decl.mode.isOptional = true ∧ explicit = false
      · -- Further letters: the session stays at this token, behind the letter just read.
        have lenient : (found.decl.mode.isOptional && !explicit) = true := by
          simp only [optional, Bool.not_false, Bool.and_true]
        have within : session.past .letter after letters =
            { session with pending? := some after } := by
          cases letters with
          | nil => exact (more rfl).elim
          | cons next letters => rfl
        dsimp only
        rw [if_pos optional, if_pos lenient, within]
        exact report_eq { session with pending? := some after } declared none
      · have strict : (found.decl.mode.isOptional && !explicit) = false := by
          cases leading : found.decl.mode.isOptional <;> cases explicit <;> simp_all
        simp only [optional, strict, ↓reduceIte, Bool.false_eq_true]
        rfl

/-- Reading a letter takes the step of the letter. -/
theorem readLetter_eq (recognising : session.operandsOnly = false) (c : Char) (after : Nat)
    (letters : List Char) :
    session.readLetter c after letters =
      .ok ⟨(Reading.letterStep session.chain c letters session.followers).1,
        session.past (Reading.letterStep session.chain c letters session.followers).2 after
          letters⟩ := by
  unfold readLetter
  cases finds : session.chain.findShort? c with
  | none =>
      rw [Reading.letterStep_of_unknown finds]
      rfl
  | some found =>
      have declared := Chain.mem_options_of_findShort? finds
      dsimp only
      unfold letterOption
      cases takes : found.decl.mode.type? with
      | none =>
          by_cases equals : letters.head? = some '='
          · obtain ⟨text, rfl⟩ := List.head?_eq_some_iff.mp equals
            rw [Reading.letterStep_of_unexpected finds takes]
            simp only [List.head?_cons, ↓reduceIte]
            rfl
          · rw [Reading.letterStep_of_plain finds takes equals]
            simp only [equals, ↓reduceIte]
            cases letters with
            | nil => exact report_eq session.skip declared none
            | cons next letters =>
                exact report_eq { session with pending? := some after } declared none
      | some type =>
          cases letters with
          | nil =>
              rw [Reading.letterStep_of_separate finds takes]
              exact followingArgument_eq recognising declared type _ after []
          | cons next letters =>
              simp only [List.cons_ne_nil, ↓reduceIte]
              by_cases equals : next = '='
              · subst equals
                rw [Reading.letterStep_of_explicit finds takes]
                exact attached_eq declared type _ true letters after (List.cons_ne_nil _ _)
              · have plain : attachedArgument (next :: letters) =
                    (false, String.ofList (next :: letters)) := by
                  unfold attachedArgument
                  split
                  · simp_all
                  · rfl
                rw [plain, Reading.letterStep_of_implicit finds takes equals]
                exact attached_eq declared type _ false (next :: letters) after
                  (List.cons_ne_nil _ _)

/-- **A session at a letter** takes the step of the letter. -/
theorem shortOption_eq {offset : Nat} {c : Char} {letters : List Char}
    (letter : session.AtLetter offset c letters) :
    session.shortOption offset =
      .ok ⟨(Reading.letterStep session.chain c letters session.followers).1,
        session.past (Reading.letterStep session.chain c letters session.followers).2
          (offset + c.utf8Size) letters⟩ := by
  rcases letter.stands with ⟨token, start, stands, _, text, rfl⟩
  have atLetter : Text.dropBytes? (Text.byteLength start) token.toList = some (c :: letters) := by
    rw [text]
    exact Text.dropBytes?_byteLength_append start (c :: letters)
  have behind : Text.dropBytes? (Text.byteLength start + c.utf8Size) token.toList =
      some letters := by
    have split : token.toList = (start ++ [c]) ++ letters := by simp [text]
    have length : Text.byteLength (start ++ [c]) = Text.byteLength start + c.utf8Size := by
      simp
    rw [split, ← length]
    exact Text.dropBytes?_byteLength_append (start ++ [c]) letters
  unfold shortOption
  simp only [stands, atLetter, behind]
  exact readLetter_eq letter.recognising c _ letters

/-- A long name that stands for one option takes the step of the long option. -/
theorem namedOption_eq (recognising : session.operandsOnly = false) {body : List Char}
    (finds : session.chain.findLong (String.ofList (Text.splitFirst '=' body).1) =
      .unique found) :
    session.skip.namedOption found ((Text.splitFirst '=' body).2.map String.ofList) =
      .ok ⟨(Reading.longStep session.chain body session.followers).1,
        session.past (Reading.longStep session.chain body session.followers).2 0 []⟩ := by
  have declared := Chain.mem_options_of_findLong finds
  have once := report_eq session.skip declared
  unfold namedOption
  cases takes : found.decl.mode.type? with
  | none =>
      cases given : (Text.splitFirst '=' body).2 with
      | none =>
          rw [Reading.longStep_of_plain finds takes given]
          exact once none
      | some text =>
          rw [Reading.longStep_of_unexpected finds takes given]
          rfl
  | some type =>
      cases given : (Text.splitFirst '=' body).2 with
      | none =>
          rw [Reading.longStep_of_separate finds takes given]
          exact followingArgument_eq recognising declared type _ 0 []
      | some text =>
          rw [Reading.longStep_of_attached finds takes given]
          simp only [Option.map_some]
          unfold Reading.attached
          cases converts : convert type (String.ofList text) with
          | ok value => exact once (some value)
          | error cause =>
              simp only [Bool.not_true, Bool.and_false, Bool.false_eq_true, ↓reduceIte]
              rfl

/-- **A session at a long option** takes the step of the long option. -/
theorem longOption_eq {token : String} {body : List Char}
    (recognising : session.operandsOnly = false)
    (stands : session.tokens[session.next]? = some token)
    (text : token.toList = '-' :: '-' :: body) :
    session.longOption =
      .ok ⟨(Reading.longStep session.chain body session.followers).1,
        { session.past (Reading.longStep session.chain body session.followers).2 0 [] with
          ambiguous :=
            ((session.chain.findLong (String.ofList (Text.splitFirst '=' body).1)).candidates?).getD
              session.ambiguous }⟩ := by
  have behind : Text.dropBytes? 2 token.toList = some body := by
    rw [text]
    exact Text.dropBytes?_byteLength_append ['-', '-'] body
  unfold longOption
  simp only [stands, behind]
  have sameChain : session.skip.chain = session.chain := rfl
  rw [← Prod.eta (Text.splitFirst '=' body), sameChain]
  dsimp only
  cases finds : session.chain.findLong (String.ofList (Text.splitFirst '=' body).1) with
  | unknown =>
      rw [Reading.longStep_of_unknown finds]
      rfl
  | ambiguous candidates =>
      rw [Reading.longStep_of_ambiguous finds]
      rfl
  | unique found =>
      dsimp only
      rw [namedOption_eq recognising finds]
      cases extent : (Reading.longStep session.chain body session.followers).2 <;> rfl

end Session

end CommandLine
