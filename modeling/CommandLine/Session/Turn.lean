import CommandLine.Session.Basic
import CommandLine.Session.Fault
import CommandLine.Step
import CommandLine.Text.Offset
import CommandLine.Text.Split
import CommandLine.Token

/-!
# One unit of work

A turn reads one letter of a cluster, one long option or one reported operand, and
passes over the operands that stand before it. It yields a step and the session after
the step. Every look at the vector, at a token or at the chain is checked, and what
is not there is a defect.
-/

namespace CommandLine

/-- What a unit of work has led to. -/
structure Turn where
  step : Step
  session : Session

/-- The items with those at two positions exchanged, if both positions hold one. -/
def exchange? {α : Type} (items : List α) (left right : Nat) : Option (List α) :=
  match items[left]?, items[right]? with
  | some leftItem, some rightItem =>
      some ((items.set left rightItem).set right leftItem)
  | _, _ => none

/-- An exchange adds no item and loses none. -/
theorem length_of_exchange?_eq_some {α : Type} {items exchanged : List α}
    {left right : Nat} (exchanges : exchange? items left right = some exchanged) :
    exchanged.length = items.length := by
  unfold exchange? at exchanges
  split at exchanges
  · cases exchanges
    rw [List.length_set, List.length_set]
  · simp at exchanges

namespace Session

/-- Pass over the next token as an operand. All tokens between the cursors have been
read, so the exchange keeps the order of operands and of unread tokens. -/
def compactOperand (session : Session) : Except Defect Session :=
  match exchange? session.tokens session.written session.next with
  | none => .error (.badExchange session.written session.next)
  | some tokens =>
      .ok { session with
        tokens := tokens
        written := session.written + 1
        next := session.next + 1 }

/-- Keep the path and the operands, and read no more. -/
def finish (session : Session) : Session :=
  { session with
    tokens := session.tokens.take session.written
    pending? := none
    phase := .exhausted }

/-- Go on behind the next token. -/
def skip (session : Session) : Session :=
  { session with next := session.next + 1 }

/-- Report a match: to its flag if it has one, else to the listener of its table if
there is one, and else as the outcome. -/
def report (session : Session) (found : Found) (argument? : Option Value) :
    Except Defect Turn :=
  match found.decl.flag? with
  | some flag => .ok ⟨⟨.handled, [.write flag.cell flag.value]⟩, session⟩
  | none =>
      match session.chain.links[found.node]? with
      | none => .error (.noTable found.node)
      | some link =>
          match link.listener? with
          | some listener =>
              .ok ⟨⟨.handled, [.notify ⟨listener, found.decl.code, argument?⟩]⟩, session⟩
          | none => .ok ⟨⟨.matched found.decl.code argument?, []⟩, session⟩

/-- Report an error. -/
def reject (session : Session) (error : ParseError) : Except Defect Turn :=
  .ok ⟨.failure error, session⟩

/-- Take the argument of an option from the next token, when that is an operand. An
option that needs its argument takes the operand even when it does not convert; an
option that can do without leaves it to be read on its own. -/
def followingArgument (session : Session) (found : Found) (type : ArgumentType)
    (option : String) : Except Defect Turn :=
  let following? :=
    match classify session.tokens[session.next]? session.operandsOnly with
    | .operand => session.tokens[session.next]?
    | _ => none
  match following?.map (convert type) with
  | some (.ok value) => session.skip.report found (some value)
  | some (.error cause) =>
      if found.decl.mode.isOptional then
        session.report found none
      else
        session.skip.reject (.missingArgument option (some cause))
  | none =>
      if found.decl.mode.isOptional then
        session.report found none
      else
        session.reject (.missingArgument option none)

/-- Go on behind a letter: to the next letter, or to the next token. -/
def passLetter (session : Session) (after : Nat) (rest : List Char) : Session :=
  match rest with
  | [] => session.skip
  | _ :: _ => { session with pending? := some after }

/-- The argument attached to a letter, and whether an equals sign stands before
it. -/
def attachedArgument : List Char → Bool × String
  | '=' :: value => (true, String.ofList value)
  | rest => (false, String.ofList rest)

/-- Read a letter that names an option; `rest` is what follows it in its token. -/
def letterOption (session : Session) (found : Found) (after : Nat) (rest : List Char) :
    Except Defect Turn :=
  let option := Diagnostic.shortOption found.decl.code
  match found.decl.mode.type? with
  | none =>
      if rest.head? = some '=' then
        session.skip.reject (.unexpectedArgument option)
      else
        (session.passLetter after rest).report found none
  | some type =>
      if rest = [] then
        session.skip.followingArgument found type option
      else
        let (explicit, text) := attachedArgument rest
        match convert type text with
        | .ok value => session.skip.report found (some value)
        | .error cause =>
            if found.decl.mode.isOptional ∧ explicit = false then
              -- What follows is no argument, so it holds further letters.
              { session with pending? := some after }.report found none
            else
              session.skip.reject (.missingArgument option (some cause))

/-- Read the letter `c` that ends at the byte offset `after` of its token, where
`rest` is left of the token. -/
def readLetter (session : Session) (c : Char) (after : Nat) (rest : List Char) :
    Except Defect Turn :=
  match session.chain.findShort? c with
  | none =>
      (session.passLetter after rest).reject
        (.unknownOption (Diagnostic.shortOption c.val))
  | some found => session.letterOption found after rest

/-- Read the letter at a byte offset of the next token. -/
def shortOption (session : Session) (offset : Nat) : Except Defect Turn :=
  match session.tokens[session.next]? with
  | none => .error (.noToken session.next)
  | some token =>
      match Text.dropBytes? offset token.toList with
      | none => .error (.badOffset offset)
      | some [] => .error .emptyCluster
      | some (c :: _) =>
          match Text.dropBytes? (offset + c.utf8Size) token.toList with
          | none => .error (.badOffset (offset + c.utf8Size))
          | some rest => session.readLetter c (offset + c.utf8Size) rest

/-- Read a long option that a name stands for. -/
def namedOption (session : Session) (found : Found) (value? : Option String) :
    Except Defect Turn :=
  let option := Diagnostic.longOption found.decl.long
  match found.decl.mode.type?, value? with
  | none, some _ => session.reject (.unexpectedArgument option)
  | none, none => session.report found none
  | some type, some text =>
      match convert type text with
      | .ok value => session.report found (some value)
      | .error cause => session.reject (.missingArgument option (some cause))
  | some type, none => session.followingArgument found type option

/-- Read the next token as a long option. -/
def longOption (session : Session) : Except Defect Turn :=
  match session.tokens[session.next]? with
  | none => .error (.noToken session.next)
  | some token =>
      match Text.dropBytes? 2 token.toList with
      | none => .error (.badOffset 2)
      | some body =>
          let (name, value?) := Text.splitFirst '=' body
          let session := session.skip
          match session.chain.findLong (String.ofList name) with
          | .unknown =>
              session.reject
                (.unknownOption (Diagnostic.longOption (String.ofList body)))
          | .ambiguous candidates =>
              { session with ambiguous := candidates }.reject
                (.ambiguous (Diagnostic.longOption (String.ofList body))
                  candidates.render)
          | .unique found => session.namedOption found (value?.map String.ofList)

/-- Report the next token as an operand; its text leaves the vector. -/
def takeOperand (session : Session) : Except Defect Turn :=
  match session.tokens[session.next]? with
  | none => .error (.noToken session.next)
  | some text =>
      .ok ⟨{ outcome := .operand text },
        { session with
          tokens := session.tokens.set session.next ""
          next := session.next + 1 }⟩

/-- Passing over an operand moves on by one token. -/
theorem next_of_compactOperand_eq_ok {session compacted : Session}
    (compacts : session.compactOperand = .ok compacted) :
    compacted.next = session.next + 1 := by
  unfold compactOperand at compacts
  split at compacts
  · simp at compacts
  · cases compacts
    rfl

/-- Passing over an operand leaves as many tokens in the vector. -/
theorem length_tokens_of_compactOperand_eq_ok {session compacted : Session}
    (compacts : session.compactOperand = .ok compacted) :
    compacted.tokens.length = session.tokens.length := by
  unfold compactOperand at compacts
  split at compacts
  · simp at compacts
  · next exchanges =>
      cases compacts
      exact length_of_exchange?_eq_some exchanges

/-- A token of some kind stands inside the vector. -/
theorem next_lt_of_classify_eq {session : Session} {operandsOnly : Bool}
    {kind : TokenKind}
    (same : classify session.tokens[session.next]? operandsOnly = kind)
    (present : kind ≠ .absent) : session.next < session.tokens.length := by
  refine Nat.lt_of_not_le fun outside => present ?_
  rw [← same, List.getElem?_eq_none outside]
  rfl

/-- Read from the start of a token on: pass over operands, and over the two hyphens
that end the options, until something is to be reported. -/
def scan (session : Session) : Except Defect Turn :=
  match _kind : classify session.tokens[session.next]? session.operandsOnly with
  | .absent => .ok ⟨.ending, session.finish⟩
  | .shortCluster => session.shortOption 1
  | .longOption => session.longOption
  | .terminator => scan { session with operandsOnly := true, next := session.next + 1 }
  | .operand =>
      match session.order with
      | .returnInOrder => session.takeOperand
      | .permute =>
          match _compacts : session.compactOperand with
          | .error defect => .error defect
          | .ok compacted => scan compacted
      | .requireOrder =>
          match _compacts : { session with operandsOnly := true }.compactOperand with
          | .error defect => .error defect
          | .ok compacted => scan compacted
termination_by session.tokens.length - session.next
decreasing_by
  · have inside := next_lt_of_classify_eq _kind (by decide)
    omega
  · have inside := next_lt_of_classify_eq _kind (by decide)
    have moved := next_of_compactOperand_eq_ok _compacts
    have length := length_tokens_of_compactOperand_eq_ok _compacts
    omega
  · have inside := next_lt_of_classify_eq _kind (by decide)
    have moved := next_of_compactOperand_eq_ok _compacts
    have length := length_tokens_of_compactOperand_eq_ok _compacts
    dsimp only at moved length
    omega

/-- One unit of work, from inside a cluster or from the start of a token. Candidates
of an earlier turn are forgotten, and a session that is exhausted stays so. -/
def turn (session : Session) : Except Defect Turn :=
  let session := { session with ambiguous := .empty }
  match session.phase with
  | .exhausted => .ok ⟨.ending, session⟩
  | _ =>
      match session.pending? with
      | some offset => { session with pending? := none }.shortOption offset
      | none => session.scan

/-- Pass over all tokens that are left as operands. -/
def compactRest (session : Session) : Except Defect Session :=
  if session.next < session.tokens.length then
    match _compacts : session.compactOperand with
    | .error defect => .error defect
    | .ok compacted => compactRest compacted
  else
    .ok session
termination_by session.tokens.length - session.next
decreasing_by
  have moved := next_of_compactOperand_eq_ok _compacts
  have length := length_tokens_of_compactOperand_eq_ok _compacts
  omega

/-- Recognise no more options: every token that is left, and a cluster that has been
read in part, becomes an operand. -/
def abort (session : Session) : Except Defect Session :=
  match session.phase with
  | .exhausted => .ok session
  | _ =>
      match session.compactRest with
      | .error defect => .error defect
      | .ok compacted => .ok compacted.finish

/-- Give up the tokens and the tables that have been added. The name, the order and
the table of the program stay. -/
def release (session : Session) : Session :=
  match session.phase with
  | .released => session
  | _ =>
      { session with
        chain := ⟨session.chain.primary, []⟩
        tokens := []
        next := 1
        written := 1
        pending? := none
        ambiguous := .empty
        phase := .released }

end Session

end CommandLine
