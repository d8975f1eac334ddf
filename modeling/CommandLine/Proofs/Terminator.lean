import CommandLine.Proofs.Completion
import CommandLine.Proofs.Reading.Lookahead
import CommandLine.Proofs.Session.Scan

/-!
# The end of the options

Two hyphens alone end the options. What stands before them is read as though nothing came
after, and what stands after them is operands as it is
(`CommandLine.Reading.ofTokens_terminated`).
-/

namespace CommandLine

/-- The token that ends the options. -/
def terminator : String := "--"

theorem ofText_terminator : TokenKind.ofText terminator.toList = .terminator := by
  decide

theorem eq_terminator_of_kind {token : String}
    (kind : TokenKind.ofText token.toList = .terminator) : token = terminator :=
  String.toList_inj.mp (TokenKind.ofText_eq_terminator_iff.mp kind)

namespace Reading

variable {chain : Chain} {order : OperandOrder}

/-- A reading that goes on with another one where it ends. -/
def followedBy (first second : Reading) : Reading :=
  ⟨first.steps.dropLast ++ second.steps, first.operands ++ second.operands⟩

/-- A reading with the two hyphens and further tokens behind it. When an operand has ended
the options before, the hyphens are an operand like others. -/
def terminated (order : OperandOrder) (after : List String) (reading : Reading) : Reading :=
  reading.followedBy <|
    if order = .requireOrder ∧ reading.operands ≠ [] then
      ofOperands order (terminator :: after)
    else
      ofOperands order after

/-- Behind a command line without tokens, the hyphens are the first to be read. -/
theorem terminated_ended (order : OperandOrder) (after : List String) :
    terminated order after ended = ofOperands order after := by
  unfold terminated
  rw [if_neg fun both => both.2 rfl]
  rfl

/-- A step stays in front when the hyphens are put behind the reading. -/
theorem terminated_afterStep (after : List String) (step : Step) {reading : Reading}
    (unfinished : reading.steps ≠ []) :
    terminated order after (afterStep step reading) =
      afterStep step (terminated order after reading) := by
  unfold terminated followedBy
  rw [steps_afterStep, List.dropLast_cons_of_ne_nil unfinished]
  rfl

/-- A gathered operand stays in front as well, as it does not end the options. -/
theorem terminated_afterOperand (after : List String) (operand : String) (reading : Reading) :
    terminated .permute after (afterOperand operand reading) =
      afterOperand operand (terminated .permute after reading) := rfl

/-- Once an operand has ended the options, the hyphens are an operand among the others. -/
theorem terminated_ofOperands_requireOrder (token : String) (rest after : List String) :
    terminated .requireOrder after (ofOperands .requireOrder (token :: rest)) =
      ofOperands .requireOrder (token :: rest ++ terminator :: after) := by
  have passes := @ofOperands_of_ne .requireOrder (by simp)
  rw [passes, terminated, if_pos ⟨rfl, List.cons_ne_nil token rest⟩, passes, passes]
  rfl

theorem Ends.steps_ne_nil {reading : Reading} (ends : reading.Ends) : reading.steps ≠ [] := by
  rcases ends with ⟨before, steps, _⟩
  rw [steps]
  exact List.append_ne_nil_of_right_ne_nil before (List.cons_ne_nil _ _)

/-- Reading a cluster takes a step, as it has a letter. -/
theorem steps_ofLetters_ne_nil (c : Char) (letters : List Char) (rest : List String) :
    (ofLetters chain order c letters rest).steps ≠ [] := by
  rw [ofLetters.eq_def]
  exact List.cons_ne_nil _ _

/-- The two hyphens are no argument for the option in front of them. -/
theorem offersNothing_terminator (after : List String) : OffersNothing (terminator :: after) := by
  apply offersNothing_cons
  rw [ofText_terminator]
  simp

/-- What is put behind the tokens of an option stays behind those that it leaves. -/
theorem remaining_append {extent : Extent} {rest : List String}
    (behind : extent = .following → rest ≠ []) (tail : List String) :
    extent.remaining (rest ++ tail) = extent.remaining rest ++ tail := by
  cases extent with
  | letter => rfl
  | token => rfl
  | following =>
      cases rest with
      | nil => exact (behind rfl rfl).elim
      | cons text rest => rfl

/-- Putting the hyphens behind a cluster is putting them behind what its letters leave. -/
theorem ofLetters_terminated {rest after : List String}
    (behind : ∀ extent : Extent,
      ofTokens chain order (extent.remaining rest ++ terminator :: after) =
        terminated order after (ofTokens chain order (extent.remaining rest)))
    (c : Char) (letters : List Char) :
    ofLetters chain order c letters (rest ++ terminator :: after) =
      terminated order after (ofLetters chain order c letters rest) := by
  have same (c : Char) (letters : List Char) :
      letterStep chain c letters (rest ++ terminator :: after) = letterStep chain c letters rest :=
    letterStep_append (offersNothing_terminator after) c letters
  have token (c : Char) (letters : List Char)
      (extent : (letterStep chain c letters rest).2 = .letter → letters = []) :
      ofLetters chain order c letters (rest ++ terminator :: after) =
        terminated order after (ofLetters chain order c letters rest) := by
    rw [ofLetters_of_token c letters _ (same c letters ▸ extent), same,
      remaining_append rest_ne_nil_of_letterStep, behind, ofLetters_of_token c letters _ extent,
      terminated_afterStep]
    exact (ofTokens_ends chain order _).steps_ne_nil
  induction letters generalizing c with
  | nil => exact token c [] fun _ => rfl
  | cons next letters ih =>
      by_cases extent : (letterStep chain c (next :: letters) rest).2 = .letter
      · rw [ofLetters_of_letter c next letters _ (same c _ ▸ extent), same, ih,
          ofLetters_of_letter c next letters _ extent, terminated_afterStep]
        exact steps_ofLetters_ne_nil next letters rest
      · exact token c (next :: letters) fun stops => (extent stops).elim

/-- **What stands before the end of the options** is read as though nothing came after. -/
theorem ofTokens_terminated {before : List String} (clear : terminator ∉ before)
    (after : List String) :
    ofTokens chain order (before ++ terminator :: after) =
      terminated order after (ofTokens chain order before) := by
  induction before using tokens_induction with
  | nil =>
      rw [List.nil_append, ofTokens_of_terminator after ofText_terminator, ofTokens_nil,
        terminated_ended]
  | cons token rest ih =>
      rw [List.mem_cons, not_or] at clear
      have behind (extent : Extent) := by
        apply ih (extent.remaining rest) (extent.length_remaining_le rest)
        intro member
        apply clear.2
        cases extent with
        | letter => exact member
        | token => exact member
        | following => exact List.mem_of_mem_tail member
      rw [List.cons_append]
      cases kind : TokenKind.ofText token.toList with
      | absent => exact (TokenKind.ofText_ne_absent _ kind).elim
      | terminator => exact (clear.1 (eq_terminator_of_kind kind).symm).elim
      | longOption =>
          obtain ⟨c, body, text⟩ := TokenKind.ofText_eq_longOption_iff.mp kind
          rw [ofTokens_of_longOption _ text, longStep_append (offersNothing_terminator after),
            remaining_append rest_ne_nil_of_longStep, behind, ofTokens_of_longOption rest text,
            terminated_afterStep]
          exact (ofTokens_ends chain order _).steps_ne_nil
      | shortCluster =>
          obtain ⟨c, letters, text, letter⟩ := TokenKind.ofText_eq_shortCluster_iff.mp kind
          rw [ofTokens_of_shortCluster _ text letter, ofTokens_of_shortCluster rest text letter]
          exact ofLetters_terminated behind c letters
      | operand =>
          have others := ih rest (Nat.le_refl _) clear.2
          rw [ofTokens_of_operand _ kind, ofTokens_of_operand rest kind]
          cases order with
          | permute =>
              dsimp only
              rw [terminated_afterOperand, others]
          | requireOrder => exact (terminated_ofOperands_requireOrder token rest after).symm
          | returnInOrder =>
              dsimp only
              rw [others, terminated_afterStep]
              exact (ofTokens_ends chain .returnInOrder rest).steps_ne_nil

/-- Where operands are gathered, the steps of a reading stay as they are when operands follow it. -/
theorem Ends.followedBy_of_ne {reading : Reading} (ends : reading.Ends)
    (gathers : order ≠ .returnInOrder) (tokens : List String) :
    reading.followedBy (ofOperands order tokens) =
      ⟨reading.steps, reading.operands ++ tokens⟩ := by
  rcases ends with ⟨before, steps, _⟩
  rw [ofOperands_of_ne gathers, followedBy, steps, List.dropLast_concat]

/-- Where operands are reported, each is a step of its own. -/
theorem ofOperands_returnInOrder (tokens : List String) :
    ofOperands .returnInOrder tokens =
      ⟨tokens.map (fun text => { outcome := .operand text }) ++ [.ending], []⟩ := by
  induction tokens with
  | nil => rfl
  | cons token rest ih =>
      rw [ofOperands_cons_returnInOrder, ih]
      rfl

end Reading

/-- What a turn can have read of a vector in which the two hyphens stand at a position: as
long as options are recognised, nothing from there on, and options are recognised when the
turn has read one. -/
structure Turn.Confined (limit : Nat) (turn : Turn) : Prop where
  within : turn.session.operandsOnly = false → turn.session.next ≤ limit
  recognising : turn.step.outcome.isDone = false → turn.step.operand? = none →
    turn.session.operandsOnly = false

/-- A turn on an option is confined when it ends in front of the hyphens and recognises options
there. -/
theorem Turn.Confined.of_option {limit : Nat} {turn : Turn}
    (reach : turn.session.operandsOnly = false ∧ turn.session.next ≤ limit) :
    turn.Confined limit :=
  ⟨fun _ => reach.2, fun _ _ => reach.1⟩

namespace Session

variable {original : List String} {session : Session} {limit : Nat}

/-- A session that stands before the two hyphens, at a token other than them. -/
theorem Layout.next_lt (layout : session.Layout original)
    (stands : original[limit]? = some terminator) (within : session.next ≤ limit)
    {token : String} {rest : List String}
    (unread : session.tokens.drop session.next = token :: rest)
    (other : TokenKind.ofText token.toList ≠ .terminator) : session.next < limit := by
  apply Nat.lt_of_le_of_ne within
  intro same
  have here := getElem?_of_drop_eq (layout.unread.symm.trans unread)
  rw [same, stands] at here
  apply other
  rw [← Option.some.inj here, ofText_terminator]

/-- A session that stands before the two hyphens is so behind an operand. -/
theorem Layout.next_lt_of_operand (layout : session.Layout original)
    (stands : original[limit]? = some terminator)
    (within : session.operandsOnly = false → session.next ≤ limit) {token : String}
    {rest : List String} (unread : session.tokens.drop session.next = token :: rest)
    (kind : classify (some token) session.operandsOnly = .operand)
    (recognising : session.operandsOnly = false) : session.next < limit := by
  rw [recognising] at kind
  change TokenKind.ofText token.toList = .operand at kind
  exact layout.next_lt stands (within recognising) unread (by simp [kind])

/-- An option before the two hyphens reads no more than what stands before them. -/
theorem Layout.past_within (layout : session.Layout original)
    (between : session.pending? = none) (recognising : session.operandsOnly = false)
    (stands : original[limit]? = some terminator) (within : session.next < limit)
    {extent : Extent}
    (behind : extent = .following →
      ∃ text rest, session.followers = text :: rest ∧ TokenKind.ofText text.toList = .operand)
    (after : Nat) (letters : List Char) :
    (session.past extent after letters).operandsOnly = false ∧
      (session.past extent after letters).next ≤ limit := by
  cases extent with
  | letter =>
      cases letters with
      | nil => exact ⟨recognising, within⟩
      | cons next letters => exact ⟨recognising, Nat.le_of_lt within⟩
  | token => exact ⟨recognising, within⟩
  | following =>
      obtain ⟨text, rest, followers, kind⟩ := behind rfl
      have more : session.next + 1 ≤ session.tokens.length := by
        by_contra beyond
        rw [Session.followers, List.drop_eq_nil_of_le (by omega)] at followers
        simp at followers
      exact ⟨recognising, (layout.forward between more).next_lt stands within followers
        (by simp [kind])⟩

/-- Reading a letter does not reach the hyphens, which no option takes for its argument. -/
theorem Layout.confined_shortOption (layout : session.Layout original)
    (between : session.pending? = none) (stands : original[limit]? = some terminator)
    (within : session.next ≤ limit) {offset : Nat} {c : Char} {letters : List Char}
    (letter : session.AtLetter offset c letters) {turn : Turn}
    (reads : session.shortOption offset = .ok turn) : turn.Confined limit := by
  rcases letter.stands with ⟨token, start, here, kind, _, _⟩
  have before : session.next < limit := by
    obtain ⟨place, rfl⟩ := List.getElem?_eq_some_iff.mp here
    exact layout.next_lt stands within (List.drop_eq_getElem_cons place) (by simp [kind])
  cases reads.symm.trans (shortOption_eq letter)
  exact .of_option (layout.past_within between letter.recognising stands before
    Reading.exists_operand_of_letterStep _ _)

/-- Scanning reads an option only before the two hyphens. -/
theorem Scans.confined {turn : Turn} (scans : session.Scans turn) (layout : session.Layout original)
    (between : session.pending? = none) (stands : original[limit]? = some CommandLine.terminator)
    (within : session.operandsOnly = false → session.next ≤ limit) : turn.Confined limit := by
  induction scans with
  | ending => exact ⟨within, fun unfinished => nomatch unfinished⟩
  | terminator unread kind _ ih =>
      exact ih (layout.behindTerminator between unread) between
        (fun recognising => nomatch recognising)
  | gathered unread kind gathers passes _ ih =>
      apply ih (layout.behindOperand gathers between unread passes) between
      intro recognising
      have before := (Bool.or_eq_false_iff.mp recognising).1
      exact layout.next_lt_of_operand stands within unread kind before
  | reported unread kind =>
      exact ⟨layout.next_lt_of_operand stands within unread kind, fun _ shown => nomatch shown⟩
  | long unread kind reads =>
      obtain ⟨recognising, long⟩ := recognising_of_classify kind (by simp)
      obtain ⟨c, body, text⟩ := TokenKind.ofText_eq_longOption_iff.mp long
      have before := layout.next_lt stands (within recognising) unread (by simp [long])
      cases reads.symm.trans (longOption_eq recognising (getElem?_of_drop_eq unread) text)
      exact .of_option (layout.past_within between recognising stands before
        Reading.exists_operand_of_longStep _ _)
  | cluster unread kind reads =>
      obtain ⟨recognising, c, letters, text, first⟩ := recognising_of_shortCluster kind
      exact layout.confined_shortOption between stands (within recognising)
        (.of_cluster unread recognising text first) reads

/-- Every turn is confined, as a scan stops being one that recognises options at the hyphens. -/
theorem Alive.confined_turn (alive : session.Alive original) {turn : Turn}
    (turns : session.turn = .ok turn) (stands : original[limit]? = some terminator)
    (within : session.operandsOnly = false → session.next ≤ limit) : turn.Confined limit := by
  cases alive with
  | exhausted phase stored =>
      cases turns.symm.trans (turn_of_exhausted phase)
      exact ⟨within, fun unfinished => nomatch unfinished⟩
  | scanning phase layout =>
      cases layout.takesTurn phase turns with
      | scan between scans => exact scans.confined (layout.cleared between) between stands within
      | letter _ letter reads =>
          exact layout.resumed.confined_shortOption rfl stands (within letter.recognising)
            letter.resumed reads

end Session

/-- In no call that parses does an option read the two hyphens or what stands behind them. -/
theorem Live.confined_parses {original : List String} {live : Live} {limit : Nat}
    (alive : live.session.Alive original) (stands : original[limit]? = some terminator)
    (within : live.session.next ≤ limit) (count : Nat) {turn : Turn}
    (turns : (live.after (List.replicate count .parse)).session.turn = .ok turn) :
    turn.Confined limit := by
  have keeps : ∀ {session : Session} {turn : Turn}, session.Alive original →
      (session.operandsOnly = false → session.next ≤ limit) → session.turn = .ok turn →
      turn.session.operandsOnly = false → turn.session.next ≤ limit := by
    intro session turn alive within turns
    exact (alive.confined_turn turns stands within).within
  obtain ⟨last, confines⟩ := Live.after_parses keeps alive (fun _ => within) count
  exact last.confined_turn turns stands confines

/-- How a run changes when the two hyphens and further tokens are put behind its command
line: the further tokens become operands, and so do the hyphens once an operand has ended the
options before them. -/
def Run.Terminated (after : List String) (short long : Run) : OperandOrder → Prop
  | .permute =>
      long.steps = short.steps ∧ long.session.operands = short.session.operands ++ after
  | .returnInOrder =>
      ∃ steps, short.steps = steps ++ [.ending] ∧
        long.steps = steps ++ after.map (fun text => { outcome := .operand text }) ++ [.ending]
  | .requireOrder =>
      long.steps = short.steps ∧
        long.session.operands =
          if short.session.operands = [] then
            after
          else
            short.session.operands ++ terminator :: after

/-- Two runs compare as the readings whose steps and operands they have. -/
theorem Run.terminated_of_reading {reading : Reading} (ends : reading.Ends)
    {order : OperandOrder} {after : List String} {short long : Run}
    (shortSteps : short.steps = reading.steps)
    (shortOperands : short.session.operands = reading.operands)
    (longSteps : long.steps = (reading.terminated order after).steps)
    (longOperands : long.session.operands = (reading.terminated order after).operands) :
    short.Terminated after long order := by
  cases order with
  | permute =>
      rw [Reading.terminated, if_neg (by simp), ends.followedBy_of_ne (by simp)]
        at longSteps longOperands
      rw [← shortSteps] at longSteps
      rw [← shortOperands] at longOperands
      exact ⟨longSteps, longOperands⟩
  | returnInOrder =>
      rcases ends with ⟨steps, same, _⟩
      rw [Reading.terminated, if_neg (by simp), Reading.ofOperands_returnInOrder,
        Reading.followedBy, same, List.dropLast_concat] at longSteps
      refine ⟨steps, shortSteps.trans same, ?_⟩
      rw [longSteps, List.append_assoc]
  | requireOrder =>
      unfold Reading.terminated at longSteps longOperands
      by_cases none : reading.operands = []
      · rw [if_neg fun both => both.2 none, ends.followedBy_of_ne (by simp)]
          at longSteps longOperands
        refine ⟨longSteps.trans shortSteps.symm, ?_⟩
        rw [shortOperands, if_pos none, longOperands, none, List.nil_append]
      · rw [if_pos ⟨rfl, none⟩, ends.followedBy_of_ne (by simp)] at longSteps longOperands
        refine ⟨longSteps.trans shortSteps.symm, ?_⟩
        rw [shortOperands, if_neg none, longOperands]

namespace Setup

variable {setup : Setup} {table : OptionTable} {libraries : List Link}

/-- **The two hyphens end the options.** What stands before them is read as it would be if
the command line ended there, and all that stands behind them is operands as it is. Whenever
a call reads an option, it has read nothing from the hyphens on. -/
theorem runs_around_terminator (usable : setup.separator ≠ '\x00') (valid : table.Valid)
    (added : ∀ link ∈ libraries, link.table.Valid) (path : String) {before : List String}
    (clear : terminator ∉ before) (after : List String) (host : Host) :
    ∃ short long : Run,
      setup.Runs table libraries (path :: before) host short ∧
      setup.Runs table libraries (path :: (before ++ terminator :: after)) host long ∧
      short.Terminated after long (setup.order table) ∧
      ∀ live, setup.launch table libraries (path :: (before ++ terminator :: after)) host =
          .ok live →
        ∀ count turn, (live.after (List.replicate count .parse)).session.turn = .ok turn →
          turn.step.outcome.isDone = false → turn.step.operand? = none →
            turn.session.next ≤ before.length + 1 := by
  obtain ⟨short, shortRuns, shortSteps, shortOperands⟩ :=
    exists_runs usable valid added (path :: before) host
  obtain ⟨long, longRuns, longSteps, longOperands⟩ :=
    exists_runs usable valid added (path :: (before ++ terminator :: after)) host
  refine ⟨short, long, shortRuns, longRuns, ?_, ?_⟩
  · have ends : (setup.reading table libraries (path :: before)).Ends :=
      Reading.ofTokens_ends _ _ _
    have terminated : setup.reading table libraries (path :: (before ++ terminator :: after)) =
        .terminated (setup.order table) after (setup.reading table libraries (path :: before)) :=
      Reading.ofTokens_terminated clear after
    rw [terminated] at longSteps longOperands
    exact Run.terminated_of_reading ends shortSteps shortOperands longSteps longOperands
  · intro live launches count turn turns unfinished option
    rw [launch_of_valid usable valid added] at launches
    cases launches
    have alive := (setup.session_alive table (path :: (before ++ terminator :: after))).rechained
      ⟨table, libraries⟩
    have stands : (path :: (before ++ terminator :: after))[before.length + 1]? =
        some terminator := by
      rw [List.getElem?_cons_succ, List.getElem?_append_right (Nat.le_refl _), Nat.sub_self]
      rfl
    have confined := @Live.confined_parses _ ⟨_, _⟩ _ alive stands (Nat.le_add_left 1 _) count _
      turns
    exact confined.within (confined.recognising unfinished option)

/-- An option that still looks for its argument finds none in the two hyphens, and what stands
behind them is no option. -/
theorem runs_around_terminator_lookahead :
    ∃ short long : Run,
      ({} : Setup).Runs ⟨[.short 'v', (OptionDecl.short 'f').required .text]⟩ []
        ["prog", "a", "-f"] ⟨fun _ => 0, []⟩ short ∧
      ({} : Setup).Runs ⟨[.short 'v', (OptionDecl.short 'f').required .text]⟩ []
        ["prog", "a", "-f", "--", "-v", "--"] ⟨fun _ => 0, []⟩ long ∧
      long.steps = short.steps ∧
      long.session.operands = short.session.operands ++ ["-v", "--"] := by
  obtain ⟨short, long, shortRuns, longRuns, terminated, _⟩ := @runs_around_terminator {}
    ⟨[.short 'v', (OptionDecl.short 'f').required .text]⟩ [] (by decide) (by decide) (by decide)
    "prog" ["a", "-f"] (by decide) ["-v", "--"] ⟨fun _ => 0, []⟩
  exact ⟨short, long, shortRuns, longRuns, terminated⟩

end Setup

end CommandLine
