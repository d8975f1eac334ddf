import CommandLine.Proofs.Session.Encounter

/-!
# Sessions over another chain

The tables of a session have a part in its turn only at the option that it comes to. So a
session whose options are looked up in another chain takes the same turn, if the option that it
comes to takes the same step under both chains (`CommandLine.Session.Alive.turn_onChain`).
-/

namespace CommandLine

variable {original : List String}

/-- The option means the same under two chains, before tokens. -/
structure Spelling.Agrees (chain other : Chain) (spelling : Spelling) (rest : List String) :
    Prop where
  step : spelling.step other rest = spelling.step chain rest
  candidates : (spelling.target other).candidates? = (spelling.target chain).candidates?

namespace Session

/-- The session with its options looked up in another chain. -/
def onChain (session : Session) (chain : Chain) : Session :=
  { session with chain := chain }

end Session

/-- The turn of a session with its options looked up in another chain. -/
def Turn.onChain (turn : Turn) (chain : Chain) : Turn :=
  ⟨turn.step, turn.session.onChain chain⟩

namespace Session

variable {session : Session} {turn : Turn} {chain : Chain}

/-- Moving past what an option has read is the same over every chain. -/
theorem past_onChain (session : Session) (chain : Chain) (extent : Extent) (after : Nat)
    (letters : List Char) :
    (session.onChain chain).past extent after letters =
      (session.past extent after letters).onChain chain := by
  cases extent with
  | letter => cases letters <;> rfl
  | token => rfl
  | following => rfl

theorem AtLetter.onChain {offset : Nat} {c : Char} {letters : List Char}
    (letter : session.AtLetter offset c letters) (chain : Chain) :
    (session.onChain chain).AtLetter offset c letters :=
  ⟨letter.recognising, letter.started, letter.stands⟩

/-- Passing an operand does not depend on the chain, its failure included. -/
theorem compactOperand_onChain (session : Session) (chain : Chain) :
    (session.onChain chain).compactOperand =
      session.compactOperand.map fun compacted => compacted.onChain chain := by
  unfold compactOperand onChain
  dsimp only
  split <;> rfl

/-- An operand that is passed over one chain is passed over every other. -/
theorem Passes.onChain {token : String} {rest tokens : List String}
    (passes : session.Passes token rest tokens) (chain : Chain) :
    (session.onChain chain).Passes token rest tokens := by
  refine ⟨?_, passes.perm, passes.front, passes.behind⟩
  rw [compactOperand_onChain, passes.exchanged]
  rfl

/-- The step of a letter is that of the one-pass reading over the chain of the session. -/
theorem AtLetter.step_of_shortOption {offset : Nat} {c : Char} {letters : List Char}
    (letter : session.AtLetter offset c letters) (reads : session.shortOption offset = .ok turn) :
    turn.step = ((Spelling.letter c letters).step session.chain session.followers).1 := by
  cases reads.symm.trans (shortOption_eq letter)
  rfl

/-- A letter that means the same is read alike. -/
theorem AtLetter.shortOption_onChain {offset : Nat} {c : Char} {letters : List Char}
    (letter : session.AtLetter offset c letters)
    (agrees : (Spelling.letter c letters).Agrees session.chain chain session.followers)
    (reads : session.shortOption offset = .ok turn) :
    (session.onChain chain).shortOption offset = .ok (turn.onChain chain) := by
  cases reads.symm.trans (shortOption_eq letter)
  have step : Reading.letterStep chain c letters session.followers =
      Reading.letterStep session.chain c letters session.followers := agrees.step
  have same := shortOption_eq (letter.onChain chain)
  change (session.onChain chain).shortOption offset =
    .ok ⟨(Reading.letterStep chain c letters session.followers).1,
      (session.onChain chain).past (Reading.letterStep chain c letters session.followers).2 _ _⟩
    at same
  rw [step, past_onChain] at same
  exact same

/-- A long option that means the same is read alike. -/
theorem longOption_onChain (recognising : session.operandsOnly = false) {token : String}
    {body : List Char} (stands : session.tokens[session.next]? = some token)
    (text : token.toList = '-' :: '-' :: body)
    (agrees : (Spelling.long body).Agrees session.chain chain session.followers)
    (reads : session.longOption = .ok turn) :
    (session.onChain chain).longOption = .ok (turn.onChain chain) := by
  cases reads.symm.trans (longOption_eq recognising stands text)
  have step : Reading.longStep chain body session.followers =
      Reading.longStep session.chain body session.followers := agrees.step
  have candidates : (chain.findLong (String.ofList (Text.splitFirst '=' body).1)).candidates? =
      (session.chain.findLong (String.ofList (Text.splitFirst '=' body).1)).candidates? :=
    agrees.candidates
  have same := @longOption_eq (session.onChain chain) token body recognising stands text
  change (session.onChain chain).longOption =
    .ok ⟨(Reading.longStep chain body session.followers).1,
      { (session.onChain chain).past (Reading.longStep chain body session.followers).2 0 [] with
        ambiguous :=
          ((chain.findLong (String.ofList (Text.splitFirst '=' body).1)).candidates?).getD
            session.ambiguous }⟩ at same
  rw [step, candidates, past_onChain] at same
  exact same

/-- A scan goes the same way over a chain under which the option that it takes its step on means
the same. -/
theorem Scans.scan_onChain (scans : session.Scans turn) (scanning : session.phase = .scanning)
    (between : session.pending? = none)
    (agrees : ∀ passed spelling rest, session.Meets passed spelling rest →
      turn.step = (spelling.step session.chain rest).1 →
        spelling.Agrees session.chain chain rest) :
    (session.onChain chain).scan = .ok (turn.onChain chain) := by
  induction scans with
  | ending unread => exact @scan_of_end (Session.onChain _ chain) unread
  | terminator unread kind _ ih =>
      refine (@scan_of_terminator (Session.onChain _ chain) _ _ unread kind).trans ?_
      apply ih scanning between
      intro _ _ _ meets
      exact nomatch meets.recognising
  | gathered unread kind gathers passes _ ih =>
      have passed := passes.onChain chain
      refine (@scan_of_passes (Session.onChain _ chain) _ _ unread kind gathers _ passed).trans ?_
      apply ih scanning between
      intro _ _ _ meets
      exact agrees _ _ _ (meets.afterOperand scanning between unread kind gathers passes)
  | reported unread kind reports =>
      exact @scan_of_reported (Session.onChain _ chain) _ _ unread kind reports
  | @long session token rest turn unread kind reads =>
      obtain ⟨recognising, c, body, text⟩ := recognising_of_longOption kind
      have stands : session.StandsBefore (token :: rest) :=
        ⟨scanning, between, recognising, unread⟩
      have followers : session.followers = rest := drop_succ_of_drop_eq unread
      subst followers
      have meets : session.Meets [] (.long (c :: body)) session.followers :=
        stands.meets (text ▸ rfl)
      have here := getElem?_of_drop_eq unread
      refine (@scan_of_longOption (session.onChain chain) _ _ unread kind).trans ?_
      apply longOption_onChain recognising here text ?_ reads
      apply agrees _ _ _ meets
      cases reads.symm.trans (longOption_eq recognising here text)
      rfl
  | @cluster session token rest turn unread kind reads =>
      obtain ⟨recognising, c, letters, text, other⟩ := recognising_of_shortCluster kind
      have stands : session.StandsBefore (token :: rest) :=
        ⟨scanning, between, recognising, unread⟩
      have followers : session.followers = rest := drop_succ_of_drop_eq unread
      subst followers
      have meets : session.Meets [] (.letter c letters) session.followers :=
        stands.meets (text ▸ Spelling.ofText?_letter other letters)
      have letter := AtLetter.of_cluster unread recognising text other
      refine (@scan_of_shortCluster (session.onChain chain) _ _ unread kind).trans ?_
      exact letter.shortOption_onChain (agrees _ _ _ meets (letter.step_of_shortOption reads)) reads

/-- **A turn over another chain**, under which the option that it takes its step on means the
same. -/
theorem Alive.turn_onChain (alive : session.Alive original) (turns : session.turn = .ok turn)
    (agrees : ∀ passed spelling rest, session.Meets passed spelling rest →
      turn.step = (spelling.step session.chain rest).1 →
        spelling.Agrees session.chain chain rest) :
    (session.onChain chain).turn = .ok (turn.onChain chain) := by
  cases alive with
  | exhausted phase stored =>
      cases turns.symm.trans (turn_of_exhausted phase)
      exact @turn_of_exhausted (session.onChain chain) phase
  | scanning phase layout =>
      cases layout.takesTurn phase turns with
      | scan between scans =>
          refine (@turn_of_between (session.onChain chain) phase between).trans ?_
          apply scans.scan_onChain phase between
          intro passed spelling rest meets
          exact agrees passed spelling rest meets.of_cleared
      | letter pending letter reads =>
          refine (@turn_of_pending (session.onChain chain) phase _ pending).trans ?_
          have step := letter.resumed.step_of_shortOption reads
          exact letter.resumed.shortOption_onChain
            (agrees _ _ _ (.letter phase pending letter) step) reads

end Session

end CommandLine
