import CommandLine.Proofs.History
import CommandLine.Proofs.Reading.Match
import CommandLine.Proofs.Session.Encounter

/-!
# The match that a turn makes

A turn makes a match or does nothing to the program
(`CommandLine.Session.Alive.quiet_or_matches`). The match is of the option that the session
comes to (`CommandLine.Session.Matches`), and it is dealt with in one of three ways: the flag
of the option is written, the listener of its table is told, or the program is
(`CommandLine.Reading.DealsWith`). So a turn does one thing to the program when it has dealt
with a match itself, and nothing otherwise (`CommandLine.Session.Alive.acts_of_turn`).
-/

namespace CommandLine

/-- Whether an outcome is that of a match. -/
def Outcome.isMatch : Outcome → Bool
  | .matched _ _ => true
  | .handled => true
  | _ => false

/-- A step that makes no match and does nothing to the program. -/
structure Step.Quiet (step : Step) : Prop where
  unmatched : step.outcome.isMatch = false
  effects : step.effects = []

namespace Reading

/-- **How a match is dealt with.** A flag takes it before a listener does, and a listener
before the program. -/
inductive DealsWith (chain : Chain) (found : Found) (argument? : Option Value) : Step → Prop where
  | flag {flag : Flag} (flags : found.decl.flag? = some flag) :
      DealsWith chain found argument? ⟨.handled, [.write flag.cell flag.value]⟩
  | listener {link : Link} {listener : ListenerId} (unflagged : found.decl.flag? = none)
      (linked : chain.links[found.node]? = some link)
      (declared : found.decl ∈ link.table.options) (listens : link.listener? = some listener) :
      DealsWith chain found argument?
        ⟨.handled, [.notify ⟨listener, found.decl.code, argument?⟩]⟩
  | program {link : Link} (unflagged : found.decl.flag? = none)
      (linked : chain.links[found.node]? = some link)
      (declared : found.decl ∈ link.table.options) (unheard : link.listener? = none) :
      DealsWith chain found argument? ⟨.matched found.decl.code argument?, []⟩

/-- The step of a match deals with it in one of the three ways. -/
theorem dealsWith_matchStep {chain : Chain} {found : Found} (declared : found ∈ chain.options)
    (argument? : Option Value) :
    DealsWith chain found argument? (matchStep chain found argument?) := by
  obtain ⟨link, linked, member⟩ := Chain.mem_options_iff.mp declared
  unfold matchStep
  rw [linked]
  cases flags : found.decl.flag? with
  | some flag => exact .flag flags
  | none =>
      cases listens : link.listener? with
      | some listener =>
          simp only [Option.bind_some, listens]
          exact .listener flags linked member listens
      | none =>
          simp only [Option.bind_some, listens]
          exact .program flags linked member listens

end Reading

/-- An option is matched only if a table of the chain declares it. -/
theorem Spelling.Matches.mem_options {chain : Chain} {rest : List String} {spelling : Spelling}
    {found : Found} {argument? : Option Value}
    (fits : spelling.Matches chain rest found argument?) : found ∈ chain.options := by
  have finds := fits.finds
  cases spelling with
  | long body => exact Chain.mem_options_of_findLong finds
  | letter c letters => exact Chain.mem_options_of_findShort? (findShort?_of_target finds)

namespace Session

variable {original : List String} {session : Session} {turn : Turn} {found : Found}
  {argument? : Option Value}

/-- **A turn that has matched an option**: the one that the session comes to, with an argument
that it accepts. -/
structure Matches (session : Session) (turn : Turn) (found : Found)
    (argument? : Option Value) : Prop where
  meets : ∃ passed spelling rest, session.Meets passed spelling rest ∧
    spelling.Matches session.chain rest found argument?
  step : turn.step = Reading.matchStep session.chain found argument?

theorem Matches.dealsWith (fits : session.Matches turn found argument?) :
    Reading.DealsWith session.chain found argument? turn.step := by
  obtain ⟨_, _, _, _, spelled⟩ := fits.meets
  rw [fits.step]
  exact Reading.dealsWith_matchStep spelled.mem_options argument?

/-- The match of an option with a flag is dealt with by writing that flag. -/
theorem Matches.step_of_flag (fits : session.Matches turn found argument?) {flag : Flag}
    (flags : found.decl.flag? = some flag) :
    turn.step = ⟨.handled, [.write flag.cell flag.value]⟩ := by
  rw [fits.step, Reading.matchStep, flags]

/-- **A turn makes a match or does nothing to the program.** -/
theorem Alive.quiet_or_matches (alive : session.Alive original)
    (turns : session.turn = .ok turn) :
    turn.step.Quiet ∨ ∃ found argument?, session.Matches turn found argument? := by
  cases alive with
  | exhausted phase stored =>
      cases turns.symm.trans (turn_of_exhausted phase)
      exact .inl ⟨rfl, rfl⟩
  | scanning phase layout =>
      cases layout.comesTo phase turns with
      | ending step => exact .inl (step ▸ ⟨rfl, rfl⟩)
      | operand step => exact .inl (step ▸ ⟨rfl, rfl⟩)
      | @option passed spelling rest meets takes =>
          have leads := spelling.leadsTo_step session.chain rest
          generalize result : (spelling.step session.chain rest).1 = step at leads
          have same : turn.step = step := takes.step.trans result
          cases leads with
          | failed error => exact .inl (same ▸ ⟨rfl, rfl⟩)
          | matched fits => exact .inr ⟨_, _, ⟨passed, spelling, rest, meets, fits⟩, same⟩

/-- What a session does that deals with a match itself: it writes the flag of the option, or
else it tells the listener of the table that has the option. -/
inductive Handles (session : Session) (turn : Turn) : Effect → Prop where
  | flag {found : Found} {argument? : Option Value} {flag : Flag}
      (fits : session.Matches turn found argument?) (flags : found.decl.flag? = some flag) :
      Handles session turn (.write flag.cell flag.value)
  | listener {found : Found} {argument? : Option Value} {link : Link} {listener : ListenerId}
      (fits : session.Matches turn found argument?) (unflagged : found.decl.flag? = none)
      (linked : session.chain.links[found.node]? = some link)
      (declared : found.decl ∈ link.table.options) (listens : link.listener? = some listener) :
      Handles session turn (.notify ⟨listener, found.decl.code, argument?⟩)

/-- **What a turn does to the program**: one thing when it has dealt with a match, and nothing
otherwise. -/
structure Acts (session : Session) (turn : Turn) : Prop where
  handled : turn.step.outcome = .handled →
    ∃ effect, turn.step.effects = [effect] ∧ session.Handles turn effect
  otherwise : turn.step.outcome ≠ .handled → turn.step.effects = []

/-- A turn that has handled its match has done this one thing to the program. -/
theorem acts_of_handles {effect : Effect} (step : turn.step = ⟨.handled, [effect]⟩)
    (handles : session.Handles turn effect) : session.Acts turn where
  handled _ := ⟨effect, by rw [step], handles⟩
  otherwise other := (other (by rw [step])).elim

/-- A turn that has handled no match has done nothing to the program. -/
theorem acts_of_nothing (effects : turn.step.effects = [])
    (other : turn.step.outcome ≠ .handled) : session.Acts turn where
  handled handled := (other handled).elim
  otherwise _ := effects

/-- Each turn of a session that has not been released does one thing to the program when it handles
a match, and nothing otherwise. -/
theorem Alive.acts_of_turn (alive : session.Alive original) (turns : session.turn = .ok turn) :
    session.Acts turn := by
  rcases alive.quiet_or_matches turns with quiet | ⟨found, argument?, fits⟩
  · apply acts_of_nothing quiet.effects
    intro handled
    have unmatched := quiet.unmatched
    rw [handled] at unmatched
    exact nomatch unmatched
  · have deals := fits.dealsWith
    generalize same : turn.step = step at deals
    cases deals with
    | flag flags => exact acts_of_handles same (.flag fits flags)
    | listener unflagged linked declared listens =>
        exact acts_of_handles same (.listener fits unflagged linked declared listens)
    | program =>
        apply acts_of_nothing
        · rw [same]
        · rw [same]
          simp

/-- What has been read of a vector has no part in what stands behind. -/
theorem Cursors.getElem?_eq (cursors : session.Cursors original) {position : Nat}
    (unread : session.next ≤ position) : session.tokens[position]? = original[position]? := by
  obtain ⟨distance, rfl⟩ := Nat.exists_eq_add_of_le unread
  rw [← List.getElem?_drop, cursors.unread, List.getElem?_drop]

/-- The token of an option that a session comes to, and the tokens behind it. -/
theorem Meets.exists_token {passed rest : List String} {spelling : Spelling}
    (meets : session.Meets passed spelling rest) :
    ∃ token, session.tokens[session.next + passed.length]? = some token ∧
      spelling.StandsIn token ∧
      session.tokens.drop (session.next + passed.length + 1) = rest := by
  cases meets with
  | @token _ token _ _ stands operands gathers spells =>
      have here : session.tokens.drop (session.next + passed.length) = token :: rest := by
        rw [← List.drop_drop, stands.unread, List.drop_left]
      refine ⟨token, getElem?_of_drop_eq here, ?_, drop_succ_of_drop_eq here⟩
      rcases Spelling.eq_of_ofText? spells with
        ⟨c, body, text, rfl⟩ | ⟨c, letters, text, other, rfl⟩
      · exact text
      · have kind := TokenKind.ofText_eq_shortCluster_iff.mpr ⟨c, letters, text, other⟩
        exact ⟨kind, ['-'], text⟩
  | letter scanning pending letter =>
      rcases letter.stands with ⟨token, start, stands, kind, text, _⟩
      exact ⟨token, stands, ⟨kind, start, text⟩, rfl⟩

end Session

end CommandLine
