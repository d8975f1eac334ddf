import Mathlib
import CommandLine.Proofs.Session.Match

/-!
# What matches deliver

A match that the program or a listener is told of comes from an option that has been declared,
in the table whose matches go there. Its argument is one that the option accepts, of the type
that the option declares, and is converted from what ends the token of the option or from the
whole of the next token (`CommandLine.Session.Delivers`). This holds of every call in any order
of calls (`CommandLine.Setup.delivers_after_calls`).
-/

namespace CommandLine

variable {original : List String}

namespace Session

variable {session : Session} {turn : Turn}

/-- **A match that a session delivers** from a vector: an option without a flag in a table of
the chain, which is the option that the session comes to. Its argument is converted from a text
that ends the token of the option, or from the token behind it. -/
structure Delivers (session : Session) (tokens : List String) (found : Found) (link : Link)
    (argument? : Option Value) : Prop where
  linked : session.chain.links[found.node]? = some link
  declared : found.decl ∈ link.table.options
  unflagged : found.decl.flag? = none
  typed : ∀ value ∈ argument?, found.decl.mode.type? = some value.type
  source : ∃ passed spelling rest token text?,
    session.Meets passed spelling rest ∧ spelling.target session.chain = .unique found ∧
      tokens[session.next + passed.length]? = some token ∧ spelling.StandsIn token ∧
      found.decl.mode.Accepts text? argument? ∧
      ∀ text ∈ text?, text.toList <:+ token.toList ∨
        tokens[session.next + passed.length + 1]? = some text

/-- A match that is delivered to a listener, or to the program where there is none. -/
def DeliversTo (session : Session) (tokens : List String) (listener? : Option ListenerId)
    (code : UInt32) (argument? : Option Value) : Prop :=
  ∃ found link, session.Delivers tokens found link argument? ∧
    link.listener? = listener? ∧ found.decl.code = code

/-- A turn delivers the match that it makes of an option without a flag. -/
theorem Layout.delivers (layout : session.Layout original) {found : Found}
    {argument? : Option Value} (fits : session.Matches turn found argument?) {link : Link}
    (linked : session.chain.links[found.node]? = some link)
    (declared : found.decl ∈ link.table.options) (unflagged : found.decl.flag? = none) :
    session.Delivers original found link argument? := by
  obtain ⟨passed, spelling, rest, meets, spelled⟩ := fits.meets
  obtain ⟨text?, accepts, offers⟩ := spelled.accepts
  obtain ⟨token, here, stands, behind⟩ := meets.exists_token
  refine ⟨linked, declared, unflagged, ?_, passed, spelling, rest, token, text?, meets,
    spelled.finds, ?_, stands, accepts, ?_⟩
  · intro value given
    rw [Option.mem_def.mp given] at accepts
    exact accepts.type?_eq
  · rw [← layout.getElem?_eq (Nat.le_add_right _ _)]
    exact here
  · intro text given
    rcases offers text given with ⟨explicit, attached⟩ | ⟨_, next⟩
    · exact .inl (Spelling.suffix_of_attached? stands attached)
    · right
      rw [← layout.getElem?_eq (Nat.le_add_right_of_le (Nat.le_add_right _ _)), ← List.head?_drop,
        behind]
      exact next

/-- A session that has made a match is reading. -/
theorem Alive.layout_of_matches (alive : session.Alive original) {found : Found}
    {argument? : Option Value} (fits : session.Matches turn found argument?) :
    session.Layout original := by
  obtain ⟨_, _, _, meets, _⟩ := fits.meets
  exact alive.layout meets.scanning

/-- A match that a turn answers with is delivered to the program. -/
theorem Alive.delivers_of_matched (alive : session.Alive original)
    (turns : session.turn = .ok turn) {code : UInt32} {argument? : Option Value}
    (matched : turn.step.outcome = .matched code argument?) :
    session.DeliversTo original none code argument? := by
  rcases alive.quiet_or_matches turns with quiet | ⟨found, other, fits⟩
  · have unmatched := quiet.unmatched
    rw [matched] at unmatched
    exact nomatch unmatched
  · have layout := alive.layout_of_matches fits
    have deals := fits.dealsWith
    generalize turn.step = step at deals matched
    cases deals with
    | flag => exact nomatch matched
    | listener => exact nomatch matched
    | program unflagged linked declared unheard =>
        cases matched
        exact ⟨found, _, layout.delivers fits linked declared unflagged, unheard, rfl⟩

theorem Alive.delivers_of_notify (alive : session.Alive original) {notification : Notification}
    (handles : session.Handles turn (.notify notification)) :
    session.DeliversTo original (some notification.listener) notification.code
      notification.argument? := by
  cases handles with
  | @listener found _ _ _ fits unflagged linked declared listens =>
      have layout := alive.layout_of_matches fits
      exact ⟨found, _, layout.delivers fits linked declared unflagged, listens, rfl⟩

end Session

namespace Live

variable {live : Live}

/-- Only a call that parses notifies listeners. -/
theorem notified_of_ne_parse (live : Live) {call : Call} (other : call ≠ .parse) :
    (live.answer call).2.host.notified = live.host.notified := by
  cases call with
  | parse => exact (other rfl).elim
  | free => rfl
  | abort =>
      change live.abort.2.host.notified = live.host.notified
      rw [host_abort]
  | extend link =>
      change (live.extend link).2.host.notified = live.host.notified
      rcases live.host_extend link with same | ⟨_, _, reset⟩
      · rw [same]
      · rw [reset, Host.notified_resetFlags]

/-- Only a call that parses tells of an outcome. -/
theorem eq_parse_of_outcome {call : Call} {outcome : Outcome}
    (tells : (live.answer call).1 = .ok (.outcome outcome)) : call = .parse := by
  cases call with
  | parse => rfl
  | free => exact nomatch tells
  | abort =>
      obtain ⟨_, same⟩ := exists_of_map_eq_ok tells
      exact nomatch same
  | extend link =>
      obtain ⟨_, same⟩ := exists_of_map_eq_ok tells
      exact nomatch same

/-- What a call tells of matches: the reply tells the program, and `made` are the
notifications that it makes. -/
structure Delivering (live : Live) (tokens : List String) (call : Call)
    (made : List Notification) : Prop where
  program : ∀ code argument?, (live.answer call).1 = .ok (.outcome (.matched code argument?)) →
    live.session.DeliversTo tokens none code argument?
  notified : (live.answer call).2.host.notified = live.host.notified ++ made
  listeners : ∀ notification ∈ made,
    live.session.DeliversTo tokens (some notification.listener) notification.code
      notification.argument?

/-- A call that answers with no match and makes no notification delivers nothing. -/
theorem delivering_nothing {call : Call}
    (silent : ∀ code argument?, (live.answer call).1 ≠ .ok (.outcome (.matched code argument?)))
    (notified : (live.answer call).2.host.notified = live.host.notified) :
    live.Delivering original call [] where
  program code argument? tells := (silent code argument? tells).elim
  notified := by rw [notified, List.append_nil]
  listeners notification member := nomatch member

/-- A call that parses delivers the match that its turn makes, if it makes one. -/
theorem delivering_of_parse (alive : live.session.Alive original) :
    ∃ made, live.Delivering original .parse made := by
  obtain ⟨turn, turns, _⟩ := alive.exists_turn
  have answers := answer_parse alive.not_released turns
  have program : ∀ code argument?,
      (live.answer .parse).1 = .ok (.outcome (.matched code argument?)) →
        live.session.DeliversTo original none code argument? := by
    intro code argument? tells
    rw [answers, Except.ok.injEq, Reply.outcome.injEq] at tells
    exact alive.delivers_of_matched turns tells
  have acts := alive.acts_of_turn turns
  by_cases handled : turn.step.outcome = .handled
  · obtain ⟨effect, effects, handles⟩ := acts.handled handled
    cases effect with
    | write cell value =>
        refine ⟨[], program, ?_, fun _ member => nomatch member⟩
        rw [answers, effects, List.append_nil]
        rfl
    | notify notification =>
        refine ⟨[notification], program, ?_, ?_⟩
        · rw [answers, effects]
          rfl
        · intro other member
          rw [List.mem_singleton.mp member]
          exact alive.delivers_of_notify handles
  · refine ⟨[], program, ?_, fun _ member => nomatch member⟩
    rw [answers, acts.otherwise handled, List.append_nil]
    rfl

end Live

namespace Setup

variable {setup : Setup} {table : OptionTable} {tokens : List String} {host : Host}

/-- **Matches that are delivered are what the tables declare**, whatever calls have been made
before. -/
theorem delivers_after_calls {session : Session} {started : Host}
    (starts : setup.start table tokens host = (.ok session, started)) (calls : List Call)
    (call : Call) :
    ∃ made, ((Live.mk session started).after calls).Delivering tokens call made := by
  have now := @Live.alive_or_released_after tokens ⟨session, started⟩ (alive_of_start starts) calls
  generalize (Live.mk session started).after calls = live at now ⊢
  by_cases parses : call = .parse
  · subst parses
    rcases now with alive | released
    · exact Live.delivering_of_parse alive
    · refine ⟨[], Live.delivering_nothing ?_ ?_⟩
      · rw [Live.answer_parse_of_released released]
        intro code argument? tells
        simp at tells
      · rw [Live.answer_of_released released]
  · refine ⟨[], Live.delivering_nothing ?_ (live.notified_of_ne_parse parses)⟩
    intro code argument? tells
    exact parses (Live.eq_parse_of_outcome tells)

/-- A number that is attached to a letter inside a cluster, behind an operand. -/
theorem delivers_number_inside_cluster :
    let table : OptionTable := ⟨[.short 'v', (OptionDecl.short 'n').required .int]⟩
    ∃ session started, ({} : Setup).start table ["prog", "a", "-vn-5"] ⟨fun _ => 0, []⟩ =
        (.ok session, started) ∧
      ((Live.mk session started).after [.parse]).session.DeliversTo
        ["prog", "a", "-vn-5"] none 'n'.val (some (.int (-5))) := by
  intro table
  refine ⟨_, _, rfl, ?_⟩
  obtain ⟨made, delivering⟩ :=
    @delivers_after_calls {} table ["prog", "a", "-vn-5"] ⟨fun _ => 0, []⟩ _ _ rfl [.parse] .parse
  exact delivering.program _ _ (by cbv)

end Setup

end CommandLine
