import Mathlib
import CommandLine.Proofs.Chain.Resolution
import CommandLine.Proofs.Lifecycle
import CommandLine.Proofs.Session.Match

/-!
# How long candidates are kept

A turn leaves the candidates of an ambiguous name when it fails with that name, and no candidates
otherwise (`CommandLine.Session.Alive.leaves_of_turn`). Calls that do not parse leave them as they
are, but for the one that gives the session up. So a session has candidates exactly when the
latest of its turns has failed with an ambiguous name, and they are then those that the error
shows (`CommandLine.Setup.candidates_are_fresh`).
-/

namespace CommandLine

variable {original : List String}

/-- Whether an outcome is the error of an ambiguous name. -/
def Outcome.isAmbiguous : Outcome → Bool
  | .failed (.ambiguous _ _) => true
  | _ => false

/-- **Candidates that fit a name**: at least two long names of the chain, each of which has the name
for its beginning and goes on. -/
structure Candidates.Fit (candidates : Candidates) (chain : Chain) (name : List Char) :
    Prop where
  several : 2 ≤ candidates.names.length
  distinct : candidates.names.Nodup
  longer : ∀ long ∈ candidates.names,
    name <+: long.toList ∧ long.toList ≠ name ∧ long ∈ Chain.longNames chain.options

theorem Candidates.Fit.isEmpty_eq_false {candidates : Candidates} {chain : Chain}
    {name : List Char} (fit : candidates.Fit chain name) : candidates.isEmpty = false := by
  rw [isEmpty, List.isEmpty_eq_false_iff, ← List.length_pos_iff]
  exact Nat.lt_of_lt_of_le Nat.zero_lt_two fit.several

/-- The candidates that a lookup answers with fit the name that was looked up. -/
theorem Chain.fit_of_findLong {chain : Chain} {name : List Char} {candidates : Candidates}
    (finds : chain.findLong (.ofList name) = .ambiguous candidates) :
    candidates.Fit chain name := by
  have resolves := chain.resolves_findLong (.ofList name)
  rw [finds] at resolves
  cases resolves with
  | @several names named inexact completes several =>
      refine ⟨?_, completes.nodup.sublist (List.take_sublist 8 names), ?_⟩
      · rw [List.length_take]
        exact le_min (by decide) several
      · intro long kept
        obtain ⟨begins, declared⟩ := (completes.mem_iff long).mp (List.mem_of_mem_take kept)
        rw [String.toList_ofList] at begins
        refine ⟨begins, ?_, declared⟩
        rintro rfl
        rw [String.ofList_toList] at inexact
        exact inexact declared

namespace Spelling

variable {chain : Chain} {rest : List String} {spelling : Spelling}

/-- A letter is never ambiguous. -/
theorem target_letter_ne_ambiguous (chain : Chain) (c : Char) (letters : List Char)
    (candidates : Candidates) : (letter c letters).target chain ≠ .ambiguous candidates := by
  unfold target
  dsimp only
  split <;> simp

/-- The step of an option fails with an ambiguous name only where the chain finds one. -/
theorem isAmbiguous_eq_false (finds : ∀ candidates, spelling.target chain ≠ .ambiguous candidates)
    (rest : List String) : (spelling.step chain rest).1.outcome.isAmbiguous = false := by
  cases outcome : (spelling.step chain rest).1.outcome with
  | failed error =>
      cases blames_of_failed outcome with
      | ambiguous found => exact (finds _ found).elim
      | _ => rfl
  | _ => rfl

end Spelling

namespace Session

variable {session : Session} {turn : Turn}

/-- **What candidates a turn leaves**: those of the ambiguous name that it has come to and that
its error tells of, or else none. -/
inductive Leaves (session : Session) (turn : Turn) : Prop where
  | nothing (other : turn.step.outcome.isAmbiguous = false)
      (forgotten : turn.session.ambiguous = .empty)
  | candidates {passed rest : List String} {body : List Char}
      (meets : session.Meets passed (.long body) rest)
      (finds : session.chain.findLong (.ofList (Text.splitFirst '=' body).1) =
        .ambiguous turn.session.ambiguous)
      (step : turn.step = .failure (.ambiguous (Diagnostic.longOption (.ofList body))
        turn.session.ambiguous.render))

/-- Reading a letter leaves no candidates. -/
theorem AtLetter.leaves {reader : Session} (clear : reader.ambiguous = .empty) {offset : Nat}
    {c : Char} {letters : List Char} (letter : reader.AtLetter offset c letters)
    (reads : reader.shortOption offset = .ok turn) : session.Leaves turn := by
  cases reads.symm.trans (shortOption_eq letter)
  refine .nothing ?_ ?_
  · exact Spelling.isAmbiguous_eq_false
      (Spelling.target_letter_ne_ambiguous reader.chain c letters) reader.followers
  · unfold past
    split
    · cases letters <;> exact clear
    · exact clear
    · exact clear

/-- Reading a long option leaves the candidates of its error, if it is ambiguous. -/
theorem StandsBefore.leaves_of_longOption (clear : session.ambiguous = .empty) {token : String}
    {rest : List String} (stands : session.StandsBefore (token :: rest))
    (long : TokenKind.ofText token.toList = .longOption)
    (reads : session.longOption = .ok turn) : session.Leaves turn := by
  obtain ⟨c, body, text⟩ := TokenKind.ofText_eq_longOption_iff.mp long
  have meets : session.Meets [] (.long (c :: body)) rest := stands.meets (text ▸ rfl)
  cases reads.symm.trans (longOption_eq stands.recognising (getElem?_of_drop_eq stands.unread) text)
  cases finds : session.chain.findLong (.ofList (Text.splitFirst '=' (c :: body)).1) with
  | ambiguous candidates =>
      refine .candidates meets finds ?_
      rw [Reading.longStep_of_ambiguous finds]
      rfl
  | unknown | unique =>
      refine .nothing ?_ clear
      apply @Spelling.isAmbiguous_eq_false session.chain (.long (c :: body))
      intro candidates
      rw [Spelling.target, finds]
      simp

/-- A scan leaves what the option that it comes to leaves. -/
theorem Scans.leaves (scans : session.Scans turn) (clear : session.ambiguous = .empty)
    (scanning : session.phase = .scanning) (between : session.pending? = none) :
    session.Leaves turn := by
  induction scans with
  | ending => exact .nothing rfl clear
  | reported => exact .nothing rfl clear
  | terminator _ _ _ ih =>
      cases ih clear scanning between with
      | nothing other forgotten => exact .nothing other forgotten
      | candidates meets => exact nomatch meets.recognising
  | gathered unread kind gathers passes _ ih =>
      cases ih clear scanning between with
      | nothing other forgotten => exact .nothing other forgotten
      | candidates meets finds step =>
          exact .candidates (meets.afterOperand scanning between unread kind gathers passes)
            finds step
  | long unread kind reads =>
      obtain ⟨recognising, long⟩ := recognising_of_classify kind (by simp)
      have stands := StandsBefore.mk scanning between recognising unread
      exact stands.leaves_of_longOption clear long reads
  | cluster unread kind reads =>
      obtain ⟨recognising, c, letters, text, other⟩ := recognising_of_shortCluster kind
      exact (AtLetter.of_cluster unread recognising text other).leaves clear reads

/-- **A turn leaves the candidates of its own error**, whatever there were before. -/
theorem Alive.leaves_of_turn (alive : session.Alive original) (turns : session.turn = .ok turn) :
    session.Leaves turn := by
  cases alive with
  | exhausted phase stored =>
      cases turns.symm.trans (turn_of_exhausted phase)
      exact .nothing rfl rfl
  | scanning phase layout =>
      cases layout.takesTurn phase turns with
      | scan between scans =>
          cases scans.leaves rfl phase between with
          | nothing other forgotten => exact .nothing other forgotten
          | candidates meets finds step => exact .candidates meets.of_cleared finds step
      | letter _ letter reads => exact letter.resumed.leaves rfl reads

/-- An ambiguous name that a session comes to over a vector, the candidates for it, and the error
that tells of both. -/
structure TellsOf (tokens : List String) (session : Session) (body : List Char)
    (candidates : Candidates) (outcome : Outcome) : Prop where
  typed : ∃ passed token rest, session.Meets passed (.long body) rest ∧
    tokens[session.next + passed.length]? = some token ∧ token.toList = '-' :: '-' :: body
  fit : candidates.Fit session.chain (Text.splitFirst '=' body).1
  error : outcome = .failed
    (.ambiguous (Diagnostic.longOption (.ofList body)) candidates.render)

/-- An ambiguous outcome tells of a name in the vector and of the candidates that are left. -/
theorem Layout.exists_tellsOf (layout : session.Layout original) (leaves : session.Leaves turn)
    (ambiguous : turn.step.outcome.isAmbiguous = true) :
    ∃ body, session.TellsOf original body turn.session.ambiguous turn.step.outcome := by
  cases leaves with
  | nothing other => exact nomatch other ▸ ambiguous
  | @candidates passed rest body meets finds step =>
      obtain ⟨token, stands, text, _⟩ := meets.exists_token
      rw [layout.getElem?_eq (Nat.le_add_right _ _)] at stands
      exact ⟨body, ⟨passed, token, rest, meets, stands, text⟩, Chain.fit_of_findLong finds,
        step ▸ rfl⟩

end Session

namespace Live

variable {live before : Live} {calls : List Call} {outcome : Outcome}

/-- The latest of calls to parse, the state that it has found, and the outcome that it has
answered. The session has not been given up since. -/
structure LatelyParses (live : Live) (calls : List Call) (before : Live) (outcome : Outcome) :
    Prop where
  split : ∃ earlier later, calls = earlier ++ .parse :: later ∧ .parse ∉ later ∧
    .free ∉ later ∧ before = live.after earlier
  answers : (before.answer .parse).1 = .ok (.outcome outcome)

/-- A call that neither parses nor gives the session up has no part in the candidates. -/
theorem ambiguous_of_answer (alive : live.session.Alive original) {call : Call}
    (quiet : call ≠ .parse) (keeps : call ≠ .free) :
    (live.answer call).2.session.ambiguous = live.session.ambiguous := by
  have active := alive.not_released
  cases call with
  | parse => exact (quiet rfl).elim
  | free => exact (keeps rfl).elim
  | abort =>
      cases alive with
      | exhausted phase stored => rw [answer_abort_of_exhausted phase]
      | scanning phase layout =>
          obtain ⟨tokens, next, written, aborts, _⟩ := layout.exists_abort phase
          rw [answer_abort active aborts]
  | extend link =>
      cases checked : link.table.error? with
      | some error => rw [answer_extend_of_error active checked]
      | none => rw [answer_extend_of_valid active checked]

/-- Calls that do not parse and do not give the session up leave the candidates as they are. -/
theorem ambiguous_after (alive : live.session.Alive original) (quiet : .parse ∉ calls)
    (keeps : .free ∉ calls) : (live.after calls).session.ambiguous = live.session.ambiguous := by
  induction calls generalizing live with
  | nil => rfl
  | cons call calls ih =>
      rw [List.mem_cons, not_or] at quiet keeps
      have next := (answer_continues alive (Ne.symm keeps.1)).alive
      rw [after_cons, ih next quiet.2 keeps.2,
        ambiguous_of_answer alive (Ne.symm quiet.1) (Ne.symm keeps.1)]

/-- Of calls with one to parse among them, one is the latest. -/
theorem exists_latelyParses (alive : live.session.Alive original) (keeps : .free ∉ calls)
    (parses : .parse ∈ calls) : ∃ before outcome, live.LatelyParses calls before outcome := by
  -- The latest of the calls is the first from behind.
  obtain ⟨behind, front, split, absent⟩ :=
    List.eq_append_cons_of_mem (List.mem_reverse.mpr parses)
  have same : calls = front.reverse ++ .parse :: behind.reverse := by
    rw [← List.reverse_reverse calls, split]
    simp
  subst same
  rw [List.mem_append, List.mem_cons, not_or, not_or] at keeps
  have earlier := (after_continues alive keeps.1).alive
  obtain ⟨turn, turns, _⟩ := earlier.exists_turn
  refine ⟨live.after front.reverse, turn.step.outcome, ⟨_, _, rfl, ?_, keeps.2.2, rfl⟩, ?_⟩
  · rwa [List.mem_reverse]
  · rw [answer_parse earlier.not_released turns]

/-- The turn of the latest call to parse, whose candidates the session still has. -/
theorem LatelyParses.exists_turn (alive : live.session.Alive original)
    (latest : live.LatelyParses calls before outcome) :
    before.session.Alive original ∧ ∃ turn, before.session.turn = .ok turn ∧
      turn.step.outcome = outcome ∧
      (live.after calls).session.ambiguous = turn.session.ambiguous := by
  obtain ⟨⟨earlier, later, rfl, quiet, keeps, rfl⟩, answers⟩ := latest
  rcases alive_or_released_after alive earlier with stood | released
  · obtain ⟨turn, turns, continues⟩ := stood.exists_turn
    rw [answer_parse stood.not_released turns] at answers
    refine ⟨stood, turn, turns, Reply.outcome.inj (Except.ok.inj answers), ?_⟩
    rw [after_append, after_cons, answer_parse stood.not_released turns]
    exact @ambiguous_after _ ⟨turn.session, _⟩ later continues.alive quiet keeps
  · rw [answer_parse_of_released released] at answers
    exact nomatch answers

/-- **The candidates of a session are those of its latest turn**, and of no earlier one. -/
structure Fresh (tokens : List String) (live : Live) (calls : List Call) : Prop where
  nonempty_iff : (live.after calls).session.ambiguous.isEmpty = false ↔
    ∃ before outcome, live.LatelyParses calls before outcome ∧ outcome.isAmbiguous = true
  tells : ∀ before outcome, live.LatelyParses calls before outcome →
    outcome.isAmbiguous = true → ∃ body, before.session.TellsOf tokens body
      (live.after calls).session.ambiguous outcome
  /-- No calls but a turn and the one that gives the session up change them. -/
  kept : ∀ later, .parse ∉ later → .free ∉ later →
    ((live.after calls).after later).session.ambiguous = (live.after calls).session.ambiguous
  /-- A turn that does not find an ambiguous name forgets them, also the one that finds nothing
  left. -/
  forgotten : .free ∉ calls → ∃ outcome,
    ((live.after calls).answer .parse).1 = .ok (.outcome outcome) ∧
    ((live.after calls).session.phase = .exhausted → outcome = .done) ∧
    (outcome.isAmbiguous = false →
      ((live.after calls).answer .parse).2.session.ambiguous = .empty)

/-- A session that is alive answers a call to parse, and leaves no candidates where no name is
ambiguous. -/
theorem exists_answer_parse (alive : live.session.Alive original) :
    ∃ outcome, (live.answer .parse).1 = .ok (.outcome outcome) ∧
      (live.session.phase = .exhausted → outcome = .done) ∧
      (outcome.isAmbiguous = false → (live.answer .parse).2.session.ambiguous = .empty) := by
  obtain ⟨turn, turns, _⟩ := alive.exists_turn
  rw [answer_parse alive.not_released turns]
  refine ⟨turn.step.outcome, rfl, ?_, ?_⟩
  · intro exhausted
    cases turns.symm.trans (Session.turn_of_exhausted exhausted)
    rfl
  · intro other
    cases alive.leaves_of_turn turns with
    | nothing _ forgotten => exact forgotten
    | candidates _ _ step =>
        rw [step] at other
        exact nomatch other

/-- The candidates are those of the latest turn, after any calls on a session that began with
none. -/
theorem fresh_after (alive : live.session.Alive original) (clear : live.session.ambiguous = .empty)
    (calls : List Call) : live.Fresh original calls := by
  have tells (before : Live) (outcome : Outcome) (latest : live.LatelyParses calls before outcome)
      (ambiguous : outcome.isAmbiguous = true) :
      ∃ body, before.session.TellsOf original body (live.after calls).session.ambiguous
        outcome := by
    obtain ⟨stood, turn, turns, rfl, same⟩ := latest.exists_turn alive
    rw [same]
    cases stood with
    | scanning phase layout =>
        exact layout.exists_tellsOf (Session.Alive.leaves_of_turn (.scanning phase layout) turns)
          ambiguous
    | exhausted phase stored =>
        cases turns.symm.trans (Session.turn_of_exhausted phase)
        exact nomatch ambiguous
  refine ⟨⟨?_, ?_⟩, tells, ?_, ?_⟩
  · intro nonempty
    by_cases gives : .free ∈ calls
    · rw [(givenUp_after alive gives).ambiguous] at nonempty
      exact nomatch nonempty
    by_cases parses : .parse ∈ calls
    · obtain ⟨before, outcome, latest⟩ := exists_latelyParses alive gives parses
      refine ⟨before, outcome, latest, ?_⟩
      obtain ⟨stood, turn, turns, rfl, same⟩ := latest.exists_turn alive
      rw [same] at nonempty
      cases stood.leaves_of_turn turns with
      | nothing _ forgotten =>
          rw [forgotten] at nonempty
          exact nomatch nonempty
      | candidates _ _ step =>
          rw [step]
          rfl
    · rw [ambiguous_after alive parses gives, clear] at nonempty
      exact nomatch nonempty
  · rintro ⟨before, outcome, latest, ambiguous⟩
    obtain ⟨body, told⟩ := tells before outcome latest ambiguous
    exact told.fit.isEmpty_eq_false
  · intro later quiet keeps
    rcases alive_or_released_after alive calls with still | released
    · exact ambiguous_after still quiet keeps
    · rw [after_of_released released]
  · intro keeps
    exact exists_answer_parse (after_continues alive keeps).alive

end Live

namespace Setup

variable {setup : Setup} {table : OptionTable} {tokens : List String} {host : Host}

/-- **Candidates are never stale**, whatever calls are made on a session and in whatever order. -/
theorem candidates_are_fresh {session : Session} {started : Host}
    (starts : setup.start table tokens host = (.ok session, started)) (calls : List Call) :
    Live.Fresh tokens ⟨session, started⟩ calls := by
  have alive := alive_of_start starts
  have clear : session.ambiguous = .empty := by rw [eq_session_of_start starts]; rfl
  exact @Live.fresh_after _ ⟨session, started⟩ alive clear calls

/-- Candidates of an ambiguous name behind an operand. They are there still when a table with one
more has been added and the session has been aborted, and the next turn forgets them. -/
theorem candidates_are_fresh_until_the_next_turn :
    let table : OptionTable := ⟨[⟨"size", 's'.val, .none, none⟩, ⟨"sign", 'g'.val, .none, none⟩]⟩
    let library : Link := ⟨⟨[⟨"silent", 'q'.val, .none, none⟩]⟩, some 0⟩
    let session := ({} : Setup).session table ["prog", "a", "--si=x", "b"]
    let host : Host := ⟨fun _ => 0, []⟩
    let calls : List Call := [.parse, .extend library, .abort]
    let now := (Live.mk session host).after calls
    now.session.ambiguous = ⟨["size", "sign"], false⟩ ∧
      (∃ before outcome, (Live.mk session host).LatelyParses calls before outcome ∧
        ∃ body, before.session.TellsOf ["prog", "a", "--si=x", "b"] body
          ⟨["size", "sign"], false⟩ outcome) ∧
      now.session.phase = .exhausted ∧ (now.answer .parse).2.session.ambiguous = .empty := by
  intro table library session host calls now
  have starts : ({} : Setup).start table ["prog", "a", "--si=x", "b"] host =
      (.ok session, host) := rfl
  have fresh := candidates_are_fresh starts calls
  have state : ((Live.mk session host).after calls).session.ambiguous =
      ⟨["size", "sign"], false⟩ ∧ ((Live.mk session host).after calls).session.phase =
        .exhausted := by
    cbv
  obtain ⟨candidates, exhausted⟩ := state
  have nonempty : ((Live.mk session host).after calls).session.ambiguous.isEmpty = false := by
    rw [candidates]
    rfl
  obtain ⟨before, outcome, latest, ambiguous⟩ := fresh.nonempty_iff.mp nonempty
  obtain ⟨body, told⟩ := fresh.tells before outcome latest ambiguous
  rw [candidates] at told
  obtain ⟨last, answers, done, forgotten⟩ := fresh.forgotten (by decide)
  have other : last.isAmbiguous = false := by
    rw [done exhausted]
    rfl
  exact ⟨candidates, ⟨before, outcome, latest, body, told⟩, exhausted, forgotten other⟩

end Setup

end CommandLine
