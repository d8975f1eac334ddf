import CommandLine.Proofs.Completion
import CommandLine.Proofs.Reading.Recovery
import CommandLine.Proofs.Session.Abreast
import CommandLine.Proofs.Session.Encounter

/-!
# Going on as though nothing had been read

A session between tokens goes on as one that is started over the tokens that are left,
whatever has been read before and whatever errors there were
(`CommandLine.Setup.resumes_of_standsBefore`). So an error costs no more than the tokens
that its option has read (`CommandLine.Setup.resumes_after_calls`).
-/

namespace CommandLine

variable {original another : List String}

/-- Two sessions that calls to parse do not tell apart: they answer the same, act on a program
alike and pass the same operands. -/
def Session.GoesOnLike (session other : Session) : Prop :=
  ∀ (host : Host) (count : Nat),
    let calls := List.replicate count Call.parse
    (Live.mk session host).replies calls = (Live.mk other host).replies calls ∧
      ((Live.mk session host).after calls).host = ((Live.mk other host).after calls).host ∧
      ∃ passed,
        ((Live.mk session host).after calls).session.operands = session.operands ++ passed ∧
        ((Live.mk other host).after calls).session.operands = other.operands ++ passed

/-- Sessions with the same left to read go on alike. -/
theorem Session.Alike.goesOnLike {session other : Session} (alike : session.Alike other)
    (alive : session.Alive original) (otherAlive : other.Alive another) :
    session.GoesOnLike other := by
  intro host count
  induction count generalizing session other host with
  | zero => exact ⟨rfl, rfl, [], (List.append_nil _).symm, (List.append_nil _).symm⟩
  | succ count ih =>
      obtain ⟨turn, otherTurn, turns, otherTurns, together⟩ := alike.exists_turns alive otherAlive
      obtain ⟨first, firstOperands, otherOperands⟩ := together.operands
      obtain ⟨replies, hosts, passed, operands, others⟩ := ih together.alike
        (alive.continues_of_turn turns).alive (otherAlive.continues_of_turn otherTurns).alive
        (host.performAll turn.step.effects)
      have answered := @Live.answer_parse ⟨session, host⟩ alive.not_released turn turns
      have otherAnswered := @Live.answer_parse ⟨other, host⟩ otherAlive.not_released otherTurn
        otherTurns
      rw [together.step] at otherAnswered
      rw [List.replicate_succ]
      refine ⟨?_, ?_, first ++ passed, ?_, ?_⟩
      · rw [Live.replies, Live.replies, answered, otherAnswered, replies]
      · rw [Live.after_cons, Live.after_cons, answered, otherAnswered, hosts]
      · rw [Live.after_cons, answered, operands, firstOperands, List.append_assoc]
      · rw [Live.after_cons, otherAnswered, others, otherOperands, List.append_assoc]

namespace Live

variable {live : Live}

/-- A session that still reads has not been given up. -/
theorem free_not_mem_of_scanning {calls : List Call}
    (scanning : (live.after calls).session.phase = .scanning) : .free ∉ calls := by
  intro member
  rw [released_of_free_mem live member] at scanning
  exact nomatch scanning

/-- A call adds a valid table to the chain of a session or leaves the chain as it is. -/
theorem chain_of_answer (alive : live.session.Alive original) {call : Call}
    (keeps : call ≠ .free) :
    (live.answer call).2.session.chain = live.session.chain ∨
      ∃ link : Link, link.table.Valid ∧
        (live.answer call).2.session.chain = live.session.chain.append link := by
  have active := alive.not_released
  cases call with
  | free => exact (keeps rfl).elim
  | parse =>
      obtain ⟨turn, turns, _⟩ := alive.exists_turn
      rw [answer, parse_eq active turns]
      exact .inl (alive.chain_of_turn turns)
  | abort =>
      obtain ⟨aborted, aborts, _⟩ := alive.exists_abort
      rw [answer, abort_eq active aborts]
      exact .inl (alive.chain_of_abort aborts)
  | extend link =>
      rw [answer]
      cases checked : link.table.error? with
      | some error =>
          rw [extend_of_error active checked]
          exact .inl rfl
      | none =>
          rw [extend_of_valid active checked]
          exact .inr ⟨link, checked, rfl⟩

/-- The chain of a session keeps the table of the program and consists of valid tables. -/
theorem chain_after (alive : live.session.Alive original) (valid : live.session.chain.Valid)
    {calls : List Call} (keeps : .free ∉ calls) :
    (live.after calls).session.chain.primary = live.session.chain.primary ∧
      (live.after calls).session.chain.Valid := by
  induction calls generalizing live with
  | nil => exact ⟨rfl, valid⟩
  | cons call calls ih =>
      rw [List.mem_cons, not_or] at keeps
      have next := (answer_continues alive (Ne.symm keeps.1)).alive
      rw [after_cons]
      rcases chain_of_answer alive (Ne.symm keeps.1) with same | ⟨link, sound, same⟩
      · rw [← same] at valid ⊢
        exact ih next valid keeps.2
      · have added : (live.answer call).2.session.chain.Valid := by
          rw [same]
          exact valid.append sound
        obtain ⟨primary, kept⟩ := ih next added keeps.2
        refine ⟨primary.trans ?_, kept⟩
        rw [same]
        rfl

end Live

namespace Setup

variable {setup : Setup} {table : OptionTable} {tokens : List String} {host : Host}

/-- A session goes on over tokens as one that is started over them: behind the same path, with
the same tables and in the same order. -/
def Resumes (setup : Setup) (session : Session) (tokens : List String) : Prop :=
  ∀ host, ∃ fresh, setup.launch session.chain.primary session.chain.extensions
      (session.tokens.take 1 ++ tokens) host = .ok fresh ∧
    fresh.session.chain = session.chain ∧ fresh.session.order = session.order ∧
    session.GoesOnLike fresh.session

/-- **A session between tokens goes on as one that is started over them.** -/
theorem resumes_of_standsBefore (usable : setup.separator ≠ '\x00') {session : Session}
    (layout : session.Layout original) (valid : session.chain.Valid)
    (order : session.order = setup.order session.chain.primary) {rest : List String}
    (stands : session.StandsBefore rest) : setup.Resumes session rest := by
  intro host
  have primary : session.chain.primary.Valid := valid ⟨session.chain.primary, none⟩
    List.mem_cons_self
  have added : ∀ link ∈ session.chain.extensions, link.table.Valid := by
    intro link member
    exact valid link (List.mem_cons_of_mem _ member)
  refine ⟨_, launch_of_valid usable primary added _ host, rfl, order.symm, ?_⟩
  have unread : (session.tokens.take 1 ++ rest).drop 1 = rest := by
    rw [← stands.unread]
    cases session.tokens with
    | nil => simp
    | cons path tokens => simp
  have abreast : session.Abreast (setup.opened session.chain.primary session.chain.extensions
      (session.tokens.take 1 ++ rest)) :=
    ⟨rfl, order.symm, stands.recognising.symm, stands.between.symm, unread.trans stands.unread.symm⟩
  exact Session.Alike.goesOnLike (.scanning stands.scanning rfl abreast)
    (.scanning stands.scanning layout) (.scanning rfl (setup.opened_layout _ _ _))

/-- What holds of a session that still reads, whatever calls have been made on it. -/
theorem layout_of_scanning {session : Session} {started : Host}
    (starts : setup.start table tokens host = (.ok session, started)) {calls : List Call}
    (scanning : ((Live.mk session started).after calls).session.phase = .scanning) :
    let now := ((Live.mk session started).after calls).session
    now.Layout tokens ∧ now.chain.Valid ∧ now.order = setup.order now.chain.primary := by
  intro now
  have same := eq_session_of_start starts
  have alive := alive_of_start starts
  have valid : session.chain.Valid := by
    rw [same]
    exact Chain.valid_of_tables (valid_of_start starts).2 (by simp)
  have keeps := Live.free_not_mem_of_scanning scanning
  have continues := @Live.after_continues _ ⟨session, started⟩ alive _ keeps
  obtain ⟨primary, kept⟩ := @Live.chain_after _ ⟨session, started⟩ alive valid _ keeps
  refine ⟨continues.alive.layout scanning, kept, ?_⟩
  rw [continues.order, primary, same]
  rfl

/-- **An error costs what its option has read**, and no more: the session goes on as one that
is started over the tokens that are left. -/
theorem resumes_of_recovers (usable : setup.separator ≠ '\x00') {session : Session}
    (layout : session.Layout original) (valid : session.chain.Valid)
    (order : session.order = setup.order session.chain.primary) {passed rest left : List String}
    {spelling : Spelling} {step : Step} (meets : session.Meets passed spelling rest)
    (recovers : spelling.Recovers session.chain rest step left) :
    ∃ later, session.turn = .ok ⟨step, later⟩ ∧ later.operands = session.operands ++ passed ∧
      later.chain = session.chain ∧ later.order = session.order ∧ later.StandsBefore left ∧
      setup.Resumes later left := by
  obtain ⟨rfl, whole, rfl⟩ := recovers.step_eq
  obtain ⟨later, turns, operands, stands⟩ := layout.exists_turn_of_meets meets whole
  have alive : session.Alive original := .scanning meets.scanning layout
  have continues := alive.continues_of_turn turns
  have chain := alive.chain_of_turn turns
  refine ⟨later, turns, operands, chain, continues.order, stands, ?_⟩
  apply resumes_of_standsBefore usable (continues.alive.layout stands.scanning) _ _ stands
  · exact chain ▸ valid
  · rw [continues.order, chain]
    exact order

/-- **A session goes on as though nothing had been read**, whatever calls have been made on it.
Between tokens it goes on as one that is started over those that are left. At an option that
leads to an error, or that does without its argument, it passes the operands in front, takes
the step of the option, and goes on as though the tokens that the option has read had never
been there. There is no other error but that of a letter that names no option, and then the
session stands at the letter behind it. -/
theorem resumes_after_calls {session : Session} {started : Host}
    (starts : setup.start table tokens host = (.ok session, started)) (calls : List Call) :
    let now := ((Live.mk session started).after calls).session
    (∀ rest, now.StandsBefore rest → setup.Resumes now rest) ∧
      (∀ passed spelling rest step left, now.Meets passed spelling rest →
        spelling.Recovers now.chain rest step left →
        ∃ later, now.turn = .ok ⟨step, later⟩ ∧ later.operands = now.operands ++ passed ∧
          later.chain = now.chain ∧ later.order = now.order ∧ later.StandsBefore left ∧
          setup.Resumes later left) ∧
      ∀ turn error, now.phase = .scanning → now.turn = .ok turn →
        turn.step.outcome = .failed error →
        ∃ passed spelling rest, now.Meets passed spelling rest ∧
          ((∃ left, spelling.Recovers now.chain rest turn.step left) ∨
            ∃ c next letters, spelling = .letter c (next :: letters) ∧
              now.chain.findShort? c = none ∧
              turn.session.Meets [] (.letter next letters) rest) := by
  intro now
  have usable := (valid_of_start starts).1
  refine ⟨?_, ?_, ?_⟩
  · intro rest stands
    obtain ⟨layout, valid, order⟩ := layout_of_scanning starts stands.scanning
    exact resumes_of_standsBefore usable layout valid order stands
  · intro passed spelling rest step left meets recovers
    obtain ⟨layout, valid, order⟩ := layout_of_scanning starts meets.scanning
    exact resumes_of_recovers usable layout valid order meets recovers
  · intro turn error scanning turns fails
    obtain ⟨layout, _, _⟩ := layout_of_scanning starts scanning
    obtain ⟨passed, spelling, rest, meets, takes⟩ :=
      layout.exists_meets_of_failed scanning turns fails
    refine ⟨passed, spelling, rest, meets, ?_⟩
    rw [takes.step] at fails ⊢
    rcases Spelling.exists_recovers_of_failed fails with recovers | ⟨unknown, inside⟩
    · exact .inl recovers
    · right
      obtain ⟨c, next, letters, rfl⟩ := Spelling.exists_letter_of_not_endsToken inside
      have absent := Spelling.findShort?_of_target_unknown unknown
      refine ⟨c, next, letters, rfl, absent, takes.letters c next letters rfl ?_⟩
      rw [Spelling.step, Reading.letterStep_of_unknown absent]

/-- Behind an operand, an option that needs a number and stands before a text that is none:
both are read, and what is left is read afresh. -/
theorem resumes_after_calls_rejected :
    let table : OptionTable := ⟨[.short 'v', ⟨"num", 'n'.val, .required .int, none⟩]⟩
    let tokens := ["prog", "-v", "a", "--num", "x", "-v"]
    let started := Live.mk (({} : Setup).session table tokens) ⟨fun _ => 0, []⟩
    ∃ now later : Session, now = (started.after [.parse]).session ∧
      ({} : Setup).Resumes now ["a", "--num", "x", "-v"] ∧
      now.turn = .ok ⟨.failure (.missingArgument "--num" (some ⟨.invalid, "x", .int⟩)), later⟩ ∧
      later.operands = ["a"] ∧ later.StandsBefore ["-v"] ∧ ({} : Setup).Resumes later ["-v"] := by
  intro table tokens started
  have starts : ({} : Setup).start table tokens ⟨fun _ => 0, []⟩ =
      (.ok (({} : Setup).session table tokens), ⟨fun _ => 0, []⟩) := rfl
  let now : Session :=
    { chain := ⟨table, []⟩, tokens, programName := "prog", next := 2, order := .permute }
  have reached : (started.after [.parse]).session = now := by
    cbv
  have goesOn := @resumes_after_calls {} table tokens _ _ _ starts [.parse]
  rw [reached] at goesOn
  have stands : now.StandsBefore ["a", "--num", "x", "-v"] := ⟨rfl, rfl, rfl, rfl⟩
  have meets : now.Meets ["a"] (.long ['n', 'u', 'm']) ["x", "-v"] :=
    .token stands (by decide) (fun _ => rfl) (by decide)
  let number : Found := ⟨0, ⟨"num", 'n'.val, .required .int, none⟩⟩
  have finds : Spelling.target now.chain (.long ['n', 'u', 'm']) = .unique number := by
    decide
  have label : Spelling.label number (.long ['n', 'u', 'm']) = "--num" := by
    cbv
  have fails : convert .int "x" = .error ⟨.invalid, "x", .int⟩ := by
    cbv
  have recovers : Spelling.Recovers now.chain ["x", "-v"] (.long ['n', 'u', 'm']) _ ["-v"] :=
    .rejected finds rfl (by decide) rfl (by decide) fails
  rw [label] at recovers
  obtain ⟨later, turns, operands, _, _, before, resumes⟩ := goesOn.2.1 _ _ _ _ _ meets recovers
  exact ⟨now, later, reached.symm, goesOn.1 _ stands, turns, operands, before, resumes⟩

end Setup

end CommandLine
