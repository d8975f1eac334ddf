import Mathlib
import CommandLine.Proofs.Resumption

/-!
# The life of a session

A session scans its vector, is exhausted, and is given up. No call takes it back
(`CommandLine.Live.moves_of_alive`), and a call to parse answers that nothing is left exactly
when it leaves the session exhausted (`CommandLine.Live.done_iff_exhausted`). An exhausted
session rests: no call but that which gives it up changes its operands, and no turn acts on the
program (`CommandLine.Live.rests_after`). This holds of a session from its start on, in
whatever state a call finds it (`CommandLine.Setup.lives_after`).
-/

namespace CommandLine

variable {original : List String}

/-- The way of the phase under one call. -/
inductive Phase.Moves : Phase → Phase → Prop where
  | stays (phase : Phase) : Moves phase phase
  | ends : Moves .scanning .exhausted
  | givesUp (phase : Phase) : Moves phase .released

namespace Session

/-- What a session is started with and never loses. -/
structure Remembers (session later : Session) : Prop where
  programName : later.programName = session.programName
  order : later.order = session.order
  primary : later.chain.primary = session.chain.primary

theorem Remembers.refl (session : Session) : session.Remembers session :=
  ⟨rfl, rfl, rfl⟩

theorem Remembers.trans {session middle later : Session} (first : session.Remembers middle)
    (second : middle.Remembers later) : session.Remembers later :=
  ⟨second.programName.trans first.programName, second.order.trans first.order,
    second.primary.trans first.primary⟩

/-- A session that is given up still knows its program, its order and the table of the program. -/
theorem remembers_release (session : Session) : session.Remembers session.release := by
  unfold release
  split
  · exact .refl session
  · exact ⟨rfl, rfl, rfl⟩

/-- A session that has been given up: of what it has read and of the tables that were added
to it, nothing is left. -/
structure GivenUp (session : Session) : Prop where
  released : session.phase = .released
  operands : session.operands = []
  arguments : session.arguments = []
  ambiguous : session.ambiguous = .empty
  chain : session.chain = ⟨session.chain.primary, []⟩

/-- Giving up a session that still stands empties it, wherever it stands. -/
theorem givenUp_release {session : Session} (active : session.phase ≠ .released) :
    session.release.GivenUp := by
  unfold release
  split
  · next released => exact (active released).elim
  · exact ⟨rfl, rfl, rfl, rfl, rfl⟩

end Session

namespace Live

variable {live : Live}

theorem not_released_of_exhausted (exhausted : live.session.phase = .exhausted) :
    live.session.phase ≠ .released := by
  simp [exhausted]

/-- An exhausted session answers every turn with the end and does nothing to the program. -/
theorem answer_parse_of_exhausted (exhausted : live.session.phase = .exhausted) :
    live.answer .parse =
      (.ok (.outcome .done), ⟨{ live.session with ambiguous := .empty }, live.host⟩) :=
  answer_parse (not_released_of_exhausted exhausted) (Session.turn_of_exhausted exhausted)

theorem answer_abort_of_exhausted (exhausted : live.session.phase = .exhausted) :
    live.answer .abort = (.ok .nothing, live) :=
  answer_abort (not_released_of_exhausted exhausted) (Session.abort_of_exhausted exhausted)

/-- A session at rest: it is exhausted, with the operands that it had, and neither a turn nor
aborting does anything more. Its listeners have been told of nothing since. -/
structure Rests (now later : Live) : Prop where
  exhausted : later.session.phase = .exhausted
  operands : later.session.operands = now.session.operands
  arguments : later.session.arguments = now.session.arguments
  notified : later.host.notified = now.host.notified
  parse : later.answer .parse =
    (.ok (.outcome .done), ⟨{ later.session with ambiguous := .empty }, later.host⟩)
  abort : later.answer .abort = (.ok .nothing, later)

/-- A session is at rest once it is exhausted and has kept its operands and notified nobody. -/
theorem Rests.of_exhausted {now later : Live} (exhausted : later.session.phase = .exhausted)
    (operands : later.session.operands = now.session.operands)
    (arguments : later.session.arguments = now.session.arguments)
    (notified : later.host.notified = now.host.notified) : now.Rests later :=
  ⟨exhausted, operands, arguments, notified, answer_parse_of_exhausted exhausted,
    answer_abort_of_exhausted exhausted⟩

/-- A session that is at rest after one at rest is at rest since the first. -/
theorem Rests.trans {now middle later : Live} (first : now.Rests middle)
    (second : middle.Rests later) : now.Rests later :=
  .of_exhausted second.exhausted (second.operands.trans first.operands)
    (second.arguments.trans first.arguments) (second.notified.trans first.notified)

/-- A call that does not give up an exhausted session leaves it at rest. -/
theorem rests_answer (exhausted : live.session.phase = .exhausted) {call : Call}
    (keeps : call ≠ .free) : live.Rests (live.answer call).2 := by
  have active := not_released_of_exhausted exhausted
  cases call with
  | free => exact (keeps rfl).elim
  | parse =>
      rw [answer_parse_of_exhausted exhausted]
      exact .of_exhausted exhausted rfl rfl rfl
  | abort =>
      rw [answer_abort_of_exhausted exhausted]
      exact .of_exhausted exhausted rfl rfl rfl
  | extend link =>
      cases checked : link.table.error? with
      | some error =>
          rw [answer_extend_of_error active checked]
          exact .of_exhausted exhausted rfl rfl rfl
      | none =>
          rw [answer_extend_of_valid active checked]
          exact .of_exhausted exhausted rfl rfl (live.host.notified_resetFlags link.table)

/-- **An exhausted session rests** until it is given up. -/
theorem rests_after (exhausted : live.session.phase = .exhausted) {calls : List Call}
    (keeps : .free ∉ calls) : live.Rests (live.after calls) := by
  induction calls generalizing live with
  | nil => exact .of_exhausted exhausted rfl rfl rfl
  | cons call calls ih =>
      rw [List.mem_cons, not_or] at keeps
      have first := rests_answer exhausted (Ne.symm keeps.1)
      exact first.trans (ih first.exhausted keeps.2)

/-- No call takes a session back to an earlier phase. -/
theorem moves_of_alive (alive : live.session.Alive original) (call : Call) :
    live.session.phase.Moves (live.answer call).2.session.phase := by
  by_cases gives : call = .free
  · subst gives
    change Phase.Moves _ live.session.release.phase
    rw [Session.phase_release]
    exact .givesUp _
  · cases alive with
    | exhausted exhausted stored =>
        rw [(rests_answer exhausted gives).exhausted, exhausted]
        exact .stays _
    | scanning scanning layout =>
        have later := (answer_continues (.scanning scanning layout) gives).alive
        rw [scanning]
        cases later with
        | scanning still _ =>
            rw [still]
            exact .stays _
        | exhausted ended _ =>
            rw [ended]
            exact .ends

/-- A turn ends the reading exactly when it leaves the session exhausted. -/
theorem done_iff_exhausted (alive : live.session.Alive original) :
    (live.answer .parse).1 = .ok (.outcome .done) ↔
      (live.answer .parse).2.session.phase = .exhausted := by
  obtain ⟨turn, turns, _⟩ := alive.exists_turn
  rw [answer_parse alive.not_released turns]
  have done := alive.done_iff_of_turn turns
  cases ends : turn.step.outcome <;> simpa [ends, Outcome.isDone] using done

/-- A session remembers what it was started with, also when it is given up. -/
theorem remembers_answer (alive : live.session.Alive original) (call : Call) :
    live.session.Remembers (live.answer call).2.session := by
  by_cases gives : call = .free
  · subst gives
    exact live.session.remembers_release
  · have continues := answer_continues alive gives
    refine ⟨continues.programName, continues.order, ?_⟩
    rcases chain_of_answer alive gives with same | ⟨link, _, same⟩
    · rw [same]
    · rw [same]
      rfl

/-- No calls make a session forget what it was started with. -/
theorem remembers_after (alive : live.session.Alive original) (calls : List Call) :
    live.session.Remembers (live.after calls).session := by
  induction calls generalizing live with
  | nil => exact .refl _
  | cons call calls ih =>
      have first := remembers_answer alive call
      rw [after_cons]
      rcases alive_or_released_after alive [call] with later | released
      · exact first.trans (ih later)
      · change (live.answer call).2.session.phase = .released at released
        rw [after_of_released released]
        exact first

/-- A session has been given up once a call has asked for it, and not before. -/
theorem released_iff_free_mem (alive : live.session.Alive original) (calls : List Call) :
    (live.after calls).session.phase = .released ↔ .free ∈ calls := by
  refine ⟨?_, released_of_free_mem live⟩
  intro released
  by_contra keeps
  exact (after_continues alive keeps).alive.not_released released

/-- What is left of a session that has been given up does not depend on where it stood. -/
theorem givenUp_after (alive : live.session.Alive original) {calls : List Call}
    (gives : .free ∈ calls) : (live.after calls).session.GivenUp := by
  induction calls generalizing live with
  | nil => simp at gives
  | cons call calls ih =>
      by_cases first : call = .free
      · subst first
        have released : (live.answer .free).2.session.phase = .released :=
          live.session.phase_release
        rw [after_cons, after_of_released released]
        exact Session.givenUp_release alive.not_released
      · have later := (List.mem_cons.mp gives).resolve_left (Ne.symm first)
        exact ih (answer_continues alive first).alive later

end Live

/-- **What a session is in any state that calls have brought it to.** The phase moves on only,
and the last turn is the one that exhausts the session. Once exhausted it rests until it is given
up; once given up it is empty, and nothing changes it. What it was started with it never
loses. -/
structure Session.Lives (setup : Setup) (table : OptionTable) (tokens : List String)
    (calls : List Call) (now : Live) : Prop where
  programName : now.session.programName = setup.programName tokens.head?
  order : now.session.order = setup.order table
  primary : now.session.chain.primary = table
  released_iff : now.session.phase = .released ↔ .free ∈ calls
  moves : ∀ call, now.session.phase.Moves (now.answer call).2.session.phase
  done_iff : (now.answer .parse).1 = .ok (.outcome .done) ↔
    (now.answer .parse).2.session.phase = .exhausted
  rests : now.session.phase = .exhausted → ∀ later, .free ∉ later → now.Rests (now.after later)
  givenUp : now.session.phase = .released → now.session.GivenUp
  unchanged : now.session.phase = .released → ∀ later, now.after later = now

namespace Setup

variable {setup : Setup} {table : OptionTable} {tokens : List String} {host : Host}

/-- **The life of a session**, over all calls that a program can make on it. -/
theorem lives_after {session : Session} {started : Host}
    (starts : setup.start table tokens host = (.ok session, started)) (calls : List Call) :
    Session.Lives setup table tokens calls ((Live.mk session started).after calls) := by
  have alive := alive_of_start starts
  have remembers := @Live.remembers_after _ ⟨session, started⟩ alive calls
  have released := @Live.released_iff_free_mem _ ⟨session, started⟩ alive calls
  have same := eq_session_of_start starts
  refine ⟨?_, ?_, ?_, released, ?_, ?_, Live.rests_after, ?_, Live.after_of_released⟩
  · rw [remembers.programName, same]
    rfl
  · rw [remembers.order, same]
    rfl
  · rw [remembers.primary, same]
    rfl
  · intro call
    rcases @Live.alive_or_released_after _ ⟨session, started⟩ alive calls with later | gone
    · exact Live.moves_of_alive later call
    · rw [Live.answer_of_released gone]
      exact .stays _
  · rcases @Live.alive_or_released_after _ ⟨session, started⟩ alive calls with later | gone
    · exact Live.done_iff_exhausted later
    · rw [Live.answer_parse_of_released gone, gone]
      simp
  · intro gone
    exact Live.givenUp_after alive (released.mp gone)

/-- A session that is aborted behind an ambiguous name and inside a cluster rests, also when a
table is added to it. Given up behind the ambiguous name, it is empty. -/
theorem lives_after_ambiguity :
    let table : OptionTable := ⟨[.short 'v', ⟨"size", 's'.val, .none, none⟩,
      ⟨"sign", 'g'.val, .none, none⟩]⟩
    let session := ({} : Setup).session table ["prog", "--si", "a", "-vs", "b"]
    let host : Host := ⟨fun _ => 0, []⟩
    let aborted := (Live.mk session host).after [.parse, .parse, .abort]
    let given := (Live.mk session host).after [.parse, .free]
    aborted.session.phase = .exhausted ∧ aborted.session.operands = ["a", "-vs", "b"] ∧
      aborted.Rests (aborted.after [.extend ⟨⟨[.short 'x']⟩, some 0⟩, .parse]) ∧
      given.session.phase = .released ∧ given.session.GivenUp ∧
      given.after [.free, .parse] = given := by
  intro table session host aborted given
  have starts : ({} : Setup).start table ["prog", "--si", "a", "-vs", "b"] host =
      (.ok session, host) := rfl
  have first := lives_after starts [.parse, .parse, .abort]
  have second := lives_after starts [.parse, .free]
  have exhausted : ((Live.mk session host).after [.parse, .parse, .abort]).session.phase =
      .exhausted := by
    cbv
  have operands : ((Live.mk session host).after [.parse, .parse, .abort]).session.operands =
      ["a", "-vs", "b"] := by
    cbv
  have released := second.released_iff.mpr (by decide)
  exact ⟨exhausted, operands, first.rests exhausted _ (by decide), released,
    second.givenUp released, second.unchanged released _⟩

end Setup

end CommandLine
