import Mathlib
import CommandLine.Proofs.History
import CommandLine.Program.Transcript

/-!
# Reading to the end

A session with a reading ahead takes the steps of the reading, turn by turn, and ends with
its operands (`CommandLine.Session.Layout.exists_run`). The calls of a program that parses
until nothing is left do the same (`CommandLine.Live.parse_all`). So a session that is
started over a vector and is read to its end takes the steps of the one-pass reading of the
tokens behind the path (`CommandLine.Setup.launch_reads`).
-/

namespace CommandLine

variable {original : List String}

namespace Session

variable {session : Session}

/-- A run whose turn comes to the end stops there. -/
theorem runWithin_of_done {turn : Turn} (turns : session.turn = .ok turn)
    (done : turn.step.outcome.isDone = true) (count : Nat) :
    session.runWithin (count + 1) = .ok ⟨[turn.step], turn.session⟩ := by
  rw [runWithin, turns]
  exact if_pos done

/-- A run whose turn does not come to the end goes on from what the turn has left. -/
theorem runWithin_of_unfinished {turn : Turn} (turns : session.turn = .ok turn)
    (unfinished : ¬ turn.step.outcome.isDone = true) {count : Nat} {run : Run}
    (runs : turn.session.runWithin count = .ok run) :
    session.runWithin (count + 1) = .ok ⟨turn.step :: run.steps, run.session⟩ := by
  rw [runWithin, turns]
  dsimp only
  rw [if_neg unfinished, runs]

/-- A run takes one turn, or one turn and a run. -/
theorem runWithin_cases {turn : Turn} (turns : session.turn = .ok turn) {count : Nat} {run : Run}
    (runs : session.runWithin (count + 1) = .ok run) :
    run = ⟨[turn.step], turn.session⟩ ∨ ∃ remaining,
      turn.session.runWithin count = .ok remaining ∧
        run = ⟨turn.step :: remaining.steps, remaining.session⟩ := by
  by_cases done : turn.step.outcome.isDone = true
  · rw [runWithin_of_done turns done] at runs
    exact .inl (Except.ok.inj runs).symm
  · cases rest : turn.session.runWithin count with
    | error defect => simp [runWithin, turns, done, rest] at runs
    | ok remaining =>
        rw [runWithin_of_unfinished turns done rest] at runs
        exact .inr ⟨remaining, rfl, (Except.ok.inj runs).symm⟩

/-- Nothing is ahead of a session that is exhausted. -/
theorem Ahead.eq_of_exhausted {reading : Reading} (ahead : session.Ahead reading)
    (exhausted : session.phase = .exhausted) : reading = ⟨[], []⟩ := by
  cases ahead with
  | nothing _ => rfl
  | tokens scanning _ => exact (not_exhausted scanning exhausted).elim
  | letters scanning _ _ => exact (not_exhausted scanning exhausted).elim

/-- **A session takes the steps of the reading ahead**, however many turns it is given
beyond those that it needs. -/
theorem Layout.exists_run (layout : session.Layout original)
    (scanning : session.phase = .scanning) {reading : Reading} (ahead : session.Ahead reading) :
    ∃ final, final.Stored original ∧ final.operands = session.operands ++ reading.operands ∧
      ∀ count, reading.steps.length ≤ count →
        session.runWithin count = .ok ⟨reading.steps, final⟩ := by
  -- The induction is on the steps ahead, of which each turn takes the first.
  induction steps : reading.steps generalizing session reading with
  | nil =>
      obtain ⟨turn, _, progress⟩ := layout.exists_turn scanning ahead
      rcases progress.ahead with ⟨passed, remaining, _, _, rfl⟩
      exact nomatch steps
  | cons step rest ih =>
      obtain ⟨turn, turns, progress⟩ := layout.exists_turn scanning ahead
      rcases progress.ahead with ⟨passed, remaining, next, operands, rfl⟩
      obtain ⟨rfl, rfl⟩ := List.cons.inj steps
      cases progress.alive with
      | exhausted exhausted stored =>
          have nothing := next.eq_of_exhausted exhausted
          subst nothing
          refine ⟨turn.session, stored, ?_, ?_⟩
          · rw [operands, List.append_nil]
          · intro count enough
            obtain ⟨more, rfl⟩ := Nat.exists_eq_add_of_le' enough
            exact runWithin_of_done turns (progress.done_iff.mpr exhausted) more
      | scanning still further =>
          obtain ⟨final, stored, ends, runs⟩ := ih further still next rfl
          have unfinished : ¬ turn.step.outcome.isDone = true := by
            intro done
            exact not_exhausted still (progress.done_iff.mp done)
          refine ⟨final, stored, ?_, ?_⟩
          · rw [ends, operands, List.append_assoc]
          · intro count enough
            obtain ⟨more, rfl⟩ := Nat.exists_eq_add_of_le' enough
            apply runWithin_of_unfinished turns unfinished (runs _ _)
            exact Nat.le_add_left _ _

end Session

namespace Live

/-- **Parsing until nothing is left does what a run does.** -/
theorem parse_all {live : Live} (alive : live.session.Alive original) {count : Nat} {run : Run}
    (runs : live.session.runWithin count = .ok run) :
    live.replies (List.replicate run.steps.length .parse) =
        run.steps.map (fun step => .ok (.outcome step.outcome)) ∧
      live.after (List.replicate run.steps.length .parse) =
        ⟨run.session, live.host.performAll run.effects⟩ := by
  induction count generalizing live run with
  | zero => exact nomatch runs
  | succ count ih =>
      obtain ⟨turn, turns, continues⟩ := alive.exists_turn
      let next : Live := ⟨turn.session, live.host.performAll turn.step.effects⟩
      have answered : live.answer .parse = (.ok (.outcome turn.step.outcome), next) :=
        answer_parse alive.not_released turns
      rcases Session.runWithin_cases turns runs with rfl | ⟨remaining, rest, rfl⟩
      · constructor
        · change [(live.answer .parse).1] = _
          rw [answered]
          rfl
        · change (live.answer .parse).2 = _
          rw [answered, Run.effects, List.flatMap_singleton]
      · obtain ⟨replied, last⟩ := @ih next continues.alive remaining rest
        constructor
        · change (live.answer .parse).1 :: (live.answer .parse).2.replies _ = _
          rw [answered]
          exact congrArg (_ :: ·) replied
        · change (live.answer .parse).2.after _ = _
          rw [answered]
          have performed : next.host.performAll remaining.effects =
              live.host.performAll (turn.step.effects ++ remaining.effects) :=
            (Host.performAll_append _ _ _).symm
          exact last.trans (congrArg (Live.mk remaining.session) performed)

/-- Behind as many calls to parse as there are steps in front of it, a step of a run is that of
the turn that comes next. -/
theorem exists_turn_of_step {live : Live} (alive : live.session.Alive original) {count : Nat}
    {run : Run} (runs : live.session.runWithin count = .ok run) {place : Nat} {step : Step}
    (stands : run.steps[place]? = some step) :
    let now := (live.after (.replicate place .parse)).session
    now.Alive original ∧ ∃ turn, now.turn = .ok turn ∧ turn.step = step := by
  induction place generalizing live count run with
  | zero =>
      cases count with
      | zero => exact nomatch runs
      | succ count =>
          obtain ⟨turn, turns, _⟩ := alive.exists_turn
          refine ⟨alive, turn, turns, ?_⟩
          rcases Session.runWithin_cases turns runs with rfl | ⟨_, _, rfl⟩ <;>
            exact Option.some.inj stands
  | succ place ih =>
      cases count with
      | zero => exact nomatch runs
      | succ count =>
          obtain ⟨turn, turns, continues⟩ := alive.exists_turn
          rcases Session.runWithin_cases turns runs with rfl | ⟨remaining, rest, rfl⟩
          · exact nomatch stands
          · rw [List.replicate_succ, after_cons, answer_parse alive.not_released turns]
            exact @ih ⟨turn.session, live.host.performAll turn.step.effects⟩ continues.alive count
              remaining rest stands

/-- Tables that are valid are added one behind the other. -/
theorem extendAll_of_valid {live : Live} (active : live.session.phase ≠ .released)
    {links : List Link} (valid : ∀ link ∈ links, link.table.Valid) :
    live.extendAll links =
      .ok ⟨{ live.session with
          chain := ⟨live.session.chain.primary, live.session.chain.extensions ++ links⟩ },
        links.foldl (fun host link => host.resetFlags link.table) live.host⟩ := by
  induction links generalizing live with
  | nil =>
      rw [extendAll, List.append_nil]
      rfl
  | cons link links ih =>
      rw [extendAll, extend_of_valid active (valid link List.mem_cons_self)]
      dsimp only
      have others : ∀ other ∈ links, other.table.Valid := by
        intro other member
        exact valid other (List.mem_cons_of_mem link member)
      rw [ih _ others]
      · simp only [Chain.append, List.append_assoc, List.singleton_append, List.foldl_cons]
      · exact active

end Live

namespace Setup

variable {setup : Setup} {table : OptionTable} {libraries : List Link}

/-- The session over a vector once the tables of libraries have been added. -/
def opened (setup : Setup) (table : OptionTable) (libraries : List Link)
    (tokens : List String) : Session :=
  { setup.session table tokens with chain := ⟨table, libraries⟩ }

/-- The reading of the tokens behind the path. -/
def reading (setup : Setup) (table : OptionTable) (libraries : List Link)
    (tokens : List String) : Reading :=
  .ofTokens ⟨table, libraries⟩ (setup.order table) (tokens.drop 1)

/-- A launch with a usable separator and valid tables succeeds, and all their flags are reset in
turn. -/
theorem launch_of_valid (usable : setup.separator ≠ '\x00') (valid : table.Valid)
    (added : ∀ link ∈ libraries, link.table.Valid) (tokens : List String) (host : Host) :
    setup.launch table libraries tokens host =
      .ok ⟨setup.opened table libraries tokens,
        libraries.foldl (fun host link => host.resetFlags link.table)
          (host.resetFlags table)⟩ := by
  rw [launch, start_of_valid usable valid]
  refine (Live.extendAll_of_valid ?_ added).trans rfl
  exact (setup.session_alive table tokens).not_released

/-- A session that has been launched stands behind the path, as adding tables moves no cursor. -/
theorem opened_layout (setup : Setup) (table : OptionTable) (libraries : List Link)
    (tokens : List String) : (setup.opened table libraries tokens).Layout tokens :=
  (setup.session_layout table tokens).rechained ⟨table, libraries⟩

theorem opened_ahead (setup : Setup) (table : OptionTable) (libraries : List Link)
    (tokens : List String) :
    (setup.opened table libraries tokens).Ahead (setup.reading table libraries tokens) :=
  .tokens rfl rfl

/-- A session that has been opened runs to its end within the bound for its vector. -/
theorem exists_run_opened (setup : Setup) (table : OptionTable) (libraries : List Link)
    (tokens : List String) :
    ∃ final, (setup.opened table libraries tokens).run =
        .ok ⟨(setup.reading table libraries tokens).steps, final⟩ ∧
      final.operands = (setup.reading table libraries tokens).operands := by
  have layout := setup.opened_layout table libraries tokens
  obtain ⟨final, _, operands, runs⟩ :=
    layout.exists_run rfl (setup.opened_ahead table libraries tokens)
  refine ⟨final, runs _ ?_, ?_⟩
  · exact Reading.length_steps_ofTokens_le _ _ (tokens.drop 1)
  · rw [operands, Session.operands_of_written_eq_one rfl, List.nil_append]

/-- The run of a command line: a session is started over its tokens, the tables of libraries
are added, and the session is read to its end. -/
def Runs (setup : Setup) (table : OptionTable) (libraries : List Link) (tokens : List String)
    (host : Host) (run : Run) : Prop :=
  ∃ live, setup.launch table libraries tokens host = .ok live ∧ live.session.run = .ok run

/-- Every command line has a run, which is that of its reading. -/
theorem exists_runs (usable : setup.separator ≠ '\x00') (valid : table.Valid)
    (added : ∀ link ∈ libraries, link.table.Valid) (tokens : List String) (host : Host) :
    ∃ run, setup.Runs table libraries tokens host run ∧
      run.steps = (setup.reading table libraries tokens).steps ∧
      run.session.operands = (setup.reading table libraries tokens).operands := by
  obtain ⟨final, runs, operands⟩ := setup.exists_run_opened table libraries tokens
  exact ⟨_, ⟨_, launch_of_valid usable valid added tokens host, runs⟩, rfl, operands⟩

/-- Parsing a launched session as often as its run has steps gives the outcomes of the run, and
acts on the program as the steps of the run say. -/
theorem Runs.exists_live (usable : setup.separator ≠ '\x00') (valid : table.Valid)
    (added : ∀ link ∈ libraries, link.table.Valid) {tokens : List String} {host : Host} {run : Run}
    (runs : setup.Runs table libraries tokens host run) :
    let calls := List.replicate run.steps.length Call.parse
    ∃ live, setup.launch table libraries tokens host = .ok live ∧ live.session.run = .ok run ∧
      live.replies calls = run.steps.map (fun step => .ok (.outcome step.outcome)) ∧
      live.after calls = ⟨run.session, live.host.performAll run.effects⟩ := by
  intro calls
  obtain ⟨live, launches, runs⟩ := runs
  cases (launch_of_valid usable valid added tokens host).symm.trans launches
  have alive := (setup.session_alive table tokens).rechained ⟨table, libraries⟩
  exact ⟨_, launches, runs, @Live.parse_all tokens ⟨_, _⟩ alive _ _ runs⟩

/-- **A session takes the steps of the one-pass reading** of the tokens behind the path,
whatever the tables, the order and the tokens are. It acts on its program as the steps say,
is left with the operands of the reading, and takes the step that finds nothing left once,
as its last. -/
theorem launch_reads (usable : setup.separator ≠ '\x00') (valid : table.Valid)
    (added : ∀ link ∈ libraries, link.table.Valid) (tokens : List String) (host : Host) :
    let reading := setup.reading table libraries tokens
    let calls := List.replicate reading.steps.length Call.parse
    ∃ live final, setup.launch table libraries tokens host = .ok live ∧
      live.session.run = .ok ⟨reading.steps, final⟩ ∧ final.operands = reading.operands ∧
      live.replies calls = reading.steps.map (fun step => .ok (.outcome step.outcome)) ∧
      live.after calls = ⟨final, live.host.performAll (reading.steps.flatMap Step.effects)⟩ ∧
      reading.Ends := by
  intro reading calls
  obtain ⟨⟨_, final⟩, runs, rfl, operands⟩ :=
    setup.exists_runs usable valid added tokens host
  obtain ⟨live, launches, runs, replied, last⟩ := runs.exists_live usable valid added
  exact ⟨live, final, launches, runs, operands, replied, last, Reading.ofTokens_ends _ _ _⟩

/-- The steps of a cluster with an option of the program and one of a library. -/
theorem launch_reads_shared_cluster :
    ∃ live final, ({} : Setup).launch ⟨[.short 'v']⟩ [⟨⟨[.short 'x']⟩, some 0⟩]
        ["prog", "a", "-vx", "--", "-b"] ⟨fun _ => 0, []⟩ = .ok live ∧
      live.session.run = .ok ⟨[⟨.matched 'v'.val none, []⟩,
        ⟨.handled, [.notify ⟨0, 'x'.val, none⟩]⟩, .ending], final⟩ ∧
      final.operands = ["a", "-b"] := by
  have valid : ∀ link ∈ [(⟨⟨[.short 'x']⟩, some 0⟩ : Link)], link.table.Valid := by
    decide
  obtain ⟨live, final, launches, runs, operands, _⟩ := @launch_reads {} ⟨[.short 'v']⟩ _
    (by decide) (by decide) valid ["prog", "a", "-vx", "--", "-b"] ⟨fun _ => 0, []⟩
  have reads : ({} : Setup).reading ⟨[.short 'v']⟩ [⟨⟨[.short 'x']⟩, some 0⟩]
      ["prog", "a", "-vx", "--", "-b"] = ⟨[⟨.matched 'v'.val none, []⟩,
        ⟨.handled, [.notify ⟨0, 'x'.val, none⟩]⟩, .ending], ["a", "-b"]⟩ := by
    cbv
  rw [reads] at runs operands
  exact ⟨live, final, launches, runs, operands⟩

end Setup

end CommandLine
