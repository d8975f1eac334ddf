import Mathlib
import CommandLine.Proofs.Session.Alongside

/-!
# The strict order

In the strict order the first operand ends the options, and so do the two hyphens. A session
comes to that token without having passed anything (`CommandLine.Session.ends_or_passes_nothing`),
so its operands are an end of the vector, and what stands behind the token has no part in the
steps that it takes (`CommandLine.Setup.strict_order_stops`). An operand that an option takes
for its argument is not such a token: which one is depends on the run.
-/

namespace CommandLine

variable {original : List String}

/-- A token that ends the options in the strict order, before others, and the operands that
there are then: an operand is one of them, the two hyphens are not. -/
inductive EndsOptions (token : String) (rest : List String) : List String → Prop where
  | operand (kind : TokenKind.ofText token.toList = .operand) :
      EndsOptions token rest (token :: rest)
  | hyphens (kind : TokenKind.ofText token.toList = .terminator) : EndsOptions token rest rest

/-- The operands that a token leaves are an end of what there was. -/
theorem EndsOptions.suffix {token : String} {rest operands : List String}
    (ends : EndsOptions token rest operands) : operands <:+ token :: rest := by
  cases ends with
  | operand => exact List.suffix_refl _
  | hyphens => exact List.suffix_cons token rest

/-- Which token it is does not depend on what stands behind it. -/
theorem EndsOptions.exists_before {token : String} {rest operands : List String}
    (ends : EndsOptions token rest operands) (behind : List String) :
    ∃ others, EndsOptions token behind others := by
  cases ends with
  | operand kind => exact ⟨_, .operand kind⟩
  | hyphens kind => exact ⟨_, .hyphens kind⟩

namespace Reading

variable {chain : Chain}

/-- In the strict order, a token that ends the options leaves no step but the last. -/
theorem ofTokens_of_endsOptions {token : String} {rest operands : List String}
    (ends : EndsOptions token rest operands) :
    ofTokens chain .requireOrder (token :: rest) = ⟨[.ending], operands⟩ := by
  cases ends with
  | operand kind =>
      rw [ofTokens_of_operand rest kind]
      exact ofOperands_of_ne (by simp) _
  | hyphens kind =>
      rw [ofTokens_of_terminator rest kind]
      exact ofOperands_of_ne (by simp) rest

theorem head?_ofLetters (order : OperandOrder) (c : Char) (letters : List Char)
    (rest : List String) :
    (ofLetters chain order c letters rest).steps.head? =
      some (letterStep chain c letters rest).1 := by
  rw [ofLetters.eq_def]
  rfl

/-- Tokens whose first step finds nothing left are none, or the first of them ends the
options. -/
theorem endsOptions_of_done {tokens : List String} {step : Step}
    (first : (ofTokens chain .requireOrder tokens).steps.head? = some step)
    (done : step.outcome.isDone = true) :
    (ofTokens chain .requireOrder tokens).operands = [] ∨
      ∃ token rest operands, tokens = token :: rest ∧ EndsOptions token rest operands := by
  cases tokens with
  | nil =>
      rw [ofTokens_nil]
      exact .inl rfl
  | cons token rest =>
      cases kind : TokenKind.ofText token.toList with
      | absent => exact (TokenKind.ofText_ne_absent _ kind).elim
      | operand => exact .inr ⟨token, rest, _, rfl, .operand kind⟩
      | terminator => exact .inr ⟨token, rest, _, rfl, .hyphens kind⟩
      | longOption =>
          obtain ⟨c, body, text⟩ := TokenKind.ofText_eq_longOption_iff.mp kind
          rw [ofTokens_of_longOption rest text] at first
          cases first
          rw [(longStep_ofOption _ _).not_done] at done
          exact nomatch done
      | shortCluster =>
          obtain ⟨c, letters, text, other⟩ := TokenKind.ofText_eq_shortCluster_iff.mp kind
          rw [ofTokens_of_shortCluster rest text other, head?_ofLetters] at first
          cases first
          rw [(letterStep_ofOption _ _ _).not_done] at done
          exact nomatch done

end Reading

/-- So many calls to parse bring a session to a token that ends its options, before others. -/
structure Live.StopsAt (live : Live) (count : Nat) (token : String) (rest operands : List String) :
    Prop where
  stands : (live.after (.replicate count .parse)).session.StandsBefore (token :: rest)
  ends : EndsOptions token rest operands

namespace Session

variable {session : Session} {turn : Turn}

/-- A session in the strict order that recognises options and has passed no operand. -/
structure AtOptions (session : Session) : Prop where
  order : session.order = .requireOrder
  recognising : session.operandsOnly = false
  operands : session.operands = []

/-- A turn on an option passes no operand, and options are recognised behind it. -/
theorem PassesOption.passes_nothing (passes : session.PassesOption turn) :
    turn.session.operandsOnly = false ∧ turn.session.operands = session.operands := by
  obtain ⟨extent, after, letters, candidates, same⟩ := passes.past
  rw [same]
  exact ⟨(operandsOnly_past session extent after letters).trans passes.recognising,
    operands_past session extent after letters⟩

/-- In the strict order a scan ends the reading, or passes nothing and recognises options as
before. -/
theorem Scans.ends_or_passes_nothing (scans : session.Scans turn)
    (strict : session.order = .requireOrder) :
    turn.session.phase = .exhausted ∨ session.operandsOnly = false ∧
      turn.session.operandsOnly = false ∧ turn.session.operands = session.operands := by
  induction scans with
  | ending => exact .inl rfl
  | terminator _ _ _ ih =>
      rcases ih strict with ends | ⟨latched, _⟩
      · exact .inl ends
      · simp at latched
  | gathered _ _ _ _ _ ih =>
      rcases ih strict with ends | ⟨latched, _⟩
      · exact .inl ends
      · simp [behindOperand, strict] at latched
  | reported _ _ reports => simp [strict] at reports
  | long unread kind reads =>
      have passes := passesOption_of_long unread kind reads
      exact .inr ⟨passes.recognising, passes.passes_nothing⟩
  | cluster unread kind reads =>
      have passes := passesOption_of_cluster unread kind reads
      exact .inr ⟨passes.recognising, passes.passes_nothing⟩

/-- **A turn in the strict order** ends the reading or passes nothing. -/
theorem Layout.ends_or_passes_nothing (layout : session.Layout original)
    (scanning : session.phase = .scanning) (before : session.AtOptions)
    (turns : session.turn = .ok turn) :
    turn.session.phase = .exhausted ∨ turn.session.AtOptions := by
  have order := ((Alive.scanning scanning layout).continues_of_turn turns).order
  cases layout.takesTurn scanning turns with
  | scan _ scans =>
      rcases scans.ends_or_passes_nothing before.order with ends | ⟨_, recognising, operands⟩
      · exact .inl ends
      · exact .inr ⟨order.trans before.order, recognising, operands.trans before.operands⟩
  | letter _ letter reads =>
      obtain ⟨recognising, operands⟩ := (letter.resumed.passesOption reads).passes_nothing
      exact .inr ⟨order.trans before.order, recognising, operands.trans before.operands⟩

/-- In the strict order a session that still reads has passed nothing, over every turn. -/
theorem Alive.atOptions_of_turn (alive : session.Alive original)
    (before : session.phase = .scanning → session.AtOptions) (turns : session.turn = .ok turn)
    (still : turn.session.phase = .scanning) : turn.session.AtOptions := by
  cases alive with
  | exhausted phase stored =>
      cases turns.symm.trans (turn_of_exhausted phase)
      exact (not_exhausted still phase).elim
  | scanning phase layout =>
      exact (layout.ends_or_passes_nothing phase (before phase) turns).resolve_left
        (not_exhausted still)

/-- What a session has ahead of it when its turn is the last. -/
theorem AtOptions.endsOptions_of_done (before : session.AtOptions) {reading : Reading}
    (scanning : session.phase = .scanning) (ahead : session.Ahead reading) {step : Step}
    (first : reading.steps.head? = some step) (done : step.outcome.isDone = true) :
    reading.operands = [] ∨ ∃ token rest operands, session.StandsBefore (token :: rest) ∧
      EndsOptions token rest operands := by
  cases ahead with
  | nothing exhausted => exact (not_exhausted scanning exhausted).elim
  | letters _ _ letter =>
      rw [Reading.head?_ofLetters] at first
      cases first
      rw [(Reading.letterStep_ofOption _ _ _).not_done] at done
      exact nomatch done
  | tokens _ between =>
      rw [meaning_of_recognising before.recognising, before.order] at first ⊢
      refine (Reading.endsOptions_of_done first done).imp_right ?_
      rintro ⟨token, rest, operands, unread, ends⟩
      exact ⟨token, rest, operands, ⟨scanning, between, before.recognising, unread⟩, ends⟩

/-- In the strict order there are operands only where calls to parse bring the session to a token
that ends the options. -/
theorem Layout.exists_endsOptions (layout : session.Layout original)
    (scanning : session.phase = .scanning) (before : session.AtOptions) {reading : Reading}
    (ahead : session.Ahead reading) (host : Host) :
    reading.operands = [] ∨
      ∃ count token rest operands, (Live.mk session host).StopsAt count token rest operands := by
  -- The induction is on the steps ahead, of which each turn takes the first.
  induction steps : reading.steps generalizing session reading host with
  | nil =>
      obtain ⟨turn, _, progress⟩ := layout.exists_turn scanning ahead
      rcases progress.ahead with ⟨passed, remaining, _, _, rfl⟩
      exact nomatch steps
  | cons step behind ih =>
      have alive : session.Alive original := .scanning scanning layout
      obtain ⟨turn, turns, progress⟩ := layout.exists_turn scanning ahead
      obtain ⟨passed, remaining, next, operands, same⟩ := progress.ahead
      by_cases done : turn.step.outcome.isDone = true
      · have first : reading.steps.head? = some turn.step := by
          rw [same]
          rfl
        refine (before.endsOptions_of_done scanning ahead first done).imp_right ?_
        rintro ⟨token, rest, operands, stands, ends⟩
        exact ⟨0, token, rest, operands, stands, ends⟩
      · have running : turn.session.phase ≠ .exhausted := fun ends =>
          done (progress.done_iff.mpr ends)
        have further :=
          (layout.ends_or_passes_nothing scanning before turns).resolve_left running
        have still : turn.session.phase = .scanning := by
          cases progress.alive with
          | scanning phase _ => exact phase
          | exhausted phase _ => exact (running phase).elim
        subst same
        cases steps
        have nothing : passed = [] := by
          rw [further.operands, before.operands, List.nil_append] at operands
          exact operands.symm
        rw [nothing]
        refine (ih (progress.alive.layout still) still further next
          (host.performAll turn.step.effects) rfl).imp_right ?_
        rintro ⟨count, token, rest, texts, stands, ends⟩
        refine ⟨count + 1, token, rest, texts, ?_, ends⟩
        rw [List.replicate_succ, Live.after_cons,
          @Live.answer_parse ⟨session, host⟩ alive.not_released turn turns]
        exact stands

end Session

namespace Setup

variable {setup : Setup} {table : OptionTable} {libraries : List Link} {tokens : List String}
  {host : Host}

theorem opened_atOptions (strict : setup.order table = .requireOrder) :
    (setup.opened table libraries tokens).AtOptions :=
  ⟨strict, rfl, Session.operands_of_written_eq_one rfl⟩

/-- In the strict order a session that still reads has not passed anything. -/
theorem atOptions_after (strict : setup.order table = .requireOrder) (count : Nat)
    (scanning : ((Live.mk (setup.opened table libraries tokens) host).after
      (.replicate count .parse)).session.phase = .scanning) :
    ((Live.mk (setup.opened table libraries tokens) host).after
      (.replicate count .parse)).session.AtOptions := by
  have alive : (setup.opened table libraries tokens).Alive tokens :=
    .scanning rfl (setup.opened_layout table libraries tokens)
  exact (@Live.after_parses _ ⟨_, host⟩ (fun session => session.phase = .scanning →
    session.AtOptions) Session.Alive.atOptions_of_turn alive (fun _ => opened_atOptions strict)
    count).2 scanning

/-- What is ahead of a session that stands before a token which ends its options. -/
theorem eq_of_ahead_of_endsOptions {session : Session} (strict : session.order = .requireOrder)
    {token : String} {rest operands : List String}
    (stands : session.StandsBefore (token :: rest)) (ends : EndsOptions token rest operands)
    {reading : Reading} (ahead : session.Ahead reading) : reading = ⟨[.ending], operands⟩ := by
  rw [stands.eq_of_ahead ahead, strict]
  exact Reading.ofTokens_of_endsOptions ends

/-- **A token that ends the options** in the strict order is the last that the steps depend on,
and begins the operands or stands in front of them. -/
theorem reading_of_stopsAt (strict : setup.order table = .requireOrder) {count : Nat}
    {token : String} {rest operands : List String}
    (stops : (Live.mk (setup.opened table libraries tokens) host).StopsAt count token rest
      operands) :
    let stop := ((Live.mk (setup.opened table libraries tokens) host).after
      (.replicate count .parse)).session
    1 ≤ stop.next ∧ tokens.drop stop.next = token :: rest ∧ stop.operands = [] ∧
      (setup.reading table libraries tokens).operands = operands ∧
      (setup.reading table libraries tokens).steps.length = count + 1 ∧
      ∀ another, another.take (stop.next + 1) = tokens.take (stop.next + 1) →
        (setup.reading table libraries another).steps =
          (setup.reading table libraries tokens).steps := by
  intro stop
  have stands : stop.StandsBefore (token :: rest) := stops.stands
  have before : stop.AtOptions := atOptions_after strict count stands.scanning
  have within := stands.within (Nat.le_refl stop.next)
  obtain ⟨steps, length, reaches⟩ := exists_steps_of_within within
  obtain ⟨remaining, ahead, sameSteps, sameOperands⟩ := reaches.ahead
  cases eq_of_ahead_of_endsOptions before.order stands stops.ends ahead
  have layout := reaches.layout
  have here := layout.unread.symm.trans stands.unread
  refine ⟨Nat.le_trans layout.one_le_written layout.written_le_next, here, before.operands,
    ?_, ?_, ?_⟩
  · rw [sameOperands, before.operands]
    rfl
  · rw [sameSteps, List.length_append, length]
    rfl
  · intro another same
    obtain ⟨alongside, others, _, first, second⟩ :=
      exists_steps_of_beginAlike (.of_take same) within
    obtain ⟨left, ahead, sameSteps, _⟩ := first.ahead
    obtain ⟨otherLeft, otherAhead, otherSteps, _⟩ := second.ahead
    have there : another[stop.next]? = some token := by
      rw [getElem?_of_take_eq same (Nat.lt_succ_self _), Session.getElem?_of_drop_eq here]
    obtain ⟨behind, unread⟩ := List.head?_eq_some_iff.mp (List.head?_drop.trans there)
    have otherStands := stands.alongside alongside second.layout
    rw [unread] at otherStands
    obtain ⟨texts, ends⟩ := stops.ends.exists_before behind
    rw [otherSteps, sameSteps, eq_of_ahead_of_endsOptions before.order stands stops.ends ahead,
      eq_of_ahead_of_endsOptions (alongside.order.trans before.order) otherStands ends otherAhead]

/-- **The strict order stops at the first operand.** The operands are the end of the vector from
the token at which calls to parse find the options ended, or from behind it when that is the two
hyphens; there are none when there is no such token. Nothing has been passed before it, one more
step is taken, and a vector that agrees up to this token and at it is read by the same steps, acts
on the program included, whatever comes behind. -/
theorem strict_order_stops (usable : setup.separator ≠ '\x00') (valid : table.Valid)
    (added : ∀ link ∈ libraries, link.table.Valid) (strict : setup.order table = .requireOrder)
    (tokens : List String) (host : Host) :
    ∃ live run, setup.launch table libraries tokens host = .ok live ∧
      live.session.run = .ok run ∧ run.session.operands <:+ tokens.drop 1 ∧
      (run.session.operands = [] ∨
        ∃ count token rest operands, live.StopsAt count token rest operands) ∧
      ∀ count token rest operands, live.StopsAt count token rest operands →
        let stop := (live.after (.replicate count .parse)).session
        tokens.drop stop.next = token :: rest ∧ stop.operands = [] ∧
          run.steps.length = count + 1 ∧ run.session.operands = operands ∧
          ∀ another otherHost, another.take (stop.next + 1) = tokens.take (stop.next + 1) →
            ∃ otherRun, setup.Runs table libraries another otherHost otherRun ∧
              otherRun.steps = run.steps := by
  obtain ⟨final, runs, same⟩ := setup.exists_run_opened table libraries tokens
  have launches := launch_of_valid usable valid added tokens host
  have layout := setup.opened_layout table libraries tokens
  have found := layout.exists_endsOptions rfl (opened_atOptions strict)
    (setup.opened_ahead table libraries tokens)
  refine ⟨_, _, launches, runs, ?_, ?_, ?_⟩
  · rw [same]
    rcases found host with none | ⟨count, token, rest, operands, stops⟩
    · rw [none]
      exact List.nil_suffix
    · obtain ⟨behind, here, _, sameOperands, _⟩ := reading_of_stopsAt strict stops
      rw [sameOperands]
      refine stops.ends.suffix.trans ?_
      rw [← here]
      exact List.drop_suffix_drop_left tokens behind
  · rw [same]
    exact found _
  · intro count token rest operands stops stop
    obtain ⟨_, here, nothing, sameOperands, length, alike⟩ := reading_of_stopsAt strict stops
    refine ⟨here, nothing, length, same.trans sameOperands, ?_⟩
    intro another otherHost agrees
    obtain ⟨otherRun, otherRuns, steps, _⟩ :=
      exists_runs usable valid added another otherHost
    exact ⟨otherRun, otherRuns, steps.trans (alike another agrees)⟩

/-- A number that an option takes does not end the options, the operand behind it does. -/
theorem strict_order_stops_behind_argument :
    let table := OptionTable.requiringOrder
      [.short 'v', ⟨"num", 'n'.val, .required .int, none⟩]
    ∃ live run, ({} : Setup).launch table [] ["prog", "--num", "7", "a", "-v"] ⟨fun _ => 0, []⟩ =
        .ok live ∧ live.session.run = .ok run ∧ live.StopsAt 1 "a" ["-v"] ["a", "-v"] ∧
      run.session.operands = ["a", "-v"] ∧ run.steps.length = 2 ∧
      ∀ another otherHost, another.take 4 = ["prog", "--num", "7", "a"] →
        ∃ otherRun, ({} : Setup).Runs table [] another otherHost otherRun ∧
          otherRun.steps = run.steps := by
  intro table
  obtain ⟨live, run, launches, runs, _, _, stops⟩ := @strict_order_stops {} table [] (by decide)
    (by decide) (by simp) rfl ["prog", "--num", "7", "a", "-v"] ⟨fun _ => 0, []⟩
  let host : Host := (⟨fun _ => 0, []⟩ : Host).resetFlags table
  have launched : ({} : Setup).launch table [] ["prog", "--num", "7", "a", "-v"]
      ⟨fun _ => 0, []⟩ =
      .ok ⟨({} : Setup).opened table [] ["prog", "--num", "7", "a", "-v"], host⟩ := rfl
  cases launched.symm.trans launches
  have stop : (Live.mk (({} : Setup).opened table [] ["prog", "--num", "7", "a", "-v"])
      host).StopsAt 1 "a" ["-v"] ["a", "-v"] :=
    ⟨⟨by cbv, by cbv, by cbv, by cbv⟩, .operand (by decide)⟩
  obtain ⟨_, _, length, operands, alike⟩ := stops _ _ _ _ stop
  have place : ((Live.mk (({} : Setup).opened table [] ["prog", "--num", "7", "a", "-v"])
      host).after (.replicate 1 .parse)).session.next = 3 := by
    cbv
  rw [place] at alike
  exact ⟨_, run, launched, runs, stop, operands, length, alike⟩

end Setup

end CommandLine
