import CommandLine.Proofs.Resumption

/-!
# Sessions over vectors that begin alike

A session looks at the token that it stands at and, for the argument of an option, at the one
behind it, and at no other. So sessions over two vectors that agree up to a position, and that
offer the same there to an option in front (`CommandLine.BeginAlike`), take the same turns and
stand alongside each other for as long as they have not come past that position
(`CommandLine.Session.Alongside.exists_turn`). What they have read of their command lines is
then the same (`CommandLine.Live.alongside_after`).
-/

namespace CommandLine

variable {original another : List String} {limit : Nat}

/-- Two vectors that agree in front of a position, and of which neither offers more than the
other to an option that stands in front of it. -/
structure BeginAlike (limit : Nat) (original another : List String) : Prop where
  same : ∀ position, position < limit → another[position]? = original[position]?
  offered : Reading.offered? (another.drop limit) = Reading.offered? (original.drop limit)

theorem BeginAlike.refl (limit : Nat) (original : List String) :
    BeginAlike limit original original :=
  ⟨fun _ _ => rfl, rfl⟩

theorem getElem?_of_take_eq {position : Nat} (same : another.take limit = original.take limit)
    (before : position < limit) : another[position]? = original[position]? := by
  rw [← List.getElem?_take_of_lt before, same, List.getElem?_take_of_lt before]

/-- Vectors with the same tokens up to a position, and at it. -/
theorem BeginAlike.of_take (same : another.take (limit + 1) = original.take (limit + 1)) :
    BeginAlike limit original another := by
  refine ⟨fun position before => getElem?_of_take_eq same (Nat.lt_succ_of_lt before), ?_⟩
  rw [Reading.offered?, Reading.offered?, List.head?_drop, List.head?_drop,
    getElem?_of_take_eq same (Nat.lt_succ_self limit)]

/-- Vectors that begin alike offer the same argument at every position up to the limit. -/
theorem BeginAlike.offered_drop (alike : BeginAlike limit original another) {position : Nat}
    (before : position ≤ limit) :
    Reading.offered? (another.drop position) = Reading.offered? (original.drop position) := by
  rcases Nat.lt_or_eq_of_le before with inside | rfl
  · rw [Reading.offered?, Reading.offered?, List.head?_drop, List.head?_drop,
      alike.same position inside]
  · exact alike.offered

namespace Session

variable {session other : Session} {turn : Turn}

/-- A session that reads, recognises options and has not come past a position. -/
structure Within (limit : Nat) (session : Session) : Prop where
  scanning : session.phase = .scanning
  recognising : session.operandsOnly = false
  place : session.next < limit ∨ session.next = limit ∧ session.pending? = none

/-- Two sessions at the same place of their vectors, with the same operands behind them. -/
structure Alongside (session other : Session) : Prop where
  chain : other.chain = session.chain
  order : other.order = session.order
  phase : other.phase = session.phase
  operandsOnly : other.operandsOnly = session.operandsOnly
  next : other.next = session.next
  pending : other.pending? = session.pending?
  operands : other.operands = session.operands

/-- A session that moves to a place within the limit has stood before the limit. -/
theorem Within.of_past {extent : Extent} {after : Nat} {letters : List Char}
    (within : (session.past extent after letters).Within limit) : session.next < limit := by
  have place := within.place
  cases extent with
  | letter =>
      cases letters with
      | nil =>
          change session.next + 1 < limit ∨ session.next + 1 = limit ∧ _ at place
          omega
      | cons next letters =>
          rcases place with before | ⟨_, inside⟩
          · exact before
          · exact nomatch inside
  | token =>
      change session.next + 1 < limit ∨ session.next + 1 = limit ∧ _ at place
      omega
  | following =>
      change session.next + 1 + 1 < limit ∨ session.next + 1 + 1 = limit ∧ _ at place
      omega

/-- An option whose reading ends within the limit stands before it. -/
theorem PassesOption.next_lt_of_within (passes : session.PassesOption turn)
    (within : turn.session.Within limit) : session.next < limit := by
  obtain ⟨extent, after, letters, candidates, same⟩ := passes.past
  rw [same] at within
  have past : (session.past extent after letters).Within limit :=
    ⟨within.scanning, within.recognising, within.place⟩
  exact past.of_past

/-- A scan that stays within a position has started in front of it. -/
theorem Scans.next_lt_of_within (scans : session.Scans turn)
    (within : turn.session.Within limit) :
    session.operandsOnly = false ∧ session.next < limit := by
  induction scans with
  | ending => exact nomatch within.scanning
  | terminator _ _ _ ih => exact nomatch (ih within).1
  | gathered _ _ _ _ _ ih =>
      obtain ⟨recognising, before⟩ := ih within
      exact ⟨(Bool.or_eq_false_iff.mp recognising).1, Nat.lt_of_succ_lt before⟩
  | @reported session token rest =>
      have place := within.place
      change session.next + 1 < limit ∨ session.next + 1 = limit ∧ _ at place
      exact ⟨within.recognising, by omega⟩
  | long unread kind reads =>
      have passes := passesOption_of_long unread kind reads
      exact ⟨passes.recognising, passes.next_lt_of_within within⟩
  | cluster unread kind reads =>
      have passes := passesOption_of_cluster unread kind reads
      exact ⟨passes.recognising, passes.next_lt_of_within within⟩

/-- A turn that ends within the limit has begun within it, as cursors only move on. -/
theorem Alive.within_of_turn (alive : session.Alive original) (turns : session.turn = .ok turn)
    (within : turn.session.Within limit) : session.Within limit := by
  cases alive with
  | exhausted phase stored =>
      cases turns.symm.trans (turn_of_exhausted phase)
      exact (not_exhausted within.scanning phase).elim
  | scanning phase layout =>
      cases layout.takesTurn phase turns with
      | scan _ scans =>
          obtain ⟨recognising, before⟩ := scans.next_lt_of_within within
          exact ⟨phase, recognising, .inl before⟩
      | letter _ letter reads =>
          have before := (letter.resumed.passesOption reads).next_lt_of_within within
          exact ⟨phase, letter.recognising, .inl before⟩

namespace Alongside

/-- In front of the position both sessions stand at the same token. -/
theorem exists_unread (alongside : session.Alongside other)
    (alike : BeginAlike limit original another) (layout : session.Layout original)
    (otherLayout : other.Layout another) (before : session.next < limit) {token : String}
    {rest : List String} (unread : session.tokens.drop session.next = token :: rest) :
    ∃ behind, other.tokens.drop other.next = token :: behind := by
  have stands := getElem?_of_drop_eq (layout.unread.symm.trans unread)
  rw [← alike.same session.next before, ← List.head?_drop, ← alongside.next,
    ← otherLayout.unread] at stands
  exact List.head?_eq_some_iff.mp stands

/-- What stands behind that token offers them the same. -/
theorem offered_followers (alongside : session.Alongside other)
    (alike : BeginAlike limit original another) (layout : session.Layout original)
    (otherLayout : other.Layout another) (before : session.next < limit) :
    Reading.offered? other.followers = Reading.offered? session.followers := by
  rw [followers, followers, ← List.drop_drop, ← List.drop_drop, otherLayout.unread,
    layout.unread, List.drop_drop, List.drop_drop, alongside.next]
  exact alike.offered_drop before

/-- Sessions alongside stay alongside when they move past the same tokens. -/
theorem past (alongside : session.Alongside other) (extent : Extent) (after : Nat)
    (letters : List Char) :
    (session.past extent after letters).Alongside (other.past extent after letters) := by
  have skip : session.skip.Alongside other.skip :=
    ⟨alongside.chain, alongside.order, alongside.phase, alongside.operandsOnly,
      congrArg (· + 1) alongside.next, alongside.pending, alongside.operands⟩
  cases extent with
  | letter =>
      cases letters with
      | nil => exact skip
      | cons next letters =>
          exact ⟨alongside.chain, alongside.order, alongside.phase, alongside.operandsOnly,
            alongside.next, rfl, alongside.operands⟩
  | token => exact skip
  | following =>
      exact ⟨skip.chain, skip.order, skip.phase, skip.operandsOnly, congrArg (· + 1) skip.next,
        skip.pending, skip.operands⟩

/-- Sessions alongside read a letter alike when they are offered the same argument behind it. -/
theorem exists_shortOption (alongside : session.Alongside other)
    (same : Reading.offered? other.followers = Reading.offered? session.followers)
    {offset : Nat} {c : Char} {letters : List Char} (letter : session.AtLetter offset c letters)
    (otherLetter : other.AtLetter offset c letters)
    (reads : session.shortOption offset = .ok turn) :
    ∃ otherTurn, other.shortOption offset = .ok otherTurn ∧ otherTurn.step = turn.step ∧
      turn.session.Alongside otherTurn.session := by
  cases reads.symm.trans (shortOption_eq letter)
  have otherReads := shortOption_eq otherLetter
  rw [alongside.chain, Reading.letterStep_of_offered? same] at otherReads
  exact ⟨_, otherReads, rfl, alongside.past _ _ _⟩

/-- Sessions alongside read a long option alike when they are offered the same argument behind
it. -/
theorem exists_longOption (alongside : session.Alongside other)
    (same : Reading.offered? other.followers = Reading.offered? session.followers)
    (recognising : session.operandsOnly = false) {token : String} {rest behind : List String}
    (unread : session.tokens.drop session.next = token :: rest)
    (otherUnread : other.tokens.drop other.next = token :: behind) {body : List Char}
    (text : token.toList = '-' :: '-' :: body) (reads : session.longOption = .ok turn) :
    ∃ otherTurn, other.longOption = .ok otherTurn ∧ otherTurn.step = turn.step ∧
      turn.session.Alongside otherTurn.session := by
  cases reads.symm.trans (longOption_eq recognising (getElem?_of_drop_eq unread) text)
  have otherReads := longOption_eq (alongside.operandsOnly.trans recognising)
    (getElem?_of_drop_eq otherUnread) text
  rw [alongside.chain, Reading.longStep_of_offered? same] at otherReads
  have past := alongside.past (Reading.longStep session.chain body session.followers).2 0 []
  exact ⟨_, otherReads, rfl, past.chain, past.order, past.phase, past.operandsOnly, past.next,
    past.pending, past.operands⟩

end Alongside

/-- A scan that stays within the position is one of the other session too. -/
theorem Scans.exists_alongside (scans : session.Scans turn) (within : turn.session.Within limit)
    (alike : BeginAlike limit original another) (alongside : session.Alongside other)
    (layout : session.Layout original) (otherLayout : other.Layout another)
    (between : session.pending? = none) :
    ∃ otherTurn, other.scan = .ok otherTurn ∧ otherTurn.step = turn.step ∧
      turn.session.Alongside otherTurn.session := by
  have before := (scans.next_lt_of_within within).2
  induction scans generalizing other with
  | ending => exact nomatch within.scanning
  | terminator _ _ further => exact nomatch (further.next_lt_of_within within).1
  | gathered unread kind gathers passes further ih =>
      obtain ⟨behind, otherUnread⟩ := alongside.exists_unread alike layout otherLayout before unread
      have otherBetween := alongside.pending.trans between
      obtain ⟨otherTokens, otherPasses, otherScans⟩ := otherLayout.exists_scan_behindOperand
        otherUnread (alongside.operandsOnly ▸ kind) (alongside.order ▸ gathers)
      rw [otherScans]
      apply ih within _ (layout.behindOperand gathers between unread passes)
        (otherLayout.behindOperand (alongside.order ▸ gathers) otherBetween otherUnread otherPasses)
        between (further.next_lt_of_within within).2
      refine ⟨alongside.chain, alongside.order, alongside.phase, ?_,
        congrArg (· + 1) alongside.next, alongside.pending, ?_⟩
      · simp only [behindOperand, alongside.operandsOnly, alongside.order]
      · rw [layout.operands_behindOperand unread passes,
          otherLayout.operands_behindOperand otherUnread otherPasses, alongside.operands]
  | reported unread kind reports =>
      obtain ⟨behind, otherUnread⟩ := alongside.exists_unread alike layout otherLayout before unread
      have otherReports := alongside.order.trans reports
      refine ⟨_, scan_of_reported otherUnread (alongside.operandsOnly ▸ kind) otherReports, rfl,
        alongside.chain, alongside.order, alongside.phase, alongside.operandsOnly,
        congrArg (· + 1) alongside.next, alongside.pending, ?_⟩
      rw [layout.operands_taken reports, otherLayout.operands_taken otherReports,
        alongside.operands]
  | long unread kind reads =>
      obtain ⟨behind, otherUnread⟩ := alongside.exists_unread alike layout otherLayout before unread
      obtain ⟨recognising, c, body, text⟩ := recognising_of_longOption kind
      rw [scan_of_longOption otherUnread (alongside.operandsOnly ▸ kind)]
      exact alongside.exists_longOption
        (alongside.offered_followers alike layout otherLayout before) recognising unread otherUnread
        text reads
  | cluster unread kind reads =>
      obtain ⟨behind, otherUnread⟩ := alongside.exists_unread alike layout otherLayout before unread
      obtain ⟨recognising, c, letters, text, first⟩ := recognising_of_shortCluster kind
      rw [scan_of_shortCluster otherUnread (alongside.operandsOnly ▸ kind)]
      exact alongside.exists_shortOption
        (alongside.offered_followers alike layout otherLayout before)
        (.of_cluster unread recognising text first)
        (.of_cluster otherUnread (alongside.operandsOnly.trans recognising) text first) reads

/-- **A turn that stays within the position** is one of the other session too. -/
theorem Alongside.exists_turn (alongside : session.Alongside other)
    (alike : BeginAlike limit original another) (layout : session.Layout original)
    (otherLayout : other.Layout another) (phase : session.phase = .scanning)
    (turns : session.turn = .ok turn) (within : turn.session.Within limit) :
    ∃ otherTurn, other.turn = .ok otherTurn ∧ otherTurn.step = turn.step ∧
      turn.session.Alongside otherTurn.session := by
  have otherPhase := alongside.phase.trans phase
  cases layout.takesTurn phase turns with
  | scan between scans =>
      have otherBetween := alongside.pending.trans between
      rw [turn_of_between otherPhase otherBetween]
      have cleared : ({ session with ambiguous := .empty } : Session).Alongside
          { other with ambiguous := .empty } :=
        ⟨alongside.chain, alongside.order, alongside.phase, alongside.operandsOnly,
          alongside.next, alongside.pending, alongside.operands⟩
      exact scans.exists_alongside within alike cleared (layout.cleared between)
        (otherLayout.cleared otherBetween) between
  | @letter offset c letters pending letter reads =>
      rw [turn_of_pending otherPhase (alongside.pending.trans pending)]
      have before := (letter.resumed.passesOption reads).next_lt_of_within within
      have resumed : ({ session with ambiguous := .empty, pending? := none } : Session).Alongside
          { other with ambiguous := .empty, pending? := none } :=
        ⟨alongside.chain, alongside.order, alongside.phase, alongside.operandsOnly,
          alongside.next, rfl, alongside.operands⟩
      have otherLetter : other.AtLetter offset c letters := by
        obtain ⟨token, start, stands, kind, text, length⟩ := letter.stands
        obtain ⟨rest, unread⟩ := List.head?_eq_some_iff.mp ((List.head?_drop ..).trans stands)
        obtain ⟨behind, otherUnread⟩ :=
          alongside.exists_unread alike layout otherLayout before unread
        exact ⟨alongside.operandsOnly.trans letter.recognising, letter.started, token, start,
          getElem?_of_drop_eq otherUnread, kind, text, length⟩
      exact resumed.exists_shortOption
        (alongside.offered_followers alike layout otherLayout before) letter.resumed
        otherLetter.resumed reads

/-- A session comes to a later state by steps: these and what the later state has ahead are what
the session has ahead. -/
def ComesBy (steps : List Step) (session later : Session) : Prop :=
  ∀ reading, session.Ahead reading → ∃ remaining, later.Ahead remaining ∧
    reading.steps = steps ++ remaining.steps ∧
    session.operands ++ reading.operands = later.operands ++ remaining.operands

theorem ComesBy.refl (session : Session) : session.ComesBy [] session :=
  fun reading ahead => ⟨reading, ahead, rfl, rfl⟩

theorem ComesBy.trans {middle later : Session} {first second : List Step}
    (comes : ComesBy first session middle) (goes : ComesBy second middle later) :
    ComesBy (first ++ second) session later := by
  intro reading ahead
  obtain ⟨between, aheadBetween, steps, operands⟩ := comes reading ahead
  obtain ⟨remaining, aheadLater, furtherSteps, furtherOperands⟩ := goes between aheadBetween
  refine ⟨remaining, aheadLater, ?_, operands.trans furtherOperands⟩
  rw [steps, furtherSteps, List.append_assoc]

/-- A turn is a stretch of one step. -/
theorem Layout.comesBy_of_turn (layout : session.Layout original)
    (scanning : session.phase = .scanning) (turns : session.turn = .ok turn) :
    ComesBy [turn.step] session turn.session := by
  intro reading ahead
  obtain ⟨_, same, progress⟩ := layout.exists_turn scanning ahead
  cases turns.symm.trans same
  obtain ⟨passed, remaining, next, operands, rfl⟩ := progress.ahead
  exact ⟨remaining, next, rfl, by rw [operands, List.append_assoc]⟩

theorem StandsBefore.within {tokens : List String} (stands : session.StandsBefore tokens)
    (before : session.next ≤ limit) : session.Within limit :=
  ⟨stands.scanning, stands.recognising,
    (Nat.lt_or_eq_of_le before).imp_right fun here => ⟨here, stands.between⟩⟩

/-- A session alongside one that stands before tokens stands before those of its own vector. -/
theorem StandsBefore.alongside {tokens : List String} (stands : session.StandsBefore tokens)
    (alongside : session.Alongside other) (otherLayout : other.Layout another) :
    other.StandsBefore (another.drop session.next) := by
  refine ⟨alongside.phase.trans stands.scanning, alongside.pending.trans stands.between,
    alongside.operandsOnly.trans stands.recognising, ?_⟩
  rw [otherLayout.unread, alongside.next]

/-- What is ahead of a session that stands before tokens. -/
theorem StandsBefore.eq_of_ahead {tokens : List String} (stands : session.StandsBefore tokens)
    {reading : Reading} (ahead : session.Ahead reading) :
    reading = .ofTokens session.chain session.order tokens := by
  cases ahead with
  | tokens _ _ => rw [meaning_of_recognising stands.recognising, stands.unread]
  | letters _ pending _ => exact nomatch stands.between.symm.trans pending
  | nothing exhausted => exact (not_exhausted stands.scanning exhausted).elim

end Session

namespace Live

variable {live other : Live}

/-- A session that is still within the limit after some calls has been within it before them. -/
theorem within_of_after (alive : live.session.Alive original) {count : Nat}
    (within : (live.after (.replicate count .parse)).session.Within limit) :
    live.session.Within limit := by
  induction count generalizing live with
  | zero => exact within
  | succ count ih =>
      obtain ⟨turn, turns, continues⟩ := alive.exists_turn
      rw [List.replicate_succ, after_cons, answer_parse alive.not_released turns] at within
      exact alive.within_of_turn turns (ih continues.alive within)

/-- **Sessions over vectors that begin alike stand alongside each other** until they come past
the position up to which the vectors do. They have come there by the same steps. -/
theorem alongside_after (alike : BeginAlike limit original another)
    (alive : live.session.Alive original) (otherAlive : other.session.Alive another)
    (alongside : live.session.Alongside other.session) {count : Nat}
    (within : (live.after (.replicate count .parse)).session.Within limit) :
    let now := (live.after (.replicate count .parse)).session
    let otherNow := (other.after (.replicate count .parse)).session
    now.Alongside otherNow ∧ otherNow.Alive another ∧
      ∃ steps, steps.length = count ∧ Session.ComesBy steps live.session now ∧
        Session.ComesBy steps other.session otherNow := by
  induction count generalizing live other with
  | zero => exact ⟨alongside, otherAlive, [], rfl, .refl _, .refl _⟩
  | succ count ih =>
      have scanning := (within_of_after alive within).scanning
      have layout := alive.layout scanning
      have otherScanning := alongside.phase.trans scanning
      have otherLayout := otherAlive.layout otherScanning
      obtain ⟨turn, turns, continues⟩ := alive.exists_turn
      have answered := answer_parse alive.not_released turns
      rw [List.replicate_succ, after_cons, answered] at within
      obtain ⟨otherTurn, otherTurns, step, beside⟩ := alongside.exists_turn alike layout
        otherLayout scanning turns (within_of_after continues.alive within)
      obtain ⟨stand, stillAlive, steps, length, comes, otherComes⟩ :=
        @ih ⟨turn.session, live.host.performAll turn.step.effects⟩
          ⟨otherTurn.session, other.host.performAll otherTurn.step.effects⟩ continues.alive
          (otherAlive.continues_of_turn otherTurns).alive beside within
      rw [List.replicate_succ, after_cons, after_cons, answered,
        answer_parse otherAlive.not_released otherTurns]
      refine ⟨stand, stillAlive, turn.step :: steps, congrArg (· + 1) length, ?_, ?_⟩
      · exact (layout.comesBy_of_turn scanning turns).trans comes
      · rw [← step]
        exact (otherLayout.comesBy_of_turn otherScanning otherTurns).trans otherComes

end Live

namespace Setup

variable {setup : Setup} {table : OptionTable} {libraries : List Link} {host : Host}

/-- A session over a vector has come to a state by steps: these and what is ahead of the state are
the reading of the vector. -/
structure ReachesBy (setup : Setup) (table : OptionTable) (libraries : List Link)
    (tokens : List String) (steps : List Step) (now : Session) : Prop where
  layout : now.Layout tokens
  chain : now.chain = ⟨table, libraries⟩
  order : now.order = setup.order table
  ahead : ∃ remaining, now.Ahead remaining ∧
    (setup.reading table libraries tokens).steps = steps ++ remaining.steps ∧
    (setup.reading table libraries tokens).operands = now.operands ++ remaining.operands

/-- What a session comes to by its steps is reached by the steps of the command line. -/
theorem ReachesBy.of_comesBy {tokens : List String} {steps : List Step} {now : Session}
    (comes : Session.ComesBy steps (setup.opened table libraries tokens) now)
    (layout : now.Layout tokens) (chain : now.chain = ⟨table, libraries⟩)
    (order : now.order = setup.order table) :
    setup.ReachesBy table libraries tokens steps now := by
  obtain ⟨remaining, ahead, sameSteps, sameOperands⟩ := comes _ (setup.opened_ahead _ _ _)
  refine ⟨layout, chain, order, remaining, ahead, sameSteps, ?_⟩
  rw [← sameOperands, Session.operands_of_written_eq_one rfl, List.nil_append]

/-- **Command lines that begin alike are read by the same steps** up to the place where they
part. -/
theorem exists_steps_of_beginAlike (alike : BeginAlike limit original another) {count : Nat}
    (within : ((Live.mk (setup.opened table libraries original) host).after
      (.replicate count .parse)).session.Within limit) :
    let state (tokens : List String) := ((Live.mk (setup.opened table libraries tokens) host).after
      (.replicate count .parse)).session
    (state original).Alongside (state another) ∧ ∃ steps, steps.length = count ∧
      setup.ReachesBy table libraries original steps (state original) ∧
      setup.ReachesBy table libraries another steps (state another) := by
  intro state
  have alive (tokens : List String) : (setup.opened table libraries tokens).Alive tokens :=
    .scanning rfl (setup.opened_layout table libraries tokens)
  have beside : (setup.opened table libraries original).Alongside
      (setup.opened table libraries another) := by
    refine ⟨rfl, rfl, rfl, rfl, rfl, rfl, ?_⟩
    rw [Session.operands_of_written_eq_one rfl, Session.operands_of_written_eq_one rfl]
  obtain ⟨alongside, otherAlive, steps, length, comes, otherComes⟩ :=
    @Live.alongside_after original another limit ⟨_, host⟩ ⟨_, host⟩ alike (alive original)
      (alive another) beside count within
  have keeps : Call.free ∉ List.replicate count .parse := by
    simp [List.mem_replicate]
  have continues := @Live.after_continues original ⟨_, host⟩ (alive original) _ keeps
  have layout := continues.alive.layout within.scanning
  have otherLayout := otherAlive.layout (alongside.phase.trans within.scanning)
  have chain := @Live.chain_after_parses original ⟨_, host⟩ (alive original) count
  refine ⟨alongside, steps, length, .of_comesBy comes layout chain continues.order, ?_⟩
  exact .of_comesBy otherComes otherLayout (alongside.chain.trans chain)
    (alongside.order.trans continues.order)

/-- A session within any position has come there by the steps of its reading. -/
theorem exists_steps_of_within {tokens : List String} {count : Nat}
    (within : ((Live.mk (setup.opened table libraries tokens) host).after
      (.replicate count .parse)).session.Within limit) :
    ∃ steps, steps.length = count ∧ setup.ReachesBy table libraries tokens steps
      ((Live.mk (setup.opened table libraries tokens) host).after
        (.replicate count .parse)).session := by
  obtain ⟨_, steps, length, reaches, _⟩ := exists_steps_of_beginAlike (.refl limit tokens) within
  exact ⟨steps, length, reaches⟩

end Setup

end CommandLine
