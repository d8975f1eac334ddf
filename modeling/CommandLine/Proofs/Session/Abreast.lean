import CommandLine.Proofs.Session.Progress

/-!
# Sessions with the same left to read

What a session does next depends on its tables, on its order and on what is unread of its
vector, and on nothing that it has read before. Two sessions that agree in these
(`CommandLine.Session.Abreast`) take turns with the same step, pass the same operands and
agree again afterwards (`CommandLine.Session.Alike.exists_turns`).
-/

namespace CommandLine

namespace Session

variable {original another : List String} {session other : Session}

/-- Two sessions that stand before the same tokens in the same way. -/
structure Abreast (session other : Session) : Prop where
  chain : other.chain = session.chain
  order : other.order = session.order
  operandsOnly : other.operandsOnly = session.operandsOnly
  pending : other.pending? = session.pending?
  unread : other.tokens.drop other.next = session.tokens.drop session.next

/-- Two sessions that have the same left to read. -/
inductive Alike (session other : Session) : Prop where
  | scanning (phase : session.phase = .scanning) (otherPhase : other.phase = .scanning)
      (abreast : session.Abreast other)
  | exhausted (phase : session.phase = .exhausted) (otherPhase : other.phase = .exhausted)

namespace Abreast

theorem followers_eq (abreast : session.Abreast other) : other.followers = session.followers := by
  rw [followers, ← List.drop_drop, abreast.unread, List.drop_drop, followers]

theorem atLetter (abreast : session.Abreast other) {offset : Nat} {c : Char}
    {letters : List Char} (letter : session.AtLetter offset c letters) :
    other.AtLetter offset c letters := by
  rcases letter.stands with ⟨token, start, stands, kind, text, length⟩
  refine ⟨abreast.operandsOnly.trans letter.recognising, letter.started, token, start, ?_, kind,
    text, length⟩
  rw [← List.head?_drop, abreast.unread, List.head?_drop]
  exact stands

/-- Sessions abreast are so behind a step that has read as much of both. -/
theorem past (abreast : session.Abreast other) (extent : Extent) (after : Nat)
    (letters : List Char) :
    (session.past extent after letters).Abreast (other.past extent after letters) := by
  have once := abreast.followers_eq
  have skip : session.skip.Abreast other.skip :=
    ⟨abreast.chain, abreast.order, abreast.operandsOnly, abreast.pending, once⟩
  have twice : session.skip.skip.Abreast other.skip.skip :=
    ⟨abreast.chain, abreast.order, abreast.operandsOnly, abreast.pending, skip.followers_eq⟩
  cases extent with
  | letter =>
      cases letters with
      | nil => exact skip
      | cons next letters =>
          exact ⟨abreast.chain, abreast.order, abreast.operandsOnly, rfl, abreast.unread⟩
  | token => exact skip
  | following => exact twice

/-- Sessions abreast are so behind the two hyphens, where both are latched. -/
theorem behindTerminator (abreast : session.Abreast other) :
    ({ session with operandsOnly := true, next := session.next + 1 } : Session).Abreast
      { other with operandsOnly := true, next := other.next + 1 } :=
  ⟨abreast.chain, abreast.order, rfl, abreast.pending, abreast.followers_eq⟩

/-- Sessions abreast are so behind an operand that both have gathered. -/
theorem behindOperand (abreast : session.Abreast other) {token : String}
    {rest tokens otherTokens : List String} (passes : session.Passes token rest tokens)
    (otherPasses : other.Passes token rest otherTokens) :
    (session.behindOperand tokens).Abreast (other.behindOperand otherTokens) := by
  refine ⟨abreast.chain, abreast.order, ?_, abreast.pending,
    otherPasses.behind.trans passes.behind.symm⟩
  simp only [Session.behindOperand, abreast.operandsOnly, abreast.order]

/-- Sessions abreast are so behind an operand that both have reported. -/
theorem taken (abreast : session.Abreast other) {token : String} {rest : List String}
    (unread : session.tokens.drop session.next = token :: rest) :
    session.taken.Abreast other.taken :=
  ⟨abreast.chain, abreast.order, abreast.operandsOnly, abreast.pending,
    (drop_taken (abreast.unread.trans unread)).trans (drop_taken unread).symm⟩

end Abreast

theorem phase_past (session : Session) (extent : Extent) (after : Nat) (letters : List Char) :
    (session.past extent after letters).phase = session.phase := by
  cases extent with
  | letter => cases letters <;> rfl
  | token => rfl
  | following => rfl

theorem operandsOnly_past (session : Session) (extent : Extent) (after : Nat)
    (letters : List Char) :
    (session.past extent after letters).operandsOnly = session.operandsOnly := by
  cases extent with
  | letter => cases letters <;> rfl
  | token => rfl
  | following => rfl

theorem operands_past (session : Session) (extent : Extent) (after : Nat)
    (letters : List Char) :
    (session.past extent after letters).operands = session.operands := by
  cases extent with
  | letter => cases letters <;> rfl
  | token => rfl
  | following => rfl

/-- Turns of two sessions that take the same step, pass the same operands and leave the same
to read. -/
structure Together (session other : Session) (turn otherTurn : Turn) : Prop where
  step : otherTurn.step = turn.step
  alike : turn.session.Alike otherTurn.session
  operands : ∃ passed, turn.session.operands = session.operands ++ passed ∧
    otherTurn.session.operands = other.operands ++ passed

/-- Turns that pass no operand. -/
theorem Together.of_step {step : Step} {next otherNext : Session}
    (alike : next.Alike otherNext) (operands : next.operands = session.operands)
    (otherOperands : otherNext.operands = other.operands) :
    session.Together other ⟨step, next⟩ ⟨step, otherNext⟩ := by
  refine ⟨rfl, alike, [], ?_, ?_⟩
  · rw [operands, List.append_nil]
  · rw [otherOperands, List.append_nil]

/-- Turns behind an operand that both sessions have passed. -/
theorem Together.afterOperand {middle otherMiddle : Session} {operand : String}
    {turn otherTurn : Turn} (together : middle.Together otherMiddle turn otherTurn)
    (operands : middle.operands = session.operands ++ [operand])
    (otherOperands : otherMiddle.operands = other.operands ++ [operand]) :
    session.Together other turn otherTurn := by
  obtain ⟨passed, same, otherSame⟩ := together.operands
  refine ⟨together.step, together.alike, operand :: passed, ?_, ?_⟩
  · rw [same, operands, List.append_assoc, List.singleton_append]
  · rw [otherSame, otherOperands, List.append_assoc, List.singleton_append]

/-- Turns of sessions with the operands of others. -/
theorem Together.congr {middle otherMiddle : Session} {turn otherTurn : Turn}
    (together : middle.Together otherMiddle turn otherTurn)
    (operands : middle.operands = session.operands)
    (otherOperands : otherMiddle.operands = other.operands) :
    session.Together other turn otherTurn :=
  ⟨together.step, together.alike, operands ▸ otherOperands ▸ together.operands⟩

/-- Sessions abreast read a letter with the same step and stay abreast. -/
theorem Abreast.exists_shortOptions (abreast : session.Abreast other)
    (phase : session.phase = .scanning) (otherPhase : other.phase = .scanning) {offset : Nat}
    {c : Char} {letters : List Char} (letter : session.AtLetter offset c letters) :
    ∃ turn otherTurn, session.shortOption offset = .ok turn ∧
      other.shortOption offset = .ok otherTurn ∧ session.Together other turn otherTurn := by
  have reads := shortOption_eq (abreast.atLetter letter)
  rw [abreast.chain, abreast.followers_eq] at reads
  refine ⟨_, _, shortOption_eq letter, reads, .of_step (.scanning ?_ ?_ (abreast.past _ _ _))
    (operands_past _ _ _ _) (operands_past _ _ _ _)⟩
  · rw [phase_past, phase]
  · rw [phase_past, otherPhase]

/-- Sessions abreast read a long option with the same step and stay abreast. -/
theorem Abreast.exists_longOptions (abreast : session.Abreast other)
    (phase : session.phase = .scanning) (otherPhase : other.phase = .scanning)
    (recognising : session.operandsOnly = false) {token : String} {rest : List String}
    (unread : session.tokens.drop session.next = token :: rest) {body : List Char}
    (text : token.toList = '-' :: '-' :: body) :
    ∃ turn otherTurn, session.longOption = .ok turn ∧ other.longOption = .ok otherTurn ∧
      session.Together other turn otherTurn := by
  have reads := longOption_eq (abreast.operandsOnly.trans recognising)
    (getElem?_of_drop_eq (abreast.unread.trans unread)) text
  rw [abreast.chain, abreast.followers_eq] at reads
  have past := abreast.past (Reading.longStep session.chain body session.followers).2 0 []
  refine ⟨_, _, longOption_eq recognising (getElem?_of_drop_eq unread) text, reads,
    .of_step (.scanning ?_ ?_ ?_) (operands_past _ _ _ _) (operands_past _ _ _ _)⟩
  · exact (phase_past _ _ _ _).trans phase
  · exact (phase_past _ _ _ _).trans otherPhase
  · exact ⟨past.chain, past.order, past.operandsOnly, past.pending, past.unread⟩

/-- Sessions abreast scan to the same step. -/
theorem Abreast.exists_scans (abreast : session.Abreast other) (layout : session.Layout original)
    (otherLayout : other.Layout another) (phase : session.phase = .scanning)
    (otherPhase : other.phase = .scanning) (between : session.pending? = none) :
    ∃ turn otherTurn, session.scan = .ok turn ∧ other.scan = .ok otherTurn ∧
      session.Together other turn otherTurn := by
  generalize unread : session.tokens.drop session.next = tokens
  induction tokens generalizing session other with
  | nil =>
      rw [scan_of_end unread, scan_of_end (abreast.unread.trans unread)]
      exact ⟨_, _, rfl, rfl, .of_step (.exhausted rfl rfl) layout.operands_finish
        otherLayout.operands_finish⟩
  | cons token rest ih =>
      have otherUnread := abreast.unread.trans unread
      have otherBetween := abreast.pending.trans between
      have same := abreast.operandsOnly
      cases kind : classify (some token) session.operandsOnly with
      | absent => exact nomatch classify_eq_absent_iff.mp kind
      | terminator =>
          rw [scan_of_terminator unread kind, scan_of_terminator otherUnread (same ▸ kind)]
          obtain ⟨turn, otherTurn, turns, otherTurns, together⟩ :=
            ih abreast.behindTerminator (layout.behindTerminator between unread)
              (otherLayout.behindTerminator otherBetween otherUnread) phase otherPhase between
              (drop_succ_of_drop_eq unread)
          exact ⟨turn, otherTurn, turns, otherTurns, together.congr rfl rfl⟩
      | longOption =>
          obtain ⟨recognising, c, body, text⟩ := recognising_of_longOption kind
          rw [scan_of_longOption unread kind, scan_of_longOption otherUnread (same ▸ kind)]
          exact abreast.exists_longOptions phase otherPhase recognising unread text
      | shortCluster =>
          obtain ⟨recognising, c, letters, text, first⟩ := recognising_of_shortCluster kind
          rw [scan_of_shortCluster unread kind, scan_of_shortCluster otherUnread (same ▸ kind)]
          exact abreast.exists_shortOptions phase otherPhase
            (.of_cluster unread recognising text first)
      | operand =>
          by_cases reports : session.order = .returnInOrder
          · have otherReports := abreast.order.trans reports
            rw [scan_of_reported unread kind reports,
              scan_of_reported otherUnread (same ▸ kind) otherReports]
            exact ⟨_, _, rfl, rfl, .of_step (.scanning phase otherPhase (abreast.taken unread))
              (layout.operands_taken reports) (otherLayout.operands_taken otherReports)⟩
          · have otherGathers : other.order ≠ .returnInOrder := abreast.order ▸ reports
            obtain ⟨tokens, passes, scans⟩ :=
              layout.exists_scan_behindOperand unread kind reports
            obtain ⟨otherTokens, otherPasses, otherScans⟩ :=
              otherLayout.exists_scan_behindOperand otherUnread (same ▸ kind) otherGathers
            obtain ⟨turn, otherTurn, turns, otherTurns, together⟩ := ih
              (abreast.behindOperand passes otherPasses)
              (layout.behindOperand reports between unread passes)
              (otherLayout.behindOperand otherGathers otherBetween otherUnread otherPasses)
              phase otherPhase between passes.behind
            rw [scans, otherScans]
            exact ⟨turn, otherTurn, turns, otherTurns, together.afterOperand
              (layout.operands_behindOperand unread passes)
              (otherLayout.operands_behindOperand otherUnread otherPasses)⟩

/-- **Sessions with the same left to read take the same turns.** -/
theorem Alike.exists_turns (alike : session.Alike other) (alive : session.Alive original)
    (otherAlive : other.Alive another) :
    ∃ turn otherTurn, session.turn = .ok turn ∧ other.turn = .ok otherTurn ∧
      session.Together other turn otherTurn := by
  cases alike with
  | exhausted phase otherPhase =>
      exact ⟨_, _, turn_of_exhausted phase, turn_of_exhausted otherPhase,
        .of_step (.exhausted phase otherPhase) rfl rfl⟩
  | scanning phase otherPhase abreast =>
      have layout := alive.layout phase
      have otherLayout := otherAlive.layout otherPhase
      cases pending : session.pending? with
      | none =>
          have otherPending := abreast.pending.trans pending
          let cleared : Session := { session with ambiguous := .empty }
          let otherCleared : Session := { other with ambiguous := .empty }
          have same : cleared.Abreast otherCleared :=
            ⟨abreast.chain, abreast.order, abreast.operandsOnly, abreast.pending, abreast.unread⟩
          rw [turn_of_between phase pending, turn_of_between otherPhase otherPending]
          obtain ⟨turn, otherTurn, turns, otherTurns, together⟩ :=
            same.exists_scans (layout.cleared pending) (otherLayout.cleared otherPending) phase
              otherPhase pending
          exact ⟨turn, otherTurn, turns, otherTurns, together.congr rfl rfl⟩
      | some offset =>
          obtain ⟨_, c, letters, letter⟩ := layout.cluster offset pending
          let resumed : Session := { session with ambiguous := .empty, pending? := none }
          let otherResumed : Session := { other with ambiguous := .empty, pending? := none }
          have same : resumed.Abreast otherResumed :=
            ⟨abreast.chain, abreast.order, abreast.operandsOnly, rfl, abreast.unread⟩
          rw [turn_of_pending phase pending,
            turn_of_pending otherPhase (abreast.pending.trans pending)]
          obtain ⟨turn, otherTurn, turns, otherTurns, together⟩ :=
            same.exists_shortOptions phase otherPhase letter.resumed
          exact ⟨turn, otherTurn, turns, otherTurns, together.congr rfl rfl⟩

end Session

end CommandLine
