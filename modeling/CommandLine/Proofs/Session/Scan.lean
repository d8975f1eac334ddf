import CommandLine.Proofs.Session.Progress

/-!
# The way of a scan

A scan goes on past the two hyphens that end the options and past operands that are gathered,
until it comes to the end, to an operand that is reported or to an option
(`CommandLine.Session.Scans`). Every scan of a session that reads goes this way
(`CommandLine.Session.Layout.scans_of_scan`), so what holds of all scans goes by induction on
it. A turn is such a scan or reads a letter inside a cluster
(`CommandLine.Session.Layout.takesTurn`). One statement that goes this way is that operands are
reported only where they are not gathered (`CommandLine.Session.Alive.order_of_operand`).
-/

namespace CommandLine

namespace Session

/-- **The way of a scan** from the start of a token to the turn that it takes. -/
inductive Scans : Session → Turn → Prop where
  | ending {session : Session} (unread : session.tokens.drop session.next = []) :
      Scans session ⟨.ending, session.finish⟩
  | terminator {session : Session} {token : String} {rest : List String} {turn : Turn}
      (unread : session.tokens.drop session.next = token :: rest)
      (kind : classify (some token) session.operandsOnly = .terminator)
      (further : Scans { session with operandsOnly := true, next := session.next + 1 } turn) :
      Scans session turn
  | gathered {session : Session} {token : String} {rest tokens : List String} {turn : Turn}
      (unread : session.tokens.drop session.next = token :: rest)
      (kind : classify (some token) session.operandsOnly = .operand)
      (gathers : session.order ≠ .returnInOrder) (passes : session.Passes token rest tokens)
      (further : Scans (session.behindOperand tokens) turn) : Scans session turn
  | reported {session : Session} {token : String} {rest : List String}
      (unread : session.tokens.drop session.next = token :: rest)
      (kind : classify (some token) session.operandsOnly = .operand)
      (reports : session.order = .returnInOrder) :
      Scans session ⟨{ outcome := .operand token }, session.taken⟩
  | long {session : Session} {token : String} {rest : List String} {turn : Turn}
      (unread : session.tokens.drop session.next = token :: rest)
      (kind : classify (some token) session.operandsOnly = .longOption)
      (reads : session.longOption = .ok turn) : Scans session turn
  | cluster {session : Session} {token : String} {rest : List String} {turn : Turn}
      (unread : session.tokens.drop session.next = token :: rest)
      (kind : classify (some token) session.operandsOnly = .shortCluster)
      (reads : session.shortOption 1 = .ok turn) : Scans session turn

variable {original : List String} {session : Session} {turn : Turn}

/-- Every scan goes its way. -/
theorem Layout.scans_of_scan (layout : session.Layout original)
    (between : session.pending? = none) (scans : session.scan = .ok turn) :
    session.Scans turn := by
  -- Passing an operand moves the vector, so the induction is on what is unread of it.
  generalize unread : session.tokens.drop session.next = tokens
  induction tokens generalizing session with
  | nil =>
      cases scans.symm.trans (scan_of_end unread)
      exact .ending unread
  | cons token rest ih =>
      have followers := drop_succ_of_drop_eq unread
      cases kind : classify (some token) session.operandsOnly with
      | absent => exact nomatch classify_eq_absent_iff.mp kind
      | terminator =>
          rw [scan_of_terminator unread kind] at scans
          exact .terminator unread kind
            (ih (layout.behindTerminator between unread) between scans followers)
      | longOption =>
          rw [scan_of_longOption unread kind] at scans
          exact .long unread kind scans
      | shortCluster =>
          rw [scan_of_shortCluster unread kind] at scans
          exact .cluster unread kind scans
      | operand =>
          by_cases reports : session.order = .returnInOrder
          · cases scans.symm.trans (scan_of_reported unread kind reports)
            exact .reported unread kind reports
          · obtain ⟨exchanged, passes, further⟩ :=
              layout.exists_scan_behindOperand unread kind reports
            rw [further] at scans
            exact .gathered unread kind reports passes
              (ih (layout.behindOperand reports between unread passes) between scans
                passes.behind)

/-- **How a session that reads takes its turn**: by a scan from the start of a token, or at a letter
inside a cluster. The candidates of an earlier turn are forgotten before. -/
inductive TakesTurn (session : Session) (turn : Turn) : Prop where
  | scan (between : session.pending? = none)
      (scans : ({ session with ambiguous := .empty } : Session).Scans turn)
  | letter {offset : Nat} {c : Char} {letters : List Char}
      (pending : session.pending? = some offset) (letter : session.AtLetter offset c letters)
      (reads : ({ session with ambiguous := .empty, pending? := none } : Session).shortOption
        offset = .ok turn)

/-- Every turn of a scanning session is a scan between tokens or reads a pending letter. -/
theorem Layout.takesTurn (layout : session.Layout original) (scanning : session.phase = .scanning)
    (turns : session.turn = .ok turn) : session.TakesTurn turn := by
  cases pending : session.pending? with
  | none =>
      rw [turn_of_between scanning pending] at turns
      exact .scan pending ((layout.cleared pending).scans_of_scan pending turns)
  | some offset =>
      obtain ⟨_, c, letters, letter⟩ := layout.cluster offset pending
      rw [turn_of_pending scanning pending] at turns
      exact .letter pending letter turns

/-- A turn that reads an option: it finds options recognised, takes a step for one, and leaves the
session past it, or within its cluster. -/
structure PassesOption (session : Session) (turn : Turn) : Prop where
  recognising : session.operandsOnly = false
  option : Reading.OfOption session.chain turn.step
  past : ∃ extent after letters candidates,
    turn.session = { session.past extent after letters with ambiguous := candidates }

theorem AtLetter.passesOption {offset : Nat} {c : Char} {letters : List Char}
    (letter : session.AtLetter offset c letters) (reads : session.shortOption offset = .ok turn) :
    session.PassesOption turn := by
  cases reads.symm.trans (shortOption_eq letter)
  exact ⟨letter.recognising, Reading.letterStep_ofOption c letters session.followers,
    _, _, _, _, rfl⟩

/-- A scan that stands at a cluster passes the option of its first letter. -/
theorem passesOption_of_cluster {token : String} {rest : List String}
    (unread : session.tokens.drop session.next = token :: rest)
    (kind : classify (some token) session.operandsOnly = .shortCluster)
    (reads : session.shortOption 1 = .ok turn) : session.PassesOption turn := by
  obtain ⟨recognising, c, letters, text, other⟩ := recognising_of_shortCluster kind
  exact (AtLetter.of_cluster unread recognising text other).passesOption reads

theorem passesOption_of_long {token : String} {rest : List String}
    (unread : session.tokens.drop session.next = token :: rest)
    (kind : classify (some token) session.operandsOnly = .longOption)
    (reads : session.longOption = .ok turn) : session.PassesOption turn := by
  obtain ⟨recognising, c, body, text⟩ := recognising_of_longOption kind
  cases reads.symm.trans (longOption_eq recognising (getElem?_of_drop_eq unread) text)
  exact ⟨recognising, Reading.longStep_ofOption _ _, _, _, _, _, rfl⟩

theorem PassesOption.operand?_eq_none (passes : session.PassesOption turn) :
    turn.step.operand? = none :=
  passes.option.operand?_eq_none

/-- A scan whose step is an operand has gone where operands are reported. -/
theorem Scans.order_of_operand (scans : session.Scans turn) {text : String}
    (operand : turn.step.operand? = some text) : session.order = .returnInOrder := by
  induction scans with
  | ending => exact nomatch operand
  | terminator _ _ _ ih => exact ih operand
  | gathered _ _ _ _ _ ih => exact ih operand
  | reported _ _ reports => exact reports
  | long unread kind reads =>
      have passes := passesOption_of_long unread kind reads
      exact nomatch operand.symm.trans passes.operand?_eq_none
  | cluster unread kind reads =>
      have passes := passesOption_of_cluster unread kind reads
      exact nomatch operand.symm.trans passes.operand?_eq_none

/-- A turn reports an operand only where operands are not gathered. -/
theorem Alive.order_of_operand (alive : session.Alive original)
    (turns : session.turn = .ok turn) {text : String}
    (operand : turn.step.operand? = some text) : session.order = .returnInOrder := by
  cases alive with
  | exhausted phase stored =>
      cases turns.symm.trans (turn_of_exhausted phase)
      exact nomatch operand
  | scanning phase layout =>
      cases layout.takesTurn phase turns with
      | scan _ scans => exact scans.order_of_operand operand
      | letter _ letter reads =>
          exact nomatch operand.symm.trans (letter.resumed.passesOption reads).operand?_eq_none

end Session

end CommandLine
