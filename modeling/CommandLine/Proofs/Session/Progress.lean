import CommandLine.Proofs.Session.Layout

/-!
# What a turn reads of the command line

A session that reads has a reading ahead of it (`CommandLine.Session.Ahead`): that of the
unread tokens, or of the letters of a cluster that has been read in part. A turn takes the
first step of this reading, passes the operands that stand before it, and leaves the rest
of the reading ahead (`CommandLine.Session.Progress`,
`CommandLine.Session.Layout.exists_turn`).
-/

namespace CommandLine

namespace Session

variable {original : List String} {session : Session}

/-- Scanning goes by the kind of the next token and, for an operand, by the order. -/
theorem scan_eq (session : Session) :
    session.scan =
      match classify session.tokens[session.next]? session.operandsOnly with
      | .absent => .ok ⟨.ending, session.finish⟩
      | .terminator => scan { session with operandsOnly := true, next := session.next + 1 }
      | .shortCluster => session.shortOption 1
      | .longOption => session.longOption
      | .operand =>
          match session.order with
          | .returnInOrder => session.takeOperand
          | .permute => session.compactOperand.bind scan
          | .requireOrder => ({ session with operandsOnly := true }).compactOperand.bind scan := by
  rw [scan]
  split
  · next kind => rw [kind]
  · next kind => rw [kind]
  · next kind => rw [kind]
  · next kind => rw [kind]
  · next kind =>
      rw [kind]
      cases session.order with
      | returnInOrder => rfl
      | permute | requireOrder =>
          dsimp only
          generalize Session.compactOperand _ = compacts
          cases compacts <;> rfl

/-- A token is more than an operand only while options are recognised. -/
theorem recognising_of_classify {token : String} {kind : TokenKind}
    (is : classify (some token) session.operandsOnly = kind) (other : kind ≠ .operand) :
    session.operandsOnly = false ∧ TokenKind.ofText token.toList = kind := by
  cases latch : session.operandsOnly with
  | false =>
      rw [latch] at is
      exact ⟨rfl, is⟩
  | true =>
      rw [latch, classify_some_true] at is
      exact (other is.symm).elim

/-- A token is a long option by its first characters, and only while options are recognised. -/
theorem recognising_of_longOption {token : String}
    (kind : classify (some token) session.operandsOnly = .longOption) :
    session.operandsOnly = false ∧ ∃ c body, token.toList = '-' :: '-' :: c :: body := by
  obtain ⟨recognising, long⟩ := recognising_of_classify kind (by simp)
  exact ⟨recognising, TokenKind.ofText_eq_longOption_iff.mp long⟩

/-- A token is a cluster by its first characters, and only while options are recognised. -/
theorem recognising_of_shortCluster {token : String}
    (kind : classify (some token) session.operandsOnly = .shortCluster) :
    session.operandsOnly = false ∧
      ∃ c letters, token.toList = '-' :: c :: letters ∧ c ≠ '-' := by
  obtain ⟨recognising, cluster⟩ := recognising_of_classify kind (by simp)
  exact ⟨recognising, TokenKind.ofText_eq_shortCluster_iff.mp cluster⟩

section Scan

variable {token : String} {rest : List String}

/-- A scan that finds nothing unread ends the parsing. -/
theorem scan_of_end (unread : session.tokens.drop session.next = []) :
    session.scan = .ok ⟨.ending, session.finish⟩ := by
  have absent : session.tokens[session.next]? = none := by
    rw [← List.head?_drop, unread, List.head?_nil]
  rw [scan_eq, absent, classify_none]

/-- The two hyphens latch the session, and the scan goes on behind them. -/
theorem scan_of_terminator (unread : session.tokens.drop session.next = token :: rest)
    (kind : classify (some token) session.operandsOnly = .terminator) :
    session.scan = scan { session with operandsOnly := true, next := session.next + 1 } := by
  rw [scan_eq, getElem?_of_drop_eq unread, kind]

/-- A scan that stands at a long option reads it. -/
theorem scan_of_longOption (unread : session.tokens.drop session.next = token :: rest)
    (kind : classify (some token) session.operandsOnly = .longOption) :
    session.scan = session.longOption := by
  rw [scan_eq, getElem?_of_drop_eq unread, kind]

/-- A scan that stands at a cluster reads its first letter, behind the hyphen. -/
theorem scan_of_shortCluster (unread : session.tokens.drop session.next = token :: rest)
    (kind : classify (some token) session.operandsOnly = .shortCluster) :
    session.scan = session.shortOption 1 := by
  rw [scan_eq, getElem?_of_drop_eq unread, kind]

/-- Where operands are reported, the scan ends on one and passes it. -/
theorem scan_of_reported (unread : session.tokens.drop session.next = token :: rest)
    (kind : classify (some token) session.operandsOnly = .operand)
    (reports : session.order = .returnInOrder) :
    session.scan = .ok ⟨{ outcome := .operand token }, session.taken⟩ := by
  rw [scan_eq, getElem?_of_drop_eq unread, kind, reports]
  exact takeOperand_eq unread

/-- Whether options are still recognised plays no part in passing an operand. -/
theorem compactOperand_latched (session : Session) :
    ({ session with operandsOnly := true } : Session).compactOperand =
      session.compactOperand.map fun compacted => { compacted with operandsOnly := true } := by
  unfold compactOperand
  dsimp only
  split <;> rfl

/-- A gathered operand is passed, and the scan goes on behind it. -/
theorem scan_of_passes (unread : session.tokens.drop session.next = token :: rest)
    (kind : classify (some token) session.operandsOnly = .operand)
    (gathers : session.order ≠ .returnInOrder) {tokens : List String}
    (passes : session.Passes token rest tokens) :
    session.scan = (session.behindOperand tokens).scan := by
  rw [scan_eq, getElem?_of_drop_eq unread, kind]
  dsimp only
  split
  · next reports => exact (gathers reports).elim
  · next order =>
      rw [behindOperand_of_ne (by simp [order]), passes.exchanged]
      rfl
  · next order =>
      have same : session.behindOperand tokens =
          { session.compacted tokens with operandsOnly := true } := by
        simp [behindOperand, order]
      rw [same, compactOperand_latched, passes.exchanged]
      rfl

/-- An operand is passed unless operands are reported, and scanning goes on behind it. -/
theorem Cursors.exists_scan_behindOperand (cursors : session.Cursors original)
    (unread : session.tokens.drop session.next = token :: rest)
    (kind : classify (some token) session.operandsOnly = .operand)
    (gathers : session.order ≠ .returnInOrder) :
    ∃ tokens, session.Passes token rest tokens ∧
      session.scan = (session.behindOperand tokens).scan := by
  obtain ⟨tokens, passes⟩ := cursors.exists_passes unread
  exact ⟨tokens, passes, scan_of_passes unread kind gathers passes⟩

/-- The letter that a cluster starts with. -/
theorem AtLetter.of_cluster (unread : session.tokens.drop session.next = token :: rest)
    (recognising : session.operandsOnly = false) {c : Char} {letters : List Char}
    (text : token.toList = '-' :: c :: letters) (other : c ≠ '-') :
    session.AtLetter 1 c letters where
  recognising := recognising
  started := Nat.le_refl 1
  stands := by
    have cluster := TokenKind.ofText_eq_shortCluster_iff.mpr ⟨c, letters, text, other⟩
    exact ⟨token, ['-'], getElem?_of_drop_eq unread, cluster, text, rfl⟩

end Scan

/-- What tokens mean to a session, which may no longer recognise options. -/
def meaning (session : Session) (tokens : List String) : Reading :=
  if session.operandsOnly then
    .ofOperands session.order tokens
  else
    .ofTokens session.chain session.order tokens

/-- What is left to read of a session. -/
inductive Ahead (session : Session) : Reading → Prop where
  /-- The unread tokens. -/
  | tokens (scanning : session.phase = .scanning) (between : session.pending? = none) :
      Ahead session (session.meaning (session.tokens.drop session.next))
  /-- The letters that are left of a cluster, and the tokens behind it. -/
  | letters (scanning : session.phase = .scanning) {offset : Nat} {c : Char}
      {letters : List Char} (pending : session.pending? = some offset)
      (letter : session.AtLetter offset c letters) :
      Ahead session (.ofLetters session.chain session.order c letters session.followers)
  /-- Nothing, once the last step has been taken. -/
  | nothing (exhausted : session.phase = .exhausted) : Ahead session ⟨[], []⟩

/-- A session that is scanning has a reading ahead of it, inside a cluster or between tokens. -/
theorem Layout.exists_ahead (layout : session.Layout original)
    (scanning : session.phase = .scanning) : ∃ reading, session.Ahead reading := by
  cases pending : session.pending? with
  | none => exact ⟨_, .tokens scanning pending⟩
  | some offset =>
      obtain ⟨_, c, letters, letter⟩ := layout.cluster offset pending
      exact ⟨_, .letters scanning pending letter⟩

section Meaning

variable {token : String}

theorem meaning_of_recognising (recognising : session.operandsOnly = false)
    (tokens : List String) :
    session.meaning tokens = .ofTokens session.chain session.order tokens := by
  simp only [meaning, recognising, Bool.false_eq_true, ↓reduceIte]

theorem meaning_of_latched (latched : session.operandsOnly = true) (tokens : List String) :
    session.meaning tokens = .ofOperands session.order tokens := by
  simp only [meaning, latched, ↓reduceIte]

theorem meaning_nil (session : Session) : session.meaning [] = .ended := by
  cases latch : session.operandsOnly with
  | false => rw [meaning_of_recognising latch, Reading.ofTokens_nil]
  | true => rw [meaning_of_latched latch, Reading.ofOperands_nil]

/-- A session between tokens that recognises options has the reading of its unread tokens ahead. -/
theorem ahead_of_unread (session : Session) (scanning : session.phase = .scanning)
    (between : session.pending? = none) (recognising : session.operandsOnly = false)
    {tokens : List String} (unread : session.tokens.drop session.next = tokens) :
    session.Ahead (.ofTokens session.chain session.order tokens) := by
  rw [← unread, ← meaning_of_recognising recognising]
  exact .tokens scanning between

/-- What the two hyphens mean is what the tokens behind them mean to a latched session. -/
theorem meaning_of_terminator (rest : List String)
    (kind : classify (some token) session.operandsOnly = .terminator) :
    session.meaning (token :: rest) =
      ({ session with operandsOnly := true } : Session).meaning rest := by
  obtain ⟨recognising, text⟩ := recognising_of_classify kind (by simp)
  rw [meaning_of_recognising recognising, Reading.ofTokens_of_terminator rest text]
  rfl

/-- A gathered operand stands in front of what the tokens behind it mean, latched or not. -/
theorem meaning_of_passed (rest tokens : List String)
    (kind : classify (some token) session.operandsOnly = .operand)
    (gathers : session.order ≠ .returnInOrder) :
    session.meaning (token :: rest) =
      .afterOperand token ((session.behindOperand tokens).meaning rest) := by
  cases latch : session.operandsOnly with
  | true =>
      have latched : (session.behindOperand tokens).operandsOnly = true := by
        simp only [behindOperand, latch, Bool.true_or]
      rw [meaning_of_latched latch, meaning_of_latched latched]
      exact Reading.ofOperands_cons_of_ne gathers token rest
  | false =>
      rw [latch] at kind
      rw [meaning_of_recognising latch, Reading.ofTokens_of_operand rest kind]
      cases order : session.order with
      | returnInOrder => exact (gathers order).elim
      | permute =>
          have recognising : (session.behindOperand tokens).operandsOnly = false := by
            simp [behindOperand, latch, order]
          rw [meaning_of_recognising recognising]
          exact congrArg (Reading.afterOperand token) (by rw [← order]; rfl)
      | requireOrder =>
          have latched : (session.behindOperand tokens).operandsOnly = true := by
            simp [behindOperand, order]
          rw [meaning_of_latched latched]
          have same : (session.behindOperand tokens).order = .requireOrder := order
          rw [same]
          exact Reading.ofOperands_cons_of_ne (by simp) token rest

/-- A reported operand is a step of its own in front of what the tokens behind it mean. -/
theorem meaning_of_reported (rest : List String)
    (kind : classify (some token) session.operandsOnly = .operand)
    (order : session.order = .returnInOrder) :
    session.meaning (token :: rest) =
      .afterStep { outcome := .operand token } (session.meaning rest) := by
  cases latch : session.operandsOnly with
  | false =>
      rw [latch] at kind
      rw [meaning_of_recognising latch, meaning_of_recognising latch,
        Reading.ofTokens_of_operand rest kind, order]
  | true =>
      rw [meaning_of_latched latch, meaning_of_latched latch, order]
      rfl

end Meaning

/-- A session that has not been released, over the vector that it was started with. -/
inductive Alive (original : List String) (session : Session) : Prop where
  | scanning (phase : session.phase = .scanning) (layout : session.Layout original)
  | exhausted (phase : session.phase = .exhausted) (stored : session.Stored original)

/-- The cursors of a session that has not been released are in order, scanning or not. -/
theorem Alive.stored (alive : session.Alive original) : session.Stored original := by
  cases alive with
  | scanning phase layout => exact layout.toStored
  | exhausted phase stored => exact stored

/-- While it is scanning, a session has the full layout. -/
theorem Alive.layout (alive : session.Alive original) (scanning : session.phase = .scanning) :
    session.Layout original := by
  cases alive with
  | scanning phase layout => exact layout
  | exhausted phase stored => exact (not_exhausted scanning phase).elim

/-- **The progress of a turn** on a session that has a reading ahead: the turn takes the
first step of the reading, and operands are passed in the order of the reading. -/
structure Progress (original : List String) (session : Session) (reading : Reading)
    (turn : Turn) : Prop where
  alive : turn.session.Alive original
  chain : turn.session.chain = session.chain
  order : turn.session.order = session.order
  programName : turn.session.programName = session.programName
  done_iff : turn.step.outcome.isDone = true ↔ turn.session.phase = .exhausted
  ahead : ∃ passed remaining, turn.session.Ahead remaining ∧
    turn.session.operands = session.operands ++ passed ∧
    reading = ⟨turn.step :: remaining.steps, passed ++ remaining.operands⟩

/-- A step that passes no operand and is not the last. -/
theorem Progress.of_step {step : Step} {reading : Reading} {next : Session}
    (layout : next.Layout original) (scanning : next.phase = .scanning)
    (ahead : next.Ahead reading) (unfinished : step.outcome.isDone = false)
    (chain : next.chain = session.chain) (order : next.order = session.order)
    (programName : next.programName = session.programName)
    (operands : next.operands = session.operands) :
    session.Progress original (.afterStep step reading) ⟨step, next⟩ := by
  refine ⟨.scanning scanning layout, chain, order, programName, ?_, [], reading, ahead, ?_, rfl⟩
  · rw [unfinished, scanning]
    simp
  · rw [operands, List.append_nil]

/-- Progress after an operand has been passed is progress before it. -/
theorem Progress.afterOperand {middle : Session} {operand : String} {reading : Reading}
    {turn : Turn} (progress : middle.Progress original reading turn)
    (chain : middle.chain = session.chain) (order : middle.order = session.order)
    (programName : middle.programName = session.programName)
    (operands : middle.operands = session.operands ++ [operand]) :
    session.Progress original (.afterOperand operand reading) turn := by
  rcases progress.ahead with ⟨passed, remaining, ahead, passes, same⟩
  refine ⟨progress.alive, progress.chain.trans chain, progress.order.trans order,
    progress.programName.trans programName, progress.done_iff, operand :: passed, remaining,
    ahead, ?_, ?_⟩
  · rw [passes, operands, List.append_assoc, List.singleton_append]
  · rw [same]
    rfl

/-- Progress on another session with the same operands. -/
theorem Progress.congr {middle : Session} {reading : Reading} {turn : Turn}
    (progress : middle.Progress original reading turn) (chain : middle.chain = session.chain)
    (order : middle.order = session.order) (programName : middle.programName = session.programName)
    (operands : middle.operands = session.operands) :
    session.Progress original reading turn :=
  ⟨progress.alive, progress.chain.trans chain, progress.order.trans order,
    progress.programName.trans programName, progress.done_iff, operands ▸ progress.ahead⟩

/-- An option whose step has read its token to the end leaves the tokens behind it. -/
theorem Layout.progress_of_option (layout : session.Layout original)
    (scanning : session.phase = .scanning) (between : session.pending? = none)
    (recognising : session.operandsOnly = false)
    (within : session.next < session.tokens.length) {step : Step} {extent : Extent}
    (option : Reading.OfOption session.chain step)
    (behind : extent = .following → session.followers ≠ []) (candidates : Candidates) :
    session.Progress original
      (.afterStep step
        (.ofTokens session.chain session.order (extent.remaining session.followers)))
      ⟨step, { session with next := session.next + extent.size, ambiguous := candidates }⟩ := by
  have forward := layout.forward between (next_size_le within behind)
  have ahead := ahead_of_unread
    { session with next := session.next + extent.size, ambiguous := candidates } scanning between
    recognising (session.drop_size extent)
  exact .of_step (forward.congr rfl rfl rfl rfl between) scanning ahead option.not_done rfl rfl
    rfl rfl

/-- Reading a letter takes the first step of the reading of the letters that are left. -/
theorem Layout.exists_shortOption (layout : session.Layout original)
    (scanning : session.phase = .scanning) (between : session.pending? = none) {offset : Nat}
    {c : Char} {letters : List Char} (letter : session.AtLetter offset c letters) :
    ∃ turn, session.shortOption offset = .ok turn ∧
      session.Progress original
        (.ofLetters session.chain session.order c letters session.followers) turn := by
  refine ⟨_, shortOption_eq letter, ?_⟩
  have option : Reading.OfOption session.chain _ :=
    Reading.letterStep_ofOption c letters session.followers
  by_cases token :
      (Reading.letterStep session.chain c letters session.followers).2 = .letter → letters = []
  · rw [Reading.ofLetters_of_token c letters _ token, past_eq_of_token _ token]
    exact layout.progress_of_option scanning between letter.recognising letter.next_lt option
      Reading.rest_ne_nil_of_letterStep session.ambiguous
  · rw [Classical.not_imp] at token
    rcases token with ⟨extent, more⟩
    cases letters with
    | nil => exact (more rfl).elim
    | cons next letters =>
        have ahead := @Ahead.letters (session.past .letter (offset + c.utf8Size) (next :: letters))
          scanning _ _ _ rfl letter.next_letter
        rw [Reading.ofLetters_of_letter c next letters _ extent, extent]
        exact .of_step (layout.past_of_letter letter) scanning ahead option.not_done rfl rfl rfl
          rfl

/-- Reading a long option takes the first step of the reading of the tokens from there on. -/
theorem Layout.exists_longOption (layout : session.Layout original)
    (scanning : session.phase = .scanning) (between : session.pending? = none)
    (recognising : session.operandsOnly = false) {token : String} {rest : List String}
    (next : session.tokens.drop session.next = token :: rest) {c : Char} {body : List Char}
    (text : token.toList = '-' :: '-' :: c :: body) :
    ∃ turn, session.longOption = .ok turn ∧
      session.Progress original (.ofTokens session.chain session.order (token :: rest)) turn := by
  have followers : session.followers = rest := drop_succ_of_drop_eq next
  refine ⟨_, longOption_eq recognising (getElem?_of_drop_eq next) text, ?_⟩
  rw [Reading.ofTokens_of_longOption rest text, ← followers,
    past_eq_of_token 0 fun extent => (Reading.longStep_ne_letter _ _ extent).elim]
  exact layout.progress_of_option scanning between recognising (next_lt_of_drop_eq next)
    (Reading.longStep_ofOption (c :: body) session.followers) Reading.rest_ne_nil_of_longStep _

/-- Ending the parsing leaves nothing ahead. -/
theorem Layout.progress_of_end (layout : session.Layout original) :
    session.Progress original .ended ⟨.ending, session.finish⟩ := by
  refine ⟨.exhausted rfl layout.finish, rfl, rfl, rfl, ⟨fun _ => rfl, fun _ => rfl⟩, [],
    ⟨[], []⟩, .nothing rfl, ?_, rfl⟩
  rw [List.append_nil]
  exact layout.operands_finish

/-- Reporting an operand takes the step in front of what the tokens behind it mean. -/
theorem Layout.progress_of_taken (layout : session.Layout original)
    (scanning : session.phase = .scanning) (between : session.pending? = none)
    (reports : session.order = .returnInOrder) {token : String} {rest : List String}
    (next : session.tokens.drop session.next = token :: rest) :
    session.Progress original (.afterStep { outcome := .operand token } (session.meaning rest))
      ⟨{ outcome := .operand token }, session.taken⟩ := by
  have taken := layout.taking reports between (next_lt_of_drop_eq next)
  have ahead : session.taken.Ahead (session.taken.meaning rest) :=
    drop_taken next ▸ .tokens scanning between
  exact .of_step taken scanning ahead rfl rfl rfl rfl (layout.operands_taken reports)

/-- A turn between tokens drops the candidates of the last one and scans. -/
theorem turn_of_between (scanning : session.phase = .scanning)
    (between : session.pending? = none) :
    session.turn = ({ session with ambiguous := .empty } : Session).scan := by
  unfold Session.turn
  dsimp only
  split
  · next exhausted => exact (not_exhausted scanning exhausted).elim
  · rw [between]

/-- A turn inside a cluster goes on with the letter that is pending. -/
theorem turn_of_pending (scanning : session.phase = .scanning) {offset : Nat}
    (pending : session.pending? = some offset) :
    session.turn =
      ({ session with ambiguous := .empty, pending? := none } : Session).shortOption offset := by
  unfold Session.turn
  dsimp only
  split
  · next exhausted => exact (not_exhausted scanning exhausted).elim
  · rw [pending]

/-- After the end, a turn answers the end again and only drops the candidates. -/
theorem turn_of_exhausted (exhausted : session.phase = .exhausted) :
    session.turn = .ok ⟨.ending, { session with ambiguous := .empty }⟩ := by
  unfold Session.turn
  dsimp only
  split
  · rfl
  · next running => exact (running exhausted).elim

/-- Scanning goes by the unread tokens: operands are passed and the two hyphens are read
until a token has a step to report. -/
theorem Layout.exists_scan (layout : session.Layout original)
    (scanning : session.phase = .scanning) (between : session.pending? = none) :
    ∃ turn, session.scan = .ok turn ∧
      session.Progress original (session.meaning (session.tokens.drop session.next)) turn := by
  -- Passing an operand moves the vector, so the induction is on what is unread of it.
  generalize unread : session.tokens.drop session.next = tokens
  induction tokens generalizing session with
  | nil =>
      rw [scan_of_end unread, meaning_nil]
      exact ⟨_, rfl, layout.progress_of_end⟩
  | cons token rest ih =>
      cases kind : classify (some token) session.operandsOnly with
      | absent => exact nomatch classify_eq_absent_iff.mp kind
      | terminator =>
          obtain ⟨turn, scans, progress⟩ := ih (layout.behindTerminator between unread) scanning
            between (drop_succ_of_drop_eq unread)
          rw [scan_of_terminator unread kind, meaning_of_terminator rest kind]
          exact ⟨turn, scans, progress.congr rfl rfl rfl rfl⟩
      | longOption =>
          obtain ⟨recognising, c, body, text⟩ := recognising_of_longOption kind
          rw [scan_of_longOption unread kind, meaning_of_recognising recognising]
          exact layout.exists_longOption scanning between recognising unread text
      | shortCluster =>
          obtain ⟨recognising, c, letters, text, first⟩ := recognising_of_shortCluster kind
          have followers : session.followers = rest := drop_succ_of_drop_eq unread
          rw [scan_of_shortCluster unread kind, meaning_of_recognising recognising,
            Reading.ofTokens_of_shortCluster rest text first, ← followers]
          exact layout.exists_shortOption scanning between
            (.of_cluster unread recognising text first)
      | operand =>
          by_cases reports : session.order = .returnInOrder
          · rw [scan_of_reported unread kind reports, meaning_of_reported rest kind reports]
            exact ⟨_, rfl, layout.progress_of_taken scanning between reports unread⟩
          · obtain ⟨tokens, passes, scans⟩ :=
              layout.exists_scan_behindOperand unread kind reports
            obtain ⟨turn, turns, progress⟩ := ih
              (layout.behindOperand reports between unread passes) scanning between passes.behind
            rw [scans, meaning_of_passed rest tokens kind reports]
            exact ⟨turn, turns, progress.afterOperand rfl rfl rfl
              (layout.operands_behindOperand unread passes)⟩

/-- **A turn takes the first step of the reading ahead.** -/
theorem Layout.exists_turn (layout : session.Layout original)
    (scanning : session.phase = .scanning) {reading : Reading} (ahead : session.Ahead reading) :
    ∃ turn, session.turn = .ok turn ∧ session.Progress original reading turn := by
  cases ahead with
  | nothing exhausted => exact (not_exhausted scanning exhausted).elim
  | tokens _ between =>
      obtain ⟨turn, scans, progress⟩ := (layout.cleared between).exists_scan scanning between
      exact ⟨turn, (turn_of_between scanning between).trans scans, progress.congr rfl rfl rfl rfl⟩
  | letters _ pending letter =>
      obtain ⟨turn, reads, progress⟩ :=
        layout.resumed.exists_shortOption scanning rfl letter.resumed
      exact ⟨turn, (turn_of_pending scanning pending).trans reads, progress.congr rfl rfl rfl rfl⟩

end Session

end CommandLine
