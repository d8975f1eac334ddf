import CommandLine.Proofs.Reading.Spelling
import CommandLine.Proofs.Session.Scan

/-!
# The option that a session comes to

A session that recognises options comes to the next option of its command line by passing
the operands in front of it, or stands at it already inside a cluster
(`CommandLine.Session.Meets`). Its turn then takes the step of that option. When the step
has read its token to the end, the session stands before the tokens that are left
(`CommandLine.Session.Layout.exists_turn_of_meets`). A turn that has come neither to the end
nor to an operand that is reported has come to an option in this way
(`CommandLine.Session.Layout.comesTo`).
-/

namespace CommandLine

namespace Session

variable {original : List String} {session : Session}

/-- A session that reads and stands before tokens, in which it may come to options. -/
structure StandsBefore (session : Session) (tokens : List String) : Prop where
  scanning : session.phase = .scanning
  between : session.pending? = none
  recognising : session.operandsOnly = false
  unread : session.tokens.drop session.next = tokens

/-- The option that a session comes to next, behind the operands that it passes on the way
and before the tokens that follow. -/
inductive Meets (session : Session) : List String → Spelling → List String → Prop where
  /-- At the start of a token. -/
  | token {passed : List String} {token : String} {spelling : Spelling} {rest : List String}
      (stands : session.StandsBefore (passed ++ token :: rest))
      (operands : ∀ text ∈ passed, TokenKind.ofText text.toList = .operand)
      (gathers : passed ≠ [] → session.order = .permute)
      (spells : Spelling.ofText? token.toList = some spelling) :
      Meets session passed spelling rest
  /-- Inside a cluster. -/
  | letter (scanning : session.phase = .scanning) {offset : Nat} {c : Char}
      {letters : List Char} (pending : session.pending? = some offset)
      (letter : session.AtLetter offset c letters) :
      Meets session [] (.letter c letters) session.followers

/-- A session that stands before an option meets it with no operand in front. -/
theorem StandsBefore.meets {token : String} {rest : List String} {spelling : Spelling}
    (stands : session.StandsBefore (token :: rest))
    (spells : Spelling.ofText? token.toList = some spelling) : session.Meets [] spelling rest := by
  apply @Meets.token session [] _ _ _ stands
  · simp
  · intro passed
    exact (passed rfl).elim
  · exact spells

theorem Meets.scanning {passed rest : List String} {spelling : Spelling}
    (meets : session.Meets passed spelling rest) : session.phase = .scanning := by
  cases meets with
  | token stands => exact stands.scanning
  | letter scanning => exact scanning

theorem Meets.not_released {passed rest : List String} {spelling : Spelling}
    (meets : session.Meets passed spelling rest) : session.phase ≠ .released := by
  rw [meets.scanning]
  simp

theorem Meets.recognising {passed rest : List String} {spelling : Spelling}
    (meets : session.Meets passed spelling rest) : session.operandsOnly = false := by
  cases meets with
  | token stands => exact stands.recognising
  | letter _ _ letter => exact letter.recognising

/-- Scanning passes operands that stand before others, wherever operands may stand. -/
theorem StandsBefore.exists_scan_passed {passed rest : List String}
    (stands : session.StandsBefore (passed ++ rest)) (layout : session.Layout original)
    (operands : ∀ text ∈ passed, TokenKind.ofText text.toList = .operand)
    (gathers : passed ≠ [] → session.order = .permute) :
    ∃ middle : Session, session.scan = middle.scan ∧ middle.StandsBefore rest ∧
      middle.chain = session.chain ∧ middle.operands = session.operands ++ passed := by
  induction passed generalizing session with
  | nil => exact ⟨session, rfl, stands, rfl, (List.append_nil _).symm⟩
  | cons text passed ih =>
      have anywhere : session.order = .permute := gathers (List.cons_ne_nil _ _)
      have unread := stands.unread
      have kind : classify (some text) session.operandsOnly = .operand := by
        rw [stands.recognising]
        exact operands text List.mem_cons_self
      obtain ⟨tokens, passes, scans⟩ :=
        layout.exists_scan_behindOperand unread kind (by simp [anywhere])
      rw [behindOperand_of_ne (by simp [anywhere])] at scans
      have behind : (session.compacted tokens).StandsBefore (passed ++ rest) :=
        ⟨stands.scanning, stands.between, stands.recognising, passes.behind⟩
      have others : ∀ other ∈ passed, TokenKind.ofText other.toList = .operand := by
        intro other member
        exact operands other (List.mem_cons_of_mem text member)
      obtain ⟨middle, further, before, chain, same⟩ :=
        ih behind (layout.passing (by simp [anywhere]) stands.between unread passes) others
          (fun _ => anywhere)
      refine ⟨middle, scans.trans further, before, chain, ?_⟩
      rw [same, layout.operands_passing unread passes, List.append_assoc, List.singleton_append]

/-- A session that skips whole tokens stands before the tokens behind them. -/
theorem StandsBefore.skipped {tokens : List String} (stands : session.StandsBefore tokens)
    (extent : Extent) (candidates : Candidates) :
    ({ session with
      next := session.next + extent.size
      ambiguous := candidates } : Session).StandsBefore (extent.remaining session.followers) :=
  ⟨stands.scanning, stands.between, stands.recognising, session.drop_size extent⟩

/-- A session at a letter that reads its token to the end goes on behind it. -/
theorem StandsBefore.exists_shortOption {tokens : List String}
    (stands : session.StandsBefore tokens) {offset : Nat} {c : Char} {letters : List Char}
    (letter : session.AtLetter offset c letters)
    (whole : (Reading.letterStep session.chain c letters session.followers).2 = .letter →
      letters = []) :
    let result := Reading.letterStep session.chain c letters session.followers
    ∃ later, session.shortOption offset = .ok ⟨result.1, later⟩ ∧
      later.operands = session.operands ∧
      later.StandsBefore (result.2.remaining session.followers) := by
  have reads := shortOption_eq letter
  rw [past_eq_of_token _ whole] at reads
  exact ⟨_, reads, rfl, stands.skipped _ _⟩

/-- A session at the start of a token with an option takes the step of the option and reads
on behind what it has read. -/
theorem StandsBefore.exists_scan_of_spelling {token : String} {rest : List String}
    (stands : session.StandsBefore (token :: rest)) {spelling : Spelling}
    (spells : Spelling.ofText? token.toList = some spelling)
    (whole : (spelling.step session.chain rest).2 = .letter → spelling.EndsToken) :
    ∃ later, session.scan = .ok ⟨(spelling.step session.chain rest).1, later⟩ ∧
      later.operands = session.operands ∧
      later.StandsBefore ((spelling.step session.chain rest).2.remaining rest) := by
  have unread := stands.unread
  have recognising := stands.recognising
  have followers : session.followers = rest := drop_succ_of_drop_eq unread
  subst followers
  rcases Spelling.eq_of_ofText? spells with ⟨c, body, text, rfl⟩ | ⟨c, letters, text, other, rfl⟩
  · have kind : classify (some token) session.operandsOnly = .longOption := by
      rw [recognising]
      exact TokenKind.ofText_eq_longOption_iff.mpr ⟨c, body, text⟩
    have reads := longOption_eq recognising (getElem?_of_drop_eq unread) text
    rw [past_eq_of_token 0 fun extent => (Reading.longStep_ne_letter _ _ extent).elim] at reads
    exact ⟨_, (scan_of_longOption unread kind).trans reads, rfl, stands.skipped _ _⟩
  · have kind : classify (some token) session.operandsOnly = .shortCluster := by
      rw [recognising]
      exact TokenKind.ofText_eq_shortCluster_iff.mpr ⟨c, letters, text, other⟩
    have letter := AtLetter.of_cluster unread recognising text other
    obtain ⟨later, reads, kept, left⟩ := stands.exists_shortOption letter whole
    exact ⟨later, (scan_of_shortCluster unread kind).trans reads, kept, left⟩

/-- **A turn on the option that a session comes to** passes the operands in front of it and
takes its step. Once the token of the option has been read to its end, the session stands
before the tokens that the step has left. -/
theorem Layout.exists_turn_of_meets (layout : session.Layout original) {passed : List String}
    {spelling : Spelling} {rest : List String} (meets : session.Meets passed spelling rest)
    (whole : (spelling.step session.chain rest).2 = .letter → spelling.EndsToken) :
    ∃ later, session.turn = .ok ⟨(spelling.step session.chain rest).1, later⟩ ∧
      later.operands = session.operands ++ passed ∧
      later.StandsBefore ((spelling.step session.chain rest).2.remaining rest) := by
  cases meets with
  | @token _ token _ rest stands operands gathers spells =>
      let cleared : Session := { session with ambiguous := .empty }
      have before : cleared.StandsBefore (passed ++ token :: rest) :=
        ⟨stands.scanning, stands.between, stands.recognising, stands.unread⟩
      obtain ⟨middle, scans, arrived, chain, same⟩ :=
        before.exists_scan_passed (layout.cleared stands.between) operands gathers
      have sameChain : middle.chain = session.chain := chain
      rw [← sameChain] at whole ⊢
      obtain ⟨later, reads, kept, left⟩ := arrived.exists_scan_of_spelling spells whole
      refine ⟨later, ?_, kept.trans same, left⟩
      rw [turn_of_between stands.scanning stands.between]
      exact scans.trans reads
  | @letter reads offset c letters pending letter =>
      have resumed : ({ session with ambiguous := .empty, pending? := none } : Session).StandsBefore
          (session.tokens.drop session.next) :=
        ⟨reads, rfl, letter.recognising, rfl⟩
      obtain ⟨later, turns, kept, left⟩ := resumed.exists_shortOption letter.resumed whole
      refine ⟨later, (turn_of_pending reads pending).trans turns, ?_, left⟩
      rw [List.append_nil]
      exact kept

/-- The byte offset at which a session stands in its next token, which is zero between
tokens. -/
def offset (session : Session) : Nat :=
  session.pending?.getD 0

/-- A turn that has taken the step of an option before tokens. When the step has read one of
several letters, the session stands at the next letter, further on in the token. -/
structure TakesOption (session : Session) (spelling : Spelling) (rest : List String)
    (turn : Turn) : Prop where
  step : turn.step = (spelling.step session.chain rest).1
  letters : ∀ c next letters, spelling = .letter c (next :: letters) →
    (spelling.step session.chain rest).2 = .letter →
      turn.session.Meets [] (.letter next letters) rest
  further : ∀ c next letters, spelling = .letter c (next :: letters) →
    (spelling.step session.chain rest).2 = .letter → session.offset < turn.session.offset

/-- **What a turn has come to**, on a session that reads: the end of the command line, an
operand that is reported, or an option. -/
inductive ComesTo (session : Session) (turn : Turn) : Prop where
  | ending (step : turn.step = .ending)
  | operand {skipped : List String} {text : String} {rest : List String}
      (step : turn.step = { outcome := .operand text })
      (between : session.pending? = none)
      (unread : session.tokens.drop session.next = skipped ++ text :: rest)
      (after : turn.session.pending? = none)
      (left : turn.session.tokens.drop turn.session.next = rest)
  | option {passed : List String} {spelling : Spelling} {rest : List String}
      (meets : session.Meets passed spelling rest)
      (takes : session.TakesOption spelling rest turn)

/-- A session that reads a letter of the next token takes the step of the letter. It may have
stood in front of the letter, or at it. -/
theorem takesOption_shortOption {reader : Session} (scanning : reader.phase = .scanning)
    (chain : reader.chain = session.chain) {offset : Nat} (stood : session.offset ≤ offset)
    {c : Char} {letters : List Char} (letter : reader.AtLetter offset c letters) {turn : Turn}
    (reads : reader.shortOption offset = .ok turn) :
    session.TakesOption (.letter c letters) reader.followers turn := by
  cases reads.symm.trans (shortOption_eq letter)
  rw [chain]
  refine ⟨rfl, ?_, ?_⟩
  · intro _ next others same extent
    cases same
    change (Reading.letterStep session.chain c (next :: others) reader.followers).2 = .letter
      at extent
    rw [extent]
    exact @Meets.letter (reader.past .letter (offset + c.utf8Size) (next :: others)) scanning _ _
      _ rfl letter.next_letter
  · intro _ next others same extent
    cases same
    change (Reading.letterStep session.chain c (next :: others) reader.followers).2 = .letter
      at extent
    rw [extent]
    exact Nat.lt_of_le_of_lt stood (Nat.lt_add_of_pos_right (Char.utf8Size_pos c))

theorem StandsBefore.comesTo_of_longOption {token : String} {rest : List String}
    (stands : session.StandsBefore (token :: rest))
    (long : TokenKind.ofText token.toList = .longOption) {turn : Turn}
    (reads : session.longOption = .ok turn) : session.ComesTo turn := by
  obtain ⟨c, body, text⟩ := TokenKind.ofText_eq_longOption_iff.mp long
  have followers : session.followers = rest := drop_succ_of_drop_eq stands.unread
  have meets : session.Meets [] (.long (c :: body)) rest := stands.meets (text ▸ rfl)
  cases reads.symm.trans (longOption_eq stands.recognising (getElem?_of_drop_eq stands.unread) text)
  refine .option meets ⟨?_, ?_, ?_⟩
  · rw [← followers]
    rfl
  · intro _ _ _ same
    exact nomatch same
  · intro _ _ _ same
    exact nomatch same

/-- A session that stands before a cluster comes to its first letter by reading it. -/
theorem StandsBefore.comesTo_of_shortCluster {token : String} {rest : List String}
    (stands : session.StandsBefore (token :: rest))
    (cluster : TokenKind.ofText token.toList = .shortCluster) {turn : Turn}
    (reads : session.shortOption 1 = .ok turn) : session.ComesTo turn := by
  obtain ⟨c, letters, text, other⟩ := TokenKind.ofText_eq_shortCluster_iff.mp cluster
  have followers : session.followers = rest := drop_succ_of_drop_eq stands.unread
  have meets : session.Meets [] (.letter c letters) rest :=
    stands.meets (text ▸ Spelling.ofText?_letter other letters)
  have start : session.offset ≤ 1 := by simp [offset, stands.between]
  have letter := AtLetter.of_cluster stands.unread stands.recognising text other
  exact .option meets
    (followers ▸ takesOption_shortOption stands.scanning rfl start letter reads)

/-- The candidates of an earlier turn have no part in what a session meets. -/
theorem Meets.of_cleared {passed rest : List String} {spelling : Spelling}
    (meets : ({ session with ambiguous := .empty } : Session).Meets passed spelling rest) :
    session.Meets passed spelling rest := by
  cases meets with
  | letter scanning pending letter =>
      have here : session.AtLetter _ _ _ := ⟨letter.recognising, letter.started, letter.stands⟩
      exact @Meets.letter session scanning _ _ _ pending here
  | token stands operands gathers spells =>
      have before : session.StandsBefore _ :=
        ⟨stands.scanning, stands.between, stands.recognising, stands.unread⟩
      exact .token before operands gathers spells

/-- What a session meets behind an operand it meets behind one operand more. -/
theorem Meets.afterOperand {token : String} {rest tokens passed behind : List String}
    {spelling : Spelling} (meets : (session.behindOperand tokens).Meets passed spelling behind)
    (scanning : session.phase = .scanning) (between : session.pending? = none)
    (unread : session.tokens.drop session.next = token :: rest)
    (kind : classify (some token) session.operandsOnly = .operand)
    (gathers : session.order ≠ .returnInOrder) (passes : session.Passes token rest tokens) :
    session.Meets (token :: passed) spelling behind := by
  obtain ⟨recognising, anywhere⟩ := Bool.or_eq_false_iff.mp meets.recognising
  cases meets with
  | letter _ pending => exact nomatch between ▸ pending
  | @token _ option _ _ stands operands _ spells =>
      have left : rest = passed ++ option :: behind := passes.behind.symm.trans stands.unread
      have before : session.StandsBefore (token :: passed ++ option :: behind) :=
        ⟨scanning, between, recognising, unread.trans (congrArg (token :: ·) left)⟩
      refine .token before ?_ ?_ spells
      · rw [recognising] at kind
        exact List.forall_mem_cons.mpr ⟨kind, operands⟩
      · intro _
        cases order : session.order with
        | permute => rfl
        | requireOrder => simp [order] at anywhere
        | returnInOrder => exact (gathers order).elim

/-- Scanning comes to the end, to an operand that is reported, or to an option. -/
theorem Scans.comesTo {turn : Turn} (scans : session.Scans turn)
    (scanning : session.phase = .scanning) (between : session.pending? = none) :
    session.ComesTo turn := by
  induction scans with
  | ending => exact .ending rfl
  | @terminator session token rest turn unread kind further ih =>
      have followers : session.followers = rest := drop_succ_of_drop_eq unread
      cases ih scanning between with
      | ending step => exact .ending step
      | @operand skipped text behind step _ further after left =>
          have skips : session.tokens.drop session.next =
              (token :: skipped) ++ text :: behind := by
            rw [unread, ← followers]
            exact congrArg (token :: ·) further
          exact .operand step between skips after left
      | option meets _ => exact nomatch meets.recognising
  | @gathered session token rest tokens turn unread kind gathers passes further ih =>
      cases ih scanning between with
      | ending step => exact .ending step
      | @operand skipped text behind step _ later after left =>
          have skips : session.tokens.drop session.next =
              (token :: skipped) ++ text :: behind := by
            rw [unread, ← passes.behind]
            exact congrArg (token :: ·) later
          exact .operand step between skips after left
      | option meets takes =>
          exact .option (meets.afterOperand scanning between unread kind gathers passes)
            ⟨takes.step, takes.letters, takes.further⟩
  | reported unread =>
      exact @ComesTo.operand _ _ [] _ _ rfl between unread between (drop_taken unread)
  | long unread kind reads =>
      obtain ⟨recognising, long⟩ := recognising_of_classify kind (by simp)
      have stands := StandsBefore.mk scanning between recognising unread
      exact stands.comesTo_of_longOption long reads
  | cluster unread kind reads =>
      obtain ⟨recognising, cluster⟩ := recognising_of_classify kind (by simp)
      have stands := StandsBefore.mk scanning between recognising unread
      exact stands.comesTo_of_shortCluster cluster reads

/-- **What a turn comes to**, on a session that reads. -/
theorem Layout.comesTo (layout : session.Layout original)
    (scanning : session.phase = .scanning) {turn : Turn} (turns : session.turn = .ok turn) :
    session.ComesTo turn := by
  cases layout.takesTurn scanning turns with
  | scan between scans =>
      cases scans.comesTo scanning between with
      | ending step => exact .ending step
      | operand step _ unread after left => exact .operand step between unread after left
      | option meets takes =>
          exact .option meets.of_cleared ⟨takes.step, takes.letters, takes.further⟩
  | @letter offset c letters pending letter reads =>
      have stood : session.offset ≤ offset := by simp [Session.offset, pending]
      let resumed : Session := { session with ambiguous := .empty, pending? := none }
      have takes := @takesOption_shortOption session resumed scanning rfl _ stood _ _
        letter.resumed _ reads
      exact .option (.letter scanning pending letter) takes

/-- A turn that has come to an option leaves the session before the tokens that the step has
left, or further on in the token of the option. -/
theorem Layout.standsBefore_or_meets (layout : session.Layout original) {passed : List String}
    {spelling : Spelling} {rest : List String} {turn : Turn} (turns : session.turn = .ok turn)
    (meets : session.Meets passed spelling rest)
    (takes : session.TakesOption spelling rest turn) :
    turn.session.StandsBefore ((spelling.step session.chain rest).2.remaining rest) ∨
      ∃ c next letters, spelling = .letter c (next :: letters) ∧
        (spelling.step session.chain rest).2 = .letter ∧
        turn.session.Meets [] (.letter next letters) rest ∧
        session.offset < turn.session.offset := by
  by_cases whole : (spelling.step session.chain rest).2 = .letter → spelling.EndsToken
  · obtain ⟨later, same, _, stands⟩ := layout.exists_turn_of_meets meets whole
    cases turns.symm.trans same
    exact .inl stands
  · rw [Classical.not_imp] at whole
    obtain ⟨extent, inside⟩ := whole
    obtain ⟨c, next, letters, rfl⟩ := Spelling.exists_letter_of_not_endsToken inside
    exact .inr ⟨c, next, letters, rfl, extent, takes.letters c next letters rfl extent,
      takes.further c next letters rfl extent⟩

/-- A turn that fails has come to an option and has taken its step. -/
theorem Layout.exists_meets_of_failed (layout : session.Layout original)
    (scanning : session.phase = .scanning) {turn : Turn} {error : ParseError}
    (turns : session.turn = .ok turn) (fails : turn.step.outcome = .failed error) :
    ∃ passed spelling rest, session.Meets passed spelling rest ∧
      session.TakesOption spelling rest turn := by
  cases layout.comesTo scanning turns with
  | ending step => exact nomatch step ▸ fails
  | operand step => exact nomatch step ▸ fails
  | option meets takes => exact ⟨_, _, _, meets, takes⟩

end Session

end CommandLine
