import CommandLine.Proofs.History
import CommandLine.Proofs.Session.Encounter

/-!
# How far a session gets

Each step but the last moves a session on, to a later token or further on in its token
(`CommandLine.Session.Alive.position_lt_of_turn`), and leaves it fewer steps
(`CommandLine.Session.Alive.stepsLeft_lt_of_turn`). Tables may be added in between, as the
steps that are left are counted by the tokens alone. A single turn ends as well, since each
round of a scan passes a token (`CommandLine.Session.scanWithin_eq`). So a session comes to its
end within a bound that is read off its vector (`CommandLine.Setup.ends_within_bound`).
-/

namespace CommandLine

/-- The most steps that an option can take with what stands behind it in its token. -/
def Spelling.weight : Spelling → Nat
  | long body => body.length + 1
  | letter _ letters => letters.length + 1

/-- No option is without weight, since something stands behind its hyphen. -/
theorem Spelling.one_le_weight (spelling : Spelling) : 1 ≤ spelling.weight := by
  cases spelling with
  | long body => exact Nat.le_add_left 1 _
  | letter c letters => exact Nat.le_add_left 1 _

/-- The weight of an option is the length of its token behind the first hyphen. -/
theorem Spelling.length_of_ofText? {token : String} {spelling : Spelling}
    (spells : ofText? token.toList = some spelling) : token.length = spelling.weight + 1 := by
  rw [← String.length_toList]
  rcases eq_of_ofText? spells with ⟨c, body, text, rfl⟩ | ⟨c, letters, text, _, rfl⟩
  · rw [text]
    rfl
  · rw [text]
    rfl

namespace Session

variable {original : List String} {session : Session}

/-- The most steps that a session can still take before the last one: one for each letter that
is left of a cluster, and those of the tokens behind it. -/
def stepsLeft (session : Session) : Nat :=
  match session.phase, session.pending?, session.tokens.drop session.next with
  | .scanning, none, tokens => stepBound tokens
  | .scanning, some offset, token :: rest =>
      ((Text.dropBytes? offset token.toList).getD []).length + stepBound rest
  | _, _, _ => 0

/-- Between tokens, the steps that are left are bounded by the unread tokens. -/
theorem stepsLeft_of_between (scanning : session.phase = .scanning)
    (between : session.pending? = none) {tokens : List String}
    (unread : session.tokens.drop session.next = tokens) :
    session.stepsLeft = stepBound tokens := by
  unfold stepsLeft
  rw [scanning, between, unread]

/-- Inside a cluster, each letter that is left is a step in front of those of the tokens behind. -/
theorem stepsLeft_of_letter (scanning : session.phase = .scanning) {offset : Nat} {c : Char}
    {letters : List Char} (pending : session.pending? = some offset)
    (letter : session.AtLetter offset c letters) :
    session.stepsLeft = letters.length + 1 + stepBound session.followers := by
  rcases letter.stands with ⟨token, start, stands, _, text, rfl⟩
  obtain ⟨within, rfl⟩ := List.getElem?_eq_some_iff.mp stands
  unfold stepsLeft
  rw [scanning, pending, List.drop_eq_getElem_cons within]
  dsimp only
  rw [text, Text.dropBytes?_byteLength_append]
  rfl

/-- No step is left once the parsing has ended. -/
theorem stepsLeft_of_ended (ended : session.phase ≠ .scanning) : session.stepsLeft = 0 := by
  unfold stepsLeft
  cases phase : session.phase with
  | scanning => exact (ended phase).elim
  | exhausted => rfl
  | released => rfl

/-- The steps that are left of a session that comes to an option. -/
theorem Meets.stepsLeft_eq {passed rest : List String} {spelling : Spelling}
    (meets : session.Meets passed spelling rest) :
    session.stepsLeft =
      stepBound passed + (spelling.weight + stepBound rest) := by
  cases meets with
  | token stands operands gathers spells =>
      have length := Spelling.length_of_ofText? spells
      rw [stepsLeft_of_between stands.scanning stands.between stands.unread,
        stepBound_append, stepBound_cons, length, Nat.add_sub_cancel,
        Nat.max_eq_right spelling.one_le_weight]
  | letter scanning pending letter =>
      rw [stepsLeft_of_letter scanning pending letter]
      exact (Nat.zero_add _).symm

/-- Outside a cluster, the unread tokens bound the steps that are left in every phase. -/
theorem stepsLeft_le_of_between (between : session.pending? = none) {tokens : List String}
    (unread : session.tokens.drop session.next = tokens) :
    session.stepsLeft ≤ stepBound tokens := by
  by_cases scanning : session.phase = .scanning
  · exact Nat.le_of_eq (stepsLeft_of_between scanning between unread)
  · rw [stepsLeft_of_ended scanning]
    exact Nat.zero_le _

/-- **A step that is not the last leaves fewer steps.** -/
theorem Alive.stepsLeft_lt_of_turn (alive : session.Alive original) {turn : Turn}
    (turns : session.turn = .ok turn) (unfinished : turn.step.outcome.isDone = false) :
    turn.session.stepsLeft < session.stepsLeft := by
  cases alive with
  | exhausted phase stored =>
      cases turns.symm.trans (turn_of_exhausted phase)
      exact nomatch unfinished
  | scanning phase layout =>
      cases layout.comesTo phase turns with
      | ending step => exact nomatch step ▸ unfinished
      | operand step between unread after left =>
          have later := stepsLeft_le_of_between after left
          rw [stepsLeft_of_between phase between unread, stepBound_append,
            stepBound_cons]
          omega
      | @option passed spelling rest meets takes =>
          rw [meets.stepsLeft_eq]
          rcases layout.standsBefore_or_meets turns meets takes with
            stands | ⟨c, next, letters, rfl, _, further, _⟩
          · have later := stepsLeft_le_of_between stands.between stands.unread
            have fewer := Reading.stepBound_remaining_le
              (spelling.step session.chain rest).2 rest
            have positive := spelling.one_le_weight
            omega
          · rw [further.stepsLeft_eq]
            simp only [Spelling.weight, List.length_cons, stepBound_nil]
            omega

/-- Where a session stands: the next token, and the byte offset in it. -/
def position (session : Session) : Nat × Nat :=
  (session.next, session.offset)

/-- The next token, counted from the end of the vector. -/
theorem Cursors.next_add_length (cursors : session.Cursors original) {tokens : List String}
    (unread : session.tokens.drop session.next = tokens) (some : original ≠ []) :
    session.next + tokens.length = original.length := by
  have bound := cursors.next_le
  have first := cursors.one_le_written
  have behind := cursors.written_le_next
  have same := cursors.length
  have size := List.length_pos_iff.mpr some
  rw [← unread, List.length_drop]
  omega

/-- A session with something unread has been started on a vector that is not empty. -/
theorem Cursors.ne_nil (cursors : session.Cursors original) {tokens : List String}
    (unread : session.tokens.drop session.next = tokens) (more : tokens ≠ []) :
    original ≠ [] := by
  rintro rfl
  have empty := List.length_eq_zero_iff.mp cursors.length
  rw [empty, List.drop_nil] at unread
  exact more unread.symm

/-- The token of an option, counted from the end of the vector. -/
theorem Meets.next_add_length {passed rest : List String} {spelling : Spelling}
    (meets : session.Meets passed spelling rest) (layout : session.Layout original) :
    session.next + passed.length + rest.length + 1 = original.length := by
  cases meets with
  | token stands operands gathers spells =>
      have some := layout.ne_nil stands.unread (by simp)
      have count := layout.next_add_length stands.unread some
      rw [List.length_append, List.length_cons] at count
      omega
  | letter scanning pending letter =>
      have within := letter.next_lt
      have same := layout.length
      rw [followers, List.length_drop, List.length_nil]
      omega

/-- **A step that is not the last moves a session on**: to a later token, or further on in the
same token. -/
theorem Alive.position_lt_of_turn (alive : session.Alive original) {turn : Turn}
    (turns : session.turn = .ok turn) (unfinished : turn.step.outcome.isDone = false) :
    Prod.Lex (· < ·) (· < ·) session.position turn.session.position := by
  have scanning : turn.session.phase = .scanning := by
    cases phase : turn.session.phase with
    | scanning => rfl
    | exhausted =>
        rw [(alive.done_iff_of_turn turns).mpr phase] at unfinished
        exact nomatch unfinished
    | released => exact ((alive.continues_of_turn turns).alive.not_released phase).elim
  have later := (alive.continues_of_turn turns).alive.layout scanning
  cases alive with
  | exhausted phase stored =>
      cases turns.symm.trans (turn_of_exhausted phase)
      exact nomatch unfinished
  | scanning phase layout =>
      cases layout.comesTo phase turns with
      | ending step => exact nomatch step ▸ unfinished
      | operand step between unread after left =>
          have some := layout.ne_nil unread (by simp)
          have start := layout.next_add_length unread some
          have arrived := later.next_add_length left some
          rw [List.length_append, List.length_cons] at start
          exact .left _ _ (by omega)
      | @option passed spelling rest meets takes =>
          have start := meets.next_add_length layout
          rcases layout.standsBefore_or_meets turns meets takes with
            stands | ⟨c, next, letters, rfl, _, further, deeper⟩
          · have some : original ≠ [] := by
              rintro rfl
              simp at start
            have arrived := later.next_add_length stands.unread some
            have fewer := (spelling.step session.chain rest).2.length_remaining_le rest
            exact .left _ _ (by omega)
          · have arrived := further.next_add_length later
            rw [List.length_nil] at arrived
            by_cases same : turn.session.next = session.next
            · rw [position, position, same]
              exact .right _ deeper
            · exact .left _ _ (by omega)

/-- A round of a scan. It ends the scan, or leaves a session that is scanned further. -/
def scanRound (session : Session) : Except Defect Turn ⊕ Session :=
  let passing : Except Defect Session → Except Defect Turn ⊕ Session
    | .error defect => .inl (.error defect)
    | .ok compacted => .inr compacted
  match classify session.tokens[session.next]? session.operandsOnly with
  | .absent => .inl (.ok ⟨.ending, session.finish⟩)
  | .shortCluster => .inl (session.shortOption 1)
  | .longOption => .inl session.longOption
  | .terminator => .inr { session with operandsOnly := true, next := session.next + 1 }
  | .operand =>
      match session.order with
      | .returnInOrder => .inl session.takeOperand
      | .permute => passing session.compactOperand
      | .requireOrder => passing ({ session with operandsOnly := true } : Session).compactOperand

/-- Scan for at most a number of rounds. -/
def scanWithin : Nat → Session → Option (Except Defect Turn)
  | 0, _ => none
  | rounds + 1, session =>
      match session.scanRound with
      | .inl result => some result
      | .inr later => scanWithin rounds later

/-- A scan is one round, and the scan of what that round has left if it has not come to an end. -/
theorem scan_eq_of_scanRound (session : Session) :
    session.scan =
      match session.scanRound with
      | .inl result => result
      | .inr later => later.scan := by
  rw [scan_eq]
  unfold scanRound
  cases classify session.tokens[session.next]? session.operandsOnly with
  | absent | shortCluster | longOption | terminator => rfl
  | operand =>
      cases session.order with
      | returnInOrder => rfl
      | permute | requireOrder =>
          dsimp only
          generalize Session.compactOperand _ = compacts
          cases compacts <;> rfl

/-- A round that does not end the scan passes a token. -/
theorem next_of_scanRound {later : Session} (further : session.scanRound = .inr later) :
    session.next < session.tokens.length ∧ later.next = session.next + 1 ∧
      later.tokens.length = session.tokens.length := by
  unfold scanRound at further
  dsimp only at further
  cases kind : classify session.tokens[session.next]? session.operandsOnly with
  | absent | shortCluster | longOption => simp [kind] at further
  | terminator =>
      rw [kind] at further
      cases further
      exact ⟨next_lt_of_classify_eq kind (by simp), rfl, rfl⟩
  | operand =>
      refine ⟨next_lt_of_classify_eq kind (by simp), ?_⟩
      rw [kind] at further
      dsimp only at further
      split at further
      · simp at further
      all_goals
        split at further
        · simp at further
        · next compacts =>
            cases further
            have next := next_of_compactOperand_eq_ok compacts
            have length := length_tokens_of_compactOperand_eq_ok compacts
            exact ⟨next, length⟩

/-- **A scan ends**, within one round for each token that is unread and one more. -/
theorem scanWithin_eq {rounds : Nat} {session : Session}
    (enough : session.tokens.length - session.next < rounds) :
    session.scanWithin rounds = some session.scan := by
  induction rounds generalizing session with
  | zero => exact (Nat.not_lt_zero _ enough).elim
  | succ rounds ih =>
      rw [scanWithin, scan_eq_of_scanRound]
      cases further : session.scanRound with
      | inl result => rfl
      | inr later =>
          obtain ⟨within, next, length⟩ := next_of_scanRound further
          exact ih (by omega)

end Session

theorem Outcome.isDone_eq_false {outcome : Outcome} (unfinished : outcome ≠ .done) :
    outcome.isDone = false := by
  cases outcome with
  | done => exact (unfinished rfl).elim
  | matched => rfl
  | handled => rfl
  | operand => rfl
  | failed => rfl

/-- Whether an answer is a step that is not the last. -/
def Reply.isStep : Except Fault Reply → Bool
  | .ok (.outcome result) => !result.isDone
  | _ => false

namespace Live

variable {original : List String} {live : Live}

/-- A call leaves no more steps than there were, and fewer when it is a step itself. -/
theorem stepsLeft_answer_le (alive : live.session.Alive original) {call : Call}
    (keeps : call ≠ .free) :
    (live.answer call).2.session.stepsLeft + (if Reply.isStep (live.answer call).1 then 1 else 0) ≤
      live.session.stepsLeft := by
  have active := alive.not_released
  cases call with
  | free => exact (keeps rfl).elim
  | parse =>
      obtain ⟨turn, turns, _⟩ := alive.exists_turn
      rw [answer_parse active turns]
      cases done : turn.step.outcome.isDone with
      | false =>
          have fewer := alive.stepsLeft_lt_of_turn turns done
          simpa [Reply.isStep, done] using fewer
      | true =>
          have ended := (alive.done_iff_of_turn turns).mp done
          have none : turn.session.stepsLeft = 0 := Session.stepsLeft_of_ended (by simp [ended])
          simp [Reply.isStep, done, none]
  | abort =>
      obtain ⟨aborted, aborts, _⟩ := alive.exists_abort
      have ended := alive.exhausted_of_abort aborts
      have none : aborted.stepsLeft = 0 := Session.stepsLeft_of_ended (by simp [ended])
      rw [answer_abort active aborts]
      simp [Reply.isStep, none]
  | extend link =>
      cases checked : link.table.error? with
      | some error =>
          rw [answer_extend_of_error active checked]
          exact Nat.le_refl _
      | none =>
          rw [answer_extend_of_valid active checked]
          exact Nat.le_refl _

/-- **All steps but the last are counted**, whatever other calls are made in between. -/
theorem countP_isStep_le (alive : live.session.Alive original) {calls : List Call}
    (keeps : .free ∉ calls) :
    (live.replies calls).countP Reply.isStep ≤ live.session.stepsLeft := by
  induction calls generalizing live with
  | nil => exact Nat.zero_le _
  | cons call calls ih =>
      rw [List.mem_cons, not_or] at keeps
      have first := stepsLeft_answer_le alive (Ne.symm keeps.1)
      have others := ih (answer_continues alive (Ne.symm keeps.1)).alive keeps.2
      rw [replies, List.countP_cons]
      omega

/-- As long as the end is not answered, each call that parses is a step. -/
theorem count_parse_le (alive : live.session.Alive original) {calls : List Call}
    (keeps : .free ∉ calls) (unended : .ok (.outcome .done) ∉ live.replies calls) :
    calls.count .parse ≤ (live.replies calls).countP Reply.isStep := by
  induction calls generalizing live with
  | nil => exact Nat.zero_le _
  | cons call calls ih =>
      rw [List.mem_cons, not_or] at keeps
      rw [replies, List.mem_cons, not_or] at unended
      have others := ih (answer_continues alive (Ne.symm keeps.1)).alive keeps.2 unended.2
      rw [replies, List.countP_cons, List.count_cons]
      by_cases parses : call = .parse
      · subst parses
        obtain ⟨turn, turns, _⟩ := alive.exists_turn
        have answers := answer_parse alive.not_released turns
        have unfinished : turn.step.outcome ≠ .done := by
          intro done
          rw [answers, done] at unended
          exact unended.1 rfl
        have step : Reply.isStep (live.answer .parse).1 = true := by
          rw [answers, Reply.isStep, Outcome.isDone_eq_false unfinished]
          rfl
        rw [step]
        simpa using others
      · have other : (call == .parse) = false := by simpa using parses
        rw [other]
        simpa using Nat.le_add_right_of_le others

end Live

namespace Setup

variable {setup : Setup} {table : OptionTable} {tokens : List String} {host : Host}

/-- **A session comes to its end within a bound.** The tokens behind the path bound the number
of steps before the last one, also when tables are added on the way, so a program that parses
more often has been told of the end. In every state on the way, a step that is not the last
moves the session to a later token or further on in the same one, and each scan ends. -/
theorem ends_within_bound {session : Session} {started : Host}
    (starts : setup.start table tokens host = (.ok session, started)) {calls : List Call}
    (keeps : .free ∉ calls) :
    let live := Live.mk session started
    let now := live.after calls
    let bound := stepBound (tokens.drop 1)
    (live.replies calls).countP Reply.isStep ≤ bound ∧
      (bound < calls.count .parse → .ok (.outcome .done) ∈ live.replies calls) ∧
      (∀ outcome, (now.answer .parse).1 = .ok (.outcome outcome) → outcome ≠ .done →
        Prod.Lex (· < ·) (· < ·) now.session.position (now.answer .parse).2.session.position) ∧
      ∀ reader : Session,
        reader.scanWithin (reader.tokens.length - reader.next + 1) = some reader.scan := by
  intro live now bound
  have same := eq_session_of_start starts
  have alive := alive_of_start starts
  have start : live.session.stepsLeft = bound := by
    change session.stepsLeft = _
    rw [same]
    exact Session.stepsLeft_of_between rfl rfl rfl
  have counted : (live.replies calls).countP Reply.isStep ≤ bound :=
    start ▸ Live.countP_isStep_le alive keeps
  refine ⟨counted, ?_, ?_, ?_⟩
  · intro more
    by_contra unended
    have parses : calls.count .parse ≤ (live.replies calls).countP Reply.isStep :=
      Live.count_parse_le alive keeps unended
    omega
  · intro outcome answers unfinished
    have still : now.session.Alive tokens := (Live.after_continues alive keeps).alive
    obtain ⟨turn, turns, _⟩ := still.exists_turn
    rw [Live.answer_parse still.not_released turns] at answers ⊢
    cases answers
    exact still.position_lt_of_turn turns (Outcome.isDone_eq_false unfinished)
  · intro reader
    exact Session.scanWithin_eq (Nat.lt_add_one _)

/-- A session inside a cluster, to which a table is added before it reads on: the next step
stays in the token, and ten calls that parse are enough for the rest. -/
theorem ends_within_bound_inside_cluster :
    let table : OptionTable := ⟨[.short 'v', (OptionDecl.short 'o').optional .int]⟩
    let live := Live.mk (({} : Setup).session table ["prog", "-vox", "--what", "a"])
      ⟨fun _ => 0, []⟩
    let earlier : List Call := [.parse, .extend ⟨⟨[.short 'x']⟩, some 0⟩]
    let calls := earlier ++ List.replicate 10 .parse
    (live.replies calls).countP Reply.isStep ≤ 9 ∧
      .ok (.outcome .done) ∈ live.replies calls ∧
      Prod.Lex (· < ·) (· < ·) (1, 2)
        ((live.after earlier).answer .parse).2.session.position := by
  intro table live earlier calls
  have starts : ({} : Setup).start table ["prog", "-vox", "--what", "a"] ⟨fun _ => 0, []⟩ =
      (.ok (({} : Setup).session table ["prog", "-vox", "--what", "a"]), ⟨fun _ => 0, []⟩) := rfl
  obtain ⟨counted, ends, _⟩ := @ends_within_bound {} table _ _ _ _ starts calls (by decide)
  obtain ⟨_, _, moves, _⟩ := @ends_within_bound {} table _ _ _ _ starts earlier (by decide)
  have here : (live.after earlier).session.position = (1, 2) := by
    cbv
  have further := moves (.matched 'o'.val none) (by cbv) (by decide)
  change Prod.Lex _ _ (live.after earlier).session.position _ at further
  rw [here] at further
  exact ⟨counted, ends (by decide), further⟩

end Setup

end CommandLine
