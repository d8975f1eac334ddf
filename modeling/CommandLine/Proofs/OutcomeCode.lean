import Mathlib
import CommandLine.Proofs.Delivery
import CommandLine.Proofs.Resumption
import CommandLine.Proofs.Session.Scan

/-!
# What the integer of an outcome tells

The integer of an outcome is the code of an option when the outcome is a match, and otherwise
a sign: one for the end, one for a match that has been dealt with, and one for each kind of
error. The signs of errors are reserved, and an option without a code has a flag, so no match
that the program is told of has the integer of a sign
(`CommandLine.Outcome.legacyCode_eq_sign_iff`). The integer one is that of an operand as well,
but operands are reported in one order only. So the integer identifies the outcome after
whatever calls (`CommandLine.Setup.identified_by_code`).
-/

namespace CommandLine

/-- What an error of the user is about. -/
inductive ErrorKind where
  | unknownOption
  | missingArgument
  | unexpectedArgument
  | ambiguous
deriving DecidableEq

/-- The character that stands for a kind of error. -/
def ErrorKind.sign : ErrorKind → Char
  | .unknownOption => '?'
  | .missingArgument => '-'
  | .unexpectedArgument => '+'
  | .ambiguous => '*'

/-- The kind of an error, without the option and the texts that it tells of. -/
def ParseError.kind : ParseError → ErrorKind
  | .unknownOption _ => .unknownOption
  | .missingArgument _ _ => .missingArgument
  | .unexpectedArgument _ => .unexpectedArgument
  | .ambiguous _ _ => .ambiguous

/-- The sign of an error is a code that no option may have. -/
theorem ErrorKind.sign_reserved (kind : ErrorKind) : kind.sign.val ∈ reservedCodes := by
  cases kind <;> decide

/-- Each kind of error has a sign of its own. -/
theorem ErrorKind.sign_injective {kind other : ErrorKind} (same : kind.sign = other.sign) :
    kind = other := by
  cases kind <;> cases other <;> first | rfl | exact nomatch same

theorem ParseError.code_eq_sign (error : ParseError) : error.code = error.kind.sign := by
  cases error <;> rfl

namespace Outcome

variable {outcome : Outcome}

/-- An outcome that is not the match of an option with a reserved code or without one. -/
def Unreserved (outcome : Outcome) : Prop :=
  ∀ code argument?, outcome = .matched code argument? → code ∉ reservedCodes ∧ code ≠ 0

/-- The end alone has the integer minus one, since codes are not negative. -/
theorem legacyCode_eq_neg_one_iff : outcome.legacyCode = -1 ↔ outcome = .done := by
  cases outcome <;> simp [legacyCode]

/-- Zero is the integer of a match that has been dealt with, if no code that is told is zero. -/
theorem legacyCode_eq_zero_iff (unreserved : outcome.Unreserved) :
    outcome.legacyCode = 0 ↔ outcome = .handled := by
  cases outcome with
  | matched code argument? =>
      constructor
      · intro same
        have uncoded : code = 0 := UInt32.toNat_inj.mp (Int.ofNat.inj same)
        exact ((unreserved code argument? rfl).2 uncoded).elim
      · intro same
        exact nomatch same
  | handled => simp [legacyCode]
  | operand text => simp [legacyCode]
  | done => simp [legacyCode]
  | failed error => cases error <;> simp [legacyCode, ParseError.code]

/-- The sign of a kind of error is the integer of the errors of this kind alone. -/
theorem legacyCode_eq_sign_iff (unreserved : outcome.Unreserved) (kind : ErrorKind) :
    outcome.legacyCode = kind.sign.toNat ↔
      ∃ error, outcome = .failed error ∧ error.kind = kind := by
  cases outcome with
  | matched code argument? =>
      constructor
      · intro same
        have equal : code = kind.sign.val := UInt32.toNat_inj.mp (Int.ofNat.inj same)
        exact ((unreserved code argument? rfl).1 (equal ▸ kind.sign_reserved)).elim
      · rintro ⟨_, same, _⟩
        exact nomatch same
  | handled => cases kind <;> simp [legacyCode, ErrorKind.sign]
  | operand text => cases kind <;> simp [legacyCode, ErrorKind.sign]
  | done => cases kind <;> simp [legacyCode, ErrorKind.sign]
  | failed error =>
      rw [legacyCode, error.code_eq_sign]
      constructor
      · intro same
        have equal : error.kind.sign = kind.sign := Char.toNat_inj.mp (Int.ofNat.inj same)
        exact ⟨error, rfl, ErrorKind.sign_injective equal⟩
      · rintro ⟨other, same, rfl⟩
        cases same
        rfl

end Outcome

variable {original : List String}

/-- A match that the program is told of is of an option that has a code of its own. -/
theorem Session.DeliversTo.code_unreserved {session : Session} {listener? : Option ListenerId}
    {code : UInt32} {argument? : Option Value}
    (delivers : session.DeliversTo original listener? code argument?)
    (valid : session.chain.Valid) : code ∉ reservedCodes ∧ code ≠ 0 := by
  obtain ⟨found, link, match', _, rfl⟩ := delivers
  have declared := Chain.mem_options_iff.mpr ⟨link, match'.linked, match'.declared⟩
  have sound := valid.error?_eq_none declared
  exact ⟨OptionDecl.code_not_reserved sound,
    OptionDecl.code_ne_zero_of_unflagged sound match'.unflagged⟩

/-- **What the integer of an outcome tells** of a call that parses. -/
structure Session.Tells (session : Session) (tokens : List String) (outcome : Outcome) :
    Prop where
  done : outcome.legacyCode = -1 ↔ outcome = .done
  handled : outcome.legacyCode = 0 ↔ outcome = .handled
  failed : ∀ kind : ErrorKind, outcome.legacyCode = kind.sign.toNat ↔
    ∃ error, outcome = .failed error ∧ error.kind = kind
  /-- Every other integer is the code of an option, also one where operands are gathered. -/
  matched : outcome.legacyCode ≠ -1 → outcome.legacyCode ≠ 0 →
    (∀ kind : ErrorKind, outcome.legacyCode ≠ kind.sign.toNat) →
    (outcome.legacyCode = 1 → session.order ≠ .returnInOrder) →
      ∃ code argument?, outcome = .matched code argument? ∧ outcome.legacyCode = code.toNat ∧
        session.DeliversTo tokens none code argument?

/-- The integer of each turn over a valid chain tells its outcome. -/
theorem Session.Alive.tells {session : Session} (alive : session.Alive original)
    (valid : session.chain.Valid) {turn : Turn} (turns : session.turn = .ok turn) :
    session.Tells original turn.step.outcome := by
  have unreserved : turn.step.outcome.Unreserved := by
    intro code argument? matched
    exact (alive.delivers_of_matched turns matched).code_unreserved valid
  refine ⟨Outcome.legacyCode_eq_neg_one_iff, Outcome.legacyCode_eq_zero_iff unreserved,
    Outcome.legacyCode_eq_sign_iff unreserved, ?_⟩
  intro notDone notHandled notFailed notOperand
  cases result : turn.step.outcome with
  | matched code argument? =>
      exact ⟨code, argument?, rfl, rfl, alive.delivers_of_matched turns result⟩
  | handled => exact (notHandled (by rw [result]; rfl)).elim
  | done => exact (notDone (by rw [result]; rfl)).elim
  | operand text =>
      have reports := alive.order_of_operand turns (by rw [Step.operand?, result])
      exact (notOperand (by rw [result]; rfl) reports).elim
  | failed error =>
      have same := (Outcome.legacyCode_eq_sign_iff unreserved error.kind).mpr ⟨error, result, rfl⟩
      exact (notFailed error.kind same).elim

namespace Setup

variable {setup : Setup} {table : OptionTable} {tokens : List String} {host : Host}

/-- **The integer of an outcome identifies it**, whatever calls have been made before: a session
that parses has been released, or it stands in the order that it has been started with and the
integer tells what has happened. -/
theorem identified_by_code {session : Session} {started : Host}
    (starts : setup.start table tokens host = (.ok session, started)) (calls : List Call) :
    let live := (Live.mk session started).after calls
    live.session.phase = .released ∧ live.parse = (.error (.released .parse), live) ∨
      live.session.order = setup.order table ∧
        ∃ outcome later, live.parse = (.ok outcome, later) ∧
          live.session.Tells tokens outcome := by
  intro live
  have alive := alive_of_start starts
  by_cases gives : .free ∈ calls
  · have released := Live.released_of_free_mem ⟨session, started⟩ gives
    exact .inl ⟨released, if_pos released⟩
  · right
    have valid : session.chain.Valid := by
      rw [eq_session_of_start starts]
      exact Chain.valid_of_tables (valid_of_start starts).2 (by simp)
    have continues := @Live.after_continues tokens ⟨session, started⟩ alive calls gives
    have checked := (@Live.chain_after tokens ⟨session, started⟩ alive valid calls gives).2
    obtain ⟨turn, turns, _⟩ := continues.alive.exists_turn
    refine ⟨?_, turn.step.outcome, _, Live.parse_eq continues.alive.not_released turns,
      continues.alive.tells checked turns⟩
    rw [continues.order, eq_session_of_start starts]
    rfl

/-- An option with the code one is matched where operands are gathered, behind an error and in
a table that has been added. -/
theorem identified_by_code_one :
    let library : Link := ⟨⟨[⟨"one", 1, .required .int, none⟩]⟩, none⟩
    let calls : List Call := [.parse, .extend library]
    ∃ session started, ({} : Setup).start ⟨[.short 'v']⟩ ["prog", "a", "-q", "--one=7"]
        ⟨fun _ => 0, []⟩ = (.ok session, started) ∧
      let live := (Live.mk session started).after calls
      ∃ outcome later, live.parse = (.ok outcome, later) ∧ outcome.legacyCode = 1 ∧
        outcome = .matched 1 (some (.int 7)) ∧
        live.session.DeliversTo ["prog", "a", "-q", "--one=7"] none 1 (some (.int 7)) := by
  intro library calls
  refine ⟨_, _, rfl, ?_⟩
  intro live
  have told := @identified_by_code {} ⟨[.short 'v']⟩ ["prog", "a", "-q", "--one=7"]
    ⟨fun _ => 0, []⟩ _ _ rfl calls
  have answers : live.parse.1 = .ok (.matched 1 (some (.int 7))) := by
    dsimp only [live, calls, library]
    cbv
  rcases told with ⟨_, refuses⟩ | ⟨order, outcome, later, parses, tells⟩
  · cases answers.symm.trans (congrArg Prod.fst refuses)
  · have same : outcome = .matched 1 (some (.int 7)) :=
      Except.ok.inj ((congrArg Prod.fst parses).symm.trans answers)
    subst same
    have gathers : live.session.order ≠ .returnInOrder := by
      rw [order]
      decide
    obtain ⟨code, argument?, matched, _, delivers⟩ := tells.matched (by decide) (by decide)
      (fun kind => by cases kind <;> decide) (fun _ => gathers)
    cases matched
    exact ⟨_, later, parses, rfl, rfl, delivers⟩

end Setup

end CommandLine
