import Mathlib
import CommandLine.Proofs.Resumption
import CommandLine.Proofs.Session.Advance

/-!
# Inside a cluster

Between two calls a session may stand inside a cluster, and keeps the byte offset of the next
letter. The offset is there only while the session reads, and then the next token is a cluster as
the user gave it, with a letter at the offset (`CommandLine.Session.InCluster`). What stands in
front of the offset has been reported letter by letter: since the session came to the token each
step has reported the letter that was next, by its match or as unknown, and no step has reported
anything else (`CommandLine.Live.Reports`). Adding tables in between changes nothing of this, and
every other way to end the reading drops the offset (`CommandLine.Setup.inside_cluster_of_pending`).
-/

namespace CommandLine

variable {original : List String}

namespace Reading

variable {chain : Chain} {c : Char} {letters : List Char} {rest : List String}

/-- A step that reports a letter without an argument: the match of the option that it stands for,
or that there is none. -/
inductive ReportsLetter (chain : Chain) (c : Char) : Step → Prop
  | unknown (finds : chain.findShort? c = none) :
      ReportsLetter chain c (.failure (.unknownOption (Diagnostic.shortOption c.val)))
  | matched {found : Found} (finds : chain.findShort? c = some found) :
      ReportsLetter chain c (matchStep chain found none)

/-- An attached argument that leaves the letters behind it to be read has not been taken. -/
theorem attached_of_letter {found : Found} {type : ArgumentType} {option : String}
    {explicit : Bool} {text : List Char}
    (extent : (attached chain found type option explicit text).2 = .letter) :
    (attached chain found type option explicit text).1 = matchStep chain found none := by
  unfold attached at extent ⊢
  split at extent
  · exact nomatch extent
  · split at extent
    · next lenient => rw [if_pos lenient]
    · exact nomatch extent

/-- A step that stops behind its letter reports this letter and nothing else. -/
theorem reportsLetter_of_letter (extent : (letterStep chain c letters rest).2 = .letter) :
    ReportsLetter chain c (letterStep chain c letters rest).1 := by
  cases finds : chain.findShort? c with
  | none =>
      rw [letterStep_of_unknown finds]
      exact .unknown finds
  | some found =>
      have reported : (letterStep chain c letters rest).1 = matchStep chain found none := by
        cases takes : found.decl.mode.type? with
        | none =>
            by_cases equals : letters.head? = some '='
            · obtain ⟨text, rfl⟩ := List.head?_eq_some_iff.mp equals
              rw [letterStep_of_unexpected finds takes] at extent
              exact nomatch extent
            · rw [letterStep_of_plain finds takes equals]
        | some type =>
            cases letters with
            | nil =>
                rw [letterStep_of_separate finds takes] at extent
                exact (separateArgument_ne_letter _ _ _ _ extent).elim
            | cons next letters =>
                by_cases equals : next = '='
                · subst equals
                  rw [letterStep_of_explicit finds takes] at extent
                  exact (attached_explicit_ne_letter _ _ _ _ extent).elim
                · rw [letterStep_of_implicit finds takes equals] at extent ⊢
                  exact attached_of_letter extent
      rw [reported]
      exact .matched finds

end Reading

namespace Session

variable {session : Session} {offset : Nat}

/-- A session that reads no more stands inside no cluster. -/
def DropsOffset (session : Session) : Prop :=
  session.phase ≠ .scanning → session.pending? = none

/-- Passing an option does not end the parsing. -/
theorem PassesOption.phase_eq {turn : Turn} (passes : session.PassesOption turn) :
    turn.session.phase = session.phase := by
  obtain ⟨extent, after, letters, candidates, same⟩ := passes.past
  rw [same]
  cases extent with
  | letter =>
      cases letters with
      | nil => rfl
      | cons _ _ => rfl
  | token => rfl
  | following => rfl

theorem Scans.dropsOffset {turn : Turn} (scans : session.Scans turn)
    (scanning : session.phase = .scanning) : turn.session.DropsOffset := by
  induction scans with
  | ending => exact fun _ => rfl
  | terminator _ _ _ ih => exact ih scanning
  | gathered _ _ _ _ _ ih => exact ih scanning
  | reported => exact fun ended => absurd scanning ended
  | long unread kind reads =>
      have same := (passesOption_of_long unread kind reads).phase_eq
      exact fun ended => absurd (same.trans scanning) ended
  | cluster unread kind reads =>
      have same := (passesOption_of_cluster unread kind reads).phase_eq
      exact fun ended => absurd (same.trans scanning) ended

/-- A turn keeps that no letter is pending after the end. -/
theorem Alive.dropsOffset_of_turn (alive : session.Alive original) (drops : session.DropsOffset)
    {turn : Turn} (turns : session.turn = .ok turn) : turn.session.DropsOffset := by
  cases alive with
  | exhausted phase _ =>
      cases turns.symm.trans (turn_of_exhausted phase)
      exact drops
  | scanning phase layout =>
      cases layout.takesTurn phase turns with
      | scan _ scans => exact scans.dropsOffset phase
      | letter _ letter reads =>
          have same := (letter.resumed.passesOption reads).phase_eq
          exact fun ended => absurd (same.trans phase) ended

/-- Aborting a session drops the letter that was pending. -/
theorem Alive.dropsOffset_of_abort (alive : session.Alive original) (drops : session.DropsOffset)
    {aborted : Session} (aborts : session.abort = .ok aborted) : aborted.DropsOffset := by
  cases alive with
  | exhausted phase _ =>
      cases aborts.symm.trans (abort_of_exhausted phase)
      exact drops
  | scanning phase layout =>
      obtain ⟨_, _, _, same, _⟩ := layout.exists_abort phase
      cases aborts.symm.trans same
      exact fun _ => rfl

theorem DropsOffset.release (drops : session.DropsOffset) : session.release.DropsOffset := by
  unfold Session.release
  split
  · exact drops
  · exact fun _ => rfl

end Session

/-- After any calls, a session that reads no more stands inside no cluster. -/
theorem Live.dropsOffset_after {live : Live} (alive : live.session.Alive original)
    (drops : live.session.DropsOffset) (calls : List Call) :
    (live.after calls).session.DropsOffset := by
  induction calls using List.reverseRecOn with
  | nil => exact drops
  | append_singleton calls call ih =>
      rw [Live.after_concat]
      rcases Live.alive_or_released_after alive calls with alive | released
      · have active := alive.not_released
        cases call with
        | free => exact ih.release
        | parse =>
            obtain ⟨turn, turns, _⟩ := alive.exists_turn
            rw [Live.answer_parse active turns]
            exact alive.dropsOffset_of_turn ih turns
        | abort =>
            obtain ⟨aborted, aborts, _⟩ := alive.exists_abort
            rw [Live.answer_abort active aborts]
            exact alive.dropsOffset_of_abort ih aborts
        | extend link =>
            cases checked : link.table.error? with
            | some error =>
                rw [Live.answer_extend_of_error active checked]
                exact ih
            | none =>
                rw [Live.answer_extend_of_valid active checked]
                exact ih
      · rw [Live.answer_of_released released]
        exact ih

namespace Session

variable {session : Session} {offset : Nat} {token : String} {read : List Char} {c : Char}
  {letters : List Char}

/-- **A session inside a cluster.** It reads and recognises options, and the next token is one of
the vector that the session was started over. The token is a cluster; in front of the offset stand
the letters that have been read, and at the offset the letter that comes next. -/
structure InCluster (original : List String) (session : Session) (offset : Nat) (token : String)
    (read : List Char) (c : Char) (letters : List Char) : Prop where
  scanning : session.phase = .scanning
  recognising : session.operandsOnly = false
  within : session.next < session.tokens.length
  stands : session.tokens[session.next]? = some token
  unmodified : original[session.next]? = some token
  cluster : TokenKind.ofText token.toList = .shortCluster
  text : token.toList = '-' :: read ++ c :: letters
  offset_eq : Text.byteLength ('-' :: read) = offset
  two_le : 2 ≤ offset
  offset_lt : offset < Text.byteLength token.toList

/-- The token that a session stands at is the one that the user gave. -/
theorem Cursors.getElem?_next (cursors : session.Cursors original) :
    session.tokens[session.next]? = original[session.next]? := by
  rw [← List.head?_drop, cursors.unread, List.head?_drop]

/-- A session at a letter is inside the cluster of this letter. -/
theorem Layout.inCluster (layout : session.Layout original) (scanning : session.phase = .scanning)
    (pending : session.pending? = some offset) (letter : session.AtLetter offset c letters)
    (unmodified : original[session.next]? = some token)
    (text : token.toList = '-' :: read ++ c :: letters) :
    session.InCluster original offset token read c letters := by
  obtain ⟨other, front, stands, cluster, split, length⟩ := letter.stands
  have same : other = token := by
    rw [layout.getElem?_next, unmodified] at stands
    exact (Option.some.inj stands).symm
  subst same
  have offset_eq : Text.byteLength ('-' :: read) = offset := by
    rw [text] at split
    rw [List.append_cancel_right split, length]
  have positive := c.utf8Size_pos
  refine ⟨scanning, letter.recognising, letter.next_lt, stands, unmodified, cluster, text,
    offset_eq, (layout.cluster offset pending).1, ?_⟩
  rw [text, Text.byteLength_append, offset_eq, Text.byteLength_cons]
  omega

/-- What is left of a cluster is told by the offset. -/
theorem InCluster.eq_of_atLetter {next : Char} {behind : List Char}
    (inside : session.InCluster original offset token read c letters)
    (letter : session.AtLetter offset next behind) : next = c ∧ behind = letters := by
  obtain ⟨other, front, stands, _, split, length⟩ := letter.stands
  obtain rfl : token = other := Option.some.inj (inside.stands.symm.trans stands)
  have left := Text.dropBytes?_byteLength_append front (next :: behind)
  have right := Text.dropBytes?_byteLength_append ('-' :: read) (c :: letters)
  rw [← split, length] at left
  rw [← inside.text, inside.offset_eq] at right
  cases left.symm.trans right
  exact ⟨rfl, rfl⟩

/-- The token at a position has not been begun. -/
structure Before (session : Session) (position : Nat) : Prop where
  between : session.pending? = none
  next_le : session.next ≤ position

/-- A turn that leaves a session inside a cluster has come to a letter of it that others follow,
and has reported this letter. -/
theorem Layout.exists_reported (layout : session.Layout original)
    (scanning : session.phase = .scanning) {turn : Turn} (turns : session.turn = .ok turn)
    (drops : turn.session.DropsOffset) (pending : turn.session.pending? = some offset) :
    ∃ passed c next letters rest, session.Meets passed (.letter c (next :: letters)) rest ∧
      turn.session.Meets [] (.letter next letters) rest ∧
      Reading.ReportsLetter session.chain c turn.step := by
  have alive : session.Alive original := .scanning scanning layout
  cases layout.comesTo scanning turns with
  | ending step =>
      have ended := (alive.done_iff_of_turn turns).mp (by rw [step]; rfl)
      have none := drops (by simp [ended])
      exact nomatch none.symm.trans pending
  | operand _ _ _ after => exact nomatch after.symm.trans pending
  | @option passed spelling rest meets takes =>
      rcases layout.standsBefore_or_meets turns meets takes with
        stands | ⟨c, next, letters, rfl, extent, further, _⟩
      · exact nomatch stands.between.symm.trans pending
      · refine ⟨passed, c, next, letters, rest, meets, further, ?_⟩
        rw [takes.step]
        exact Reading.reportsLetter_of_letter extent

/-- A session that meets an option inside a cluster stands at its letter. -/
theorem Meets.atLetter {passed rest : List String}
    (meets : session.Meets passed (.letter c letters) rest)
    (pending : session.pending? = some offset) : session.AtLetter offset c letters := by
  cases meets with
  | token stands => exact nomatch stands.between.symm.trans pending
  | letter _ here letter =>
      cases here.symm.trans pending
      exact letter

end Session

namespace Live

variable {live : Live}

/-- **The first letters of a token are reported** in calls on a session that has not begun the
token: each call that parses reports the next letter and leaves the session behind it, and tables
are added in between. -/
inductive Reports (live : Live) (position : Nat) : List Call → List Char → Prop
  | nothing : Reports live position [] []
  | letter {calls : List Call} {read : List Char} {c : Char} {step : Step} {later : Session}
      (earlier : Reports live position calls read)
      (answers : (live.after calls).answer .parse =
        (.ok (.outcome step.outcome), ⟨later, (live.after calls).host.performAll step.effects⟩))
      (reports : Reading.ReportsLetter (live.after calls).session.chain c step)
      (next : later.next = position)
      (pending : later.pending? = some (Text.byteLength ('-' :: read ++ [c]))) :
      Reports live position (calls ++ [.parse]) (read ++ [c])
  | table {calls : List Call} {read : List Char} (earlier : Reports live position calls read)
      (link : Link) : Reports live position (calls ++ [.extend link]) read

/-- As many letters have been reported as there were calls to parse. -/
theorem Reports.count_parse {position : Nat} {calls : List Call} {read : List Char}
    (reports : live.Reports position calls read) : calls.count .parse = read.length := by
  induction reports with
  | nothing => rfl
  | letter _ _ _ _ _ ih =>
      rw [List.count_append, ih, List.length_append]
      rfl
  | table _ _ ih =>
      rw [List.count_append, ih]
      rfl

/-- **How a session has come inside a cluster**: by calls after which the token of the cluster had
not been begun, and by calls after these which have reported the letters up to the offset. -/
inductive CameInside (original : List String) (live : Live) (offset : Nat) : List Call → Prop
  | intro {earlier later : List Call} {token : String} {read : List Char} {c : Char}
      {letters : List Char}
      (inside : (live.after (earlier ++ later)).session.InCluster original offset token read c
        letters)
      (before : (live.after earlier).session.Before (live.after (earlier ++ later)).session.next)
      (reports : (live.after earlier).Reports (live.after (earlier ++ later)).session.next later
        read)
      (once : later.count .parse = read.length) :
      CameInside original live offset (earlier ++ later)

variable {offset : Nat} {calls : List Call}

/-- Adding a table leaves a session where it stands in its cluster. -/
theorem CameInside.extend (came : CameInside original live offset calls) (link : Link) :
    CameInside original live offset (calls ++ [.extend link]) := by
  obtain @⟨earlier, later, token, read, c, letters, inside, before, reports, once⟩ := came
  have active : (live.after (earlier ++ later)).session.phase ≠ .released := by
    rw [inside.scanning]
    simp
  have kept : (live.after (earlier ++ (later ++ [.extend link]))).session.InCluster original offset
        token read c letters ∧
      (live.after (earlier ++ (later ++ [.extend link]))).session.next =
        (live.after (earlier ++ later)).session.next := by
    rw [← List.append_assoc, after_concat]
    cases checked : link.table.error? with
    | some error =>
        rw [answer_extend_of_error active checked]
        exact ⟨inside, rfl⟩
    | none =>
        rw [answer_extend_of_valid active checked]
        exact ⟨⟨inside.scanning, inside.recognising, inside.within, inside.stands,
          inside.unmodified, inside.cluster, inside.text, inside.offset_eq, inside.two_le,
          inside.offset_lt⟩, rfl⟩
  rw [List.append_assoc]
  rw [← kept.2] at before reports
  exact .intro kept.1 before (reports.table link) (reports.table link).count_parse

/-- A turn that leaves a session inside a cluster has begun the cluster, or has gone on to the next
letter of it. -/
theorem cameInside_of_parse (layout : (live.after calls).session.Layout original)
    (scanning : (live.after calls).session.phase = .scanning) {turn : Turn}
    (turns : (live.after calls).session.turn = .ok turn) (drops : turn.session.DropsOffset)
    (pending : turn.session.pending? = some offset)
    (ih : ∀ offset, (live.after calls).session.pending? = some offset →
      CameInside original live offset calls) :
    CameInside original live offset (calls ++ [.parse]) := by
  have alive : (live.after calls).session.Alive original := .scanning scanning layout
  have answers := answer_parse alive.not_released turns
  obtain ⟨passed, c, next, letters, rest, meets, further, reported⟩ :=
    layout.exists_reported scanning turns drops pending
  have layout' := (alive.continues_of_turn turns).alive.layout further.scanning
  have letter := further.atLetter pending
  have place := meets.next_add_length layout
  have place' := further.next_add_length layout'
  rw [List.length_nil] at place'
  have session_eq : (live.after (calls ++ [.parse])).session = turn.session := by
    rw [after_concat, answers]
  cases meets with
  | @token _ token _ _ stands operands gathers spells =>
      have position : turn.session.next = (live.after calls).session.next + passed.length := by
        omega
      have unmodified : original[turn.session.next]? = some token := by
        have unread := layout.unread.symm.trans stands.unread
        rw [position, ← List.getElem?_drop, unread, List.getElem?_append_right (Nat.le_refl _),
          Nat.sub_self, List.getElem?_cons_zero]
      have text : token.toList = '-' :: [c] ++ next :: letters := by
        rcases Spelling.eq_of_ofText? spells with ⟨_, _, _, other⟩ | ⟨_, _, text, _, same⟩
        · exact nomatch other
        · cases same
          exact text
      have inside := layout'.inCluster further.scanning pending letter unmodified text
      have reports := Reports.letter .nothing answers reported rfl
        (inside.offset_eq ▸ pending)
      refine .intro (session_eq ▸ inside) ?_ (session_eq ▸ reports) reports.count_parse
      rw [session_eq]
      exact ⟨stands.between, by omega⟩
  | @letter _ offset' _ _ pending' letter' =>
      obtain @⟨earlier, later, token, read, _, _, inside, before, reports, _⟩ := ih offset' pending'
      obtain ⟨rfl, rfl⟩ := inside.eq_of_atLetter letter'
      have same : turn.session.next = (live.after (earlier ++ later)).session.next := by
        rw [List.length_nil] at place
        omega
      have text : token.toList = '-' :: (read ++ [c]) ++ next :: letters := by
        rw [inside.text, List.cons_append, List.cons_append, List.append_assoc]
        rfl
      have further := layout'.inCluster further.scanning pending letter
        (same ▸ inside.unmodified) text
      rw [after_append] at answers reported
      have longer := Reports.letter reports answers reported same (further.offset_eq ▸ pending)
      rw [List.append_assoc] at session_eq ⊢
      refine .intro (session_eq ▸ further) ?_ ?_ longer.count_parse
      · rw [session_eq, same]
        exact before
      · rw [session_eq, same]
        exact longer

/-- **A session inside a cluster has come there letter by letter**, whatever calls were made. -/
theorem cameInside_of_pending (alive : live.session.Alive original)
    (between : live.session.pending? = none) (calls : List Call) {offset : Nat}
    (pending : (live.after calls).session.pending? = some offset) :
    CameInside original live offset calls := by
  have drops := fun calls => dropsOffset_after alive (fun _ => between) calls
  induction calls using List.reverseRecOn generalizing offset with
  | nil => exact nomatch between.symm.trans pending
  | append_singleton calls call ih =>
      have scanning : (live.after (calls ++ [call])).session.phase = .scanning := by
        by_contra ended
        exact nomatch (drops _ ended).symm.trans pending
      have keeps := free_not_mem_of_scanning scanning
      rw [List.mem_append, not_or, List.mem_singleton] at keeps
      have alive := (after_continues alive keeps.1).alive
      have active := alive.not_released
      have dropped := drops (calls ++ [call])
      rw [after_concat] at pending scanning dropped
      cases call with
      | free => exact absurd rfl keeps.2
      | abort =>
          obtain ⟨aborted, aborts, _⟩ := alive.exists_abort
          rw [answer_abort active aborts] at scanning
          exact nomatch scanning.symm.trans (alive.exhausted_of_abort aborts)
      | extend link =>
          apply CameInside.extend
          apply ih
          cases checked : link.table.error? with
          | some error =>
              rw [answer_extend_of_error active checked] at pending
              exact pending
          | none =>
              rw [answer_extend_of_valid active checked] at pending
              exact pending
      | parse =>
          cases alive with
          | exhausted phase stored =>
              rw [answer_parse active (Session.turn_of_exhausted phase)] at scanning
              exact nomatch scanning.symm.trans phase
          | scanning phase layout =>
              obtain ⟨turn, turns, _⟩ := (Session.Alive.scanning phase layout).exists_turn
              rw [answer_parse active turns] at pending dropped
              exact cameInside_of_parse layout phase turns dropped pending fun _ => ih

end Live

namespace Setup

variable {setup : Setup} {table : OptionTable} {tokens : List String} {host : Host}

/-- **The offset of a session is that of the next letter of a cluster**, in every state that calls
bring a session to. It is there only while the session reads and recognises options, inside a token
that stands as it was given. The letters in front of it have been reported since the token was
begun, each by one step, and those from it on have not. -/
theorem inside_cluster_of_pending {session : Session} {started : Host}
    (starts : setup.start table tokens host = (.ok session, started)) (calls : List Call)
    {offset : Nat}
    (pending : ((Live.mk session started).after calls).session.pending? = some offset) :
    Live.CameInside tokens ⟨session, started⟩ offset calls := by
  have between : session.pending? = none := by
    rw [eq_session_of_start starts]
    rfl
  exact @Live.cameInside_of_pending tokens ⟨session, started⟩ (alive_of_start starts) between calls
    offset pending

/-- Behind an operand, a letter that is matched, a table that is added and a letter that is
unknown. -/
theorem inside_cluster_of_pending_unknown :
    let tokens := ["prog", "a", "-vwx"]
    let live := Live.mk (({} : Setup).session ⟨[.short 'v']⟩ tokens) ⟨fun _ => 0, []⟩
    let calls : List Call := [.parse, .extend ⟨⟨[.short 'x']⟩, none⟩, .parse]
    (live.after calls).session.pending? = some 3 ∧ Live.CameInside tokens live 3 calls := by
  intro tokens live calls
  have starts : ({} : Setup).start ⟨[.short 'v']⟩ tokens live.host =
      (.ok live.session, live.host) := rfl
  have pending : (live.after calls).session.pending? = some 3 := by
    cbv
  exact ⟨pending, inside_cluster_of_pending starts calls pending⟩

end Setup

end CommandLine
