import Mathlib
import CommandLine.Proofs.Session.Abort
import CommandLine.Proofs.Session.Progress
import CommandLine.Session.Call

/-!
# Calls in order

A program makes calls on its session in any order. Until it gives the session up, each
call keeps the layout of the vector and only adds to the operands
(`CommandLine.Live.answer_continues`), and each call answers, but for one that adds a
table that is not valid (`CommandLine.Live.answer_eq_ok`). So this holds of all calls from the
start on (`CommandLine.Setup.layout_until_release`,
`CommandLine.Setup.answered_until_release`).
-/

namespace CommandLine

variable {original : List String}

namespace Session

variable {session : Session}

theorem Alive.not_released (alive : session.Alive original) : session.phase ≠ .released := by
  cases alive with
  | scanning phase => simp [phase]
  | exhausted phase => simp [phase]

/-- The tables that options are looked up in have no part in the layout. -/
theorem Layout.rechained (layout : session.Layout original) (chain : Chain) :
    ({ session with chain := chain } : Session).Layout original where
  one_le_written := layout.one_le_written
  written_le := layout.written_le
  path := layout.path
  written_le_next := layout.written_le_next
  next_le := layout.next_le
  length := layout.length
  unread := layout.unread
  gathered := layout.gathered
  rearranged := layout.rearranged
  unmoved := layout.unmoved
  cluster offset pending := by
    obtain ⟨behind, c, letters, letter⟩ := layout.cluster offset pending
    exact ⟨behind, c, letters, letter.recognising, letter.started, letter.stands⟩

/-- A session stays alive under another chain, as its cursors do not depend on the tables. -/
theorem Alive.rechained (alive : session.Alive original) (chain : Chain) :
    ({ session with chain := chain } : Session).Alive original := by
  cases alive with
  | scanning phase layout => exact .scanning phase (layout.rechained chain)
  | exhausted phase stored =>
      exact .exhausted phase ⟨stored.one_le_written, stored.written_le, stored.path⟩

/-- A later state of a session that has not been released. The order of operands and the
name of the program are as before, and operands have only been added. -/
structure Continues (original : List String) (session later : Session) : Prop where
  alive : later.Alive original
  order : later.order = session.order
  programName : later.programName = session.programName
  operands : session.operands <+: later.operands

theorem Continues.refl (alive : session.Alive original) : session.Continues original session :=
  ⟨alive, rfl, rfl, List.prefix_refl _⟩

/-- What a later session continues, a session later still continues as well. -/
theorem Continues.trans {middle later : Session} (first : session.Continues original middle)
    (second : middle.Continues original later) : session.Continues original later where
  alive := second.alive
  order := second.order.trans first.order
  programName := second.programName.trans first.programName
  operands := first.operands.trans second.operands

/-- A session that has not been released takes its turn. -/
theorem Alive.exists_turn (alive : session.Alive original) :
    ∃ turn, session.turn = .ok turn ∧ session.Continues original turn.session := by
  cases alive with
  | scanning phase layout =>
      obtain ⟨reading, ahead⟩ := layout.exists_ahead phase
      obtain ⟨turn, turns, progress⟩ := layout.exists_turn phase ahead
      rcases progress.ahead with ⟨passed, _, _, operands, _⟩
      exact ⟨turn, turns, progress.alive, progress.order, progress.programName, passed,
        operands.symm⟩
  | exhausted phase stored =>
      have kept : ({ session with ambiguous := .empty } : Session).Stored original :=
        ⟨stored.one_le_written, stored.written_le, stored.path⟩
      exact ⟨_, turn_of_exhausted phase, .exhausted phase kept, rfl, rfl, List.prefix_refl _⟩

/-- A turn continues its session: the layout, the path and the operands so far are kept. -/
theorem Alive.continues_of_turn (alive : session.Alive original) {turn : Turn}
    (turns : session.turn = .ok turn) : session.Continues original turn.session := by
  obtain ⟨other, same, continues⟩ := alive.exists_turn
  cases turns.symm.trans same
  exact continues

/-- A turn does not change the tables. -/
theorem Alive.chain_of_turn (alive : session.Alive original) {turn : Turn}
    (turns : session.turn = .ok turn) : turn.session.chain = session.chain := by
  cases alive with
  | scanning phase layout =>
      obtain ⟨reading, ahead⟩ := layout.exists_ahead phase
      obtain ⟨other, same, progress⟩ := layout.exists_turn phase ahead
      cases turns.symm.trans same
      exact progress.chain
  | exhausted phase stored =>
      cases turns.symm.trans (turn_of_exhausted phase)
      rfl

/-- A turn ends the reading exactly when it is the last. -/
theorem Alive.done_iff_of_turn (alive : session.Alive original) {turn : Turn}
    (turns : session.turn = .ok turn) :
    turn.step.outcome.isDone = true ↔ turn.session.phase = .exhausted := by
  cases alive with
  | scanning phase layout =>
      obtain ⟨reading, ahead⟩ := layout.exists_ahead phase
      obtain ⟨other, same, progress⟩ := layout.exists_turn phase ahead
      cases turns.symm.trans same
      exact progress.done_iff
  | exhausted phase stored =>
      cases turns.symm.trans (turn_of_exhausted phase)
      exact iff_of_true rfl phase

/-- There is nothing to abort after the end. -/
theorem abort_of_exhausted (exhausted : session.phase = .exhausted) :
    session.abort = .ok session := by
  unfold abort
  split
  · rfl
  · next running => exact (running exhausted).elim

/-- A session that has not been released can be aborted. -/
theorem Alive.exists_abort (alive : session.Alive original) :
    ∃ aborted, session.abort = .ok aborted ∧ session.Continues original aborted := by
  cases alive with
  | scanning phase layout =>
      obtain ⟨tokens, next, written, aborts, stored, operands⟩ := layout.exists_abort phase
      exact ⟨_, aborts, .exhausted rfl stored, rfl, rfl, _, operands.symm⟩
  | exhausted phase stored =>
      exact ⟨session, abort_of_exhausted phase, .refl (.exhausted phase stored)⟩

/-- Aborting does not change the tables either. -/
theorem Alive.chain_of_abort (alive : session.Alive original) {aborted : Session}
    (aborts : session.abort = .ok aborted) : aborted.chain = session.chain := by
  cases alive with
  | scanning phase layout =>
      obtain ⟨tokens, next, written, same, _⟩ := layout.exists_abort phase
      cases aborts.symm.trans same
      rfl
  | exhausted phase stored =>
      cases aborts.symm.trans (abort_of_exhausted phase)
      rfl

/-- A session that has been aborted is exhausted. -/
theorem Alive.exhausted_of_abort (alive : session.Alive original) {aborted : Session}
    (aborts : session.abort = .ok aborted) : aborted.phase = .exhausted := by
  cases alive with
  | scanning phase layout =>
      obtain ⟨tokens, next, written, same, _⟩ := layout.exists_abort phase
      cases aborts.symm.trans same
      rfl
  | exhausted phase stored =>
      cases aborts.symm.trans (abort_of_exhausted phase)
      exact phase

/-- Releasing a session for a second time changes nothing. -/
theorem release_of_released (released : session.phase = .released) :
    session.release = session := by
  unfold release
  rw [released]

/-- A session that has been released is in the last phase. -/
theorem phase_release (session : Session) : session.release.phase = .released := by
  unfold release
  split
  · next released => exact released
  · rfl

/-- Releasing a session adds no table to its chain. -/
theorem links_release {link : Link} (linked : link ∈ session.release.chain.links) :
    link ∈ session.chain.links := by
  unfold release at linked
  split at linked
  · exact linked
  · rw [List.mem_singleton.mp linked]
    exact List.mem_cons_self

end Session

namespace Live

variable {live : Live}

/-- A `parse` replies with the outcome of the turn, and the acts of its step are performed on the
host. -/
theorem parse_eq (active : live.session.phase ≠ .released) {turn : Turn}
    (turns : live.session.turn = .ok turn) :
    live.parse =
      (.ok turn.step.outcome, ⟨turn.session, live.host.performAll turn.step.effects⟩) := by
  unfold parse
  rw [if_neg active, turns]

/-- The answer to a `parse` is that outcome, and the session is the one that the turn leaves. -/
theorem answer_parse (active : live.session.phase ≠ .released) {turn : Turn}
    (turns : live.session.turn = .ok turn) :
    live.answer .parse =
      (.ok (.outcome turn.step.outcome),
        ⟨turn.session, live.host.performAll turn.step.effects⟩) := by
  rw [answer, parse_eq active turns]
  rfl

/-- A valid table is appended to the chain, and its flags are reset. -/
theorem extend_of_valid (active : live.session.phase ≠ .released) {link : Link}
    (valid : link.table.Valid) :
    live.extend link =
      (.ok live.session.programName,
        ⟨{ live.session with chain := live.session.chain.append link },
          live.host.resetFlags link.table⟩) := by
  unfold extend
  rw [if_neg active, show link.table.error? = none from valid]

/-- A table that is not valid is not added. -/
theorem extend_of_error (active : live.session.phase ≠ .released) {link : Link}
    {error : TableError} (broken : link.table.error? = some error) :
    live.extend link = (.error (.malformedTable error), live) := by
  unfold extend
  rw [if_neg active, broken]

/-- An `abort` changes the session alone and nothing of the host. -/
theorem abort_eq (active : live.session.phase ≠ .released) {aborted : Session}
    (aborts : live.session.abort = .ok aborted) :
    live.abort = (.ok (), { live with session := aborted }) := by
  unfold abort
  rw [if_neg active, aborts]

/-- The answer to adding a valid table is the name of the program. -/
theorem answer_extend_of_valid (active : live.session.phase ≠ .released) {link : Link}
    (valid : link.table.Valid) :
    live.answer (.extend link) =
      (.ok (.name live.session.programName),
        ⟨{ live.session with chain := live.session.chain.append link },
          live.host.resetFlags link.table⟩) := by
  rw [answer, extend_of_valid active valid]
  rfl

/-- A table that breaks a rule is refused with that rule, and session and host are left as they
were. -/
theorem answer_extend_of_error (active : live.session.phase ≠ .released) {link : Link}
    {error : TableError} (broken : link.table.error? = some error) :
    live.answer (.extend link) = (.error (.malformedTable error), live) := by
  rw [answer, extend_of_error active broken]
  rfl

theorem answer_abort (active : live.session.phase ≠ .released) {aborted : Session}
    (aborts : live.session.abort = .ok aborted) :
    live.answer .abort = (.ok .nothing, { live with session := aborted }) := by
  rw [answer, abort_eq active aborts]
  rfl

/-- Aborting does nothing to the program. -/
theorem host_abort (live : Live) : live.abort.2.host = live.host := by
  unfold abort
  split
  · rfl
  · split
    · rfl
    · rfl

/-- Adding a table does nothing to the program but to set the flags of the table to zero. -/
theorem host_extend (live : Live) (link : Link) :
    (live.extend link).2.host = live.host ∨
      live.session.phase ≠ .released ∧ link.table.Valid ∧
        (live.extend link).2.host = live.host.resetFlags link.table := by
  unfold extend
  split
  · exact .inl rfl
  · next active =>
      split
      · exact .inl rfl
      · next valid => exact .inr ⟨active, valid, rfl⟩

/-- A call that does not give the session up leaves a later state of it. -/
theorem answer_continues (alive : live.session.Alive original) {call : Call}
    (keeps : call ≠ .free) :
    live.session.Continues original (live.answer call).2.session := by
  have active := alive.not_released
  cases call with
  | free => exact (keeps rfl).elim
  | parse =>
      obtain ⟨turn, turns, continues⟩ := alive.exists_turn
      rw [answer, parse_eq active turns]
      exact continues
  | abort =>
      obtain ⟨aborted, aborts, continues⟩ := alive.exists_abort
      rw [answer, abort_eq active aborts]
      exact continues
  | extend link =>
      rw [answer]
      cases checked : link.table.error? with
      | some error =>
          rw [extend_of_error active checked]
          exact .refl alive
      | none =>
          rw [extend_of_valid active checked]
          exact ⟨alive.rechained _, rfl, rfl, List.prefix_refl _⟩

/-- A call on a session that has not been released answers, whatever the state of the
session is. -/
theorem answer_eq_ok (alive : live.session.Alive original) {call : Call} (keeps : call ≠ .free)
    (valid : ∀ link, call = .extend link → link.table.Valid) :
    ∃ reply, (live.answer call).1 = .ok reply := by
  have active := alive.not_released
  cases call with
  | free => exact (keeps rfl).elim
  | parse =>
      obtain ⟨turn, turns, _⟩ := alive.exists_turn
      rw [answer, parse_eq active turns]
      exact ⟨_, rfl⟩
  | abort =>
      obtain ⟨aborted, aborts, _⟩ := alive.exists_abort
      rw [answer, abort_eq active aborts]
      exact ⟨_, rfl⟩
  | extend link =>
      rw [answer, extend_of_valid active (valid link rfl)]
      exact ⟨_, rfl⟩

/-- The session and its program after calls. -/
def after (live : Live) (calls : List Call) : Live :=
  calls.foldl (fun live call => (live.answer call).2) live

/-- The answers to calls. -/
def replies (live : Live) : List Call → List (Except Fault Reply)
  | [] => []
  | call :: calls => (live.answer call).1 :: (live.answer call).2.replies calls

theorem after_cons (live : Live) (call : Call) (calls : List Call) :
    live.after (call :: calls) = (live.answer call).2.after calls := rfl

/-- A client that goes on with calls continues from what the earlier ones have left. -/
theorem after_append (live : Live) (earlier later : List Call) :
    live.after (earlier ++ later) = (live.after earlier).after later :=
  List.foldl_append

/-- The last call is answered by what the calls before it have left. -/
theorem after_concat (live : Live) (calls : List Call) (call : Call) :
    live.after (calls ++ [call]) = ((live.after calls).answer call).2 :=
  List.foldl_concat ..

/-- A released session refuses to parse. -/
theorem answer_parse_of_released (released : live.session.phase = .released) :
    live.answer .parse = (.error (.released .parse), live) := by
  rw [answer, parse, if_pos released]
  rfl

/-- A released session refuses to be aborted. -/
theorem answer_abort_of_released (released : live.session.phase = .released) :
    live.answer .abort = (.error (.released .abort), live) := by
  rw [answer, abort, if_pos released]
  rfl

/-- A released session refuses every table, valid or not. -/
theorem answer_extend_of_released (released : live.session.phase = .released) (link : Link) :
    live.answer (.extend link) = (.error (.released .extend), live) := by
  rw [answer, extend, if_pos released]
  rfl

/-- No call does anything to a session that has been released. -/
theorem answer_of_released (released : live.session.phase = .released) (call : Call) :
    (live.answer call).2 = live := by
  cases call with
  | parse => rw [answer_parse_of_released released]
  | abort => rw [answer_abort_of_released released]
  | extend link => rw [answer_extend_of_released released]
  | free =>
      change ({ live with session := live.session.release } : Live) = live
      rw [Session.release_of_released released]

/-- No calls change a released session or its program. -/
theorem after_of_released (released : live.session.phase = .released) (calls : List Call) :
    live.after calls = live := by
  induction calls with
  | nil => rfl
  | cons call calls ih => rw [after_cons, answer_of_released released, ih]

/-- Calls that do not give the session up leave a later state of it. -/
theorem after_continues (alive : live.session.Alive original) {calls : List Call}
    (keeps : .free ∉ calls) : live.session.Continues original (live.after calls).session := by
  induction calls generalizing live with
  | nil => exact .refl alive
  | cons call calls ih =>
      rw [List.mem_cons, not_or] at keeps
      have first := answer_continues alive (Ne.symm keeps.1)
      exact first.trans (ih first.alive keeps.2)

/-- A session has been released after any calls with a `free` among them. -/
theorem released_of_free_mem (live : Live) {calls : List Call} (gives : .free ∈ calls) :
    (live.after calls).session.phase = .released := by
  obtain ⟨earlier, later, rfl⟩ := List.append_of_mem gives
  have released : ((live.after earlier).answer .free).2.session.phase = .released :=
    Session.phase_release _
  rw [after_append, after_cons, after_of_released released]
  exact released

/-- A session after any calls has not been released, or it has for good. -/
theorem alive_or_released_after (alive : live.session.Alive original) (calls : List Call) :
    (live.after calls).session.Alive original ∨
      (live.after calls).session.phase = .released := by
  by_cases gives : .free ∈ calls
  · exact .inr (released_of_free_mem live gives)
  · exact .inl (after_continues alive gives).alive

/-- What turns keep, calls that parse keep. -/
theorem after_parses {keeps : Session → Prop}
    (step : ∀ {session turn}, session.Alive original → keeps session →
      session.turn = .ok turn → keeps turn.session)
    (alive : live.session.Alive original) (holds : keeps live.session) (count : Nat) :
    let last := (live.after (List.replicate count .parse)).session
    last.Alive original ∧ keeps last := by
  induction count generalizing live with
  | zero => exact ⟨alive, holds⟩
  | succ count ih =>
      obtain ⟨turn, turns, continues⟩ := alive.exists_turn
      have next : (live.answer .parse).2.session = turn.session := by
        rw [answer_parse alive.not_released turns]
      apply ih
      · rw [next]
        exact continues.alive
      · rw [next]
        exact step alive holds turns

/-- Calls that parse do not change the tables. -/
theorem chain_after_parses (alive : live.session.Alive original) (count : Nat) :
    (live.after (List.replicate count .parse)).session.chain = live.session.chain := by
  let keeps (session : Session) : Prop := session.chain = live.session.chain
  have step : ∀ {session : Session} {turn : Turn}, session.Alive original → keeps session →
      session.turn = .ok turn → keeps turn.session := by
    intro session turn alive same turns
    exact (alive.chain_of_turn turns).trans same
  exact (after_parses step alive rfl count).2

/-- Every call on a session that is alive is answered, if the tables it is given are valid and it is
not released in between. -/
theorem replies_eq_ok (alive : live.session.Alive original) {calls : List Call}
    (keeps : .free ∉ calls) (valid : ∀ link, .extend link ∈ calls → link.table.Valid) :
    ∀ reply ∈ live.replies calls, ∃ answer, reply = .ok answer := by
  induction calls generalizing live with
  | nil =>
      intro reply member
      exact nomatch member
  | cons call calls ih =>
      rw [List.mem_cons, not_or] at keeps
      intro reply member
      rcases List.mem_cons.mp member with rfl | later
      · apply answer_eq_ok alive (Ne.symm keeps.1)
        intro link same
        apply valid link
        rw [same]
        exact List.mem_cons_self
      · have first := answer_continues alive (Ne.symm keeps.1)
        have others : ∀ link, .extend link ∈ calls → link.table.Valid := by
          intro link member
          exact valid link (List.mem_cons_of_mem call member)
        exact ih first.alive keeps.2 others reply later

end Live

namespace Setup

variable {setup : Setup} {table : OptionTable} {tokens : List String} {host : Host}

/-- A session that has just been started stands behind the path with nothing passed yet. -/
theorem session_layout (setup : Setup) (table : OptionTable) (tokens : List String) :
    (setup.session table tokens).Layout tokens where
  one_le_written := Nat.le_refl 1
  written_le := Nat.le_max_left 1 _
  path := rfl
  written_le_next := Nat.le_refl 1
  next_le := Nat.le_max_left 1 _
  length := rfl
  unread := rfl
  gathered := by
    rw [Session.operands_of_written_eq_one rfl]
    exact .nil tokens 1
  rearranged _ := List.Perm.refl tokens
  unmoved _ := rfl
  cluster offset pending := nomatch pending

theorem session_alive (setup : Setup) (table : OptionTable) (tokens : List String) :
    (setup.session table tokens).Alive tokens :=
  .scanning rfl (setup.session_layout table tokens)

/-- A start with a usable separator and a valid table succeeds, and resets the flags of that
table. -/
theorem start_of_valid (usable : setup.separator ≠ '\x00') (valid : table.Valid)
    (tokens : List String) (host : Host) :
    setup.start table tokens host = (.ok (setup.session table tokens), host.resetFlags table) := by
  unfold start
  rw [if_neg usable, show table.error? = none from valid]

/-- Starting fails without a trace, or sets the flags of the table to zero. -/
theorem start_refuses_or_starts (setup : Setup) (table : OptionTable) (tokens : List String)
    (host : Host) :
    (∃ fault, setup.start table tokens host = (.error fault, host)) ∨
      setup.start table tokens host =
        (.ok (setup.session table tokens), host.resetFlags table) := by
  unfold start
  split
  · exact .inl ⟨_, rfl⟩
  · split
    · exact .inl ⟨_, rfl⟩
    · exact .inr rfl

/-- A start that succeeds yields the fresh session, whatever host it is given. -/
theorem eq_session_of_start {session : Session} {started : Host}
    (starts : setup.start table tokens host = (.ok session, started)) :
    session = setup.session table tokens := by
  rcases setup.start_refuses_or_starts table tokens host with ⟨fault, refuses⟩ | same
  · cases starts.symm.trans refuses
  · cases starts.symm.trans same
    rfl

/-- A session that has been started reads its vector. -/
theorem alive_of_start {session : Session} {started : Host}
    (starts : setup.start table tokens host = (.ok session, started)) :
    session.Alive tokens := by
  rw [eq_session_of_start starts]
  exact setup.session_alive table tokens

/-- A start succeeds only with a usable separator and a valid table. -/
theorem valid_of_start {session : Session} {started : Host}
    (starts : setup.start table tokens host = (.ok session, started)) :
    setup.separator ≠ '\x00' ∧ table.Valid := by
  unfold start at starts
  split at starts
  · simp at starts
  · next usable =>
      split at starts
      · simp at starts
      · next valid => exact ⟨usable, valid⟩

/-- **The layout of a session lasts until its release.** Whatever calls are made, a session
that still reads has its cursors in order over the vector that it was started with, and the
operands of an earlier state begin those of every later one. -/
theorem layout_until_release {session : Session} {started : Host}
    (starts : setup.start table tokens host = (.ok session, started))
    {earlier later : List Call} (keeps : .free ∉ earlier ++ later) :
    let first := (Live.mk session started).after earlier
    let last := (Live.mk session started).after (earlier ++ later)
    (last.session.phase = .scanning →
        last.session.Layout tokens ∧ last.session.order = setup.order table ∧
          last.session.operands = (last.session.tokens.take last.session.written).drop 1) ∧
      first.session.operands <+: last.session.operands := by
  intro first last
  have alive := alive_of_start starts
  have keepsEarlier : .free ∉ earlier := by
    intro member
    exact keeps (List.mem_append_left later member)
  have keepsLater : .free ∉ later := by
    intro member
    exact keeps (List.mem_append_right earlier member)
  have whole : (Live.mk session started).session.Continues tokens last.session :=
    Live.after_continues alive keeps
  have part : (Live.mk session started).session.Continues tokens first.session :=
    Live.after_continues alive keepsEarlier
  constructor
  · intro scanning
    cases whole.alive with
    | exhausted phase => exact (Session.not_exhausted scanning phase).elim
    | scanning phase layout =>
        refine ⟨layout, ?_, layout.operands_eq⟩
        rw [whole.order, eq_session_of_start starts]
        rfl
  · have grown := (Live.after_continues part.alive keepsLater).operands
    rw [← Live.after_append] at grown
    exact grown

/-- The layout of a session that has passed an operand and stands inside a cluster. -/
theorem layout_inside_cluster :
    ∃ session : Session, session.Layout ["prog", "a", "-vw", "b"] ∧
      session.pending? = some 2 ∧ session.operands = ["a"] := by
  have starts : ({} : Setup).start ⟨[.short 'v', .short 'w']⟩ ["prog", "a", "-vw", "b"]
      ⟨fun _ => 0, []⟩ = (.ok _, ⟨fun _ => 0, []⟩) := rfl
  have lasts := @layout_until_release {} _ _ _ _ _ starts [] [.parse] (by decide)
  exact ⟨_, (lasts.1 (by cbv)).1, by cbv, by cbv⟩

/-- **Every call answers until the release**, when the tables are valid. The ways to look at
the operands agree in every state in between. -/
theorem answered_until_release (usable : setup.separator ≠ '\x00') (valid : table.Valid)
    (tokens : List String) (host : Host) {calls : List Call} (keeps : .free ∉ calls)
    (added : ∀ link, .extend link ∈ calls → link.table.Valid) :
    ∃ session started, setup.start table tokens host = (.ok session, started) ∧
      (∀ reply ∈ (Live.mk session started).replies calls, ∃ answer, reply = .ok answer) ∧
      let last := (Live.mk session started).after calls
      last.session.intoOperands = last.session.operands ∧
        last.session.arguments = tokens.head?.toList ++ last.session.operands := by
  have alive := setup.session_alive table tokens
  refine ⟨_, _, start_of_valid usable valid tokens host, ?_, ?_⟩
  · exact Live.replies_eq_ok alive keeps added
  · have stored := (@Live.after_continues tokens ⟨_, host.resetFlags table⟩ alive calls
      keeps).alive.stored
    exact ⟨stored.intoOperands_eq, stored.arguments_eq⟩

/-- The answers of a session that is added to inside a cluster and then aborted. -/
theorem answered_inside_cluster :
    let calls : List Call := [.parse, .extend ⟨⟨[.short 'x']⟩, some 0⟩, .abort, .parse]
    ∃ session started, ({} : Setup).start ⟨[.short 'v']⟩ ["prog", "a", "-vx", "b"]
        ⟨fun _ => 0, []⟩ = (.ok session, started) ∧
      (∀ reply ∈ (Live.mk session started).replies calls, ∃ answer, reply = .ok answer) ∧
      let last := (Live.mk session started).after calls
      last.session.intoOperands = last.session.operands ∧
        last.session.arguments = ["prog"] ++ last.session.operands := by
  refine @answered_until_release {} ⟨[.short 'v']⟩ (by decide) (by decide)
    ["prog", "a", "-vx", "b"] ⟨fun _ => 0, []⟩ _ (by decide) ?_
  intro link member
  simp only [List.mem_cons, reduceCtorEq, List.not_mem_nil, or_false, false_or,
    Call.extend.injEq] at member
  rw [member]
  decide

end Setup

end CommandLine
