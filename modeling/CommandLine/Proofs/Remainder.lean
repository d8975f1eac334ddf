import Mathlib
import CommandLine.Proofs.Lifecycle

/-!
# What is left when a session is aborted

A session that is aborted takes every token that it has not read for an operand, as the token
stands in the vector: options, the two hyphens, and a cluster that has been read in part, which is
taken in full. Nothing that has been read comes back, and the program around the session is left
as it is (`CommandLine.Live.TakesRemainder`). This holds in every order of operands and wherever a
session stands that still reads (`CommandLine.Setup.abort_loses_nothing`).
-/

namespace CommandLine

variable {original : List String}

/-- The token of a cluster that has been read in part: its letters up to an offset have been read,
and there are more behind. -/
def PartlyRead (token : String) (offset : Nat) : Prop :=
  TokenKind.ofText token.toList = .shortCluster ∧ ∃ read c letters,
    token.toList = read ++ c :: letters ∧ Text.byteLength read = offset

namespace Live

/-- **A session that has taken all that is left** of its vector, and the program around it. -/
structure TakesRemainder (tokens : List String) (now aborted : Live) : Prop where
  operands : aborted.session.operands =
    now.session.operands ++ tokens.drop now.session.next
  /-- What was passed before are tokens in front of the one that comes next. -/
  passed : Gathered tokens now.session.next now.session.operands
  /-- Inside a cluster, what is left starts with the whole token of the cluster. -/
  inside : ∀ offset, now.session.pending? = some offset →
    ∃ token rest, tokens.drop now.session.next = token :: rest ∧ PartlyRead token offset
  /-- An operand that has been reported is not taken again. -/
  reported : now.session.order = .returnInOrder → now.session.operands = []
  host : aborted.host = now.host
  ambiguous : aborted.session.ambiguous = now.session.ambiguous
  rests : ∀ later, .free ∉ later → aborted.Rests (aborted.after later)

variable {live : Live}

/-- **Aborting loses nothing** of a session that reads. -/
theorem exists_takesRemainder (layout : live.session.Layout original)
    (scanning : live.session.phase = .scanning) :
    ∃ aborted, live.answer .abort = (.ok .nothing, aborted) ∧
      TakesRemainder original live aborted := by
  have alive : live.session.Alive original := .scanning scanning layout
  obtain ⟨tokens, next, written, aborts, _, operands⟩ := layout.exists_abort scanning
  refine ⟨_, answer_abort alive.not_released aborts, operands, layout.gathered, ?_, ?_, rfl, rfl,
    fun later keeps => rests_after rfl keeps⟩
  · intro offset pending
    obtain ⟨_, c, letters, letter⟩ := layout.cluster offset pending
    obtain ⟨token, read, stands, cluster, text, length⟩ := letter.stands
    rw [← List.head?_drop, layout.unread] at stands
    obtain ⟨rest, unread⟩ := List.head?_eq_some_iff.mp stands
    exact ⟨token, rest, unread, cluster, read, c, letters, text, length⟩
  · intro reports
    exact Session.operands_of_written_eq_one (layout.unmoved reports)

end Live

namespace Setup

variable {setup : Setup} {table : OptionTable} {tokens : List String} {host : Host}

/-- **Aborting loses nothing**, whatever calls have been made before, and whatever the cells hold
and the listeners have been told by then: a session that still reads passes all that it has not
read, behind the operands that it has passed before. -/
theorem abort_loses_nothing {session : Session} {started : Host}
    (starts : setup.start table tokens host = (.ok session, started)) (calls : List Call)
    (world : Host)
    (scanning : ((Live.mk session started).after calls).session.phase = .scanning) :
    let now : Live := ⟨((Live.mk session started).after calls).session, world⟩
    ∃ aborted, now.answer .abort = (.ok .nothing, aborted) ∧
      Live.TakesRemainder tokens now aborted := by
  intro now
  exact Live.exists_takesRemainder (layout_of_scanning starts scanning).1 scanning

/-- Behind an operand and inside a cluster, in front of the two hyphens and an option. -/
theorem abort_loses_nothing_inside_cluster :
    let tokens := ["prog", "-v", "a", "-vx", "--", "--si", "b"]
    let session := ({} : Setup).session ⟨[.short 'v']⟩ tokens
    let host : Host := ⟨fun _ => 5, []⟩
    let now := (Live.mk session host).after [.parse, .parse]
    now.session.phase = .scanning ∧ now.session.pending? = some 2 ∧
      now.session.operands = ["a"] ∧ ∃ aborted, now.answer .abort = (.ok .nothing, aborted) ∧
        aborted.session.operands = ["a", "-vx", "--", "--si", "b"] ∧ aborted.host = host ∧
        PartlyRead "-vx" 2 ∧ (aborted.after [.parse]).session.operands =
          ["a", "-vx", "--", "--si", "b"] := by
  intro tokens session host now
  have starts : ({} : Setup).start ⟨[.short 'v']⟩ tokens host = (.ok session, host) := rfl
  have scanning : ((Live.mk session host).after [.parse, .parse]).session.phase = .scanning := by
    cbv
  have pending : ((Live.mk session host).after [.parse, .parse]).session.pending? = some 2 := by
    cbv
  have operands : ((Live.mk session host).after [.parse, .parse]).session.operands = ["a"] := by
    cbv
  have left : tokens.drop ((Live.mk session host).after [.parse, .parse]).session.next =
      ["-vx", "--", "--si", "b"] := by
    cbv
  have world : ((Live.mk session host).after [.parse, .parse]).host = host := by
    cbv
  obtain ⟨aborted, answers, takes⟩ :=
    abort_loses_nothing starts [.parse, .parse] now.host scanning
  obtain ⟨token, rest, unread, part⟩ := takes.inside 2 pending
  cases left.symm.trans unread
  have taken := takes.operands
  rw [operands, left] at taken
  exact ⟨scanning, pending, operands, aborted, answers, taken, takes.host.trans world, part,
    (takes.rests [.parse] (by decide)).operands.trans taken⟩

end Setup

end CommandLine
