import CommandLine.Session.Start
import CommandLine.Session.Turn

/-!
# Calls on a session

A program uses a session by calls, each of which answers and may change the session
and the program. A call that breaks a rule answers with a fault and changes nothing.
-/

namespace CommandLine

/-- A session and the program around it. -/
structure Live where
  session : Session
  host : Host

/-- What a program can ask of a session. -/
inductive Call where
  | parse
  | extend (link : Link)
  /-- Take all that is left as operands. -/
  | abort
  /-- Give the session up. -/
  | free
deriving DecidableEq

/-- What a call answers. -/
inductive Reply where
  | outcome (outcome : Outcome)
  | name (name : String)
  | nothing
deriving DecidableEq

namespace Live

/-- Do one unit of work, and act on the program. -/
def parse (live : Live) : Except Fault Outcome × Live :=
  if live.session.phase = .released then
    (.error (.released .parse), live)
  else
    match live.session.turn with
    | .error defect => (.error (.defect defect), live)
    | .ok turn =>
        (.ok turn.step.outcome, ⟨turn.session, live.host.performAll turn.step.effects⟩)

/-- Add a table behind the others and set its flags to zero. The answer is the name
of the program. The rules of the table are checked as in a build with assertions, as
they are when a session is started. -/
def extend (live : Live) (link : Link) : Except Fault String × Live :=
  if live.session.phase = .released then
    (.error (.released .extend), live)
  else
    match link.table.error? with
    | some error => (.error (.malformedTable error), live)
    | none =>
        (.ok live.session.programName,
          ⟨{ live.session with chain := live.session.chain.append link },
            live.host.resetFlags link.table⟩)

/-- Take all that is left as operands. -/
def abort (live : Live) : Except Fault Unit × Live :=
  if live.session.phase = .released then
    (.error (.released .abort), live)
  else
    match live.session.abort with
    | .error defect => (.error (.defect defect), live)
    | .ok session => (.ok (), { live with session := session })

/-- Give the session up, which can be done any number of times. -/
def free (live : Live) : Live :=
  { live with session := live.session.release }

/-- What a call answers, and what it leaves. -/
def answer (live : Live) : Call → Except Fault Reply × Live
  | .parse => (live.parse.1.map .outcome, live.parse.2)
  | .extend link => ((live.extend link).1.map .name, (live.extend link).2)
  | .abort => (live.abort.1.map fun _ => .nothing, live.abort.2)
  | .free => (.ok .nothing, live.free)

end Live

end CommandLine
