import CommandLine.Session.Turn

/-!
# Reading to the end

A session is read turn by turn until nothing is left. Each turn that is not the last
reads a token or a letter of a cluster, which bounds the number of turns by the
letters in the vector.
-/

namespace CommandLine

/-- The steps of a session up to its end, and the session at the end. -/
structure Run where
  /-- The steps in order; the last one finds nothing left. -/
  steps : List Step
  session : Session

namespace Run

/-- How the steps of a run ended, in order. -/
def outcomes (run : Run) : List Outcome :=
  run.steps.map Step.outcome

/-- What a run does to its program, in order. -/
def effects (run : Run) : List Effect :=
  run.steps.flatMap Step.effects

end Run

namespace Session

/-- Read to the end within a number of turns. -/
def runWithin : Nat → Session → Except Defect Run
  | 0, _ => .error .unfinished
  | turns + 1, session =>
      match session.turn with
      | .error defect => .error defect
      | .ok turn =>
          if turn.step.outcome.isDone then
            .ok ⟨[turn.step], turn.session⟩
          else
            match runWithin turns turn.session with
            | .error defect => .error defect
            | .ok run => .ok ⟨turn.step :: run.steps, run.session⟩

/-- Read a session to its end. The bound on the turns is never reached. -/
def run (session : Session) : Except Defect Run :=
  session.runWithin (stepBound (session.tokens.drop 1) + 1)

end Session

end CommandLine
