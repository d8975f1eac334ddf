import CommandLine.Session.Call
import CommandLine.Session.Run

/-!
# Transcripts

A program that needs no say in how its command line is read gets all of it at once:
the outcomes in order, the operands, and the cells and notifications as they are at
the end.
-/

namespace CommandLine

/-- A command line that has been read to its end. -/
structure Transcript where
  programName : String
  outcomes : List Outcome
  operands : List String
  host : Host

/-- Add tables in order. -/
def Live.extendAll (live : Live) : List Link → Except Fault Live
  | [] => .ok live
  | link :: links =>
      match live.extend link with
      | (.error fault, _) => .error fault
      | (.ok _, extended) => extended.extendAll links

/-- Start a session over a vector and add the tables of libraries. -/
def Setup.launch (setup : Setup) (table : OptionTable) (libraries : List Link)
    (tokens : List String) (host : Host) : Except Fault Live :=
  match setup.start table tokens host with
  | (.error fault, _) => .error fault
  | (.ok session, started) => Live.extendAll ⟨session, started⟩ libraries

namespace Transcript

/-- Read to the end of a session. -/
def ofLive (live : Live) : Except Fault Transcript :=
  match live.session.run with
  | .error defect => .error (.defect defect)
  | .ok run =>
      .ok ⟨live.session.programName, run.outcomes, run.session.operands,
        live.host.performAll run.effects⟩

/-- Read a command line with the table of a program and the tables of its libraries.
All cells hold zero at first. -/
def read (setup : Setup) (table : OptionTable) (libraries : List Link)
    (tokens : List String) : Except Fault Transcript :=
  match setup.launch table libraries tokens { cells := fun _ => 0 } with
  | .error fault => .error fault
  | .ok live => ofLive live

end Transcript

end CommandLine
