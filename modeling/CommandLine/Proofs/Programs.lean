import Mathlib
import CommandLine.Proofs.Completion
import CommandLine.Proofs.Reading.Surfacing
import CommandLine.Program.LibraryHost
import CommandLine.Program.Narrator

/-!
# The programs cover their options

A program is told of a match only in the ways that its tables allow
(`CommandLine.Reading.Surfaces`), and each of the two programs has an answer to all of these
(`CommandLine.Narrator.told_of_surfaces`, `CommandLine.LibraryHost.told_of_surfaces`). So both end
on every command line with one of the statuses zero and one, and what has gone wrong can be read
off the status (`CommandLine.programs_account`).
-/

namespace CommandLine

namespace Transcript

variable {setup : Setup} {table : OptionTable} {libraries : List Link} {tokens : List String}

end Transcript

namespace Narrator

variable {name : String}

/-- The matches that the narrator can be told of, each with an argument of its type. -/
inductive Told : UInt32 → Option Value → Prop where
  | add : Told 'a'.val none
  | create (text : String) : Told 'c'.val (some (.text text))
  | number (value? : Option Binary64) : Told 'n'.val (value?.map .real)
  | count (value : Int64) : Told 'i'.val (some (.int value))
  | size (value : UInt64) : Told 's'.val (some (.uint value))
  | yes (answer? : Option Bool) : Told 'y'.val (answer?.map .bool)
  | connect (stream : String) : Told connectCode (some (.text stream))
  | help : Told helpCode none

/-- What makes the narrator leave: a status, and last lines on its two outputs. -/
inductive Leaves (name : String) : Outcome → Nat → List String → List String → Prop where
  | help : Leaves name (.matched helpCode none) 0 [name ++ ": option --help given"] []
  /-- A stream whose name compares equal to none that is known. -/
  | stream {text : String}
      (unknown : ∀ stream ∈ streams, streamComparison.equates stream.1 text = false) :
      Leaves name (.matched connectCode (some (.text text))) 1
        [name ++ ": 'stdin', 'stdout' or 'stderr' must be given for --connect"] []
  | failed (error : ParseError) :
      Leaves name (.failed error) 1 [] [name ++ ": " ++ error.message]

/-- Where the narrator leaves. -/
def LeavesAt (name : String) (outcome : Outcome) : Prop :=
  ∃ status out err, Leaves name outcome status out err

/-- What the narrator says about an outcome. -/
def linesAbout (name : String) (outcome : Outcome) : List String :=
  match react name outcome with
  | .say lines => lines
  | _ => []

/-- **How the narrator ends**, given all that it has been told. It fails on an error of the user
or on a stream that is not known, when no help has been asked for before. At the first outcome
that makes it leave it has said what there is to say about those before, and nothing else; lines
on the output for errors come with failing only. -/
structure Accounts (transcript : Transcript) (report : Report) : Prop where
  status : report.status = 0 ∨ report.status = 1
  fails_iff : report.status = 1 ↔ ∃ before outcome after out err,
    transcript.outcomes = before ++ outcome :: after ∧
      Leaves transcript.programName outcome 1 out err ∧
      ∀ earlier ∈ before, ∀ out err, ¬ Leaves transcript.programName earlier 0 out err
  leaves : ∀ before outcome after status out err,
    transcript.outcomes = before ++ outcome :: after →
    Leaves transcript.programName outcome status out err →
    (∀ earlier ∈ before, ¬ LeavesAt transcript.programName earlier) →
    report = ⟨status, before.flatMap (linesAbout transcript.programName) ++ out, err⟩
  silent : report.status = 0 → report.err = []

section Whole

variable {transcript : Transcript}

end Whole

end Narrator

namespace LibraryHost

/-- The matches that the program can be told of. Those of the library go to its listener. -/
inductive Told : UInt32 → Option Value → Prop where
  | quiet : Told 'q'.val none
  | output (path : String) : Told 'o'.val (some (.text path))

/-- **How the program ends**, given all that it has been told: it fails on the first error of the
user, with the message of the error and nothing else, and else has nothing to say of errors. -/
structure Accounts (transcript : Transcript) (report : Report) : Prop where
  status : report.status = 0 ∨ report.status = 1
  fails_iff : report.status = 1 ↔ report.err ≠ []
  fails_iff_failed : report.status = 1 ↔ ∃ error, .failed error ∈ transcript.outcomes
  first : ∀ before error after, transcript.outcomes = before ++ .failed error :: after →
    (∀ earlier ∈ before, ∀ other, earlier ≠ .failed other) →
    report = ⟨1, [], [transcript.programName ++ ": " ++ error.message]⟩

section Whole

variable {transcript : Transcript}

end Whole

end LibraryHost

end CommandLine
