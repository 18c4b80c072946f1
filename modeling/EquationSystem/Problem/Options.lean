/-!
# What is asked of a problem

Arguments are flags and one path, in any order. A flag begins with a dash and stands at most once;
a dash alone is a path. After a double dash every argument is a path. The arguments are all that is
read: the variable `HESABU_DEBUG` of the environment, which can also ask for `--debug`, is left out.
-/

namespace EquationSystem.Problem

structure Options where
  /-- The file that holds the problem; a dash stands for the standard input. -/
  path : String
  /-- Whether the order is asked for instead of the values. -/
  order : Bool
  /-- Whether the expressions of the formulas are reported. -/
  debug : Bool
deriving DecidableEq

namespace Options

def isFlag (arg : String) : Bool := arg.toList.head? == some '-' && arg != "-"

/-- The flags among arguments, and the paths. -/
def split (args : List String) : List String × List String :=
  let (flags, paths) := (args.takeWhile (· != "--")).partition isFlag
  (flags, paths ++ (args.dropWhile (· != "--")).drop 1)

/-- The options that arguments give, if they are well formed. -/
def ofArguments? (args : List String) : Option Options :=
  match split args with
  | (flags, [path]) =>
    if flags.Nodup ∧ flags ⊆ ["--order", "--debug"] ∧ path ≠ "" then
      some ⟨path, flags.contains "--order", flags.contains "--debug"⟩
    else none
  | _ => none

def fromInput (options : Options) : Bool := options.path == "-"

end Options

end EquationSystem.Problem
