/-!
The usage line and the help text of the program.
-/

set_option autoImplicit false
set_option relaxedAutoImplicit false

namespace SmallScheme.CommandLine

def programName : String := "minischeme"

def usage : String :=
  "usage: minischeme [-h] [-e EXPRESSION] [--prompt PROMPT]\n" ++
  "                  [--continuation-prompt CONTINUATION_PROMPT]\n" ++
  "                  [--recursion-limit RECURSION_LIMIT]\n" ++
  "                  [files ...]\n"

def help : String :=
  usage ++
  "\n" ++
  "Run Scheme-like programs, or start an interactive session\n" ++
  "\n" ++
  "positional arguments:\n" ++
  "  files                 Program files to run in order; '-' starts an\n" ++
  "                        interactive session\n" ++
  "\n" ++
  "options:\n" ++
  "  -h, --help            show this help message and exit\n" ++
  "  -e EXPRESSION, --eval EXPRESSION\n" ++
  "                        Evaluate EXPRESSION, print its result and exit\n" ++
  "  --prompt PROMPT       Prompt shown before each new form (default: '> ')\n" ++
  "  --continuation-prompt CONTINUATION_PROMPT\n" ++
  "                        Prompt shown while a form is still open (default: two\n" ++
  "                        spaces)\n" ++
  "  --recursion-limit RECURSION_LIMIT\n" ++
  "                        Host recursion limit; deeply recursive programs need a\n" ++
  "                        larger one\n"

end SmallScheme.CommandLine
