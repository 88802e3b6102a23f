import BlockScript.CommandLine.Arguments
import BlockScript.CommandLine.RunError

/-! # What the program says about its use -/

namespace BlockScript.CommandLine

/-- How the program is called. -/
def usage : String :=
  "\n".intercalate
    ["Generate Rhai scripts from Blockly workspaces (XML or JSON).",
      "",
      "Usage: blockscript [OPTIONS] <INPUT> [OUTPUT]",
      "",
      "  INPUT                      The workspace.",
      "  OUTPUT                     Where to write the script; printed when omitted.",
      "  --format <xml|json>        Input format; guessed from the extension, then the content.",
      "  --config <FILE>            JSON file with generator options.",
      "  --statement-prefix <TEXT>  Code in front of every statement.",
      "  --statement-suffix <TEXT>  Code behind every statement.",
      "  --loop-trap <TEXT>         Code at the top of every loop and procedure body.",
      "  --zero-based               Treat list and text indexes as zero-based.",
      "  --indent <N>               Indent with N spaces (default 2).",
      "  --keep-going               Replace blocks that fail by error comments.",
      "  --definitions-json <FILE>  Also write the imports, definitions and body as JSON.",
      "  -h, --help                 Show this help."] ++ "\n"

namespace ArgumentError

def message : ArgumentError → String
  | missingRequired => "the input is missing"
  | unknown => "there is an argument that is not known"
  | invalidValue => "an option has no value or an impossible one"
  | notANumber => "an option needs a number"
  | repeated => "an option is given twice"
  | unneededValue => "an option takes no value but has one"
  | helpWanted => usage

end ArgumentError

namespace RunError

/-- The causes of an error, with numbers if there are several. -/
def causeLines : List String → List String
  | [] => []
  | [cause] => ["", "Caused by:", "    " ++ cause]
  | causes => ["", "Caused by:"] ++ causes.mapIdx fun i cause => s!"    {i}: {cause}"

/-- The report of an error at the end of a run. -/
def report (error : RunError) : String :=
  match error.messages with
  | [] => ""
  | message :: causes => "\n".intercalate (("Error: " ++ message) :: causeLines causes) ++ "\n"

end RunError

end BlockScript.CommandLine
