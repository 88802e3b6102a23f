import BlockScript.Options
import BlockScript.Script
import BlockScript.Number.Text

/-! # Control

Decisions, endless loops, what runs at the start, and pauses. -/

namespace BlockScript.Template
open Script Number

/-- A branch in braces, behind its keyword and condition. -/
def braced (head content : String) : String := head ++ " \x7b\n" ++ content ++ "\x7d"

/-- One condition and its branch; the branch starts with `lead`. -/
def conditional (lead : String) (i : Nat) : Script String := do
  let condition ← valueOr ("IF" ++ toString i) .anything "false"
  let branch ← bodyOf ("DO" ++ toString i)
  let keyword := if i = 0 then "if (" else " else if ("
  done (braced (keyword ++ condition ++ ")") (lead ++ branch))

/-- The branch that runs if no condition holds. -/
def otherwise (lead : String) : Script String := do
  let branch ← bodyOf "ELSE"
  done (braced " else" (lead ++ branch))

/-- A chain of conditions. The statement templates go into the chain: the prefix in front of
it, and the suffix to the top of each branch, so that each way through it passes the suffix. -/
def controlsIf (endsWithElse : Bool) (o : Options) (n : Node) : Script Emitted := do
  let suffix := (o.suffixFor n.id).map (Text.prefixLines · o.indent)
  let lead := suffix.getD ""
  let branches ← (List.range (n.mutation.elseIfCount + 1)).mapM (conditional lead)
  let hasElse ← isPlugged "ELSE"
  let code := (o.prefixFor n.id).getD "" ++ "".intercalate branches
  if endsWithElse || n.mutation.hasElse || hasElse || suffix.isSome then
    let last ← otherwise lead
    done (.statement (code ++ last ++ "\n"))
  else done (.statement (code ++ "\n"))

/-- A loop body with the templates: what ends a statement and the trap at its top, what
announces one at its bottom. -/
def loopBody (o : Options) (n : Node) (body : String) : String :=
  let line := fun template => Text.prefixLines (Option.getD template "") o.indent
  line (o.suffixFor n.id) ++ line (o.trapFor n.id) ++ body ++ line (o.prefixFor n.id)

def forever (o : Options) (n : Node) : Script Emitted := do
  let body ← bodyOf "STMTS"
  done (.statement ("( loop  \n" ++ loopBody o n body ++ ")"))

def onStart : Script Emitted := do
  let body ← bodyOf "STMTS"
  done (.statement ("( list  \n" ++ body ++ ")"))

/-- A pause, given in seconds and written in thousandths. -/
def wait (n : Node) : Script Emitted :=
  let raw := (n.field "DURATION").getD "0"
  match ((readField raw).map fun x => x.mulNat 1000).filter Binary64.isFinite with
  | some millis => done (.statement ("( delay " ++ millis.scriptText ++ " )\n"))
  | none => fail (.invalidNumber n.id raw)

end BlockScript.Template
