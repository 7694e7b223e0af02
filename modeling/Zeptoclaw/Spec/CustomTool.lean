import Zeptoclaw.Lib.Text
import Zeptoclaw.Spec.Gate

/-!
# Custom and composed tools

The interpolation of a command template (`tools/custom.rs`); the arguments are a list of
entries in the order in which the hash map yields them.

`tools/composed.rs`: the arguments of a composed tool are put into its action template, one after the other.
-/

namespace Zeptoclaw.CustomTool

open Text

/-- `shell_escape`. -/
def shellEscape (value : Str) : Str := '\'' :: replace value ['\''] ['\'', '\\', '\'', '\''] ++ ['\'']

/-- `char::is_control`. -/
def isControl (c : Char) : Bool := c.toNat < 0x20 || (0x7f ≤ c.toNat && c.toNat < 0xa0)

/-- `sanitize_raw_string`. -/
def sanitizeRawString (value : Str) : Str :=
  value.filter fun c =>
    c ∉ [';', '|', '&', '$', '`', '(', ')', '{', '}', '<', '>', '!', '\\', '"', '\'', '#', '~', '\n', '\r',
      Char.ofNat 0, Char.ofNat 0x1b] && !isControl c

/-- The text that stands for an argument in the template. -/
def placeholder (key : Str) : Str := ['{', '{'] ++ key ++ ['}', '}']

/-- The parameter has the type `raw_string`. -/
def isRaw (paramTypes : Option (List (Str × Str))) (key : Str) : Bool :=
  (paramTypes.bind fun types => types.lookup key) = some "raw_string".toList

/-- `interpolate`: one argument after the other, on the text filled so far. -/
def interpolate (template : Str) (args : List (Str × Str)) (paramTypes : Option (List (Str × Str))) : Str :=
  args.foldl
    (fun result arg =>
      let replacement := if isRaw paramTypes arg.1 then sanitizeRawString arg.2 else shellEscape arg.2
      replace result (placeholder arg.1) replacement)
    template

end Zeptoclaw.CustomTool

namespace Zeptoclaw

/-- The key in double braces. -/
def argPlaceholder (key : Str) : Str := "\x7b\x7b".toList ++ key ++ "\x7d\x7d".toList

/-- `interpolate_action`; the arguments are in the order in which the map yields them. -/
def interpolateAction (template : Str) (args : List (Str × Str)) : Str :=
  args.foldl (fun result arg => Text.replace result (argPlaceholder arg.1) arg.2) template

/-- The arguments of a call as texts; `display` is the JSON text of a value. -/
def stringArgs (display : Json → Str) : Json → List (Str × Str)
  | .object fields => fields.map fun (key, v) => (key, match v with | .string s => s | other => display other)
  | _ => []

/-- `ComposedTool::execute`; `mapOrder` is the order in which the map of the arguments yields them. -/
def executeComposed (display : Json → Str) (mapOrder : List (Str × Str) → List (Str × Str)) (action : Str) (args : Json) : Str :=
  "[Composed tool instructions] ".toList ++ interpolateAction action (mapOrder (stringArgs display args))

end Zeptoclaw
