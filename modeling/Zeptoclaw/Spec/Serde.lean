import Zeptoclaw.Spec.Gate

/-!
# JSON texts

`serde_json::to_string` on a `Value`: no white space, strings in quotes, with quotes,
backslashes and control characters escaped. The fields of an object are listed in the
order of its map.
-/

namespace Zeptoclaw

namespace Json

def hexDigit (n : ℕ) : Char := Char.ofNat (if n < 10 then 48 + n else 87 + n)

/-- One character of a string, as `serde_json` writes it. -/
def escapeChar (c : Char) : Str :=
  if c = '"' then "\\\"".toList
  else if c = '\\' then "\\\\".toList
  else if c = '\n' then "\\n".toList
  else if c = '\r' then "\\r".toList
  else if c = '\t' then "\\t".toList
  else if c.toNat = 8 then "\\b".toList
  else if c.toNat = 12 then "\\f".toList
  else if c.toNat < 32 then "\\u00".toList ++ [hexDigit (c.toNat / 16), hexDigit (c.toNat % 16)]
  else [c]

def escape (s : Str) : Str := s.flatMap escapeChar

def quoted (s : Str) : Str := '"' :: escape s ++ ['"']

mutual

/-- `serde_json::to_string`. -/
def toStr : Json → Str
  | .null => "null".toList
  | .bool b => if b then "true".toList else "false".toList
  | .number text => text
  | .string s => quoted s
  | .array items => '[' :: [','].intercalate (itemTexts items) ++ [']']
  | .object fields => '\x7b' :: [','].intercalate (fieldTexts fields) ++ ['\x7d']

def itemTexts : List Json → List Str
  | [] => []
  | v :: items => toStr v :: itemTexts items

def fieldTexts : List (Str × Json) → List Str
  | [] => []
  | (key, v) :: fields => (quoted key ++ ':' :: toStr v) :: fieldTexts fields

end

mutual

/-- Every string inside a value, field names included. -/
def strings : Json → List Str
  | .null | .bool _ | .number _ => []
  | .string s => [s]
  | .array items => itemStrings items
  | .object fields => fieldStrings fields

def itemStrings : List Json → List Str
  | [] => []
  | v :: items => strings v ++ itemStrings items

def fieldStrings : List (Str × Json) → List Str
  | [] => []
  | (key, v) :: fields => key :: strings v ++ fieldStrings fields

end

end Json

end Zeptoclaw
