import TableGateway.Json
import TableGateway.Number.FloatText
import TableGateway.Text.Hex

/-! JSON text in compact form: no blanks, fields in their order, and every character of a string as it
is, except quotation marks, backslashes and control characters. -/
namespace TableGateway
namespace Json

def escape (c : Char) : Text :=
  match c with
  | '"' => "\\\""
  | '\\' => "\\\\"
  | '\n' => "\\n"
  | '\r' => "\\r"
  | '\t' => "\\t"
  | '\x08' => "\\b"
  | '\x0c' => "\\f"
  | c => if c < ' ' then "\\u00" ++ Hex.ofByte c.toNat.toUInt8 else [c]

def quote (s : Text) : Text := '"' :: s.flatMap escape ++ ['"']

def join (texts : List Text) : Text := [','].intercalate texts

mutual
def print : Json → Text
  | .null => "null"
  | .bool true => "true"
  | .bool false => "false"
  | .whole n => Text.ofInt n.value
  | .float x => FloatStyle.document.print x.value
  | .string s => quote s
  | .array items => '[' :: join (printItems items) ++ [']']
  | .object fields => '\x7b' :: join (printFields fields) ++ ['\x7d']

def printItems : List Json → List Text
  | [] => []
  | item :: rest => print item :: printItems rest

def printFields : List (Text × Json) → List Text
  | [] => []
  | (name, value) :: rest => (quote name ++ ':' :: print value) :: printFields rest
end

end Json
end TableGateway
