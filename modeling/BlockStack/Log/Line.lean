import BlockStack.Json
import BlockStack.Log
import BlockStack.Log.Printable

/-!
# BlockStack.Log.Line

The two written forms of log entries.

* `Log.Entry.line`: the level, the message and then `name=value` for each value.
* `Log.Entry.toJson`: an object with the level and an object of the message and the values.
-/

namespace BlockStack
namespace Log

def hex (n : Nat) : List Char := Nat.toDigits 16 n

/-- A character inside quotes. One that cannot be written as it is, is written by its number. -/
def escape (c : Char) : List Char :=
  if c = '"' then ['\\', '"']
  else if c = '\\' then ['\\', '\\']
  else if c = '\t' then ['\\', 't']
  else if c = '\n' then ['\\', 'n']
  else if c = '\r' then ['\\', 'r']
  else if c = '\x00' then ['\\', '0']
  else if isPrintable c then [c]
  else ['\\', 'u', '\x7b'] ++ hex c.toNat ++ ['\x7d']

def quote (s : String) : String := String.ofList ('"' :: s.toList.flatMap escape ++ ['"'])

def Value.written : Value → String
  | text s => s
  | quoted s => quote s
  | number n => toString n
  | flag b => toString b

def Value.toJson : Value → Json
  | text s => .str s
  | quoted s => .str s
  | number n => .nat n
  | flag b => .bool b

def hexPair (n : Nat) : List Char := if n < 16 then '0' :: hex n else hex n

/-- A character of a message. One that a terminal obeys is written by its number. -/
def disarm (c : Char) : List Char :=
  if c = '\x1b' || c = '\x07' || c = '\x08' || c = '\x0c' || c = '\x7f' then
    ['\\', 'x'] ++ hexPair c.toNat
  else if 0x80 ≤ c.toNat && c.toNat ≤ 0x9f then
    ['\\', 'u', '\x7b'] ++ hex c.toNat ++ ['\x7d']
  else [c]

def written (message : String) : String := String.ofList (message.toList.flatMap disarm)

def Entry.line (entry : Entry) : String :=
  " ".intercalate
    (entry.level.name :: written entry.message ::
      entry.fields.map (fun field => field.1 ++ "=" ++ field.2.written))

def Entry.members (entry : Entry) : List (String × Json) :=
  ("message", .str entry.message) :: entry.fields.map (fun field => (field.1, field.2.toJson))

def Entry.toJson (entry : Entry) : Json :=
  .obj [("level", .str entry.level.name), ("fields", .obj entry.members)]

end Log
end BlockStack
