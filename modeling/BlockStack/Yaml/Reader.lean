import BlockStack.Yaml.Token

/-!
# BlockStack.Yaml.Reader

Reading YAML text that holds one document.

* `Yaml.parse`: the value of a text; a text without any value is an empty scalar.
* `Yaml.node`: the first value of a list of tokens, with the tokens behind it.
-/

namespace BlockStack
namespace Yaml

mutual

/-- A value. Inside brackets there are no `block` collections; a sequence may stand in the column of
the mapping around it, which is told by its first dash alone, when it is `bare`. -/
def node : (fuel : Nat) → (block bare : Bool) → List Token → Option (Yaml × List Token)
  | 0, _, _, _ => none
  | fuel + 1, block, bare, tokens =>
    match tokens with
    | .scalar plain text :: rest => some (scalar plain text, rest)
    | .flowSeq :: rest => flowItems fuel [] rest
    | .flowMap :: rest => flowEntries fuel [] rest
    | .blockSeq :: rest => if block then blockItems fuel [] rest else none
    | .blockMap :: rest => if block then blockEntries fuel [] rest else none
    | .item :: rest => if bare then bareItems fuel [] (.item :: rest) else none
    | _ => none

/-- A value, which is empty if one of some tokens stands in its place. -/
def nodeUnless : (fuel : Nat) → (stops : List Token) → (block bare : Bool) → List Token →
    Option (Yaml × List Token)
  | 0, _, _, _, _ => none
  | fuel + 1, stops, block, bare, tokens =>
    if tokens.head?.any stops.contains then some (empty, tokens)
    else node fuel block bare tokens

def blockItems : (fuel : Nat) → (done : List Yaml) → List Token → Option (Yaml × List Token)
  | 0, _, _ => none
  | fuel + 1, done, tokens =>
    match tokens with
    | .blockEnd :: rest => some (seq done.reverse, rest)
    | .item :: rest =>
      match nodeUnless fuel [.item, .blockEnd] true false rest with
      | some (item, rest) => blockItems fuel (item :: done) rest
      | none => none
    | _ => none

/-- The items of a sequence in the column of the mapping around it. -/
def bareItems : (fuel : Nat) → (done : List Yaml) → List Token → Option (Yaml × List Token)
  | 0, _, _ => none
  | fuel + 1, done, tokens =>
    match tokens with
    | .item :: rest =>
      match nodeUnless fuel [.item, .key, .value, .blockEnd] true false rest with
      | some (item, rest) => bareItems fuel (item :: done) rest
      | none => none
    | rest => some (seq done.reverse, rest)

def valueUnless : (fuel : Nat) → (stops : List Token) → (block : Bool) → List Token →
    Option (Yaml × List Token)
  | 0, _, _, _ => none
  | fuel + 1, stops, block, tokens =>
    match tokens with
    | .value :: rest => nodeUnless fuel stops block block rest
    | rest => some (empty, rest)

def blockEntries : (fuel : Nat) → (done : List (Yaml × Yaml)) → List Token →
    Option (Yaml × List Token)
  | 0, _, _ => none
  | fuel + 1, done, tokens =>
    match tokens with
    | .blockEnd :: rest => some (map done.reverse, rest)
    | .key :: rest =>
      match nodeUnless fuel [.key, .value, .blockEnd] true true rest with
      | none => none
      | some (key, rest) =>
        match valueUnless fuel [.key, .value, .blockEnd] true rest with
        | none => none
        | some (value, rest) => blockEntries fuel ((key, value) :: done) rest
    | _ => none

/-- An item in brackets; a pair behind the mark of a key is a mapping of its own. Without a key the
token in its place is passed over. -/
def flowItem : (fuel : Nat) → List Token → Option (Yaml × List Token)
  | 0, _ => none
  | fuel + 1, tokens =>
    match tokens with
    | .key :: rest =>
      let key :=
        if rest.head?.any [Token.value, .comma, .flowSeqEnd].contains then some (empty, rest.tail)
        else node fuel false false rest
      match key with
      | none => none
      | some (key, rest) =>
        match valueUnless fuel [.comma, .flowSeqEnd] false rest with
        | none => none
        | some (value, rest) => some (map [(key, value)], rest)
    | rest => node fuel false false rest

/-- The items up to a closing bracket, with commas between them and maybe behind the last. -/
def flowItems : (fuel : Nat) → (done : List Yaml) → List Token → Option (Yaml × List Token)
  | 0, _, _ => none
  | fuel + 1, done, tokens =>
    match tokens with
    | .flowSeqEnd :: rest => some (seq done.reverse, rest)
    | rest =>
      match flowItem fuel rest with
      | some (item, .comma :: rest) => flowItems fuel (item :: done) rest
      | some (item, .flowSeqEnd :: rest) => some (seq (item :: done).reverse, rest)
      | _ => none

/-- An entry in braces; a value alone is a key without a value. -/
def flowEntry : (fuel : Nat) → List Token → Option ((Yaml × Yaml) × List Token)
  | 0, _ => none
  | fuel + 1, tokens =>
    match tokens with
    | .key :: rest =>
      match nodeUnless fuel [.value, .comma, .flowMapEnd] false false rest with
      | none => none
      | some (key, rest) =>
        match valueUnless fuel [.comma, .flowMapEnd] false rest with
        | none => none
        | some (value, rest) => some ((key, value), rest)
    | rest =>
      match node fuel false false rest with
      | some (key, rest) => some ((key, empty), rest)
      | none => none

/-- The entries up to a closing brace, with commas between them and maybe behind the last. -/
def flowEntries : (fuel : Nat) → (done : List (Yaml × Yaml)) → List Token →
    Option (Yaml × List Token)
  | 0, _, _ => none
  | fuel + 1, done, tokens =>
    match tokens with
    | .flowMapEnd :: rest => some (map done.reverse, rest)
    | rest =>
      match flowEntry fuel rest with
      | some (entry, .comma :: rest) => flowEntries fuel (entry :: done) rest
      | some (entry, .flowMapEnd :: rest) => some (map (entry :: done).reverse, rest)
      | _ => none

end

/-- The value of the only document of some tokens. -/
def document (tokens : List Token) : Option Yaml :=
  let fuel := 4 * tokens.length + 4
  let found :=
    match tokens with
    | [] => some (empty, [])
    | .documentStart :: rest =>
      if rest.head?.all [Token.documentStart, .documentEnd].contains then some (empty, rest)
      else node fuel true false rest
    | rest => node fuel true false rest
  match found with
  | some (v, rest) => if rest.all (· = .documentEnd) then some v else none
  | none => none

def parse (s : String) : Option Yaml := (tokens s).bind document

end Yaml
end BlockStack
