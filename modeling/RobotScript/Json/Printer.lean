import RobotScript.Json.Text

namespace RobotScript

/-- Where JSON turns from positional to exponent notation: the number `0.d₁d₂… * 10 ^ point` is
written positionally while `least < point ≤ greatest`. -/
structure FloatStyle where
  least : Int
  greatest : Int

/-- Doubles are positional from `0.00001` up to `10 ^ 16`. -/
def FloatStyle.double : FloatStyle := ⟨-5, 16⟩

/-- Singles are positional from `0.000001` up to `10 ^ 13`. -/
def FloatStyle.single : FloatStyle := ⟨-6, 13⟩

namespace JsonNumeral

/-- A decimal always shows a point or an exponent, so that it never reads as an integer. -/
def ofDecimal (style : FloatStyle) (d : Decimal) : JsonNumeral :=
  let (kept, exponent) := d.significant
  let point : Int := kept.length + exponent
  if d.coefficient = 0 then ⟨d.negative, ['0'], ['0'], none⟩
  else if style.least < point ∧ point ≤ style.greatest then
    if 0 ≤ exponent then ⟨d.negative, kept ++ List.replicate exponent.toNat '0', ['0'], none⟩
    else if 0 < point then ⟨d.negative, kept.take point.toNat, kept.drop point.toNat, none⟩
    else ⟨d.negative, ['0'], List.replicate (-point).toNat '0' ++ kept, none⟩
  else
    let sign := if 0 < point then '+' else '-'
    ⟨d.negative, kept.take 1, kept.drop 1, some (some sign, digits (point - 1).natAbs)⟩

def ofInt (n : Int) : JsonNumeral := ⟨n < 0, digits n.natAbs, [], none⟩

def ofFloat {F : FloatFormat} (style : FloatStyle) (x : FiniteFloat F) : JsonNumeral :=
  ofDecimal style (x.shortest .even)

def chars (n : JsonNumeral) : List Char :=
  (if n.negative then ['-'] else []) ++ n.whole ++
    (if n.fraction.isEmpty then [] else '.' :: n.fraction) ++
    match n.exponent with
    | none => []
    | some (sign, run) => 'e' :: sign.toList ++ run

end JsonNumeral

namespace JsonPiece

def hex4 (n : Nat) : List Char :=
  let run := Nat.toDigits 16 n
  List.replicate (4 - run.length) '0' ++ run

/-- Quotes, backslashes and the characters below the space are escaped, and nothing else. -/
def chars : JsonPiece → List Char
  | .unit n => '\\' :: 'u' :: hex4 n
  | .char c =>
    if c == '"' || c == '\\' then ['\\', c]
    else if c == '\x08' then ['\\', 'b']
    else if c == '\x0c' then ['\\', 'f']
    else if c == '\n' then ['\\', 'n']
    else if c == '\r' then ['\\', 'r']
    else if c == '\t' then ['\\', 't']
    else if c.toNat < 0x20 then '\\' :: 'u' :: hex4 c.toNat
    else [c]

def quoted (pieces : List JsonPiece) : List Char := '"' :: pieces.flatMap chars ++ ['"']

end JsonPiece

namespace JsonText

mutual

/-- One line without blanks. -/
def compact : JsonText → List Char
  | .null => "null".toList
  | .bool b => if b then "true".toList else "false".toList
  | .number n => n.chars
  | .string pieces => JsonPiece.quoted pieces
  | .array items => '[' :: compactItems items ++ [']']
  | .object fields => '{' :: compactFields fields ++ ['}']

def compactItems : List JsonText → List Char
  | [] => []
  | [item] => compact item
  | item :: items => compact item ++ ',' :: compactItems items

def compactFields : List (List JsonPiece × JsonText) → List Char
  | [] => []
  | [(key, value)] => JsonPiece.quoted key ++ ':' :: compact value
  | (key, value) :: fields => JsonPiece.quoted key ++ ':' :: compact value ++ ',' :: compactFields fields

end

def newline (indent : Nat) : List Char := '\n' :: List.replicate (2 * indent) ' '

mutual

/-- One line for each item and field, two blanks for each level; what is empty stays on its line. -/
def pretty (indent : Nat) : JsonText → List Char
  | .array [] => "[]".toList
  | .array items => '[' :: prettyItems (indent + 1) items ++ newline indent ++ [']']
  | .object [] => ['{', '}']
  | .object fields => '{' :: prettyFields (indent + 1) fields ++ newline indent ++ ['}']
  | .null => "null".toList
  | .bool b => if b then "true".toList else "false".toList
  | .number n => n.chars
  | .string pieces => JsonPiece.quoted pieces

def prettyItems (indent : Nat) : List JsonText → List Char
  | [] => []
  | [item] => newline indent ++ pretty indent item
  | item :: items => newline indent ++ pretty indent item ++ ',' :: prettyItems indent items

def prettyFields (indent : Nat) : List (List JsonPiece × JsonText) → List Char
  | [] => []
  | [(key, value)] => newline indent ++ JsonPiece.quoted key ++ ": ".toList ++ pretty indent value
  | (key, value) :: fields =>
    newline indent ++ JsonPiece.quoted key ++ ": ".toList ++ pretty indent value ++
      ',' :: prettyFields indent fields

end

def pieces (s : String) : List JsonPiece := s.toList.map .char

def ofString (s : String) : JsonText := .string (pieces s)

mutual

def ofJson : Json → JsonText
  | .null => .null
  | .bool b => .bool b
  | .integer n _ => .number (JsonNumeral.ofInt n)
  | .float x => .number (JsonNumeral.ofFloat .double x)
  | .string s => ofString s
  | .array items => .array (ofItems items)
  | .object fields => .object (ofFields fields)

def ofItems : List Json → List JsonText
  | [] => []
  | item :: items => ofJson item :: ofItems items

def ofFields : List (String × Json) → List (List JsonPiece × JsonText)
  | [] => []
  | (key, value) :: fields => (pieces key, ofJson value) :: ofFields fields

end

end JsonText

namespace Json

def compact (value : Json) : String := String.ofList (JsonText.ofJson value).compact

def pretty (value : Json) : String := String.ofList ((JsonText.ofJson value).pretty 0)

end Json

end RobotScript
