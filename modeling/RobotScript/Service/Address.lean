import RobotScript.Number.Numeral
import RobotScript.Text.Blank

namespace RobotScript.Service

/-- Where a web address leads: a server, and what is asked of it. -/
structure Address where
  secure : Bool
  host : String
  port : Nat
  target : String

namespace Address

def defaultPort (secure : Bool) : Nat := if secure then 443 else 80

def hexDigit (n : Nat) : Char := if n < 10 then Char.ofNat (48 + n) else Char.ofNat (55 + n)

def codedByte (b : UInt8) : List Char := ['%', hexDigit (b.toNat / 16), hexDigit (b.toNat % 16)]

/-- Writes the characters that `coded` picks, and all outside of printable ASCII, byte by byte. -/
def encode (coded : Char → Bool) (s : List Char) : List Char :=
  s.flatMap fun c =>
    if c.toNat < 0x20 || 0x7E < c.toNat || coded c then
      (String.singleton c).toUTF8.toList.flatMap codedByte
    else [c]

def isCodedInPath (c : Char) : Bool :=
  c ∈ [' ', '"', '<', '>', '`', '#', '?', '{', '}']

def isCodedInQuery (c : Char) : Bool := c ∈ [' ', '"', '#', '<', '>', '\'']

def isSlash (c : Char) : Bool := c == '/' || c == '\\'

/-- Points may be written by their code too. -/
def isHere (segment : List Char) : Bool :=
  String.ofList (segment.map Char.toLower) ∈ [".", "%2e"]

def isParent (segment : List Char) : Bool :=
  String.ofList (segment.map Char.toLower) ∈ ["..", ".%2e", "%2e.", "%2e%2e"]

/-- Follows the segments of a path. Points at the end leave an empty segment there. -/
def segmentsFrom (before : List (List Char)) : List (List Char) → List (List Char)
  | [] => before
  | segment :: rest =>
    let before := if isParent segment then before.dropLast else before
    if isHere segment || isParent segment then
      if rest.isEmpty then before ++ [[]] else segmentsFrom before rest
    else segmentsFrom (before ++ [encode isCodedInPath segment]) rest

def path (s : List Char) : List Char :=
  let s := match s with
    | c :: rest => if isSlash c then rest else s
    | [] => []
  '/' :: ['/'].intercalate (segmentsFrom [] (s.splitOnP isSlash))

/-- What is asked of the server: the path, and the query if there is one. A fragment stays here. -/
def targetOf (s : List Char) : List Char :=
  let s := s.takeWhile (· != '#')
  path (s.takeWhile (· != '?')) ++
    match s.dropWhile (· != '?') with
    | [] => []
    | _ :: query => '?' :: encode isCodedInQuery query

def isHostChar (c : Char) : Bool := c.isAlphanum || c ∈ ['.', '-', '_', '~']

def port? (secure : Bool) : List Char → Option Nat
  | [] => some (defaultPort secure)
  | s => (readDigits? s).filter (· ≤ 65535)

/-- Reads an address of the web. Blanks and controls around it do not count, nor do tabs and line ends
in it, nor what stands in front of the host for a user. -/
def read? (url : String) : Option Address := do
  let isOuter (c : Char) : Bool := c.toNat ≤ 0x20
  let isInner (c : Char) : Bool := !(c ∈ ['\t', '\n', '\r'])
  let s := (Text.dropEndWhile isOuter (url.toList.dropWhile isOuter)).filter isInner
  let secure ← match String.ofList ((s.takeWhile (· != ':')).map Char.toLower) with
    | "http" => some false
    | "https" => some true
    | _ => none
  let s := ((s.dropWhile (· != ':')).drop 1).dropWhile isSlash
  let ends (c : Char) : Bool := isSlash c || c == '?' || c == '#'
  let authority := (s.takeWhile (!ends ·)).reverse.takeWhile (· != '@') |>.reverse
  let host := (authority.takeWhile (· != ':')).map Char.toLower
  let port ← port? secure ((authority.dropWhile (· != ':')).drop 1)
  if host.isEmpty || !host.all isHostChar then none
  else
    let target := targetOf (s.dropWhile (!ends ·))
    some { secure, port, host := String.ofList host, target := String.ofList target }

/-- The address in its plain form. -/
def text (address : Address) : String :=
  let port := if address.port = defaultPort address.secure then "" else ":" ++ toString address.port
  (if address.secure then "https://" else "http://") ++ address.host ++ port ++ address.target

end Address

end RobotScript.Service
