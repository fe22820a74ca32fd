import PolicyDesk.Decimal
import PolicyDesk.Json
import PolicyDesk.Text
import PolicyDesk.Wire

/-!
# Messages

Requests and responses, down to the parts of a request that the service looks at.
-/

namespace PolicyDesk.Http

/-! ## Media types

A content type names a type, a subtype and, after semicolons, parameters. A body is taken as JSON
when the type is `application` and the subtype is `json` or ends in `+json`, in any case. -/

def isTokenChar (c : Char) : Bool :=
  c.isAlphanum || "!#$%&'*+-.^_`|~".toList.contains c

/-- A character that a quoted value may hold. -/
def isQuotedChar (c : Char) : Bool := decide (31 < c.toNat) && decide (c.toNat < 127)

/-- The leading token of a text and the rest. -/
def splitToken (cs : List Char) : List Char × List Char :=
  (cs.takeWhile isTokenChar, cs.dropWhile isTokenChar)

/-- What follows the closing quote of a value: blanks up to the end or to a semicolon. Anything else
after the quote makes the content type unusable. -/
def afterQuote? (cs : List Char) : Option (List Char) :=
  match cs.dropWhile (· = ' ') with
  | [] => some []
  | ';' :: rest => some rest
  | _ => none

/-- The rest after a quoted value and its closing quote. A quoted value is not empty: a quote at its
beginning belongs to it, and the next one closes it. -/
def skipQuoted? : List Char → Option (List Char)
  | first :: cs =>
    match cs.dropWhile fun c => isQuotedChar c && c != '"' with
    | '"' :: rest => if isQuotedChar first then some rest else none
    | _ => none
  | [] => none

/-- The value of a parameter, a token or a quoted text; what is left are the parameters that
follow. -/
def skipValue? : List Char → Option (List Char)
  | '"' :: cs => (skipQuoted? cs).bind afterQuote?
  | cs =>
    match splitToken cs with
    | (_, []) => some []
    | (_ :: _, ';' :: rest) => some rest
    | _ => none

/-- The parameters after a semicolon are names with values; blanks may stand before a name. Their
names and values play no part beyond their form, so a charset is not looked at. -/
def parametersOk : Nat → List Char → Bool
  | 0, cs => cs.isEmpty
  | fuel + 1, cs =>
    match cs.dropWhile (· = ' ') with
    | [] => true
    | cs =>
      match splitToken cs with
      | (_ :: _, '=' :: rest) =>
        match skipValue? rest with
        | some rest => parametersOk fuel rest
        | none => false
      | _ => false

/-- The subtype up to the suffix, and the suffix after the last plus sign. A plus sign in front of
everything marks no suffix. -/
def splitSuffix (subtype : List Char) : List Char × Option (List Char) :=
  let suffix := (subtype.reverse.takeWhile (· != '+')).reverse
  let base := subtype.take (subtype.length - suffix.length - 1)
  if base.isEmpty then (subtype, none) else (base, some suffix)

def lower (cs : List Char) : String := String.ofList (cs.map Char.toLower)

/-- A type and a subtype that mean JSON. -/
def meansJson (kind subtype : List Char) : Bool :=
  let (base, suffix) := splitSuffix subtype
  lower kind == "application" && (lower base == "json" || suffix.map lower == some "json")

/-- The content type announces JSON. A fault in the parameters is as bad as another type. -/
def isJsonType (contentType : String) : Bool :=
  match splitToken contentType.toList with
  | (kind, '/' :: rest) =>
    let (subtype, rest) := splitToken rest
    let parametersFine := match rest with
      | [] => true
      | ';' :: rest => parametersOk rest.length rest
      | _ => false
    !subtype.isEmpty && parametersFine && meansJson kind subtype
  | _ => false

/-! ## Authorities

An authority names whom a target asks: a host, with a user before an at sign and a port after a
colon if there are any. The service answers under every host, so that an authority only has to be
well formed (`isAuthority`). -/

/-- What is known of the part of an authority read so far. A single pass decides, so the parts are
not cut out of the text. -/
structure AuthorityScan where
  /-- The colons since the user or the bracketed address. -/
  colons : Nat
  /-- A percent sign stands since the user or the bracketed address. -/
  escaped : Bool
  opened : Bool
  closed : Bool

namespace AuthorityScan

def start : AuthorityScan := ⟨0, false, false, false⟩

/-- A character that has no meaning of its own in an authority. -/
def isPlainChar (c : Char) : Bool :=
  c.isAlphanum || "!$&'()*+,-.;=_~".toList.contains c

/-- A full address between brackets has seven colons, and a port one more. -/
def mostColons : Nat := 8

/-- Reads one more character. Colons and percent signs belong to the user or to the address if an at
sign or a closing bracket follows; there is at most one pair of brackets. -/
def step (scan : AuthorityScan) (c : Char) : Option AuthorityScan :=
  match c with
  | ':' => if scan.colons < mostColons then some { scan with colons := scan.colons + 1 } else none
  | '[' => if scan.escaped || scan.opened then none else some { scan with opened := true }
  | ']' =>
    if scan.opened && !scan.closed then
      some { scan with closed := true, colons := 0, escaped := false }
    else none
  | '@' => some { scan with colons := 0, escaped := false }
  | '%' => some { scan with escaped := true }
  | c => if isPlainChar c then some scan else none

/-- A host has no escapes and at most one colon, that of the port. A bracket that was opened is
closed. -/
def finished (scan : AuthorityScan) : Bool :=
  scan.opened == scan.closed && decide (scan.colons ≤ 1) && !scan.escaped

end AuthorityScan

/-- The text is an authority; something stands after the user. A user with no host after the at sign
is none. -/
def isAuthority (cs : List Char) : Bool :=
  !cs.isEmpty && cs.getLast? != some '@' &&
    (cs.foldlM AuthorityScan.step AuthorityScan.start).any AuthorityScan.finished

/-! ## Targets

A target is a path and, after the first question mark, a query.

- `Target.read?` reads a target: a path from the root, the same after a scheme and an authority, or
  an authority alone, which has no path.
- `percentDecode` replaces an escape of two hexadecimal digits by its byte and leaves a percent sign
  that begins none as it is; a decoded part that is not UTF-8 is no text (`decodeText?`).
- `queryPairs` splits a query at ampersands and each part at its first equals sign; a plus sign
  there stands for a space. -/

/-- What a request asks for. The path may be empty, which no route matches. -/
structure Target where
  path : String
  query : String
  deriving DecidableEq, Repr

namespace Target

/-- A character that a target may hold: no blank of ASCII and no control character of it. -/
def isVisible (c : Char) : Bool := decide (' ' < c) && c != '\x7f'

def isPathChar (c : Char) : Bool := isVisible c && !"<>`".toList.contains c

def isQueryChar (c : Char) : Bool := isVisible c && !"\"<>".toList.contains c

/-- A path and a query; a fragment, from a number sign on, belongs to neither. The query is empty
when there is no question mark. -/
def ofLocal? (cs : List Char) : Option Target :=
  let cs := cs.takeWhile (· != '#')
  let path := cs.takeWhile (· != '?')
  let query := (cs.dropWhile (· != '?')).drop 1
  if path.all isPathChar && query.all isQueryChar then
    some ⟨String.ofList path, String.ofList query⟩
  else none

def isSchemeChar (c : Char) : Bool := c.isAlphanum || "+-.~".toList.contains c

/-- The length of the longest scheme. -/
def longestScheme : Nat := 64

/-- A scheme and what follows its two slashes. The scheme may be any: the service does not ask
which. -/
def splitScheme? (cs : List Char) : Option (List Char × List Char) :=
  match cs.dropWhile isSchemeChar with
  | ':' :: '/' :: '/' :: rest => some (cs.takeWhile isSchemeChar, rest)
  | _ => none

/-- A character that ends an authority. -/
def endsAuthority (c : Char) : Bool := c = '/' || c = '?' || c = '#'

/-- A target with a scheme: an authority, and a path and a query after it. The authority is checked
and then forgotten. -/
def ofAbsolute? (scheme rest : List Char) : Option Target :=
  if scheme.length ≤ longestScheme ∧ isAuthority (rest.takeWhile (!endsAuthority ·)) = true then
    ofLocal? (rest.dropWhile (!endsAuthority ·))
  else none

/-- The bytes of the longest target. -/
def longest : Nat := 65534

/-- The target of a text, if the text is one. A text that begins with a slash is a path, whatever
follows. -/
def read? (s : String) : Option Target :=
  let cs := s.toList
  if longest < s.utf8ByteSize then none
  else if cs.head? = some '/' then ofLocal? cs
  else match splitScheme? cs with
    | some (scheme, rest) => ofAbsolute? scheme rest
    | none => if isAuthority cs then some ⟨"", ""⟩ else none

end Target

def hexValue? (b : UInt8) : Option UInt8 :=
  if 48 ≤ b ∧ b ≤ 57 then some (b - 48)
  else if 65 ≤ b ∧ b ≤ 70 then some (b - 55)
  else if 97 ≤ b ∧ b ≤ 102 then some (b - 87)
  else none

/-- The byte that two hexadecimal digits write. -/
def escapedByte? (high low : UInt8) : Option UInt8 := do
  let high ← hexValue? high
  let low ← hexValue? low
  return high * 16 + low

/-- The percent sign. -/
def percent : UInt8 := 37

/-- An escape of a percent sign is decoded once and not looked at again. -/
def percentDecode : List UInt8 → List UInt8
  | [] => []
  | [a] => [a]
  | [a, b] => [a, b]
  | a :: b :: c :: rest =>
    if a = percent then
      match escapedByte? b c with
      | some byte => byte :: percentDecode rest
      | none => a :: percentDecode (b :: c :: rest)
    else a :: percentDecode (b :: c :: rest)

/-- The text that a part of a path stands for. There is none when the bytes are not UTF-8. -/
def decodeText? (raw : String) : Option String :=
  String.fromUTF8? (ByteArray.mk (percentDecode raw.toUTF8.toList).toArray)

/-- The text that a part of a query stands for. -/
def decodeQueryText? (raw : String) : Option String :=
  decodeText? (raw.map fun c => if c = '+' then ' ' else c)

/-- The name and the value of a part of a query. A part without an equals sign is a name with an
empty value. -/
def splitPair (part : String) : String × String :=
  let cs := part.toList
  (String.ofList (cs.takeWhile (· != '=')), String.ofList ((cs.dropWhile (· != '=')).drop 1))

/-- Names may repeat, and their order is kept. -/
def queryPairs (query : String) : List (String × String) :=
  ((query.splitOn "&").filter fun part => !part.isEmpty).map splitPair

/-- The limit that a query asks for: none, one number, or a query that cannot be used. The parameter
may occur once; others are ignored. An empty value is no number. -/
def readLimit (query : String) : Except Unit (Option Nat) :=
  let limits := (queryPairs query).filter fun pair => decodeQueryText? pair.1 = some "limit"
  match limits with
  | [] => .ok none
  | [(_, raw)] =>
    match (decodeQueryText? raw).bind (Decimal.readUnsignedInteger? 64) with
    | some n => .ok (some n)
    | none => .error ()
  | _ => .error ()

/-! ## Requests and responses

A request is a method, a target (path and query), a content type if there is one, and a body;
`Request.read?` makes one of texts that can stand in a message. A response is a status code with a
JSON value or a plain text. -/

/-- What is looked at of a message; its other fields are ignored. -/
structure Request where
  method : String
  target : Target
  contentType : Option String
  body : String
  deriving DecidableEq, Repr

namespace Request

/-- A character that may stand in a field of a message: no control character but the tab. -/
def isFieldChar (c : Char) : Bool := c = '\t' || decide (' ' ≤ c) && c != '\x7f'

/-- The method is a token, whether the service knows it or not. -/
def isMethod (method : String) : Bool := !method.isEmpty && method.toList.all isTokenChar

/-- A request of texts that can stand in a message. Its body may be any text. -/
def read? (method target : String) (contentType : Option String) (body : String) :
    Option Request := do
  let target ← Target.read? target
  if isMethod method && contentType.all (·.toList.all isFieldChar) then
    some ⟨method, target, contentType, body⟩
  else none

end Request

inductive Payload
  | json (value : Json)
  | text (text : String)

/-- The content type of a response follows from the kind of its payload. -/
structure Response where
  status : Nat
  payload : Payload

namespace Response

def json (status : Nat) (value : Json) : Response := ⟨status, .json value⟩

def text (status : Nat) (text : String) : Response := ⟨status, .text text⟩

/-- A response that only names an error. -/
def error (status : Nat) (message : String) : Response :=
  json status (.record [("error", .str message)])

/-- A response that lists the rules that a request breaks. -/
def brokenRules (message : String) (report : Report) : Response :=
  json 422 (.record [("error", .str message), ("violations", report.violationsJson)])

end Response

/-! ## Bodies

A route that takes a body needs a content type that announces JSON and then a body that can be
decoded (`readBody`). A body of more than two mebibytes is not read at all, and any other up to the
end of its first value. One that cannot be used is malformed input, which is not the same as input
that breaks a rule; the answer to it carries on what the reader of bodies says (`BodyError`). -/

/-- What is wrong with a body. A body of another content type is not read, and one that is too large
is not decoded. -/
inductive BodyFault
  | contentType
  | tooLarge
  | undecodable (cause : DecodeError)

/-- A body that cannot be used, in the words of the reader that rejected it. -/
structure BodyError where
  text : String
  deriving DecidableEq, Repr

def BodyError.response (e : BodyError) : Response :=
  .json 400 (.record [("error", .str e.text), ("kind", .str "malformed_input")])

/-- A body that was read, or the reason why it cannot be used. -/
abbrev Body (α : Type) := Except BodyError α

/-- The bytes of the largest body. -/
def largestBody : Nat := 2097152

/-- Reads the body of a request. The content type is looked at first, then the size. -/
def readBody {α : Type} (decode : Decoder α) (request : Request) : Except BodyFault α :=
  if request.contentType.any isJsonType then
    if largestBody < request.body.utf8ByteSize then .error .tooLarge
    else (decode (Json.read request.body).1).mapError .undecodable
  else .error .contentType

/-- Responds to a body, if it can be used. Otherwise nothing of the respondent is run. -/
def withBody {m : Type → Type} [Monad m] {α : Type} (body : Body α) (respond : α → m Response) :
    m Response :=
  match body with
  | .ok a => respond a
  | .error e => return e.response

end PolicyDesk.Http
