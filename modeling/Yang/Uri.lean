import Yang.Text.Utf8
import Yang.Uri.Address
import Yang.Uri.Domain

/-!
# Absolute URIs

The namespace of a module has to be an absolute URI. Blanks and controls at the ends
and line breaks anywhere are not counted. After the scheme only the authority can be at
fault: paths, queries and fragments take any character. The web schemes always have an
authority with a host, whatever the number of slashes; a file may name a host after two
slashes; other schemes have an authority only after two slashes, and it may be empty.
-/

namespace Yang

/-- Why a text is not an absolute URI. -/
inductive UriFault
  | noScheme
  | emptyHost
  | badPort
  | badIPv4
  | badIPv6
  | badDomain
  | badHostCharacter
deriving DecidableEq, Repr

def UriFault.message : UriFault → String
  | .noScheme => "relative URL without a base"
  | .emptyHost => "empty host"
  | .badPort => "invalid port number"
  | .badIPv4 => "invalid IPv4 address"
  | .badIPv6 => "invalid IPv6 address"
  | .badDomain => "invalid international domain name"
  | .badHostCharacter => "invalid domain character"

namespace Uri

/-- How the authority of a scheme is read. -/
inductive SchemeClass
  | web
  | file
  | plain
deriving DecidableEq, Repr

def SchemeClass.of (scheme : String) : SchemeClass :=
  if scheme ∈ ["http", "https", "ws", "wss", "ftp"] then .web
  else if scheme = "file" then .file
  else .plain

/-- The characters that count: no blanks or controls at the ends, no tabs and no
line breaks. -/
def significant (s : String) : List Char :=
  let low (c : Char) : Bool := c.toNat ≤ 0x20
  let front := s.toList.dropWhile low
  (front.reverse.dropWhile low).reverse.filter fun c => c != '\t' && c != '\n' && c != '\r'

def isSchemeChar (c : Char) : Bool :=
  c.isAlphanum || c == '+' || c == '-' || c == '.'

/-- The scheme, in small letters, and what follows its colon. -/
def scheme? (cs : List Char) : Option (String × List Char) :=
  match cs with
  | [] => none
  | c :: _ =>
    if c.isAlpha then
      match cs.dropWhile isSchemeChar with
      | ':' :: rest => some (String.ofList ((cs.takeWhile isSchemeChar).map Char.toLower), rest)
      | _ => none
    else none

def endsAuthority (k : SchemeClass) (c : Char) : Bool :=
  c == '/' || c == '?' || c == '#' || (c == '\\' && k != .plain)

/-- Replace the escapes of a percent sign and two digits by their bytes. -/
def percentDecoded : List Char → List UInt8
  | [] => []
  | '%' :: a :: b :: r =>
    match Text.number? 16 [a, b] with
    | some n => UInt8.ofNat n :: percentDecoded r
    | none => 0x25 :: percentDecoded (a :: b :: r)
  | c :: r => c.toString.toUTF8.toList ++ percentDecoded r

/-- The address in brackets, if the host begins with one. -/
def bracketed? : List Char → Option (Except UriFault Unit)
  | '[' :: r =>
    if r.getLast? = some ']' ∧ IPv6.isAddress r.dropLast then some (.ok ())
    else some (.error .badIPv6)
  | _ => none

/-- A host of a web scheme or a file: an address, or a domain that is not empty. -/
def checkDomainHost (host : List Char) : Except UriFault Unit :=
  match bracketed? host with
  | some result => result
  | none =>
    match Text.Utf8.decode (ByteArray.mk (percentDecoded host).toArray) with
    | .error _ => .error .badDomain
    | .ok text =>
      match Domain.folded? text.toList with
      | none => .error .badDomain
      | some [] => .error .emptyHost
      | some domain =>
        if IPv4.endsInNumber domain && !IPv4.isAddress domain then .error .badIPv4
        else .ok ()

def isForbiddenInHost (c : Char) : Bool :=
  c.toNat == 0 || "\t\n\r #/:<>?@[\\]^|".toList.contains c

/-- A host of another scheme: an address, or any text without separators. -/
def checkPlainHost (host : List Char) : Except UriFault Unit :=
  match bracketed? host with
  | some result => result
  | none => if host.any isForbiddenInHost then .error .badHostCharacter else .ok ()

/-- The host at the front of an authority and what follows it. A colon ends the
host unless it stands in brackets. -/
def hostSpan (k : SchemeClass) (brackets : Bool) : List Char → List Char × List Char
  | [] => ([], [])
  | c :: r =>
    if endsAuthority k c || (c == ':' && !brackets) then ([], c :: r)
    else
      let inside := if c == '[' then true else if c == ']' then false else brackets
      let (host, rest) := hostSpan k inside r
      (c :: host, rest)

/-- A port has digits only, and they denote a number of sixteen bits. -/
def checkPort (cs : List Char) : Except UriFault Unit :=
  if (Text.number? 10 (cs.takeWhile Char.isDigit)).any (· < 0x10000) then
    match cs.dropWhile Char.isDigit with
    | [] => .ok ()
    | c :: _ =>
      if c == '/' || c == '\\' || c == '?' || c == '#' then .ok () else .error .badPort
  else .error .badPort

/-- A host and its port. An authority with credentials or a port needs a host. -/
def checkHostAndPort (k : SchemeClass) (credentials : Bool) (cs : List Char) :
    Except UriFault Unit :=
  let (host, rest) := hostSpan k false cs
  if k = .web ∧ host.isEmpty then .error .emptyHost
  else
    match if k = .plain then checkPlainHost host else checkDomainHost host with
    | .error fault => .error fault
    | .ok () =>
      match rest with
      | ':' :: port =>
        if host.isEmpty then .error .emptyHost else checkPort port
      | _ => if host.isEmpty && credentials then .error .emptyHost else .ok ()

/-- An authority. Its last at-sign ends the credentials. -/
def checkAuthority (k : SchemeClass) (cs : List Char) : Except UriFault Unit :=
  let span := cs.takeWhile fun c => !endsAuthority k c
  if span.contains '@' then
    let host := (span.reverse.takeWhile (· != '@')).reverse
    let credentials := span.take (span.length - host.length - 1)
    let rest := cs.drop (credentials.length + 1)
    if credentials.isEmpty ∧ (rest.head?.map (endsAuthority k)).getD false then
      .error .emptyHost
    else checkHostAndPort k (!credentials.isEmpty && credentials != [':']) rest
  else checkHostAndPort k false cs

/-- The host of a file. A drive letter is no host. -/
def checkFileHost (cs : List Char) : Except UriFault Unit :=
  match cs.takeWhile fun c => !endsAuthority .file c with
  | [] => .ok ()
  | [a, b] =>
    if a.isAlpha && (b == ':' || b == '|') then .ok () else checkDomainHost [a, b]
  | host => checkDomainHost host

def checkAfterScheme (k : SchemeClass) (cs : List Char) : Except UriFault Unit :=
  let slash (c : Char) : Bool := c == '/' || c == '\\'
  match k, cs with
  | .web, _ => checkAuthority .web (cs.dropWhile slash)
  | .file, a :: b :: rest => if slash a && slash b then checkFileHost rest else .ok ()
  | .plain, '/' :: '/' :: rest => checkAuthority .plain rest
  | _, _ => .ok ()

/-- Accept exactly the absolute URIs. No base is given, so a text without scheme
is none. -/
def check (s : String) : Except UriFault Unit :=
  match scheme? (significant s) with
  | none => .error .noScheme
  | some (scheme, rest) => checkAfterScheme (.of scheme) rest

end Uri

end Yang
