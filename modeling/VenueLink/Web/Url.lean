import VenueLink.Http.Form
import VenueLink.Text.Ascii
import VenueLink.Text.Blank

/-!
# Addresses of web resources

An address that begins with `http` or `https` is brought into normal form: its scheme and host
in small letters, no socket number that goes without saying, a path that is at least `/`, and no
character that would have to be encoded. Addresses of other schemes are kept as they are.

Only plain hosts are read: names and numbers of plain characters, without a user in front of
them and with nothing in them that is encoded.
-/

namespace VenueLink.Web

/-- An address. -/
structure Url where
  scheme : String
  /-- The whole address in normal form. -/
  text : String
deriving DecidableEq

namespace Url

/-- A character that may follow the first letter of a scheme. -/
def isSchemeChar (c : Char) : Bool :=
  c.isAlphanum || c = '+' || c = '-' || c = '.'

/-- The scheme of an address and what follows its colon. -/
def splitScheme? (cs : List Char) : Option (List Char × List Char) :=
  let scheme := cs.takeWhile isSchemeChar
  match scheme, cs.dropWhile isSchemeChar with
  | c :: _, ':' :: rest => if Text.isAsciiLetter c then some (scheme, rest) else none
  | _, _ => none

/-- A character that ends the host and its socket number. -/
def endsAuthority (c : Char) : Bool :=
  c = '/' || c = '\\' || c = '?' || c = '#'

/-- A character that cannot stand in a host. -/
def isForbiddenInHost (c : Char) : Bool :=
  c.toNat ≤ 32 || 127 ≤ c.toNat || "\"%<>@[]^\x60|\x7b\x7d".toList.contains c

/-- The socket number that goes without saying. -/
def defaultSocket (scheme : String) : Nat :=
  if scheme = "https" then 443 else 80

/-- The socket number of an address, after its host; empty if it goes without saying. -/
def socket? (scheme : String) (cs : List Char) : Option String :=
  match cs with
  | [] | [':'] => some ""
  | ':' :: ds =>
    (Text.readNat? ds).bind fun n =>
      if 65535 < n then none
      else if n = defaultSocket scheme then some ""
      else some (":" ++ toString n)
  | _ => none

/-- A character of a path or query as it stands in an address. -/
def encodeChar (c : Char) : List Char :=
  if c.toNat ≤ 32 || 127 ≤ c.toNat || "\"<>\x60\x7b\x7d".toList.contains c then
    (Text.Utf8.encodeChar c).flatMap Http.Form.percentEncodeByte
  else [c]

/-- The path, query and fragment of an address. -/
def tailText (cs : List Char) : String :=
  let cs := cs.map fun c => if c = '\\' then '/' else c
  let tail := String.ofList (cs.flatMap encodeChar)
  if cs.head? = some '/' then tail else "/" ++ tail

/-- The address that a text stands for, if it is one with a plain host. -/
def ofText? (s : String) : Option Url := do
  let cs := (Text.trim s).toList
  let (scheme, rest) ← splitScheme? cs
  let scheme := Text.lowerAscii (String.ofList scheme)
  if scheme = "http" || scheme = "https" then
    let rest := rest.dropWhile fun c => c = '/' || c = '\\'
    let authority := rest.takeWhile (!endsAuthority ·)
    let host := authority.takeWhile (· != ':')
    let socket ← socket? scheme (authority.dropWhile (· != ':'))
    if host.isEmpty || host.any isForbiddenInHost then none
    else
      some ⟨scheme, scheme ++ "://" ++ Text.lowerAscii (String.ofList host) ++ socket ++
        tailText (rest.dropWhile (!endsAuthority ·))⟩
  else some ⟨scheme, String.ofList cs⟩

/-- Requests can be made to the address. -/
def isWeb (u : Url) : Bool :=
  u.scheme = "http" || u.scheme = "https"

end Url

end VenueLink.Web
