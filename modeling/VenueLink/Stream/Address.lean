import VenueLink.Error
import VenueLink.Text.Ascii
import VenueLink.Text.Digits
import VenueLink.Web.Fetch

/-!
# Addresses of streams

Whether a connection can be tried at an address, and what is told if there is none.
-/

namespace VenueLink.Streams

/-- Why there is no connection. -/
inductive ConnectFault where
  /-- A character that cannot stand in an address. -/
  | badCharacter
  /-- Nothing is said about the host. -/
  | noHost
  /-- It is not said, and does not go without saying, which socket to use. -/
  | unknownScheme
  /-- The venue answers with a status. -/
  | refused (status : Nat)
  /-- There is nobody at the address. -/
  | unreachable (detail : String)
deriving DecidableEq

/-- The wording of a fault. -/
def ConnectFault.detail : ConnectFault → String
  | badCharacter => "HTTP format error: invalid uri character"
  | noHost => "HTTP format error: empty string"
  | unknownScheme => "URL error: URL scheme not supported"
  | refused status => "HTTP error: " ++ Web.statusText status
  | unreachable detail => "IO error: " ++ detail

/-- The error of a connection that did not come about. -/
def ConnectFault.error (f : ConnectFault) : OperationError :=
  .transport ("WebSocket connect failed: " ++ f.detail)

/-- A character that can stand in an address. -/
def isAddressChar (c : Char) : Bool :=
  c.isAlphanum || "!#$%&'()*+,-./:;=?@[]_~".toList.contains c

/-- What follows the scheme and the slashes behind it, and the scheme if there is one. -/
def splitScheme (cs : List Char) : String × List Char :=
  let scheme := cs.takeWhile fun c => c != ':'
  match cs.dropWhile fun c => c != ':' with
  | ':' :: '/' :: '/' :: rest => (Text.lowerAscii (String.ofList scheme), rest)
  | _ => ("", cs)

/-- Why no connection can be tried at an address, if so. -/
def addressFault? (address : String) : Option ConnectFault :=
  let (scheme, rest) := splitScheme address.toList
  let authority := rest.takeWhile fun c => c != '/' && c != '?' && c != '#'
  let host := authority.takeWhile (· != ':')
  if !address.toList.all isAddressChar then some .badCharacter
  else if host.isEmpty then some .noHost
  else if host = authority && !(["ws", "wss", "http", "https"].contains scheme) then
    some .unknownScheme
  else none

end VenueLink.Streams
