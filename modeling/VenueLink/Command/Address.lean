import VenueLink.Text.Ascii
import VenueLink.Text.Digits
import VenueLink.Text.Split
import VenueLink.Web.Url

/-!
# Addresses on the command line

What is wrong with the address of a database, or with an address to listen on.
-/

namespace VenueLink.Command

/-- The ways to secure the connection to a database. -/
def sslModes : List String :=
  ["disable", "allow", "prefer", "require", "verify-ca", "verify-full"]

/-- The value of a field in the query of an address. -/
def queryValue? (name : String) (cs : List Char) : Option String :=
  let query := (cs.dropWhile (· != '?')).drop 1
  let fields := (Text.splitOn '&' query).map fun field =>
    let value := (field.dropWhile (· != '=')).drop 1
    (String.ofList (field.takeWhile (· != '=')), String.ofList value)
  fields.lookup name

/-- What is wrong with the address of a database. -/
def databaseFault? (address : String) : Option String :=
  match Web.Url.splitScheme? address.toList with
  | none => some "relative URL without a base"
  | some (_, rest) =>
    let authority := (rest.dropWhile (· = '/')).takeWhile (!Web.Url.endsAuthority ·)
    if authority.contains '[' && !authority.contains ']' then some "invalid IPv6 address"
    else
      ((queryValue? "sslmode" rest).or (queryValue? "ssl-mode" rest)).bind fun mode =>
        if sslModes.contains (Text.lowerAscii mode) then none
        else
          some ("error with configuration: unknown value " ++ "\"" ++ mode ++ "\"" ++
            " for \x60ssl_mode\x60")

/-- What is wrong with an address to listen on. -/
def listenFault? (address : String) : Option String :=
  let backwards := address.toList.reverse
  match backwards.dropWhile (· != ':') with
  | [] => some "invalid socket address"
  | _ :: _ =>
    match Text.readNat? (backwards.takeWhile (· != ':')).reverse with
    | some n => if 65535 < n then some "invalid port value" else none
    | none => some "invalid port value"

end VenueLink.Command
