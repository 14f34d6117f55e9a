/-!
# Media types

Whether a content type announces JSON: `application/json`, or `application` with a subtype that
ends in `+json`, in any case, perhaps with parameters. A content type that does not keep to the
grammar of media types announces nothing.
-/

namespace VenueLink.Http.MediaType

/-- A character of a token. -/
def isToken (c : Char) : Bool :=
  c.isAlphanum || "!#$%&'*+-.^_`|~".toList.contains c

/-- A character inside quotes. -/
def isQuotable (c : Char) : Bool :=
  31 < c.toNat && c.toNat != 127

/-- Where in the parameters a reader is. -/
inductive Place where
  /-- In front of a name. -/
  | start
  | name
  /-- In front of a value. -/
  | mark
  | value
  /-- Inside quotes; the value may not be empty. -/
  | openQuote
  | quoted
  /-- After the closing quote. -/
  | closed
deriving DecidableEq

/-- The parameters keep to the grammar. -/
def areParameters : Place → List Char → Bool
  | .start, [] | .mark, [] | .value, [] | .closed, [] => true
  | .name, [] | .openQuote, [] | .quoted, [] => false
  | .start, c :: cs =>
    if c = ' ' then areParameters .start cs
    else isToken c && areParameters .name cs
  | .name, c :: cs =>
    if c = '=' then areParameters .mark cs
    else isToken c && areParameters .name cs
  | .mark, c :: cs =>
    if c = '"' then areParameters .openQuote cs
    else isToken c && areParameters .value cs
  | .value, c :: cs =>
    if c = ';' then areParameters .start cs
    else isToken c && areParameters .value cs
  | .openQuote, c :: cs => isQuotable c && areParameters .quoted cs
  | .quoted, c :: cs =>
    if c = '"' then areParameters .closed cs
    else isQuotable c && areParameters .quoted cs
  | .closed, c :: cs =>
    if c = ';' then areParameters .start cs
    else c = ' ' && areParameters .closed cs

/-- The part of a subtype in front of its last `+` that is not its first character, and the part
behind it. -/
def suffixed (subtype : List Char) : List Char × Option (List Char) :=
  let back := subtype.reverse.takeWhile (· != '+')
  let front := subtype.take (subtype.length - back.length - 1)
  if back.length < subtype.length && !front.isEmpty then (front, some back.reverse)
  else (subtype, none)

/-- The content type announces JSON. -/
def isJson (contentType : String) : Bool :=
  let cs := contentType.toList.map Char.toLower
  let kind := cs.takeWhile (· != '/')
  let rest := (cs.dropWhile (· != '/')).drop 1
  let subtype := rest.takeWhile (· != ';')
  let parameters := (rest.dropWhile (· != ';')).drop 1
  let (front, suffix) := suffixed subtype
  cs.all (·.toNat < 128) && kind = "application".toList && !subtype.isEmpty &&
    subtype.all isToken && (front = "json".toList || suffix = some "json".toList) &&
    areParameters .start parameters

end VenueLink.Http.MediaType
