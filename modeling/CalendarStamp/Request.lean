import CalendarStamp.Digest

/-!
# Requests to calendars

A calendar takes a digest by `POST` and returns the rest of a chain by `GET`
under the lookup key.  The address of a calendar may end in any number of
slashes.
-/

namespace CalendarStamp

/-- How a request is made. -/
inductive Method
  | get
  | post
deriving DecidableEq

namespace Method

/-- The name of a method in a request. -/
def name : Method → String
  | get => "GET"
  | post => "POST"

/-- The name of a method in a log. -/
def title : Method → String
  | get => "Get"
  | post => "Post"

end Method

/-- A request to a calendar. -/
structure Request where
  method : Method
  url : String
  body : Option Bytes := none
deriving DecidableEq

namespace Request

/-- A text without the slashes at its end. -/
def trimSlashes (text : String) : String :=
  String.ofList (text.toList.reverse.dropWhile (· = '/')).reverse

/-- The address of a path at a calendar. -/
def endpoint (base path : String) : String :=
  trimSlashes base ++ "/" ++ path

/-- Submit a digest. -/
def submit (base : String) (digest : Digest) : Request :=
  { method := .post, url := endpoint base "digest", body := some digest.bytes }

/-- Ask for the rest of a chain. -/
def lookup (base : String) (key : CalendarKey) : Request :=
  { method := .get, url := endpoint base ("timestamp/" ++ key.toHex) }

end Request

end CalendarStamp
