import CalendarStamp.Bytes
import CalendarStamp.Toml.Document

/-!
# Settings

The calendars that new timestamps are submitted to, and how long to wait for
them.  Settings come from a file, with defaults for what it leaves out, and the
environment may replace the list of calendars.
-/

namespace CalendarStamp

/-- What the client is set up with. -/
structure Configuration where
  /-- Addresses of calendars, in the order in which they are asked. -/
  calendars : List String
  /-- How long to wait for a calendar. -/
  timeoutSecs : UInt64
deriving DecidableEq

namespace Configuration

/-- The public calendars that are used unless others are named. -/
def defaultCalendars : List String :=
  ["https://alice.btc.calendar.opentimestamps.org",
   "https://bob.btc.calendar.opentimestamps.org",
   "https://finney.calendar.eternitywall.com",
   "https://btc.calendar.catallaxy.com"]

/-- The waiting time that is used unless another is named. -/
def defaultTimeoutSecs : UInt64 := 30

/-- The settings without any file. -/
def default : Configuration := ⟨defaultCalendars, defaultTimeoutSecs⟩

/-! ## Reading -/

/-- The texts in an array that holds nothing else. -/
def textItems? (items : List Toml.Value) : Option (List String) :=
  items.mapM fun
    | .text content => some content
    | _ => none

/-- The list of calendars that an entry names. -/
def calendarsOf : Option Toml.Entry → Option (List String)
  | none => some defaultCalendars
  | some (.value (.array items)) => textItems? items
  | _ => none

/-- The waiting time that an entry names. -/
def timeoutOf : Option Toml.Entry → Option UInt64
  | none => some defaultTimeoutSecs
  | some (.value (.integer value)) => if 0 ≤ value then some (UInt64.ofNat value.toNat) else none
  | _ => none

/-- The settings in a text.  Entries with other names are passed over. -/
def read (text : String) : Option Configuration := do
  let table ← Toml.read text
  let calendars ← calendarsOf (table.lookup "calendars")
  let timeoutSecs ← timeoutOf (table.lookup "timeout_secs")
  return ⟨calendars, timeoutSecs⟩

/-! ## Writing -/

/-- The text of settings.  A waiting time that exceeds the whole numbers of the
format cannot be written. -/
def write (configuration : Configuration) : Option String :=
  if configuration.timeoutSecs.toNat < Toml.integerLimit then
    some ("calendars = " ++ String.ofList (Toml.writeTexts configuration.calendars) ++
      "\ntimeout_secs = " ++ String.ofList (Toml.writeNatural configuration.timeoutSecs.toNat) ++
      "\n")
  else
    none

/-! ## The environment -/

/-- The items of a list with commas, without the blanks around them and
without blank items. -/
def calendarList (list : String) : List String :=
  ((Text.split ',' list.toList).map Text.trim).filter (· ≠ []) |>.map String.ofList

/-- Replace the calendars by those of a list, unless it names none. -/
def withCalendarList (configuration : Configuration) (list : String) : Configuration :=
  match calendarList list with
  | [] => configuration
  | calendars => { configuration with calendars }

/-- Apply the list that the environment may give. -/
def withEnvironment (configuration : Configuration) (list : Option String) : Configuration :=
  (list.map configuration.withCalendarList).getD configuration

end Configuration

end CalendarStamp
