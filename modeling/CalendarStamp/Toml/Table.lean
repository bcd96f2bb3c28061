/-!
# TOML tables

A document stands for a table: names, each with a value or with a table of its own.
Values are put in by keys and tables are opened by headers, and either may pass
through other tables on the way.  What may still be put into a table depends on
where it came from.  A table that has a header of its own is not changed by keys
from outside, nor is a value ever replaced.

The rules are those by which keys and headers are checked one after the other.

Main results:

- Theorem `assign_of_lookup_none`: a new name takes its value.
-/

namespace CalendarStamp.Toml

/-- A value in a settings file.  Of a floating-point number, of a date or time, and
of a table within a value only the presence is kept, since no setting takes one. -/
inductive Value
  | text (content : String)
  | integer (value : Int)
  | float
  | boolean (value : Bool)
  | dateTime
  | array (items : List Value)
  | table

/-- The names that lead to an entry. -/
abbrev Path := List String

/-- Where a table came from. -/
inductive Origin
  /-- It has a header of its own, or is a value. -/
  | header
  /-- A header led through it. -/
  | onTheWay
  /-- A key led through it. -/
  | key
  /-- It is the last of the tables under a header that may be repeated. -/
  | listed
deriving DecidableEq

/-- What a name stands for. -/
inductive Entry
  | value (value : Value)
  | table (origin : Origin) (entries : List (String × Entry))

/-- The names of a table with what they stand for. -/
abbrev Table := List (String × Entry)

/-- Change what a name stands for, unless that fails. -/
def alter (name : String) (change : Option Entry → Option Entry) : Table → Option Table
  | [] => (fun entry => [(name, entry)]) <$> change none
  | (other, entry) :: table =>
    if other = name then
      (fun entry => (other, entry) :: table) <$> change (some entry)
    else
      ((other, entry) :: ·) <$> alter name change table

/-! ## Keys -/

/-- Whether a key may lead through a table to what is left of its path.  One that has
a header is closed, and only tables that were opened by keys take values of keys. -/
def Origin.admits (origin : Origin) (path : Path) : Bool :=
  origin = .key || (origin ≠ .header && path.length ≠ 1)

/-- Give a value to a key. -/
def assign (value : Value) : Path → Table → Option Table
  | [], _ => none
  | [name], table =>
    alter name
      (fun
        | none => some (.value value)
        | some _ => none)
      table
  | name :: next :: path, table =>
    alter name
      (fun
        | none => .table .key <$> assign value (next :: path) []
        | some (.table origin entries) =>
          if origin.admits (next :: path) then
            .table origin <$> assign value (next :: path) entries
          else
            none
        | some (.value _) => none)
      table

/-! ## Headers -/

/-- What a header makes of what its last name stands for.  With `listed` it is a
header that may be repeated. -/
def headed (listed : Bool) : Option Entry → Option Entry
  | none => some (.table (if listed then .listed else .header) [])
  | some (.table .onTheWay entries) => if listed then none else some (.table .header entries)
  | some (.table .listed _) => if listed then some (.table .listed []) else none
  | some _ => none

/-- Open a table by its header. -/
def openTable (listed : Bool) : Path → Table → Option Table
  | [], _ => none
  | [name], table => alter name (headed listed) table
  | name :: next :: path, table =>
    alter name
      (fun
        | none => .table .onTheWay <$> openTable listed (next :: path) []
        | some (.table origin entries) =>
          .table origin <$> openTable listed (next :: path) entries
        | some (.value _) => none)
      table

/-- Change the table that a header has opened. -/
def inside (change : Table → Option Table) : Path → Table → Option Table
  | [], table => change table
  | name :: path, table =>
    alter name
      (fun
        | some (.table origin entries) => .table origin <$> inside change path entries
        | _ => none)
      table

/-! ## New names -/

theorem alter_of_lookup_none {name : String} {table : Table} (h : table.lookup name = none)
    (change : Option Entry → Option Entry) :
    alter name change table = (fun entry => table ++ [(name, entry)]) <$> change none := by
  induction table with
  | nil => rfl
  | cons first table ih =>
    rcases first with ⟨other, entry⟩
    rw [List.lookup_cons] at h
    cases hname : name == other with
    | true => simp [hname] at h
    | false =>
      have hne : other ≠ name := fun hsame => by simp [hsame] at hname
      have hrest : table.lookup name = none := by rwa [hname] at h
      rw [alter, if_neg hne, ih hrest]
      cases change none <;> rfl

/-- A new name takes its value. -/
theorem assign_of_lookup_none {name : String} {table : Table} (h : table.lookup name = none)
    (value : Value) : assign value [name] table = some (table ++ [(name, .value value)]) :=
  alter_of_lookup_none h _

end CalendarStamp.Toml
