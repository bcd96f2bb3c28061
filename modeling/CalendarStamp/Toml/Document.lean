import CalendarStamp.Toml.Value

/-!
# TOML documents

A document is a sequence of lines.  A line gives a value to a key, opens a table for
the keys that follow, or is blank.  The lines are taken in one after the other, into
the table that the document stands for.
-/

namespace CalendarStamp.Toml

/-! ## Lines -/

/-- What a line says. -/
inductive Line
  /-- The keys that follow belong to this table, or, with `listed`, to another table
  of this name. -/
  | header (listed : Bool) (path : Path)
  /-- A key has this value. -/
  | pair (path : Path) (value : Value)

/-- Skip the rest of a line, which may hold a comment but nothing else. -/
def skipRest (text : List Char) : Option (List Char) :=
  match text.dropWhile isSpace with
  | [] => some []
  | '#' :: rest =>
    match rest.dropWhile fun c => !isControl c with
    | [] => some []
    | rest' => lineBreak? rest'
  | rest => lineBreak? rest

/-- Read a line that is not blank. -/
def readLine (text : List Char) : Option (Line × List Char) :=
  match text with
  | '[' :: '[' :: rest => do
    let (path, rest) ← readKey rest
    let rest ← after? ']' (← after? ']' rest)
    return (.header true path, ← skipRest rest)
  | '[' :: rest => do
    let (path, rest) ← readKey rest
    return (.header false path, ← skipRest (← after? ']' rest))
  | _ => do
    let ((path, value), rest) ← readPair (readValue maxDepth) text
    return (.pair path value, ← skipRest rest)

/-- Read all lines of a document. -/
def readLines (text : List Char) : Option (List Line) := do
  match ← skipLines false text with
  | [] => return []
  | start =>
    let (line, rest) ← readLine start
    if _h : rest.length < text.length then
      return line :: (← readLines rest)
    else
      none
termination_by text.length

/-! ## Documents -/

/-- Take in a line, given the table so far and the path to the part of it that keys
belong to. -/
def takeLine (state : Path × Table) : Line → Option (Path × Table)
  | .header listed path => (path, ·) <$> openTable listed path state.2
  | .pair key value => (state.1, ·) <$> inside (assign value key) state.1 state.2

/-- The table that lines stand for. -/
def ofLines (lines : List Line) : Option Table :=
  Prod.snd <$> lines.foldlM takeLine ([], [])

/-- Read a document.  A byte order mark at its start is passed over. -/
def read (text : String) : Option Table :=
  let chars := text.toList
  readLines (if chars.head? = some '\ufeff' then chars.tail else chars) >>= ofLines

end CalendarStamp.Toml
