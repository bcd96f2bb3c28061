import CalendarStamp.Change
import CalendarStamp.Text.Blank
import CalendarStamp.Text.Utf8

/-!
# A tree of files

The command line reads and writes a few files by name.  The tree holds the
files and directories that there are, and names are resolved in it part by
part from the working directory or from the root.  A name that ends with a
slash stands for a directory only.

Main results:

- Theorem `content?_setContent`: a file has the content that it was given.
- Theorem `atomic_writing`: a file that cannot be written leaves the tree as it was.
- Theorem `read_write`: what was written under a name is read under it.

Current gaps: links, permissions and devices are not part of a tree, and a write
that has begun does not break off.
-/

namespace CalendarStamp

/-- Why a file cannot be read or written. -/
inductive FileError
  | notFound
  | alreadyThere
  | notDirectory
  | isDirectory
  | nameTooLong
  /-- The name has a character with the code zero. -/
  | invalidName
  | notText
deriving DecidableEq

/-- The sentence that reports the error. -/
def FileError.message : FileError → String
  | notFound => "No such file or directory (os error 2)"
  | alreadyThere => "File exists (os error 17)"
  | notDirectory => "Not a directory (os error 20)"
  | isDirectory => "Is a directory (os error 21)"
  | nameTooLong => "File name too long (os error 36)"
  | invalidName => "file name contained an unexpected NUL byte"
  | notText => "stream did not contain valid UTF-8"

/-- The directories other than the root, the files, and the working directory. -/
structure FileTree where
  directories : List (List String)
  files : List (List String × Bytes)
  working : List String

namespace FileTree

/-- A tree with a working directory and nothing in it. -/
def fresh (working : List String) : FileTree :=
  { directories := (List.range working.length).map fun count => working.take (count + 1)
    files := []
    working }

/-- Whether the parts lead to a directory. -/
def isDirectory (tree : FileTree) (parts : List String) : Bool :=
  parts = [] || tree.directories.contains parts

/-- The content of the file that the parts lead to. -/
def content? (tree : FileTree) (parts : List String) : Option Bytes :=
  (tree.files.find? fun file => file.1 = parts).map Prod.snd

/-- Give a file a content. -/
def setContent (tree : FileTree) (parts : List String) (content : Bytes) : FileTree :=
  { tree with files := (parts, content) :: tree.files.filter fun file => file.1 ≠ parts }

/-- Take a file away. -/
def remove (tree : FileTree) (parts : List String) : FileTree :=
  { tree with files := tree.files.filter fun file => file.1 ≠ parts }

/-- The names of what is in a directory, but not deeper. -/
def namesIn (tree : FileTree) (parts : List String) : List String :=
  ((tree.directories ++ tree.files.map Prod.fst).filter (·.dropLast = parts)).filterMap
    List.getLast?

/-- A file has the content that it was given. -/
@[simp] theorem content?_setContent (tree : FileTree) (parts : List String) (content : Bytes) :
    (tree.setContent parts content).content? parts = some content := by
  simp [content?, setContent]

/-! ## Names -/

/-- What a name stands for. -/
inductive Target
  | directory (parts : List String)
  | file (parts : List String) (content : Bytes)
  /-- Nothing yet, in a directory that there is. -/
  | vacant (parts : List String)

/-- The longest name, in bytes. -/
def maxNameLength : Nat := 4095

/-- The longest part of a name, in bytes. -/
def maxPartLength : Nat := 255

/-- The name of something in a directory. -/
def nameWithin (directory part : String) : String :=
  if directory.toList.getLast? = some '/' then directory ++ part else directory ++ "/" ++ part

/-- The name that leads to the same place from the root. -/
def nameFromRoot (tree : FileTree) (name : String) : String :=
  if name.toList.head? = some '/' then name
  else nameWithin ("/" ++ "/".intercalate tree.working) name

/-- A name from the root without slashes, or parts that lead nowhere else, at its end. -/
def trimName (name : String) : String :=
  let parts := ((Text.split '/' name.toList).map String.ofList).reverse.dropWhile fun part =>
    part = "" ∨ part = "."
  if parts = [] then "/" else "/".intercalate parts.reverse

/-- How a name leads through the tree. -/
structure Route where
  /-- The directory that the name starts from. -/
  start : List String
  /-- What stands between its slashes. -/
  parts : List String
  /-- Whether a slash at its end asks for a directory. -/
  asksDirectory : Bool

/-- The route of a name. -/
def route (tree : FileTree) (name : String) : Except FileError Route :=
  let chars := name.toList
  if chars.contains '\x00' then
    .error .invalidName
  else if chars = [] then
    .error .notFound
  else if maxNameLength < name.utf8ByteSize then
    .error .nameTooLong
  else
    .ok {
      start := if chars.head? = some '/' then [] else tree.working
      parts := ((Text.split '/' chars).map String.ofList).filter (· ≠ "")
      asksDirectory := chars.getLast? = some '/' }

/-- Follow the parts of a name from a directory. -/
def follow (tree : FileTree) (current : List String) : List String → Except FileError Target
  | [] => .ok (.directory current)
  | part :: rest =>
    if part = "." then
      tree.follow current rest
    else if part = ".." then
      tree.follow current.dropLast rest
    else if maxPartLength < part.utf8ByteSize then
      .error .nameTooLong
    else
      let next := current ++ [part]
      if tree.isDirectory next then
        tree.follow next rest
      else
        match tree.content? next with
        | some content => if rest = [] then .ok (.file next content) else .error .notDirectory
        | none => if rest = [] then .ok (.vacant next) else .error .notFound

/-- Follow the parts of a name, all of which must be directories. -/
def followDirectories (tree : FileTree) (current parts : List String) : Except FileError Target :=
  tree.follow current (parts ++ ["."])

/-- What a name stands for. -/
def resolve (tree : FileTree) (name : String) : Except FileError Target := do
  let route ← tree.route name
  if route.asksDirectory then
    tree.followDirectories route.start route.parts
  else
    tree.follow route.start route.parts

/-! ## Reading and writing -/

/-- The content of a file. -/
def read (tree : FileTree) (name : String) : Except FileError Bytes := do
  match ← tree.resolve name with
  | .file _ content => return content
  | .directory _ => throw .isDirectory
  | .vacant _ => throw .notFound

/-- The content of a file that holds a text. -/
def readText (tree : FileTree) (name : String) : Except FileError String := do
  match Utf8.decode? (← tree.read name) with
  | some text => return text
  | none => throw .notText

/-- Where a file is written under a name.  A name that asks for a directory is
refused before its last part is looked at. -/
def place (tree : FileTree) (name : String) : Except FileError (List String) := do
  let route ← tree.route name
  if route.asksDirectory then
    let _ ← tree.followDirectories route.start route.parts.dropLast
    throw .isDirectory
  else
    match ← tree.follow route.start route.parts with
    | .file parts _ => return parts
    | .vacant parts => return parts
    | .directory _ => throw .isDirectory

open Change

/-- Write a file in a directory that there is. -/
def writing (name : String) (content : Bytes) : Change FileTree FileError Unit := do
  let tree ← get
  let parts ← tree.place name
  set (tree.setContent parts content)

/-- A file that cannot be written leaves the tree as it was. -/
theorem atomic_writing (name : String) (content : Bytes) : Atomic id (writing name content) :=
  steady_get.bind_atomic fun _ => (steady_lift _).bind_atomic fun _ => (total_set _).atomic

/-- The tree after a file was written. -/
def write (tree : FileTree) (name : String) (content : Bytes) : Except FileError FileTree :=
  Prod.snd <$> (writing name content).attempt tree

theorem write_eq (tree : FileTree) (name : String) (content : Bytes) :
    tree.write name content = (tree.setContent · content) <$> tree.place name := by
  rw [write, writing, attempt_get_bind, attempt_lift_bind]
  cases tree.place name <;> rfl

/-! ## Making directories -/

/-- Follow the parts of a name from a directory, making directories on the way.
What was made before a failure stays.  A file in the way is no directory, but
where a directory was to be made it is in its place. -/
def makeAlong (tree : FileTree) (made : Bool) (current : List String) :
    List String → FileTree × Except FileError (List String)
  | [] => (tree, .ok current)
  | part :: rest =>
    if part = "." then
      tree.makeAlong made current rest
    else if part = ".." then
      tree.makeAlong made current.dropLast rest
    else if maxPartLength < part.utf8ByteSize then
      (tree, .error .nameTooLong)
    else
      let next := current ++ [part]
      if tree.isDirectory next then
        tree.makeAlong made next rest
      else if (tree.content? next).isSome then
        (tree, .error (if made ∨ rest = [] then .alreadyThere else .notDirectory))
      else
        { tree with directories := next :: tree.directories }.makeAlong true next rest

/-- Make a directory and those above it; return where it is. -/
def makeDirectory (tree : FileTree) (name : String) :
    FileTree × Except FileError (List String) :=
  match tree.route name with
  | .ok route => tree.makeAlong false route.start route.parts
  | .error e => (tree, .error e)

/-! ## Reading what was written -/

/-- Giving a file a content makes no directory. -/
@[simp] theorem isDirectory_setContent (tree : FileTree) (parts other : List String)
    (content : Bytes) :
    (tree.setContent parts content).isDirectory other = tree.isDirectory other := rfl

/-- The parts that lead to a file, or to the place for one, lead to the file
that was put there. -/
theorem follow_setContent {tree : FileTree} {current parts target : List String}
    (content : Bytes)
    (h : tree.follow current parts = .ok (.vacant target) ∨
      ∃ old, tree.follow current parts = .ok (.file target old)) :
    (tree.setContent target content).follow current parts = .ok (.file target content) := by
  induction parts generalizing current with
  | nil => simp [follow] at h
  | cons part rest ih =>
    unfold follow at h ⊢
    by_cases hdot : part = "."
    · simp only [hdot, if_true] at h ⊢
      exact ih h
    by_cases hup : part = ".."
    · simp only [hup, if_true] at h ⊢
      exact ih h
    by_cases hlong : maxPartLength < part.utf8ByteSize
    · simp [hdot, hup, hlong] at h
    by_cases hdirectory : tree.isDirectory (current ++ [part]) = true
    · simp only [hdot, hup, hlong, hdirectory, isDirectory_setContent, if_false, if_true] at h ⊢
      exact ih h
    · simp only [hdot, hup, hlong, hdirectory, isDirectory_setContent, if_false] at h ⊢
      by_cases hrest : rest = []
      · cases hcontent : tree.content? (current ++ [part]) <;> simp_all
      · cases hcontent : tree.content? (current ++ [part]) <;> simp_all

open Outcome

/-- A file is written where the name leads to a file or to a place for one. -/
theorem place_eq_ok {tree : FileTree} {name : String} {target : List String}
    (h : tree.place name = .ok target) :
    ∃ route, tree.route name = .ok route ∧ route.asksDirectory = false ∧
      (tree.follow route.start route.parts = .ok (.vacant target) ∨
        ∃ old, tree.follow route.start route.parts = .ok (.file target old)) := by
  obtain ⟨route, hroute, h⟩ := bind_eq_ok.mp h
  refine ⟨route, hroute, ?_⟩
  cases hasks : route.asksDirectory with
  | true =>
    rw [if_pos hasks] at h
    obtain ⟨_, _, h⟩ := bind_eq_ok.mp h
    contradiction
  | false =>
    rw [if_neg (by simp [hasks])] at h
    obtain ⟨found, hfound, h⟩ := bind_eq_ok.mp h
    cases found with
    | directory parts => contradiction
    | file parts old => exact ⟨rfl, .inr ⟨old, by rw [hfound, Except.ok.inj h]⟩⟩
    | vacant parts => exact ⟨rfl, .inl (by rw [hfound, Except.ok.inj h])⟩

/-- What was written under a name is read under it. -/
theorem read_write {tree written : FileTree} {name : String} {content : Bytes}
    (h : tree.write name content = .ok written) : written.read name = .ok content := by
  rw [write_eq] at h
  obtain ⟨target, hplace, rfl⟩ := map_eq_ok.mp h
  obtain ⟨route, hroute, hasks, hfollow⟩ := place_eq_ok hplace
  have hresolve : (tree.setContent target content).resolve name = .ok (.file target content) := by
    refine bind_eq_ok.mpr ⟨route, hroute, ?_⟩
    rw [if_neg (by simp [hasks])]
    exact follow_setContent content hfollow
  exact bind_eq_ok.mpr ⟨_, hresolve, rfl⟩

end FileTree

end CalendarStamp
