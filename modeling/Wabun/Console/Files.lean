import Wabun.Node.Lowering
import Wabun.Session
import Wabun.Text.Search

/-!
The files that a script can reach. Paths are taken as they are written: a
path is resolved step by step, and every step but the last leads through a
directory. Modules are looked for in the directories of a search path.
-/

namespace Wabun.Console

inductive FileEntry where
  | directory
  | file (content : ByteArray)

/-- What there is at a path. -/
structure Files where
  find? : String → Option FileEntry

/-- The parts of a path between its slashes. -/
def pathParts (path : String) : List String :=
  Text.parts '/' path

/-- Files below one directory, by the parts of their paths. -/
structure FileTree where
  /-- the absolute path of the directory -/
  root : String
  files : List (List String × ByteArray)

namespace FileTree

/-- A place that a path leads to: a directory or file of the tree, or one of
the directories above the tree. -/
inductive Place where
  | inside (parts : List String)
  | above

def entry? (tree : FileTree) : Place → Option FileEntry
  | .above => some .directory
  | .inside parts =>
    match tree.files.lookup parts with
    | some content => some (.file content)
    | none =>
      if parts.isEmpty || tree.files.any fun (path, _) => parts.isPrefixOf path then
        some .directory
      else
        none

def isDirectory (tree : FileTree) (place : Place) : Bool :=
  match tree.entry? place with
  | some .directory => true
  | _ => false

/-- One step from a directory. -/
def step : Place → String → Option Place
  | place, "" => some place
  | place, "." => some place
  | .above, ".." => some .above
  | .above, _ => none
  | .inside parts, ".." => some (if parts.isEmpty then .above else .inside parts.dropLast)
  | .inside parts, name => some (.inside (parts ++ [name]))

def walk (tree : FileTree) : Place → List String → Option FileEntry
  | place, [] => tree.entry? place
  | place, part :: rest => do
    if tree.isDirectory place then
      tree.walk (← step place part) rest
    else
      none

/-- Paths below the directory of the tree, relative or absolute. -/
def toFiles (tree : FileTree) : Files where
  find? path :=
    if path == tree.root then
      some .directory
    else if (tree.root ++ "/").toList.isPrefixOf path.toList then
      tree.walk (.inside []) (pathParts (String.ofList (path.toList.drop (tree.root.length + 1))))
    else if path.toList.head? == some '/' then
      if path.toList.all (· == '/') then some .directory else none
    else
      tree.walk (.inside []) (pathParts path)

end FileTree

/-- The part of a path before its last name, without empty steps at its end. -/
def parentPath (path : String) : String :=
  let parts := dropEmpty (dropEmpty (pathParts path).reverse).tail
  if parts == [""] then "/" else "/".intercalate parts.reverse
where
  /-- The parts are given in reverse. A leading dot is a step of its own. -/
  dropEmpty : List String → List String
    | [] => []
    | [part] => [part]
    | part :: rest => if part == "" || part == "." then dropEmpty rest else part :: rest

/-- A path below a directory. An absolute path is not below any. -/
def joinPath (directory path : String) : String :=
  if path.toList.head? == some '/' || directory.isEmpty then path
  else if directory.toList.getLast? == some '/' then directory ++ path
  else directory ++ "/" ++ path

def invalidText : String := "stream did not contain valid UTF-8"

def directoryRead : String := "Is a directory (os error 21)"

/-- The text of a file, or why it cannot be read. -/
def FileEntry.text : FileEntry → Except String String
  | directory => .error directoryRead
  | file content =>
    match String.fromUTF8? content with
    | some text => .ok text
    | none => .error invalidText

/-- Where a module can be, along a search path. -/
def modulePaths (searchPath : List String) (name : String) : List String :=
  searchPath.map fun directory => joinPath directory (name ++ ".ktb")

/-- The statements of a module, from the first file that can be it. -/
def loadModule (files : Files) (searchPath : List String) (name : String) :
    Except ModuleFault (List Node) :=
  let found := (modulePaths searchPath name).findSome? fun path =>
    match files.find? path with
    | some (.file content) => some (path, FileEntry.file content)
    | _ => none
  match found with
  | none => .error (.notFound name searchPath)
  | some (path, entry) =>
    match entry.text with
    | .error reason => .error (.unreadable path reason)
    | .ok source =>
      match Node.ofText source with
      | .error diagnostic => .error (.faulty path diagnostic)
      | .ok program => .ok program.statements

/-- The host of a script: its modules are files. -/
def host (files : Files) (searchPath : List String) : Host :=
  { Host.standard with modules := loadModule files searchPath }

end Wabun.Console
