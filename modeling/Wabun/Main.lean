import Wabun.Console.Command

/-!
The command on a terminal. The files that a script can ask for are read
first, so that the run itself needs none.
-/

namespace Wabun.Console

/-- The modules that a text names for import. -/
def importedNames (source : String) : List String :=
  match TokenStream.ofText source with
  | .error _ => []
  | .ok stream => go (stream.tokens.map Token.kind)
where
  go : List Token.Kind → List String
    | [] => []
    | .word marker :: rest =>
      match rest with
      | .word name :: _ | .text name :: _ =>
        if marker == Keyword.importing.text then name :: go rest else go rest
      | _ => go rest
    | _ :: rest => go rest

def readEntry (path : String) : IO (Option FileEntry) := do
  if ← ((← IO.currentDir) / path).isDir then
    return some .directory
  try
    return some (.file (← IO.FS.readBinFile path))
  catch _ =>
    return none

/-- Adds the files of the modules that texts name, and of those that these
modules name in turn. -/
partial def gather (searchPath : List String) (known : List (String × FileEntry)) :
    List String → IO (List (String × FileEntry))
  | [] => return known
  | source :: sources => do
    let mut known := known
    let mut sources := sources
    for path in (importedNames source).flatMap (modulePaths searchPath) do
      if (known.lookup path).isNone then
        if let some entry ← readEntry path then
          known := (path, entry) :: known
          if let .ok text := entry.text then
            sources := text :: sources
    gather searchPath known sources

def filesOf (known : List (String × FileEntry)) : Files :=
  ⟨fun path => known.lookup path⟩

def writeChunk : Chunk → IO Unit
  | .out text => IO.print text
  | .err text => IO.eprint text

def flushOutput : IO Unit := do
  (← IO.getStdout).flush

/-- The bytes of the next line, with its line feed. -/
partial def readLine (line : ByteArray) : IO ByteArray := do
  let byte ← (← IO.getStdin).read 1
  let line := line ++ byte
  if byte.isEmpty || byte.toList == [10] then return line else readLine line

/-- The interactive session on the lines of the standard input. The texts are
all the entries so far. -/
partial def interactive (searchPath texts : List String) (repl : Repl) : IO Unit := do
  writeChunk repl.prompt
  flushOutput
  match String.fromUTF8? (← readLine .empty) with
  | none => writeChunk Repl.atUnreadable
  | some "" => writeChunk Repl.atEnd
  | some line =>
    let texts := (repl.buffer ++ line) :: texts
    let files := filesOf (← gather searchPath [] texts)
    match repl.take (host files searchPath) line with
    | (.quit, chunks) => chunks.forM writeChunk
    | (.goOn next, chunks) =>
      chunks.forM writeChunk
      interactive searchPath texts next

end Wabun.Console

open Wabun Console in
def main (arguments : List String) : IO UInt32 := do
  let environment ← IO.getEnv "KOTOBA_PATH"
  let workingDirectory := (← IO.currentDir).toString
  let finish (known : List (String × FileEntry)) : IO UInt32 := do
    let result := run
      { arguments, environment, workingDirectory, files := filesOf known, input := .empty }
    result.chunks.forM writeChunk
    return UInt32.ofNat result.code
  match Request.ofArguments arguments environment with
  | .ok (.run options) =>
    match options.file with
    | none =>
      writeChunk Repl.banner
      interactive (options.searchPath (some workingDirectory)) [] Repl.start
      return 0
    | some path =>
      match ← readEntry path with
      | none => finish []
      | some entry =>
        let texts := (entry.text.toOption).toList
        finish (← gather (options.searchPath (some (parentPath path))) [(path, entry)] texts)
  | _ => finish []
