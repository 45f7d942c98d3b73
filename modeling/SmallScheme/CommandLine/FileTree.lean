import SmallScheme.CommandLine.Path
import SmallScheme.Text.Utf8

/-!
The files that a run can see, and why one of them cannot be read.
-/

set_option autoImplicit false
set_option relaxedAutoImplicit false

namespace SmallScheme.CommandLine

/-- Why a file cannot be read. -/
inductive FileFault where
  | missing
  | denied
  | notDirectory
  | isDirectory
  | nameTooLong
  | undecodable (fault : Text.Utf8.Fault)
  deriving DecidableEq, Repr

def FileFault.message (path : Path) : FileFault → String
  | .missing => s!"[Errno 2] No such file or directory: {Text.Quoted.quote path.text}"
  | .denied => s!"[Errno 13] Permission denied: {Text.Quoted.quote path.text}"
  | .notDirectory => s!"[Errno 20] Not a directory: {Text.Quoted.quote path.text}"
  | .isDirectory => s!"[Errno 21] Is a directory: {Text.Quoted.quote path.text}"
  | .nameTooLong => s!"[Errno 36] File name too long: {Text.Quoted.quote path.text}"
  | .undecodable fault => fault.message

/-- How the text of a file is found. -/
abbrev Files := Path → Except FileFault String

inductive Node where
  | file (bytes : List UInt8)
  | directory

/-- Files and directories by their parts, seen from one directory. -/
structure FileTree where
  nodes : List (List String × Node)

/-- A place on the way along a path. -/
inductive Place where
  /-- The parts from the working directory on, last part first. -/
  | inside (parts : List String)
  /-- A directory above the working directory, of which nothing else is known. -/
  | above
  /-- The parts from the root on, last part first. -/
  | rooted (parts : List String)

namespace FileTree

/-- Names of the files and directories of a tree, each given by its path. -/
def ofList (entries : List (String × Node)) : FileTree :=
  ⟨entries.map fun (name, node) => ((Path.ofText name).parts, node)⟩

/-- What stands at the given parts. A directory exists if it is listed or leads to something listed. -/
def find? (t : FileTree) (parts : List String) : Option Node :=
  match t.nodes.find? (·.1 = parts) with
  | some (_, node) => some node
  | none =>
      if parts.isEmpty || t.nodes.any (fun entry => parts.isPrefixOf entry.1) then
        some .directory
      else none

def longestName : Nat := 255

def pathLimit : Nat := 4096

/-- The directories that every system has at its root, and the file that is always empty. Nothing else
is known of the root. -/
def system : FileTree :=
  ⟨(["dev", "null"], .file []) ::
    ["bin", "dev", "etc", "home", "lib", "media", "mnt", "opt", "proc", "root", "run", "sbin", "srv",
      "sys", "tmp", "usr", "var"].map fun name => ([name], .directory)⟩

/-- Take one part of a path at the given parts of a tree, last part first. The way up from the tree's own
directory leads nowhere in it. -/
def descend (t : FileTree) (part : String) (parts : List String) :
    Except FileFault (Option (List String)) :=
  match t.find? parts.reverse with
  | none => .error .missing
  | some (.file _) => .error .notDirectory
  | some .directory =>
      if part = ".." then
        match parts with
        | [] => .ok none
        | _ :: outer => .ok (some outer)
      else if longestName < part.utf8ByteSize then .error .nameTooLong
      else .ok (some (part :: parts))

/-- Take one part of a path from a place. The root is its own outer directory. -/
def enter (t : FileTree) (part : String) : Place → Except FileFault Place
  | .inside parts => do
      match ← t.descend part parts with
      | some parts => return .inside parts
      | none => return .above
  | .above =>
      if part = ".." then .ok .above
      else if longestName < part.utf8ByteSize then .error .nameTooLong
      else .error .missing
  | .rooted parts => do
      return .rooted ((← system.descend part parts).getD [])

def node? (t : FileTree) : Place → Option Node
  | .inside parts => t.find? parts.reverse
  | .above => some .directory
  | .rooted parts => system.find? parts.reverse

def read (t : FileTree) (path : Path) : Except FileFault (List UInt8) := do
  if pathLimit ≤ path.text.utf8ByteSize then .error .nameTooLong
  let origin : Place := if path.anchor = "" then .inside [] else .rooted []
  match t.node? (← path.parts.foldlM (fun place part => t.enter part place) origin) with
  | none => .error .missing
  | some .directory => .error .isDirectory
  | some (.file bytes) => .ok bytes

def decode (bytes : List UInt8) : Except FileFault String :=
  match Text.Utf8.decode bytes with
  | .ok text => .ok text
  | .error fault => .error (.undecodable fault)

def files (t : FileTree) : Files :=
  fun path => do decode (← t.read path)

end FileTree

end SmallScheme.CommandLine
