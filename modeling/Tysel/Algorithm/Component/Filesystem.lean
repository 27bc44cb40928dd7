import Tysel.Shared.Chars
import Tysel.Shared.Except

/-! The lexical part of the filesystem capability on Unix: the path of a request is confined to one
of the roots before it is opened beneath the directory of that root. -/

namespace Tysel.Filesystem

open Tysel.Text (trim)

abbrev Name := List Char

/-- `path` is the directory that is opened for the root. -/
structure AllowedRoot where
  parts : List Name
  path : List Char
  deriving DecidableEq

/-- `Path::components` without the root directory and the current directory. -/
def components (path : List Char) : List Name :=
  (path.splitOn '/').filter fun name => name ≠ [] ∧ name ≠ ['.']

def lexicalComponents (path : List Char) : Except String (List Name) :=
  (components path).mapM fun name =>
    if name = ['.', '.'] then .error "path is not permitted" else .ok name

/-- `Path::join` of a relative path. -/
def join (base path : List Char) : List Char :=
  if base = [] ∨ base.getLast? = some '/' then base ++ path else base ++ '/' :: path

def absolute (path base : List Char) : List Char :=
  if path.head? = some '/' then path else join base path

def resolveRoot (base raw : List Char) : Option AllowedRoot :=
  if trim raw = [] then none
  else (lexicalComponents (absolute (trim raw) base)).toOption.map fun parts =>
    ⟨parts, absolute (trim raw) base⟩

def resolveRoots (paths : List (List Char)) (base : List Char) : List AllowedRoot :=
  paths.filterMap (resolveRoot base)

def stripPrefix (path root : List Name) : Option (List Name) :=
  if path.length < root.length then none
  else if (path.zip root).any fun p => p.1 != p.2 then none
  else some (path.drop root.length)

def openLoop (parts : List Name) : List AllowedRoot → Except String (AllowedRoot × List Name)
  | [] => .error "path is not permitted"
  | root :: roots =>
    match stripPrefix parts root.parts with
    | none => openLoop parts roots
    | some [] => .error "path is not permitted"
    | some relative => .ok (root, relative)

/-- The arguments with which `open_confined` calls `open_beneath`. -/
def openConfined (path base : List Char) (roots : List AllowedRoot) :
    Except String (AllowedRoot × List Name) := do
  reject (trim path = []) "path must not be empty"
  reject (roots = []) "path is not permitted"
  let parts ← lexicalComponents (absolute path base)
  openLoop parts roots

end Tysel.Filesystem
