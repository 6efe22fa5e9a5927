import Dt.Lib.Text

/-!
# Node paths

The part of the runtime-layout contract that the registry checks: the components of a POSIX path
as `PurePosixPath` reads them, and the normal form of a DT base root.
-/

namespace Dt.Layout

open Dt.Lib

def maxNodePathBytes : Nat := 4096

def maxNodePathComponentBytes : Nat := 255

/-- The components of a path below its root: empty ones and `.` are dropped. -/
def pathParts (s : List Char) : List String :=
  ((splitOn '/' s).map String.ofList).filter fun p => p ≠ "" && p ≠ "."

/-- `PurePosixPath(s).is_absolute()`. -/
def isAbsolute (s : List Char) : Bool := s.head? = some '/'

/-- `s.rstrip("/")`. -/
def rstripSlash (s : List Char) : List Char := (s.reverse.dropWhile (· = '/')).reverse

def validatePathSize (path : String) (parts : List String) : Except String Unit :=
  if maxNodePathBytes < path.utf8ByteSize then .error "root exceeds 4096 bytes"
  else if parts.any fun p => maxNodePathComponentBytes < p.utf8ByteSize then
    .error "root component exceeds 255 bytes"
  else .ok ()

/-- One safe absolute-or-home-relative DT base root. -/
def normalizeNodeRoot (value : String) : Except String String :=
  let cs := value.toList
  if '\x00' ∈ cs || '\n' ∈ cs || '\r' ∈ cs then .error "root contains a control character"
  else
    let root := rstripSlash (strip cs)
    if root = [] || root = ['/'] || root = ['~'] then
      .error "root must name a dedicated directory"
    else
      let parts : Except String (List String) :=
        match root with
        | '~' :: '/' :: rest =>
          if isAbsolute rest then .error "root must not contain empty or absolute components"
          else .ok (pathParts rest)
        | '/' :: _ => .ok (pathParts root)
        | _ => .error "root must be absolute or start with ~/"
      match parts with
      | .error m => .error m
      | .ok ps =>
        if ps = [] || ps.any (fun p => p = "" || p = "." || p = "..") then
          .error "root must not contain . or .. components"
        else (validatePathSize (String.ofList root) ps).map fun _ => String.ofList root

example : normalizeNodeRoot "/srv/dt//" = .ok "/srv/dt" := by decide

example : (normalizeNodeRoot "~/../x").toOption = none := by decide

end Dt.Layout
