import DecisionLogic.Json.Fields

/-!
# Surroundings

The files and environment variables that a program can see.  A path is followed name by name from
the working directory; what it ends at has to be a file, and nothing may follow a file.
-/

namespace DecisionLogic

/-- The texts of files by path, and the environment variables. -/
structure Surroundings where
  files : Fields String
  environment : Fields String

/-! ## Paths -/

namespace FilePath

def partsOf (path : String) : List String :=
  (path.toList.splitOn '/').map String.ofList

def isStay (part : String) : Bool :=
  part = "" || part = "."

/-- The places that a path passes, from the root or from the working directory. -/
def places (path : String) : List String :=
  let parts := (partsOf path).filter fun part => !isStay part
  if path.startsWith "/" then "/" :: parts else parts

/-- The last part of a path that does not stay, and those before it, if it names something in a
directory. -/
def splitName? (path : String) : Option (List String × String) :=
  match (partsOf path).reverse.dropWhile isStay with
  | [] => none
  | name :: before => if name = ".." then none else some (before.reverse, name)

/-- What follows the last point of a name, unless that point leads the name. -/
def endingOf? (name : String) : Option String :=
  match name.toList.reverse.span fun c => c ≠ '.' with
  | (ending, '.' :: _ :: _) => some (String.ofList ending.reverse)
  | _ => none

def ending? (path : String) : Option String := do
  let (_, name) ← splitName? path
  endingOf? name

def addEnding? (path ending : String) : Option String :=
  (splitName? path).map fun (before, name) =>
    "/".intercalate (before ++ [name ++ "." ++ ending])

end FilePath

/-! ## Files -/

namespace Surroundings

/-- Some file lies below a place.  The working directory and those around it are always there. -/
def isDirectory (surroundings : Surroundings) (place : List String) : Bool :=
  place.all (fun part => part = ".." || part = "/") ||
    surroundings.files.any fun entry =>
      let places := FilePath.places entry.1
      place.isPrefixOf places && place.length < places.length

def fileAt? (surroundings : Surroundings) (place : List String) : Option String :=
  (List.find? (fun entry => FilePath.places entry.1 = place) surroundings.files).map Prod.snd

def around (place : List String) : List String :=
  if place.all fun part => part = ".." then place ++ [".."]
  else if place = ["/"] then place
  else place.dropLast

/-- The text of the file that the parts of a path lead to from a directory. -/
def follow? (surroundings : Surroundings) (directory : List String) : List String → Option String
  | [] => none
  | part :: parts =>
      if FilePath.isStay part then surroundings.follow? directory parts
      else if part = ".." then surroundings.follow? (around directory) parts
      else
        let place := directory ++ [part]
        if surroundings.isDirectory place then surroundings.follow? place parts
        else if parts.isEmpty then surroundings.fileAt? place
        else none

def file? (surroundings : Surroundings) (path : String) : Option String :=
  match surroundings.files.find? path with
  | some text => some text
  | none =>
      surroundings.follow? (if path.startsWith "/" then ["/"] else []) (FilePath.partsOf path)

end Surroundings
end DecisionLogic
