import DecisionLogic.Failure
import DecisionLogic.Json.Basic
import DecisionLogic.Text.Numeral

/-!
# Scopes

A scope is a place inside some data together with the places that enclose it, nearest first.  A path
walks up one enclosing place for each leading `../`, and then down by keys and indices separated by
dots; each step down encloses the new place in the one it was taken from.  A path that names the
reserved field is refused before any data is looked at.
-/

namespace DecisionLogic

def reservedField : String :=
  "__proto__"

/-! ## Paths -/

/-- A path: how many places up, and then which keys down. -/
structure Path where
  ups : Nat
  keys : List String
deriving DecidableEq, Repr

namespace Path

/-- The characters after the leading `../`, and how many of those there are. -/
def stripUps : List Char → Nat × List Char
  | '.' :: '.' :: '/' :: rest => let (ups, rest) := stripUps rest; (ups + 1, rest)
  | rest => (0, rest)

def segments : List Char → List (List Char)
  | [] => [[]]
  | c :: cs =>
      if c = '.' then [] :: segments cs
      else
        match segments cs with
        | [] => [[c]]
        | first :: rest => (c :: first) :: rest

/-- A path without anything after its leading `../` has no keys; otherwise it has one more key
than dots. -/
def parse (text : String) : Path :=
  let (ups, rest) := stripUps text.toList
  if rest.isEmpty then ⟨ups, []⟩ else ⟨ups, (segments rest).map String.ofList⟩

end Path

/-! ## Steps into data -/

namespace Json

def index? (key : String) : Option Nat :=
  Text.natural? key.toList

/-- The value one step down: a field of an object or an item of an array. -/
def step? : Json → String → Option Json
  | .object fields, key => Fields.find? fields key
  | .array items, key => (index? key).bind fun i => items[i]?
  | _, _ => none

def follow? : Json → List String → Option Json
  | value, [] => some value
  | value, key :: keys => (value.step? key).bind fun next => next.follow? keys

end Json

/-! ## Places and scopes -/

/-- A place inside `root`, reached by the steps `keys`. -/
structure Place where
  root : Json
  keys : List String

def Place.data (place : Place) : Json :=
  (place.root.follow? place.keys).getD .null

structure Scope where
  here : Place
  enclosing : List Place

namespace Scope

def ofData (data : Json) : Scope :=
  ⟨⟨data, []⟩, []⟩

def withAbove (data : Json) (above : List Json) : Scope :=
  ⟨⟨data, []⟩, above.map fun value => ⟨value, []⟩⟩

def child (scope : Scope) (data : Json) : Scope :=
  ⟨⟨data, []⟩, scope.here :: scope.enclosing⟩

def descend (scope : Scope) (key : String) : Scope :=
  ⟨⟨scope.here.root, scope.here.keys ++ [key]⟩, scope.here :: scope.enclosing⟩

def data (scope : Scope) : Json :=
  scope.here.data

def parent? (scope : Scope) : Option Scope :=
  match scope.enclosing with
  | [] => none
  | place :: rest => some ⟨place, rest⟩

def depth (scope : Scope) : Nat :=
  scope.enclosing.length

def ancestor (scope : Scope) : Nat → Scope
  | 0 => scope
  | n + 1 =>
      match scope.parent? with
      | none => scope.ancestor n
      | some parent => parent.ancestor n

/-- The scope several steps down, if `value`, the data of this scope, has them all. -/
def walk? (scope : Scope) (value : Json) : List String → Option Scope
  | [] => some scope
  | key :: keys => (value.step? key).bind fun next => (scope.descend key).walk? next keys

def lookup (scope : Scope) (text : String) : Except Failure (Option Scope) :=
  let path := Path.parse text
  let start := scope.ancestor path.ups
  if reservedField ∈ path.keys then .error (.pathSecurity text reservedField)
  else .ok (start.walk? start.data path.keys)

def resolve (scope : Scope) (text : String) : Except Failure Json :=
  (scope.lookup text).map fun found =>
    match found with
    | some target => target.data
    | none => .null

def set (_scope : Scope) (text : String) (_value : Json) : Except Failure Unit :=
  .error (.mutation text)

@[simp] theorem parent?_child (scope : Scope) (data : Json) :
    (scope.child data).parent? = some scope := rfl

@[simp] theorem parent?_descend (scope : Scope) (key : String) :
    (scope.descend key).parent? = some scope := rfl

@[simp] theorem data_child (scope : Scope) (data : Json) : (scope.child data).data = data := rfl

@[simp] theorem depth_child (scope : Scope) (data : Json) :
    (scope.child data).depth = scope.depth + 1 := rfl

@[simp] theorem depth_descend (scope : Scope) (key : String) :
    (scope.descend key).depth = scope.depth + 1 := rfl

end Scope
end DecisionLogic
