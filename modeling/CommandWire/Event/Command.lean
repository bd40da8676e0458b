import CommandWire.Method.Basic

/-!
# Command events

A command event is one call of a method in an application: a value or nothing for each parameter,
and possibly the version in which it is to be sent. The arguments are values of type `ν`, so that
an event can hold bare values as well as values at a place in memory.
-/

namespace CommandWire

/-- A call of a method. -/
structure CommandEvent (ν : Type) where
  application : String
  method : Method
  /-- One for each parameter; `none` is an argument that is missing. -/
  arguments : List (Option ν)
  /-- The tag of the version, if the event names one. -/
  version : Option UInt8
deriving DecidableEq

namespace CommandEvent

variable {ν μ : Type}

/-- The same call with other values for the arguments. -/
def map (f : ν → μ) (e : CommandEvent ν) : CommandEvent μ :=
  { e with arguments := e.arguments.map (Option.map f) }

/-- The argument at a position, if there is one and it is of the given type. -/
def argument? (α : Type) [Carriable α] (e : CommandEvent AnyValue) (index : Nat) : Option α :=
  match e.arguments[index]? with
  | some (some value) => value.as? α
  | _ => none

/-- There is an argument at the position, and it is missing. -/
def isNull (e : CommandEvent ν) (index : Nat) : Bool :=
  match e.arguments[index]? with
  | some none => true
  | _ => false

end CommandEvent

end CommandWire
