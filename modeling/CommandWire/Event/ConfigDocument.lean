import CommandWire.Event.Config
import CommandWire.Toml.Document

/-!
# Configurations as TOML documents

Each setting is a key of the document. A setting that is one of several names is given as that
name, or as a table whose only key is the name and whose value is empty. Settings that are not
given keep their defaults; other keys are refused, and so is a document whose settings are not
valid.
-/

namespace CommandWire.EventConfig

open Toml

/-- The name that a node gives. -/
def namedBy? : Node → Option String
  | .text name => some name
  | .table _ [(name, .emptyArray)] => some name
  | .table _ [(name, .table _ [])] => some name
  | _ => none

/-- The one of several values whose name a node gives. -/
def choice? {α : Type} (all : List α) (name : α → String) (node : Node) : Option α := do
  let given ← namedBy? node
  all.find? fun a => name a = given

/-- A number that fits a byte. -/
def byte? : Node → Option UInt8
  | .integer n => if 0 ≤ n ∧ n < 256 then some (.ofNat n.toNat) else none
  | _ => none

/-- The configuration with one setting changed. -/
def change? (c : EventConfig) : String × Node → Option EventConfig
  | ("version", node) =>
    (choice? WireVersion.all WireVersion.name node).map fun version => { c with version }
  | ("unknown_version", node) =>
    (choice? UnknownVersionPolicy.all UnknownVersionPolicy.name node).map
      fun unknownVersion => { c with unknownVersion }
  | ("max_argument_len", node) =>
    (byte? node).map fun maxArgumentLength => { c with maxArgumentLength }
  | _ => none

/-- The valid configuration that a document holds. -/
def ofDocument (text : String) : Except CodecError EventConfig := do
  match (document? text).bind (·.foldlM change? default) with
  | none => throw .unreadableConfig
  | some config =>
    config.validate
    return config

end CommandWire.EventConfig
