/-!
# Display names

Error messages and log events name value types and codecs. The names are part of what the library
answers, and readers of logs search for them, so they are spelled out here once.
-/

namespace CommandWire.DisplayName

/-- The name of a name applied to another one. -/
def applied (head argument : String) : String := head ++ "<" ++ argument ++ ">"

/-! ### Value types -/

def text : String := "alloc::string::String"

def unit : String := "()"

def pair (first second : String) : String := "(" ++ first ++ ", " ++ second ++ ")"

def option (item : String) : String := applied "core::option::Option" item

def list (item : String) : String := applied "alloc::vec::Vec" item

def stringMap (item : String) : String :=
  applied "alloc::collections::btree::map::BTreeMap" (text ++ ", " ++ item)

/-- A type of command arguments, in its group. -/
def argument (group type : String) : String :=
  "cachesync_codec::composite::" ++ group ++ "::" ++ type

def range (value : String) : String := applied (argument "range" "Range") value

/-! ### Codecs -/

/-- A codec for values of fixed width. -/
def primitiveCodec (codec : String) : String := "cachesync_codec::primitive::" ++ codec

def textCodec : String := "cachesync_codec::text::StringCodec"

def ordinalCodec (type : String) : String := applied "cachesync_codec::ordinal::EnumCodec" type

def fallbackCodec (type : String) : String := applied "cachesync_codec::fallback::GenericCodec" type

def rangeCodec (valueCodec : String) : String := applied (argument "range" "RangeCodec") valueCodec

end CommandWire.DisplayName
