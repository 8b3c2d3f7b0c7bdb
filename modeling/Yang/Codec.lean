import Yang.Codec.Json
import Yang.Codec.Xml
import Yang.Text.Quoted

/-!
# Codecs

A stream is an encoded payload, with the resource to which it belongs when it is tagged
with one. A dispatcher binds the names of formats to codecs and hands payloads and data
over to them. The size of a payload is bounded.
-/

namespace Yang

namespace Instance

structure Stream where
  payload : ByteArray
  resource : Option String := none

namespace Stream

def ofText (s : String) (resource : Option String) : Stream := ⟨s.toUTF8, resource⟩

def text (s : Stream) : Except Error String :=
  match Text.Utf8.decode s.payload with
  | .ok text => .ok text
  | .error fault => .error (.decode (.notText fault))

end Stream

end Instance

open Instance

/-- A way to write data. -/
inductive Codec
  | json (indented : Bool)
  | xml
deriving DecidableEq, Repr

namespace Codec

def decode (codec : Codec) (c : Context) (s : Stream) : Except Error ResourceData := do
  let text ← s.text
  let nodes ← match codec with
    | .json _ => Json.decode c text
    | .xml => Xml.decode c text
  return { nodes := nodes }

/-- The stream of data, tagged with the resource to which the data belongs. The
resource is written in the tag only: the text holds the nodes, whatever they
stand below. -/
def encode (codec : Codec) (c : Context) (d : ResourceData) : Except Error Stream := do
  let text ← match codec with
    | .json indented => Json.encode c indented d.nodes
    | .xml => Xml.encode c d.nodes
  return Stream.ofText text (d.resource.map ResourceId.text)

/-- The formats that are bound at first. -/
def defaults : List (String × Codec) := [("json", .json false), ("xml", .xml)]

/-- Codecs by the names of their formats, over a schema. -/
structure Dispatcher where
  context : Context
  bound : List (String × Codec) := defaults

namespace Dispatcher

def codec (d : Dispatcher) (format : String) : Except Error Codec :=
  match d.bound.lookup format with
  | some codec => .ok codec
  | none => .error (.formatNotBound format)

def decode (d : Dispatcher) (format : String) (s : Stream) : Except Error ResourceData := do
  d.context.limits.check .payloadSize s.payload.size
  let codec ← d.codec format
  codec.decode d.context s

def encode (d : Dispatcher) (format : String) (data : ResourceData) : Except Error Stream := do
  let codec ← d.codec format
  codec.encode d.context data

def binds (d : Dispatcher) (format : String) : Bool := (d.bound.lookup format).isSome

/-- Bind a format, in place of what it was bound to. -/
def bind (d : Dispatcher) (format : String) (codec : Codec) : Dispatcher :=
  { d with bound := Table.put format codec d.bound }

def unbind (d : Dispatcher) (format : String) : Dispatcher :=
  { d with bound := Table.erase format d.bound }

def formats (d : Dispatcher) : List String :=
  (d.bound.map Prod.fst).mergeSort fun a b => decide (a ≤ b)

def shown (d : Dispatcher) : String :=
  "SerializerRegistry \x7b formats: [" ++ ", ".intercalate (d.formats.map Text.quoted) ++ "] \x7d"

end Dispatcher

end Codec

end Yang
