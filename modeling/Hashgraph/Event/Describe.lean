import Hashgraph.Event.Basic
import Hashgraph.Text.Json
import Hashgraph.Text.Record

/-! Events shown in full: as one line of text, and as a JSON value. -/

namespace Hashgraph

def Descriptor.describe (descriptor : Descriptor) : String :=
  Text.record "EventDescriptor"
    [("hash", descriptor.hash.describe), ("generation", toString descriptor.generation)]

def Event.describe (event : Event) : String :=
  Text.record "GossipEvent"
    [("hash", event.hash.describe),
      ("creator", event.creator.describe),
      ("generation", toString event.generation),
      ("self_parent", Text.optional (event.selfParent.map Descriptor.describe)),
      ("other_parent", Text.optional (event.otherParent.map Descriptor.describe)),
      ("transactions",
        Text.bracketed (event.transactions.map fun bytes => Text.bracketed (bytes.map toString))),
      ("timestamp", toString event.timestamp)]

def Bytes.toJson (bytes : Bytes) : Text.Json :=
  .array (bytes.map fun byte => .int byte.toNat)

def EventHash.toJson (hash : EventHash) : Text.Json := .object [("hash", hash.toBytes.toJson)]

def Descriptor.toJson (descriptor : Descriptor) : Text.Json :=
  .object [("hash", descriptor.hash.toJson), ("generation", .int descriptor.generation.toInt)]

def Descriptor.optionalJson : Option Descriptor → Text.Json
  | none => .null
  | some descriptor => descriptor.toJson

def Event.toJson (event : Event) : Text.Json :=
  .object
    [("hash", event.hash.toJson),
      ("creator", .object [("id", event.creator.toBytes.toJson)]),
      ("generation", .int event.generation.toInt),
      ("self_parent", Descriptor.optionalJson event.selfParent),
      ("other_parent", Descriptor.optionalJson event.otherParent),
      ("transactions", .array (event.transactions.map Bytes.toJson)),
      ("timestamp", .int event.timestamp.toInt)]

end Hashgraph
