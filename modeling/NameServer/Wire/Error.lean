import NameServer.RecordType

/-!
# Wire.Error — why names and messages are refused

Every cause is one constructor. Its kind says whether the data is ill formed, runs past a bound, or
breaks a rule of the protocol; its wording is in `WireError.detail` alone.
-/

namespace NameServer

/-- The three kinds of refusal. -/
inductive WireError.Kind
  | format
  | range
  | protocol
  deriving DecidableEq, Repr

/-- The words that open the message of a kind. -/
def WireError.Kind.title : WireError.Kind → String
  | .format => "Invalid format"
  | .range => "Out of range"
  | .protocol => "Protocol violation"

/-- The causes for which a label, a name, a record payload or a message is refused. -/
inductive WireError
  -- labels and names
  | emptyLabel
  | longLabel (size : Nat)
  | dottedLabel (text : String)
  | labelNotText
  | emptyName
  | manyLabels (count : Nat)
  | longName (size : Nat)
  -- names on the wire
  | nameRunsOut (start : Nat)
  | labelRunsOut (pos : Nat)
  | manyLabelsAt (start : Nat)
  | longNameAt (start : Nat)
  | pointerRunsOut (pos : Nat)
  | pointerForward (pos : Nat)
  | manyPointers
  | labelType (byte : UInt8) (pos : Nat)
  -- zone nodes of a name
  | manyNodes (nodes labels : Nat)
  | badNode (id : Int)
  -- compression
  | placeOutside (offset : Nat)
  -- fields of a message
  | word16RunsOut (pos : Nat)
  | word32RunsOut (pos : Nat)
  | shortHeader (size : Nat)
  | questionCount (count : UInt16)
  | opcode (code : Nat)
  | responseCode (code : Nat)
  | questionClass (cls : RecordClass)
  | recordClass (cls : RecordClass)
  -- record payloads
  | payloadRunsOut (pos : Nat)
  | addressRunsOut (pos : Nat)
  | chunkRunsOut (pos : Nat)
  | textNotText
  | payloadLength (type : RecordType) (pos declared held : Nat)
  | payloadType (type : RecordType)
  deriving DecidableEq, Repr

namespace WireError

/-- The lower-case hexadecimal form of a byte, with both digits. -/
def hexByte (b : UInt8) : String :=
  String.ofList ("0x".toList ++ [Nat.digitChar (b.toNat / 16), Nat.digitChar (b.toNat % 16)])

/-- What kind of refusal a cause is. -/
def kind : WireError → Kind
  | emptyLabel | longLabel _ | dottedLabel _ | labelNotText | emptyName | manyLabels _ | longName _
  | longNameAt _ | labelType _ _ | textNotText | payloadLength _ _ _ _ => .format
  | nameRunsOut _ | labelRunsOut _ | manyLabelsAt _ | pointerRunsOut _ | pointerForward _
  | manyPointers | manyNodes _ _ | badNode _ | placeOutside _ | word16RunsOut _ | word32RunsOut _
  | shortHeader _ | payloadRunsOut _ | addressRunsOut _ | chunkRunsOut _ => .range
  | questionCount _ | opcode _ | responseCode _ | questionClass _ | recordClass _
  | payloadType _ => .protocol

/-- The wording of a cause. -/
def detail : WireError → String
  | emptyLabel => "empty label"
  | longLabel size => s!"label of {size} bytes exceeds 63"
  | dottedLabel text => s!"label '{text}' contains a dot"
  | labelNotText => "label is not valid UTF-8"
  | emptyName => "empty name"
  | manyLabels count => s!"{count} labels exceeds the limit of 127"
  | longName size => s!"name of {size} bytes exceeds 255"
  | nameRunsOut start => s!"name at offset {start} runs past end of packet"
  | labelRunsOut pos => s!"label at offset {pos} is truncated"
  | manyLabelsAt start => s!"name at offset {start} has more than 127 labels"
  | longNameAt start => s!"name at offset {start} exceeds 255 bytes"
  | pointerRunsOut pos => s!"pointer at offset {pos} is truncated"
  | pointerForward pos => s!"pointer at offset {pos} does not point backward"
  | manyPointers => "too many compression pointers"
  | labelType byte pos => s!"unsupported label type {hexByte byte} at offset {pos}"
  | manyNodes nodes labels => s!"{nodes} zone nodes for a name of {labels} labels"
  | badNode id => s!"invalid zone node id {id} in resolved name"
  | placeOutside offset => s!"compression offset {offset} outside 12..=16383"
  | word16RunsOut pos => s!"16-bit field at offset {pos} is truncated"
  | word32RunsOut pos => s!"32-bit field at offset {pos} is truncated"
  | shortHeader size => s!"packet of {size} bytes is shorter than the header"
  | questionCount count => s!"QDCOUNT is {count}, expected 1"
  | opcode code => s!"unsupported opcode {code}"
  | responseCode code => s!"unsupported rcode {code}"
  | questionClass cls => s!"question class {cls.text} is not IN"
  | recordClass cls => s!"record class {cls.text} is not IN"
  | payloadRunsOut pos => s!"rdata at offset {pos} runs past end of packet"
  | addressRunsOut pos => s!"A rdata at offset {pos} is truncated"
  | chunkRunsOut pos => s!"TXT chunk at offset {pos} is truncated"
  | textNotText => "TXT data is not UTF-8"
  | payloadLength type pos declared held =>
    s!"{type.text} rdata at offset {pos} declares {declared} bytes but holds {held}"
  | payloadType type => s!"record type {type.text} is not supported"

/-- The full message: the title of the kind and the wording of the cause. -/
def message (e : WireError) : String :=
  e.kind.title ++ ": " ++ e.detail

end WireError
end NameServer
