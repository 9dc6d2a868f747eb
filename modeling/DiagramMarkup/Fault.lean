import DiagramMarkup.Number.Reader
import DiagramMarkup.Text.Quoted

/-!
# Faults

What can be wrong with a piece of text or markup, as one type of causes. Every wording stands in
`Fault.message`; nothing else in the library builds these texts.
-/

namespace DiagramMarkup

open Text (quote quoteSingle leadByte)

/-- The readers whose complaints appear in messages. -/
inductive Reader where
  | float
  | int
  | count
  | bool
deriving Repr, DecidableEq

/-- The name a reader gives itself. -/
def Reader.name : Reader → String
  | .float => "strconv.ParseFloat"
  | .int => "strconv.ParseInt"
  | .count => "strconv.Atoi"
  | .bool => "strconv.ParseBool"

/-- The wording of a reading fault. -/
def Number.ReadFault.message : Number.ReadFault → String
  | .malformed => "invalid syntax"
  | .outOfRange => "value out of range"

/-- What a rejected option value was. -/
inductive OptionFault where
  | scale (got : String)
  | border (got : String)
  | limits (loop var depth path : Int)
  | fontSize (got : String)
  | unknown (name : String)
  | value (name : String) (reader : Reader) (text : String) (why : Number.ReadFault)
  | notMember (name given kind : String)
deriving Repr, DecidableEq

/-- What is wrong with a value, an attribute or an element. -/
inductive Fault where
  -- numbers, lengths and locations
  | number (reader : Reader) (text : String) (why : Number.ReadFault)
  | numberIn (part whole : String)
  | notPair (text : String)
  | location (name : String)
  | length (text number : String) (why : Number.ReadFault)
  | notEdge (name : String)
  -- attributes of shapes
  | attrNumber (name text : String)
  | oddPoints (text : String)
  -- path data
  | pathOffset (offset : Nat) (d : String)
  | pathNumber (text : String)
  | pathChar (c : Char) (offset : Nat)
  | unbalanced (d : String)
  | repeatForm
  | repeatCount (text : String)
  | loneBracket
  | openRepeat
  | repeatLimit (count limit : Int)
  | unexpandedRepeat
  | noCommand (d : String)
  | numberAfter (cmd : Char)
  | truncated (cmd : Char)
  -- references and positions
  | missingId (text : String)
  | within (text : String) (fault : Fault)
  | direction (text : String)
  | afterReference (c : Char) (text : String)
  | manyGaps (text : String)
  | plainNumber (text : String)
  | manyOffsets (n : Nat)
  | unsupported (name : String)
  | locatedSize (text : String)
  | manyAdjustments (text : String)
  | noReferences
  | notReference (text : String)
  | margin (text : String)
  | exclusive
  | notSingle (text : String)
  | noGeometry (name : String)
  | directedEnd (text : String)
  | noOverlap (refs : String)
  -- references to elements
  | noPrevious
  | badReference (ref : String)
  | noBox (ref : String)
  | unresolvedContent
  | unknownId (id : String)
  | cycle
  -- documents
  | noRoot
  | nestedSpecs
  | templateId
  | loopCount (text : String)
  | loopForm
  | forData
  | ifTest
  | noSize
  | reuseTarget
  | halfConnector
  -- options and style sheets
  | option (why : OptionFault)
  | stylesheet
  | notMember (given kind : String)
deriving Repr, DecidableEq

/-- The wording of a rejected option value. -/
def OptionFault.message : OptionFault → String
  | .scale got => "scale must be positive, got " ++ got
  | .border got => "border must not be negative, got " ++ got
  | .limits loop var depth path =>
    s!"limits must be positive (loop {loop}, var {var}, depth {depth}, path repeat {path})"
  | .fontSize got => "font size must be positive, got " ++ got
  | .unknown name => "unknown option " ++ quote name
  | .value name reader text why =>
    "option " ++ name ++ ": " ++ reader.name ++ ": parsing " ++ quote text ++ ": " ++ why.message
  | .notMember name given kind => "option " ++ name ++ ": " ++ given ++ " is not a valid " ++ kind

/-- The wording of a fault. -/
def Fault.message : Fault → String
  | .number reader text why => reader.name ++ ": parsing " ++ quote text ++ ": " ++ why.message
  | .numberIn part whole => "invalid number " ++ quote part ++ " in " ++ quote whole
  | .notPair text => "expected one or two numbers, got " ++ quote text
  | .location name => "unknown location " ++ quote name
  | .length text num why =>
    "invalid length " ++ quote text ++ ": " ++ Reader.float.name ++ ": parsing " ++ quote num ++
      ": " ++ why.message
  | .notEdge name => "location " ++ quote name ++ " is not an edge"
  | .attrNumber name text => "attribute " ++ name ++ ": invalid number " ++ quote text
  | .oddPoints text => "odd number of coordinates in points " ++ quote text
  | .pathOffset offset d => s!"invalid path data at offset {offset} in " ++ quote d
  | .pathNumber text => "invalid number " ++ quote text ++ " in path data"
  | .pathChar c offset =>
    "unexpected " ++ quoteSingle (leadByte c) ++ s!" at offset {offset} in path data"
  | .unbalanced d => "unbalanced ']' in path data " ++ quote d
  | .repeatForm => "repeat must be written as r N [ ... ]"
  | .repeatCount text => "invalid repeat count " ++ text
  | .loneBracket => "'[' without repeat count"
  | .openRepeat => "unterminated repeat group"
  | .repeatLimit count limit =>
    s!"path repeat limit exceeded: {count} repeated segments, limit {limit}"
  | .unexpandedRepeat => "path data has unexpanded repeat groups"
  | .noCommand d => "path data " ++ quote d ++ " must start with a command"
  | .numberAfter cmd => "unexpected number after " ++ cmd.toString
  | .truncated cmd => "truncated " ++ cmd.toString ++ " segment in path data"
  | .missingId text => "missing id after # in " ++ quote text
  | .within text fault => quote text ++ ": " ++ fault.message
  | .direction text => "invalid relative direction in " ++ quote text
  | .afterReference c text =>
    "unexpected " ++ quoteSingle (leadByte c) ++ " after reference in " ++ quote text
  | .manyGaps text => "relative direction takes a single gap in " ++ quote text
  | .plainNumber text => "invalid number " ++ quote text
  | .manyOffsets n => s!"expected at most two offsets, got {n}"
  | .unsupported name => "not supported on <" ++ name ++ ">"
  | .locatedSize text => "size reference " ++ quote text ++ " cannot carry a location"
  | .manyAdjustments text => "too many size adjustments in " ++ quote text
  | .noReferences => "no references given"
  | .notReference text => quote text ++ " is not an element reference"
  | .margin text => "expected 1, 2 or 4 values, got " ++ quote text
  | .exclusive => "xy and cxy are exclusive"
  | .notSingle text => "expected a single number, got " ++ quote text
  | .noGeometry name => "<" ++ name ++ "> has no geometry to place"
  | .directedEnd text => "relative direction not allowed in " ++ quote text
  | .noOverlap refs => "inside: " ++ refs ++ " do not overlap"
  | .noPrevious => "no previous element for ^"
  | .badReference ref => "invalid element reference " ++ quote ref
  | .noBox ref => ref ++ " has no bounding box"
  | .unresolvedContent => "content could not be resolved"
  | .unknownId id => "no element with id " ++ id
  | .cycle => "unresolved reference, possibly a cycle"
  | .noRoot => "document has no root element"
  | .nestedSpecs => "specs may not be nested"
  | .templateId => "template needs an id"
  | .loopCount text => "count " ++ quote text ++ " is not a whole number"
  | .loopForm => "loop needs count, while or until"
  | .forData => "for needs data"
  | .ifTest => "if needs a test"
  | .noSize => "size could not be determined"
  | .reuseTarget => "reuse needs href=\"#id\""
  | .halfConnector => "a connector needs both start and end"
  | .option why => why.message
  | .stylesheet => "user stylesheet: invalid stylesheet"
  | .notMember given kind => given ++ " is not a valid " ++ kind

end DiagramMarkup
