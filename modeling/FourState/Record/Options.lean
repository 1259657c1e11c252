import FourState.Text.Json

/-!
# Record options

Two switches say how records are written and merged.  As JSON they are an
object with any of the two members, or an array of up to two values; what is
missing is on.

Records are written and merged by the two switches alone, and the theorems are about
any choice of them.  Reading them from text follows a general JSON library, serves the
outer program only, and is not a subject of the theorems.
-/

namespace FourState

/-- How to write and merge records. -/
structure RecordOptions where
  /-- Write the value; else the value of a new vector is written. -/
  writeData : Bool
  /-- A record of another width is an error; else it is skipped. -/
  strictMerge : Bool
  deriving DecidableEq

namespace RecordOptions

/-- Both switches on. -/
def default : RecordOptions where
  writeData := true
  strictMerge := true

/-- The switches as a JSON object. -/
def render (options : RecordOptions) : String :=
  "\x7b\"write_data\":" ++ toString options.writeData ++
    ",\"strict_merge\":" ++ toString options.strictMerge ++ "\x7d"

/-- The switches read so far. -/
structure Partial where
  /-- The first switch, if it has been read. -/
  writeData : Option Bool
  /-- The second switch, if it has been read. -/
  strictMerge : Option Bool

/-- Turn on what has not been read. -/
def Partial.complete (read : Partial) : RecordOptions where
  writeData := read.writeData.getD true
  strictMerge := read.strictMerge.getD true

/-- Read the value of a member; a known member must not come twice. -/
def readMember? (fuel : Nat) (read : Partial) (name text : List Char) :
    Option (Partial × List Char) :=
  if name = "write_data".toList then
    match read.writeData, Json.switch? text with
    | none, some (value, rest) => some ({ read with writeData := some value }, rest)
    | _, _ => none
  else if name = "strict_merge".toList then
    match read.strictMerge, Json.switch? text with
    | none, some (value, rest) => some ({ read with strictMerge := some value }, rest)
    | _, _ => none
  else (Json.skipValue? fuel text).map fun rest => (read, rest)

/-- Read members up to the closing bracket; there is at least one. -/
def readMembers? : Nat → Partial → List Char → Option (Partial × List Char)
  | 0, _, _ => none
  | fuel + 1, read, text =>
      match Json.trim text with
      | '\x22' :: rest =>
          match Json.string? fuel rest with
          | some (name, rest) =>
              match Json.trim rest with
              | ':' :: rest =>
                  match readMember? fuel read name rest with
                  | some (read, rest) =>
                      match Json.trim rest with
                      | ',' :: rest => readMembers? fuel read rest
                      | '\x7d' :: rest => some (read, rest)
                      | _ => none
                  | none => none
              | _ => none
          | none => none
      | _ => none

/-- Read the elements of an array behind its opening bracket. -/
def readElements? (text : List Char) : Option (Partial × List Char) :=
  match Json.trim text with
  | ']' :: rest => some ({ writeData := none, strictMerge := none }, rest)
  | rest =>
      match Json.switch? rest with
      | some (first, rest) =>
          match Json.trim rest with
          | ']' :: rest => some ({ writeData := some first, strictMerge := none }, rest)
          | ',' :: rest =>
              match Json.switch? rest with
              | some (second, rest) =>
                  match Json.trim rest with
                  | ']' :: rest => some ({ writeData := some first, strictMerge := some second }, rest)
                  | _ => none
              | none => none
          | _ => none
      | none => none

/-- Read an object or an array of switches. -/
def readPartial? (text : List Char) : Option (Partial × List Char) :=
  let fuel := text.length + 1
  match Json.trim text with
  | '[' :: rest => readElements? rest
  | '\x7b' :: rest =>
      match Json.trim rest with
      | '\x7d' :: rest => some ({ writeData := none, strictMerge := none }, rest)
      | rest => readMembers? fuel { writeData := none, strictMerge := none } rest
  | _ => none

/-- Read the switches from a JSON text with nothing behind them. -/
def read? (text : List Char) : Option RecordOptions :=
  match readPartial? text with
  | some (read, rest) => if Json.trim rest = [] then some read.complete else none
  | none => none

end RecordOptions
end FourState
