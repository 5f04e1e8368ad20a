import DriverBus.Client.ReadPipe
import DriverBus.Models.Serialization
import DriverBus.Nlohmann.RoundTrip

/-!
# What the driver client makes of the service's lines

The line of a command or of a result is read by the client's own parser. A
string with a second message behind the first is an error of the parser,
whatever the two messages are. The response to a command is a text the service
reads as a result with the Id of that command.
-/

namespace DriverBus.Client

open DriverBus.Foundations DriverBus.Foundations.Json DriverBus.Models DriverBus.Nlohmann
  DriverBus.Pipe

mutual

/-- The library's value: an integer of 64 bits is held as it is, any other number as a `double`. -/
def JsonValue.ofValue : Value → JsonValue
  | .null => .null
  | .boolean b => .boolean b
  | .integer n => .number n
  | .float _ _ => .float
  | .string s => .string s
  | .array elements => .array (ofElements elements)
  | .object members => .object (ofMembers members)

def JsonValue.ofElements : List Value → List JsonValue
  | [] => []
  | v :: vs => ofValue v :: ofElements vs

def JsonValue.ofMembers : List (String × Value) → List (String × JsonValue)
  | [] => []
  | (key, v) :: members => (key, ofValue v) :: ofMembers members

end

/-- `parse_error::create` puts its name before the message, and the place, which is left out. -/
def JsonException.ofError (e : ParseError) : JsonException :=
  ⟨e.id, if e.id = 101 then "parse error: " ++ e.message else e.message⟩

/-- `nlohmann::json::parse`. -/
def parse (json : Bytes) : Except JsonException JsonValue :=
  match Nlohmann.parse json with
  | .ok v => .ok (.ofValue v)
  | .error e => .error (.ofError e)

/-- The parser found `found` where the input should have ended. -/
def trailingToken (found : String) : JsonException :=
  ⟨101, "parse error: syntax error while parsing value - unexpected " ++ found ++
    "; expected end of input"⟩

variable {encoder : Encoder} {ms : List (String × Value)} {newline : LineEnd} {rest : Bytes}

/-- An object is read up to its closing brace, and then the input has to end. -/
theorem parse_object (encoder : Encoder) (h : Flat ms) (rest : Bytes) :
    parse (Json.write encoder (.object ms) ++ rest) =
      if (scan rest).1 = .endOfInput then .ok (.object (JsonValue.ofMembers ms))
      else .error (.ofError (syntaxError (scan rest).1 (some "end of input") "value")) := by
  have hends : EndsValue (.object ms) rest := endsValue_object
  rw [parse, parse_eq_parseText, parseText_write encoder (portable_of_flat h) hends]
  split_ifs <;> rfl

theorem parse_line (h : Flat ms) :
    parse (Json.write encoder (.object ms) ++ newline.bytes) =
      .ok (.object (JsonValue.ofMembers ms)) := by
  have hend : (scan newline.bytes).1 = .endOfInput := by
    cases newline <;> rfl
  rw [parse_object encoder h, if_pos hend]

/-- An opening brace behind an object and its line end. -/
theorem parse_merged (h : Flat ms) :
    parse (Json.write encoder (.object ms) ++ (newline.bytes ++ leftBrace :: rest)) =
      .error (trailingToken "'\x7b'") := by
  have hscan : (scan (newline.bytes ++ leftBrace :: rest)).1 = .beginObject := by
    cases newline <;> rfl
  rw [parse_object encoder h, hscan, if_neg (by simp)]
  rfl

/-- The library's value has the members the client's model of a result lists. -/
theorem ofMembers_result (r : Models.CommandResult) :
    JsonValue.ofMembers r.members = properties r := by
  obtain ⟨id, type, success, code, message, result⟩ := r
  cases type <;> cases code <;> cases message <;> cases result <;> rfl

/-- The line of a result is decoded by the client, with its own parser, exactly when its `Result` is
not null. -/
theorem result_line_decoded_iff {r : Models.CommandResult} (h : r.IsValue) :
    Decoded r (CommandResult.deserialize parse (r.serialize ++ newline.bytes)) ↔
      ∃ result, r.result = some result := by
  apply decoded_iff
  rw [← ofMembers_result]
  exact parse_line (Models.CommandResult.members_flat h)

/-- The result of a failed request, whose `Result` is null. -/
theorem result_line_decoded_failed :
    Decoded ⟨⟨7⟩, .setParams, false, some (-2146233088), some "\n", none⟩
        (CommandResult.deserialize parse (Models.CommandResult.serialize
          ⟨⟨7⟩, .setParams, false, some (-2146233088), some "\n", none⟩ ++ LineEnd.lf.bytes)) ↔
      ∃ result, (none : Option String) = some result := by
  apply result_line_decoded_iff
  refine ⟨⟨by decide, rfl⟩, ?_⟩
  intro n hn
  cases hn
  decide

def typeError (name : String) : JsonException := ⟨302, "type must be string, but is " ++ name⟩

/-- The line of a command is decoded to its Id, its flag and its parameters, unless these are
null. -/
theorem command_line {c : Models.Command} (h : c.type.IsValue) :
    Command.deserialize parse (c.serialize ++ newline.bytes) =
      match c.parameters with
      | some parameters => .ok ⟨guidText c.id, c.isEncrypted, parameters⟩
      | none => .error (typeError "null") := by
  have hparse : parse (c.serialize ++ newline.bytes) = .ok (.object (JsonValue.ofMembers c.members)) :=
    parse_line (Models.Command.members_flat h)
  rw [Command.deserialize, hparse]
  obtain ⟨id, type, encrypted, parameters⟩ := c
  cases parameters <;> rfl

end DriverBus.Client
