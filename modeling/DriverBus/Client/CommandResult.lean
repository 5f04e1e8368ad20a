import DriverBus.Handlers.BaseDriverRequestHandler
import DriverBus.Pipe.Message

/-!
# Results as the driver client decodes them

The service writes every property of a result, null ones as JSON null. The
client reads three of them and takes each for a value of a fixed type. A
failed result has no `Result`, and a JSON null is not a string.
-/

namespace DriverBus.Client

open DriverBus.Foundations.Json DriverBus.Models DriverBus.Handlers DriverBus.Pipe

/-- `nlohmann::json`. Of a number held as a `double` nothing is kept: the client looks at none. -/
inductive JsonValue
  | null
  | boolean (b : Bool)
  | number (n : Int)
  | float
  | string (s : String)
  | array (elements : List JsonValue)
  | object (members : List (String × JsonValue))

/-- An exception of the JSON library: its number and what it says. -/
structure JsonException where
  id : ℕ
  what : String
  deriving DecidableEq, Repr

namespace JsonValue

def typeName : JsonValue → String
  | null => "null"
  | boolean _ => "boolean"
  | number _ | float => "number"
  | string _ => "string"
  | array _ => "array"
  | object _ => "object"

/-- `at(key)`. -/
def member (key : String) : JsonValue → Except JsonException JsonValue
  | object members =>
    match members.lookup key with
    | some value => .ok value
    | none => .error ⟨403, "key '" ++ key ++ "' not found"⟩
  | value => .error ⟨304, "cannot use at() with " ++ value.typeName⟩

/-- `get<std::string>()`. -/
def getString : JsonValue → Except JsonException String
  | string s => .ok s
  | value => .error ⟨302, "type must be string, but is " ++ value.typeName⟩

/-- `get<bool>()`. -/
def getBool : JsonValue → Except JsonException Bool
  | boolean b => .ok b
  | value => .error ⟨302, "type must be boolean, but is " ++ value.typeName⟩

end JsonValue

/-- The members of the client's `CommandResult` that are decoded. -/
structure CommandResult where
  id : String
  isSuccess : Bool
  result : String
  deriving DecidableEq, Repr

/-- `CommandResult::Deserialize`, with the parser of the JSON library. -/
def CommandResult.deserialize (parse : Bytes → Except JsonException JsonValue) (json : Bytes) :
    Except JsonException CommandResult := do
  let j ← parse json
  let id ← (← j.member "Id").getString
  let isSuccess ← (← j.member "IsSuccess").getBool
  let result ← (← j.member "Result").getString
  return ⟨id, isSuccess, result⟩

/-- The client's `Command`. -/
structure Command where
  id : String
  isEncrypted : Bool
  parameters : String
  deriving DecidableEq, Repr

/-- `Command::Deserialize`. -/
def Command.deserialize (parse : Bytes → Except JsonException JsonValue) (json : Bytes) :
    Except JsonException Command := do
  let j ← parse json
  let id ← (← j.member "Id").getString
  let isEncrypted ← (← j.member "IsEncrypted").getBool
  let parameters ← (← j.member "Parameters").getString
  return ⟨id, isEncrypted, parameters⟩

/-- The hexadecimal digits from the `n`-th lowest one down to the last. -/
def hexDigits (bits : ℕ) : ℕ → List Char
  | 0 => []
  | n + 1 => Nat.digitChar (bits / 16 ^ n % 16) :: hexDigits bits n

/-- The text of a `Guid`: its hexadecimal digits in groups of 8, 4, 4, 4 and 12. -/
def guidText (id : Guid) : String :=
  let digits := hexDigits id.bits.toNat 32
  .ofList (digits.take 8 ++ '-' :: (digits.drop 8).take 4 ++ '-' :: (digits.drop 12).take 4 ++
    '-' :: (digits.drop 16).take 4 ++ '-' :: digits.drop 20)

/-- `JsonStringEnumConverter`: the name, or the number of a value without one. -/
def commandTypeValue : CommandType → JsonValue
  | .default => .string "Default"
  | .setParams => .string "SetParams"
  | .setPermissions => .string "SetPermissions"
  | .getEncryptionKey => .string "GetEncryptionKey"
  | .sendEventsBatch => .string "SendEventsBatch"
  | .other value => .number value

/-- A null property is written as JSON null. -/
def nullable {α : Type} (f : α → JsonValue) : Option α → JsonValue
  | none => .null
  | some a => f a

/-- What `JsonSerializer.Serialize(commandResult, BusJsonOptions.GetOptions())` writes. -/
def properties (r : Models.CommandResult) : List (String × JsonValue) :=
  [("Id", .string (guidText r.id)),
    ("CommandType", commandTypeValue r.commandType),
    ("IsSuccess", .boolean r.isSuccess),
    ("ErrorCode", nullable .number r.errorCode),
    ("ErrorMessage", nullable .string r.errorMessage),
    ("Result", nullable .string r.result)]

/-- The client has decoded the result, and its values are those of the service. -/
def Decoded (r : Models.CommandResult) (outcome : Except JsonException CommandResult) : Prop :=
  ∃ decoded, outcome = .ok decoded ∧ decoded.id = guidText r.id ∧
    decoded.isSuccess = r.isSuccess ∧ (r.isSuccess = true → r.result = some decoded.result)

variable {parse : Bytes → Except JsonException JsonValue} {line : Bytes}
  {r : Models.CommandResult}

/-- The type error of a `Result` that is null. -/
def resultIsNull : JsonException := ⟨302, "type must be string, but is null"⟩

theorem deserialize_properties (hread : parse line = .ok (.object (properties r))) :
    CommandResult.deserialize parse line =
      match r.result with
      | some result => .ok ⟨guidText r.id, r.isSuccess, result⟩
      | none => .error resultIsNull := by
  have hid : (JsonValue.object (properties r)).member "Id" = .ok (.string (guidText r.id)) := rfl
  have hsuccess : (JsonValue.object (properties r)).member "IsSuccess" =
    .ok (.boolean r.isSuccess) := rfl
  have hresult : (JsonValue.object (properties r)).member "Result" =
    .ok (nullable .string r.result) := rfl
  simp only [CommandResult.deserialize, hread, hid, hsuccess, hresult, bind, Except.bind,
    JsonValue.getString, JsonValue.getBool]
  cases r.result <;> rfl

/-- The client decodes a written result exactly when its `Result` is not null. -/
theorem decoded_iff (hread : parse line = .ok (.object (properties r))) :
    Decoded r (CommandResult.deserialize parse line) ↔ ∃ result, r.result = some result := by
  rw [deserialize_properties hread]
  constructor
  · rintro ⟨decoded, hok, -⟩
    cases hr : r.result with
    | none => simp [hr] at hok
    | some result => exact ⟨result, rfl⟩
  · rintro ⟨result, hr⟩
    refine ⟨⟨guidText r.id, r.isSuccess, result⟩, by rw [hr], rfl, rfl, ?_⟩
    intro _
    exact hr

section Handlers

variable {B R : Type} (handler : RequestHandler B R) (request : BaseDriverRequest B)
  (serialize : Models.CommandResult → Bytes) (newline : LineEnd)

theorem result_iff : (∃ result, (commandResult handler request).result = some result) ↔
    ∃ response json, handler.executeRequest request.requestBody = .ok response ∧
      handler.serialize response = .ok json := by
  cases hexec : handler.executeRequest request.requestBody with
  | error ex => simp [commandResult, hexec, Except.bind]
  | ok response =>
    cases hser : handler.serialize response with
    | error ex => simp [commandResult, hexec, hser, Except.bind]
    | ok json => simp [commandResult, hexec, hser, Except.bind]

/-- The client decodes the result of a request exactly when the handler returned a response and
the response was serialized: no result of a failed request can be decoded. -/
theorem client_decodes_iff
    (hread : parse (serialize (commandResult handler request) ++ newline.bytes) =
      .ok (.object (properties (commandResult handler request)))) :
    Decoded (commandResult handler request)
        (CommandResult.deserialize parse
          (serialize (commandResult handler request) ++ newline.bytes)) ↔
      ∃ response json, handler.executeRequest request.requestBody = .ok response ∧
        handler.serialize response = .ok json := by
  rw [decoded_iff hread]
  exact result_iff handler request

/-- A handler of key requests that answers with the given outcome. -/
def keyHandler (outcome : Except Exn String) : RequestHandler Guid String where
  executeRequest _ := outcome
  serialize response := .ok ("\"" ++ response ++ "\"")

def keyRequest : BaseDriverRequest Guid := ⟨⟨1⟩, .getEncryptionKey, ⟨2⟩⟩

def utf8 (text : String) : Bytes := text.toUTF8.data.toList

/-- The JSON library on one line: the text and the value it stands for. -/
def parseLine (text : String) (value : JsonValue) (line : Bytes) :
    Except JsonException JsonValue :=
  if line = utf8 text ++ LineEnd.lf.bytes then .ok value else .error ⟨101, "parse error"⟩

def failedText : String :=
  "\x7b\"Id\":\"00000000-0000-0000-0000-000000000001\",\"CommandType\":\"GetEncryptionKey\"," ++
    "\"IsSuccess\":false,\"ErrorCode\":-2146233088,\"ErrorMessage\":\"no key\",\"Result\":null\x7d"

def failedValue : JsonValue :=
  .object [("Id", .string "00000000-0000-0000-0000-000000000001"),
    ("CommandType", .string "GetEncryptionKey"), ("IsSuccess", .boolean false),
    ("ErrorCode", .number (-2146233088)), ("ErrorMessage", .string "no key"), ("Result", .null)]

/-- The response of a handler that threw ends the client's process. -/
theorem failed_response_not_decoded :
    failedValue = .object (properties
      (commandResult (keyHandler (.error ⟨-2146233088, "no key"⟩)) keyRequest)) ∧
    CommandResult.deserialize (parseLine failedText failedValue)
      (utf8 failedText ++ LineEnd.lf.bytes) = .error resultIsNull ∧
    ¬ Decoded (commandResult (keyHandler (.error ⟨-2146233088, "no key"⟩)) keyRequest)
      (CommandResult.deserialize (parseLine failedText failedValue)
        (utf8 failedText ++ LineEnd.lf.bytes)) := by
  have hvalue : failedValue = .object (properties
    (commandResult (keyHandler (.error ⟨-2146233088, "no key"⟩)) keyRequest)) := rfl
  have hread : parseLine failedText failedValue (utf8 failedText ++ LineEnd.lf.bytes) =
    .ok failedValue := if_pos rfl
  rw [hvalue] at hread
  refine ⟨hvalue, ?_, ?_⟩
  · rw [hvalue, deserialize_properties hread]
    rfl
  · rw [hvalue, decoded_iff hread]
    rintro ⟨result, hresult⟩
    cases hresult

def keyText : String :=
  "\x7b\"Id\":\"00000000-0000-0000-0000-000000000001\",\"CommandType\":\"GetEncryptionKey\"," ++
    "\"IsSuccess\":true,\"ErrorCode\":null,\"ErrorMessage\":null,\"Result\":\"\\u0022k\\u0022\"\x7d"

def keyValue : JsonValue :=
  .object [("Id", .string "00000000-0000-0000-0000-000000000001"),
    ("CommandType", .string "GetEncryptionKey"), ("IsSuccess", .boolean true),
    ("ErrorCode", .null), ("ErrorMessage", .null), ("Result", .string "\"k\"")]

theorem client_decodes_key : Decoded (commandResult (keyHandler (.ok "k")) keyRequest)
    (CommandResult.deserialize (parseLine keyText keyValue)
      (utf8 keyText ++ LineEnd.lf.bytes)) := by
  have hread : parseLine keyText keyValue (utf8 keyText ++ LineEnd.lf.bytes) = .ok keyValue :=
    if_pos rfl
  have hvalue : keyValue = .object (properties
    (commandResult (keyHandler (.ok "k")) keyRequest)) := rfl
  rw [hvalue] at hread
  rw [hvalue,
    client_decodes_iff (keyHandler (.ok "k")) keyRequest (fun _ => utf8 keyText) .lf hread]
  exact ⟨"k", "\"k\"", rfl, rfl⟩

end Handlers

end DriverBus.Client
