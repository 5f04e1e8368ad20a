import DriverBus.Client.Responses

/-!
# The console of the driver client

`main` writes a request to the input pipe for each "key" and each "events"
typed, until "quit". Each write is the whole line of a request the service can
read, and the texts of both requests never change, their Ids included.
-/

namespace DriverBus.Client

open DriverBus.Foundations DriverBus.Foundations.Json DriverBus.Models DriverBus.Pipe

/-- The text of the key request, before `main` appends a line feed. -/
def getEncryptionKey : String := String.join
  ["\x7b\"Id\":\"977c16ac-995a-4c9e-b451-b38a578059b4\",\"Type\":\"GetEncryptionKey\",",
   "\"IsEncrypted\":false,",
   "\"Parameters\":\"\\u0022ebebbb69-f9b3-4246-a937-f3bfe0f8f816\\u0022\"\x7d"]

/-- The text of the batch request. -/
def sendEvents : String := String.join
  ["\x7b\"Id\":\"109c933d-7457-4434-a24a-f258b7005432\",\"Type\":\"SendEventsBatch\",",
   "\"IsEncrypted\":false,\"Parameters\":\"[\x7b\\u0022DriverEventId\\u0022:120,",
   "\\u0022EventType\\u0022:4,",
   "\\u0022EventDateTimeUtc\\u0022:\\u00222024-09-06T13:01:31.0899814Z\\u0022,",
   "\\u0022DocGuid\\u0022:\\u00227a09cf61-2245-4727-b59b-af8f662f18d8\\u0022,",
   "\\u0022ParentGuid\\u0022:null,\\u0022DocType\\u0022:\\u0022??\\u0022,",
   "\\u0022DocAuthor\\u0022:\\u0022test\\u0022,",
   "\\u0022MarkerGuid\\u0022:\\u0022f5dfeb97-b085-4f47-9dd5-4515402e6cb8\\u0022,",
   "\\u0022EncryptionPolicyId\\u0022:null,\\u0022FileName\\u0022:\\u0022test.docx\\u0022,",
   "\\u0022FilePath\\u0022:\\u0022c:\\\\\\\\test.docx\\u0022,",
   "\\u0022ParentFileName\\u0022:null,\\u0022ParentFilePath\\u0022:null,",
   "\\u0022UserId\\u0022:\\u0022123testSid789\\u0022,\\u0022UserName\\u0022:null\x7d,",
   "\x7b\\u0022DriverEventId\\u0022:128,\\u0022EventType\\u0022:6,",
   "\\u0022EventDateTimeUtc\\u0022:\\u00222024-09-06T13:01:31.0901452Z\\u0022,",
   "\\u0022DocGuid\\u0022:\\u00227fe60b28-b868-4a42-aa57-7d7d5214fa29\\u0022,",
   "\\u0022ParentGuid\\u0022:null,\\u0022DocType\\u0022:\\u0022??\\u0022,",
   "\\u0022DocAuthor\\u0022:\\u0022test\\u0022,",
   "\\u0022MarkerGuid\\u0022:\\u0022da3c5b9d-1dcd-4b7c-905f-e9ef6929f998\\u0022,",
   "\\u0022EncryptionPolicyId\\u0022:null,\\u0022FileName\\u0022:\\u0022test2.docx\\u0022,",
   "\\u0022FilePath\\u0022:\\u0022c:\\\\\\\\test2.docx\\u0022,",
   "\\u0022ParentFileName\\u0022:null,\\u0022ParentFilePath\\u0022:null,",
   "\\u0022UserId\\u0022:\\u0022456123testSid789\\u0022,\\u0022UserName\\u0022:null\x7d]\"\x7d"]

/-- What `main` writes to `hPipe2` while these lines are typed. -/
def mainWrites : List String → List Bytes
  | [] => []
  | input :: inputs =>
    if input = "quit" then []
    else if input = "key" then utf8 (getEncryptionKey ++ "\n") :: mainWrites inputs
    else if input = "events" then utf8 (sendEvents ++ "\n") :: mainWrites inputs
    else mainWrites inputs

/-- The document whose key `main` asks for. -/
def document : Guid := ⟨0xebebbb69f9b34246a937f3bfe0f8f816⟩

def keyCommand : Models.Command where
  id := ⟨0x977c16ac995a4c9eb451b38a578059b4⟩
  type := .getEncryptionKey
  isEncrypted := false
  parameters := some (serializeText (.string (guidText document)))

/-- The events in the parameters of the batch request. -/
def eventsJson : String := textOf <| List.flatMap utf8
  ["[\x7b\"DriverEventId\":120,\"EventType\":4,",
   "\"EventDateTimeUtc\":\"2024-09-06T13:01:31.0899814Z\",",
   "\"DocGuid\":\"7a09cf61-2245-4727-b59b-af8f662f18d8\",\"ParentGuid\":null,",
   "\"DocType\":\"??\",\"DocAuthor\":\"test\",",
   "\"MarkerGuid\":\"f5dfeb97-b085-4f47-9dd5-4515402e6cb8\",\"EncryptionPolicyId\":null,",
   "\"FileName\":\"test.docx\",\"FilePath\":\"c:\\\\test.docx\",\"ParentFileName\":null,",
   "\"ParentFilePath\":null,\"UserId\":\"123testSid789\",\"UserName\":null\x7d,",
   "\x7b\"DriverEventId\":128,\"EventType\":6,",
   "\"EventDateTimeUtc\":\"2024-09-06T13:01:31.0901452Z\",",
   "\"DocGuid\":\"7fe60b28-b868-4a42-aa57-7d7d5214fa29\",\"ParentGuid\":null,",
   "\"DocType\":\"??\",\"DocAuthor\":\"test\",",
   "\"MarkerGuid\":\"da3c5b9d-1dcd-4b7c-905f-e9ef6929f998\",\"EncryptionPolicyId\":null,",
   "\"FileName\":\"test2.docx\",\"FilePath\":\"c:\\\\test2.docx\",\"ParentFileName\":null,",
   "\"ParentFilePath\":null,\"UserId\":\"456123testSid789\",\"UserName\":null\x7d]"]

def eventsCommand : Models.Command where
  id := ⟨0x109c933d74574434a24af258b7005432⟩
  type := .sendEventsBatch
  isEncrypted := false
  parameters := some eventsJson

/-- The commands of the lines typed. -/
def typedCommands : List String → List Models.Command
  | [] => []
  | input :: inputs =>
    if input = "quit" then []
    else if input = "key" then keyCommand :: typedCommands inputs
    else if input = "events" then eventsCommand :: typedCommands inputs
    else typedCommands inputs

/-- The line of a request. -/
def requestFrame (c : Models.Command) : Frame where
  toMessage := objectMessage c.members
  lineEnd := .lf

theorem requestFrame_bytes (c : Models.Command) : (requestFrame c).bytes = c.serialize ++ [lf] :=
  rfl

theorem utf8_join (pieces : List String) : utf8 (String.join pieces) = pieces.flatMap utf8 := by
  have hfrom (start : String) : utf8 (pieces.foldl (· ++ ·) start) =
      utf8 start ++ pieces.flatMap utf8 := by
    induction pieces generalizing start with
    | nil => simp
    | cons piece pieces ih => rw [List.foldl_cons, ih, utf8_append, List.append_assoc]; rfl
  have hempty : utf8 "" = [] := by decide
  rw [String.join, hfrom, hempty, List.nil_append]

theorem toList_textOf (bs : Bytes) : (textOf bs).toList = bs.map fun b => .ofNat b.toNat := by
  rw [textOf, String.toList_ofList]

/-- The request is the text of its command, escapes included. -/
theorem getEncryptionKey_eq : utf8 getEncryptionKey = keyCommand.serialize := by
  rw [getEncryptionKey, utf8_join]
  simp only [Models.Command.serialize, Models.Command.members, Json.write, writeMembers,
    writeString, keyCommand, orNull, serializeText, toList_textOf, guidText, String.toList_ofList]
  decide +kernel

theorem sendEvents_eq : utf8 sendEvents = eventsCommand.serialize := by
  rw [sendEvents, utf8_join]
  simp only [Models.Command.serialize, Models.Command.members, Json.write, writeMembers,
    writeString, eventsCommand, orNull, eventsJson, toList_textOf, guidText, String.toList_ofList]
  decide +kernel

/-- Every write is the line of a request. -/
theorem mainWrites_eq (inputs : List String) :
    mainWrites inputs = (typedCommands inputs).map fun c => (requestFrame c).bytes := by
  have hfeed : utf8 "\n" = [lf] := by decide
  induction inputs with
  | nil => rfl
  | cons input inputs ih =>
    rw [mainWrites, typedCommands]
    split_ifs
    · rfl
    · rw [List.map_cons, requestFrame_bytes, utf8_append, getEncryptionKey_eq, hfeed, ih]
    · rw [List.map_cons, requestFrame_bytes, utf8_append, sendEvents_eq, hfeed, ih]
    · exact ih

theorem typedCommands_cases {inputs : List String} {c : Models.Command}
    (h : c ∈ typedCommands inputs) : c = keyCommand ∨ c = eventsCommand := by
  induction inputs with
  | nil => cases h
  | cons input inputs ih =>
    rw [typedCommands] at h
    split_ifs at h
    · cases h
    · rcases List.mem_cons.mp h with rfl | h
      · exact .inl rfl
      · exact ih h
    · rcases List.mem_cons.mp h with rfl | h
      · exact .inr rfl
      · exact ih h
    · exact ih h

/-- The service reads a request as its command. -/
theorem deserialize_request (reader : TextReader) {c : Models.Command} (h : c.type.IsValue) :
    Models.Command.deserialize reader (requestFrame c).text = .ok (some c) :=
  deserialize_object reader defaultEncoder (Models.Command.members_flat h)
    (Models.Command.setProperties h)

/-- Whatever is typed, the writes of `main` are lines that the service reads as the commands of
that session, in their order. -/
theorem mainWrites_read (reader : TextReader) (inputs : List String) :
    ∃ frames : List Frame, mainWrites inputs = frames.map Frame.bytes ∧
      frames.map (fun frame => Models.Command.deserialize reader frame.text) =
        (typedCommands inputs).map fun c => .ok (some c) := by
  refine ⟨(typedCommands inputs).map requestFrame, ?_, ?_⟩
  · rw [mainWrites_eq, List.map_map]
    rfl
  · rw [List.map_map]
    apply List.map_congr_left
    intro c hc
    apply deserialize_request
    rcases typedCommands_cases hc with rfl | rfl
    · trivial
    · trivial

end DriverBus.Client
