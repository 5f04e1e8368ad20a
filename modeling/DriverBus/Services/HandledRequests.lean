import DriverBus.Handlers.SendEventsBatchHandler
import DriverBus.Services.RequestLoop

/-!
# What the responses say

The loop with its two handlers and the file one of them keeps. Each turn finds
the file as the earlier turns have left it, so the mark a response reports is
the one written last, whole or broken off.
-/

namespace DriverBus.Services

open DriverBus.Foundations DriverBus.Foundations.Json DriverBus.Models DriverBus.Handlers
  DriverBus.Client DriverBus.Pipe

/-- `DriverEventDto[]`, which may be null. -/
abbrev EventsBody := Option (List (Option DriverEventDto))

/-- What one turn of the loop meets outside. -/
structure Serving where
  read : Except Exn Models.Command
  key : KeyOutside
  events : Outside
  write : Models.CommandResult → Except Exn Unit

/-- The turn, with the handlers and the file as it is. -/
def Serving.turn (s : Serving) (file : MarkFile) : Turn EventsBody where
  read := s.read
  getEncryptionKey := GetEncryptionKeyHandler.executeRequest s.key
  sendEventsBatch events := (executeRequest s.events file events).1
  write := s.write

/-- The body of the batch request read in the turn. -/
def Serving.batch (json : BusJson EventsBody) (s : Serving) : Option EventsBody :=
  match s.read with
  | .error _ => none
  | .ok command =>
    match mapCommandToRequest json command with
    | .ok (.sendEventsBatch request) => some request.requestBody
    | _ => none

/-- The file after the turn. -/
def Serving.fileAfter (json : BusJson EventsBody) (file : MarkFile) (s : Serving) : MarkFile :=
  match s.batch json with
  | some events => (executeRequest s.events file events).2
  | none => file

/-- The turns, each with the file the earlier ones have left. -/
def servedTurns (json : BusJson EventsBody) : MarkFile → List Serving → List (Turn EventsBody)
  | _, [] => []
  | file, s :: servings => s.turn file :: servedTurns json (s.fileAfter json file) servings

/-- The mark an execution writes into the file, and how many of its eight bytes. -/
def writtenMark (os : Outside) : EventsBody → Option (Int64 × ℕ)
  | none => none
  | some events =>
    match beforeSave os events, os.createMark with
    | .ok maxId, .ok () => some (maxId, (os.writeMark.map Prod.fst).getD 8)
    | _, _ => none

def Serving.written (json : BusJson EventsBody) (s : Serving) : Option (Int64 × ℕ) :=
  (s.batch json).bind (writtenMark s.events)

/-- The mark after one more has been written, or none. -/
def markAfter (mark : Int64) : Option (Int64 × ℕ) → Int64
  | none => mark
  | some (maxId, written) => lowBytes written maxId

/-- What a handler's value is in the response to its command. -/
inductive Carried (json : BusJson EventsBody) (servings : List Serving)
    (command : Models.Command) : Value → Prop
  | key {document} (htype : command.type = .getEncryptionKey)
      (hbody : json.guidBody command.parameters = .ok document) :
      Carried json servings command (.string (encryptionKey document))
  | saved {events maxId} (htype : command.type = .sendEventsBatch)
      (hbody : json.eventsBody command.parameters = .ok (some events)) (hne : events ≠ [])
      (hmax : IsLargest (idsOf events) maxId) :
      Carried json servings command (.integer maxId.toInt)
  /-- The mark written last before the turn that reads the command. -/
  | asked {before s after} (htype : command.type = .sendEventsBatch)
      (hbody : json.eventsBody command.parameters = .ok (some []))
      (hservings : servings = before ++ s :: after) (hread : s.read = .ok command) :
      Carried json servings command
        (.integer (markAfter 0 (before.filterMap (Serving.written json)).getLast?).toInt)

variable {json : BusJson EventsBody} {file : MarkFile} {s : Serving} {servings : List Serving}
  {turn : Turn EventsBody} {command : Models.Command} {d : Client.CommandResult}

theorem storedMark_executeRequest (os : Outside) (events : EventsBody) :
    storedMark (executeRequest os file events).2 =
      markAfter (storedMark file) (writtenMark os events) := by
  cases events with
  | none => rfl
  | some events =>
    cases events with
    | nil => rfl
    | cons e events =>
      cases hbefore : beforeSave os (e :: events) with
      | error ex => simp [executeRequest, writtenMark, markAfter, hbefore]
      | ok maxId =>
        cases hcreate : os.createMark with
        | error ex => simp [executeRequest, writtenMark, markAfter, saveMark, hbefore, hcreate]
        | ok u =>
          cases hwrite : os.writeMark with
          | none =>
            simp [executeRequest, writtenMark, markAfter, saveMark, hbefore, hcreate, hwrite,
              storedMark_getBytes, lowBytes_eight]
          | some w =>
            simp [executeRequest, writtenMark, markAfter, saveMark, hbefore, hcreate, hwrite,
              storedMark_take]

theorem storedMark_fileAfter :
    storedMark (s.fileAfter json file) = markAfter (storedMark file) (s.written json) := by
  unfold Serving.fileAfter Serving.written
  cases s.batch json with
  | none => rfl
  | some events => exact storedMark_executeRequest s.events events

/-- After some turns the mark is the one written last. -/
theorem storedMark_foldl : storedMark (servings.foldl (Serving.fileAfter json) file) =
    markAfter (storedMark file) (servings.filterMap (Serving.written json)).getLast? := by
  induction servings generalizing file with
  | nil => rfl
  | cons s servings ih =>
    rw [List.foldl_cons, ih, storedMark_fileAfter]
    cases hwritten : s.written json with
    | none => rw [List.filterMap_cons_none hwritten, markAfter]
    | some w =>
      rw [List.filterMap_cons_some hwritten, List.getLast?_cons]
      cases (servings.filterMap (Serving.written json)).getLast? <;> rfl

/-- Every turn finds the file the turns before it have left. -/
theorem mem_servedTurns (h : turn ∈ servedTurns json file servings) :
    ∃ before s after, servings = before ++ s :: after ∧
      turn = s.turn (before.foldl (Serving.fileAfter json) file) := by
  induction servings generalizing file with
  | nil => cases h
  | cons s servings ih =>
    rcases List.mem_cons.mp h with rfl | h
    · exact ⟨[], s, servings, rfl, rfl⟩
    · obtain ⟨before, s', after, rfl, rfl⟩ := ih h
      exact ⟨s :: before, s', after, rfl, rfl⟩

/-- A portable value is read by the driver's library from the text it is serialized to. -/
theorem parse_serializeText {v : Value} (h : Nlohmann.Portable v) :
    Nlohmann.parse (utf8 (serializeText v)) = .ok v := by
  have hparse := Nlohmann.parse_eq_parseText defaultEncoder v []
  rw [List.append_nil] at hparse
  rw [utf8_serializeText, hparse, Nlohmann.parseText_written defaultEncoder h]

theorem portable_toInt (mark : Int64) : Nlohmann.Portable (.integer mark.toInt) := by
  have hlow := mark.le_toInt
  have hhigh := mark.toInt_lt
  exact .integer hlow (lt_trans hhigh (by norm_num))

/-- The text of a response is that of the value its handler is to return. -/
theorem responded_carries {reader : TextReader} {eventsBody : Option String → Except Exn EventsBody}
    (hturn : turn ∈ servedTurns (busJson reader eventsBody) none servings)
    (hread : turn.read = .ok command)
    (h : Responded (busJson reader eventsBody) turn command d) :
    ∃ v, Nlohmann.parse (utf8 d.result) = .ok v ∧
      Carried (busJson reader eventsBody) servings command v := by
  obtain ⟨before, s, after, rfl, rfl⟩ := mem_servedTurns hturn
  cases h with
  | key htype hbody hkey htext =>
    cases htext
    rw [GetEncryptionKeyHandler.executeRequest_ok hkey]
    exact ⟨_, parse_serializeText (.string _), .key htype hbody⟩
  | @mark body mark text htype hbody hmark htext =>
    cases htext
    refine ⟨.integer mark.toInt, parse_serializeText (portable_toInt mark), ?_⟩
    cases body with
    | none => cases hmark
    | some events =>
      rcases executeRequest_ok (Prod.ext hmark rfl) with ⟨rfl, -, rfl⟩ | ⟨hne, hmax, -⟩
      · rw [storedMark_foldl]
        exact .asked htype hbody rfl hread
      · exact .saved htype hbody hne hmax

/-- Each response the driver decodes carries what the program is to answer to the request: to a key
request the key of the document, to a batch the largest id of the batch, and to an empty batch the
mark that has been written last, whole or broken off. -/
theorem responses_carry_values {reader : TextReader}
    {eventsBody : Option String → Except Exn EventsBody} {newline : LineEnd} {pipe : Incoming}
    {frames : List (List Frame)} {reads : List Read}
    (h : RequestRound (busJson reader eventsBody) reader newline pipe frames
      (servedTurns (busJson reader eventsBody) none servings) reads) :
    List.SublistForall₂
      (fun d f => ∃ command v, Models.Command.deserialize reader f.text = .ok (some command) ∧
        d.id = guidText command.id ∧ d.isSuccess = true ∧
        Nlohmann.parse (utf8 d.result) = .ok v ∧
        Carried (busJson reader eventsBody) servings command v)
      (decodedResults reads) frames.flatten := by
  apply sublistForall₂_mono _ h.responses_matched
  rintro d f ⟨turn, hturn, command, hread, hdecodes, hresponded⟩
  obtain ⟨v, hparse, hcarried⟩ := responded_carries hturn hread hresponded
  exact ⟨command, v, hdecodes, hresponded.id, hresponded.isSuccess, hparse, hcarried⟩

end DriverBus.Services
