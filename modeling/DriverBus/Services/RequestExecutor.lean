import DriverBus.Foundations.Outcomes
import DriverBus.Handlers.BaseDriverRequestHandler
import Mathlib.Tactic

/-!
# Serving the driver's requests

Each turn of the loop reads a command, maps it to a request and sends it to its
handler. The exceptions of reading and of mapping are caught one level above
the handlers and only logged, so a command that cannot be mapped gets no
result at all. It is answered exactly when its type has a handler and its
parameters decode to the body of that handler's request.
-/

namespace DriverBus.Services

open DriverBus.Foundations DriverBus.Models DriverBus.Handlers

/-- The requests that have a handler; `E` stands for `DriverEventDto[]`, or null. -/
inductive DriverRequest (E : Type)
  | getEncryptionKey (request : BaseDriverRequest Guid)
  | sendEventsBatch (request : BaseDriverRequest E)

/-- `Id` of the base class. -/
def DriverRequest.id {E : Type} : DriverRequest E → Guid
  | .getEncryptionKey request => request.id
  | .sendEventsBatch request => request.id

/-- `CommandType` of the base class. -/
def DriverRequest.commandType {E : Type} : DriverRequest E → CommandType
  | .getEncryptionKey request => request.commandType
  | .sendEventsBatch request => request.commandType

/-- `JsonSerializer` with the options of the bus, at the types the requests use. -/
structure BusJson (E : Type) where
  guidBody : Option String → Except Exn Guid
  eventsBody : Option String → Except Exn E
  keyResponse : String → Except Exn String
  markResponse : Int64 → Except Exn String

/-- What one turn meets outside: the outcome of `ReadAsync`, of the two `ExecuteRequest`, and of
`WriteAsync`. -/
structure Turn (E : Type) where
  read : Except Exn Command
  getEncryptionKey : Guid → Except Exn String
  sendEventsBatch : E → Except Exn Int64
  write : CommandResult → Except Exn Unit

def argumentOutOfRange : Exn where
  hResult := -2146233086
  message := "Specified argument was out of the range of valid values."

variable {E : Type} (json : BusJson E)

def mapCommandToRequest (command : Command) : Except Exn (DriverRequest E) :=
  match command.type with
  | .getEncryptionKey =>
    (json.guidBody command.parameters).map fun body =>
      .getEncryptionKey ⟨command.id, command.type, body⟩
  | .sendEventsBatch =>
    (json.eventsBody command.parameters).map fun body =>
      .sendEventsBatch ⟨command.id, command.type, body⟩
  | .default | .setParams | .setPermissions | .other _ => .error argumentOutOfRange

/-- `_mediator.Send`: the handler of the request's type. -/
def sendRequest (turn : Turn E) : DriverRequest E → Except Exn Unit × List CommandResult
  | .getEncryptionKey request =>
    handle ⟨turn.getEncryptionKey, json.keyResponse⟩ turn.write request
  | .sendEventsBatch request =>
    handle ⟨turn.sendEventsBatch, json.markResponse⟩ turn.write request

/-- The results written in one turn; an exception is logged. -/
def readAndExecuteRequest (turn : Turn E) : List CommandResult :=
  match turn.read with
  | .error _ => []
  | .ok command =>
    match mapCommandToRequest json command with
    | .error _ => []
    | .ok request => (sendRequest json turn request).2

/-- The results written in the turns of the loop until it is cancelled. -/
def executeRequests (turns : List (Turn E)) : List CommandResult :=
  turns.flatMap (readAndExecuteRequest json)

/-- The commands `ReadAsync` returned, each with its turn. -/
def received (turns : List (Turn E)) : List (Turn E × Command) :=
  turns.filterMap fun turn => turn.read.toOption.map fun command => (turn, command)

/-- The command could not be mapped, or its handler threw. -/
def Failed (turn : Turn E) (command : Command) : Prop :=
  match mapCommandToRequest json command with
  | .error _ => True
  | .ok (.getEncryptionKey request) => ∃ e, turn.getEncryptionKey request.requestBody = .error e
  | .ok (.sendEventsBatch request) => ∃ e, turn.sendEventsBatch request.requestBody = .error e

/-- The result answers the command read in this turn. -/
def Answers (p : Turn E × Command) (result : CommandResult) : Prop :=
  result.id = p.2.id ∧ result.commandType = p.2.type ∧
    (Failed json p.1 p.2 → result.isSuccess = false)

/-- Exactly one result for every command, in the order of the commands. -/
def EveryCommandAnswered (turns : List (Turn E)) : Prop :=
  List.Forall₂ (Answers json) (received turns) (executeRequests json turns)

/-- The command's type has a handler, and its parameters decode to that request's body. -/
def Mappable (command : Command) : Prop :=
  (command.type = .getEncryptionKey ∧ ∃ body, json.guidBody command.parameters = .ok body) ∨
    (command.type = .sendEventsBatch ∧ ∃ body, json.eventsBody command.parameters = .ok body)

variable {json} {turn : Turn E} {turns : List (Turn E)} {command : Command}

theorem mappable_iff : Mappable json command ↔ (mapCommandToRequest json command).isOk = true := by
  unfold mapCommandToRequest Mappable
  cases command.type with
  | getEncryptionKey =>
    cases json.guidBody command.parameters <;> simp [Except.map, Except.isOk, Except.toBool]
  | sendEventsBatch =>
    cases json.eventsBody command.parameters <;> simp [Except.map, Except.isOk, Except.toBool]
  | _ => simp [Except.isOk, Except.toBool]

/-- The request keeps the Id and the type of its command. -/
theorem mapCommandToRequest_keeps {request : DriverRequest E}
    (hmap : mapCommandToRequest json command = .ok request) :
    request.id = command.id ∧ request.commandType = command.type := by
  unfold mapCommandToRequest at hmap
  split at hmap
  · obtain ⟨body, -, rfl⟩ := map_eq_ok_iff.mp hmap
    constructor <;> rfl
  · obtain ⟨body, -, rfl⟩ := map_eq_ok_iff.mp hmap
    constructor <;> rfl
  all_goals simp at hmap

/-- The result of a request with the Id and the type of the command answers the command, when
a failed command is one whose handler throws. -/
theorem commandResult_answers {B R : Type} {handler : RequestHandler B R}
    {request : BaseDriverRequest B} (hid : request.id = command.id)
    (htype : request.commandType = command.type)
    (hthrows : Failed json turn command →
      ∃ e, handler.executeRequest request.requestBody = .error e) :
    Answers json (turn, command) (commandResult handler request) := by
  refine ⟨commandResult_request.1.trans hid, commandResult_request.2.trans htype, ?_⟩
  intro hfailed
  obtain ⟨e, hthrow⟩ := hthrows hfailed
  exact (commandResult_of_throws hthrow).1

/-- A command that is mapped gets one result, whatever its handler does. -/
theorem sendRequest_answers {request : DriverRequest E}
    (hwrite : ∀ result, turn.write result = .ok ())
    (hmap : mapCommandToRequest json command = .ok request) :
    ∃ result, (sendRequest json turn request).2 = [result] ∧
      Answers json (turn, command) result := by
  obtain ⟨hid, htype⟩ := mapCommandToRequest_keeps hmap
  cases request with
  | getEncryptionKey request =>
    exact ⟨_, handle_writes hwrite, commandResult_answers hid htype (by simp [Failed, hmap])⟩
  | sendEventsBatch request =>
    exact ⟨_, handle_writes hwrite, commandResult_answers hid htype (by simp [Failed, hmap])⟩

/-- The results written are the answers to the commands that were mapped, one each and in order. -/
theorem mapped_commands_answered (hwrite : ∀ turn ∈ turns, ∀ result, turn.write result = .ok ()) :
    List.Forall₂ (Answers json)
      ((received turns).filter fun p => (mapCommandToRequest json p.2).isOk)
      (executeRequests json turns) := by
  induction turns with
  | nil => exact List.Forall₂.nil
  | cons turn turns ih =>
    have hrest := ih fun t ht => hwrite t (List.mem_cons_of_mem _ ht)
    have hexec : executeRequests json (turn :: turns) =
        readAndExecuteRequest json turn ++ executeRequests json turns := by
      simp [executeRequests]
    rw [hexec]
    cases hread : turn.read with
    | error e =>
      -- A failed read is logged: there is no command, and nothing is written.
      have hreceived : received (turn :: turns) = received turns := by
        simp [received, hread, Except.toOption]
      simpa [hreceived, readAndExecuteRequest, hread] using hrest
    | ok command =>
      have hreceived : received (turn :: turns) = (turn, command) :: received turns := by
        simp [received, hread, Except.toOption]
      rw [hreceived]
      cases hmap : mapCommandToRequest json command with
      | error e =>
        simpa [hmap, Except.isOk, Except.toBool, readAndExecuteRequest, hread] using hrest
      | ok request =>
        obtain ⟨result, hwritten, hanswers⟩ :=
          sendRequest_answers (hwrite turn List.mem_cons_self) hmap
        have hturn : readAndExecuteRequest json turn = [result] := by
          simp [readAndExecuteRequest, hread, hmap, hwritten]
        rw [hturn, List.filter_cons_of_pos (by simp [hmap, Except.isOk, Except.toBool])]
        exact List.Forall₂.cons hanswers hrest

/-- With every write succeeding, each command is answered exactly once and in order if and only if
each command that was read can be mapped: its type has a handler and its parameters decode. -/
theorem every_command_answered_iff
    (hwrite : ∀ turn ∈ turns, ∀ result, turn.write result = .ok ()) :
    EveryCommandAnswered json turns ↔ ∀ p ∈ received turns, Mappable json p.2 := by
  have hmapped : List.Forall₂ (Answers json) _ _ := mapped_commands_answered hwrite
  constructor
  · intro hall p hp
    -- As many results as commands leaves no room for one that was not mapped.
    have hlength : ((received turns).filter fun p => (mapCommandToRequest json p.2).isOk).length =
        (received turns).length := by
      rw [hmapped.length_eq, ← hall.length_eq]
    exact mappable_iff.mpr (List.length_filter_eq_length_iff.mp hlength p hp)
  · intro hall
    have hfilter : ((received turns).filter fun p => (mapCommandToRequest json p.2).isOk) =
        received turns := by
      apply List.filter_eq_self.mpr
      intro p hp
      exact mappable_iff.mp (hall p hp)
    unfold EveryCommandAnswered
    rwa [hfilter] at hmapped

/-- Decodes one document Id and the empty batch, and throws on every other text. -/
def strictJson : BusJson (List Int64) where
  guidBody
    | some "\"ebebbb69-f9b3-4246-a937-f3bfe0f8f816\"" =>
      .ok ⟨0xebebbb69f9b34246a937f3bfe0f8f816⟩
    | _ => .error ⟨-2146233088, "The JSON value could not be converted."⟩
  eventsBody
    | some "[]" => .ok []
    | _ => .error ⟨-2146233088, "The JSON value could not be converted."⟩
  keyResponse key := .ok ("\"" ++ key ++ "\"")
  markResponse mark := .ok (toString mark.toInt)

/-- A turn that reads this command; the key handler throws and every write succeeds. -/
def turnOf (type : CommandType) (parameters : String) : Turn (List Int64) where
  read := .ok { id := ⟨7⟩, type := type, isEncrypted := false, parameters := some parameters }
  getEncryptionKey _ := .error ⟨-2146233079, "No key."⟩
  sendEventsBatch _ := .ok 0
  write _ := .ok ()

/-- A command without a handler and one with a malformed body get no result. -/
theorem unmapped_commands_unanswered :
    (∀ turn ∈ [turnOf .setParams "\x7b\x7d", turnOf .getEncryptionKey "7"],
      ∀ result, turn.write result = .ok ()) ∧
    executeRequests strictJson [turnOf .setParams "\x7b\x7d", turnOf .getEncryptionKey "7"] = [] ∧
    ¬ EveryCommandAnswered strictJson
      [turnOf .setParams "\x7b\x7d", turnOf .getEncryptionKey "7"] := by
  refine ⟨?_, rfl, ?_⟩
  · intro turn hturn result
    simp only [List.mem_cons, List.not_mem_nil, or_false] at hturn
    obtain rfl | rfl := hturn
    · rfl
    · rfl
  · intro hall
    exact absurd hall.length_eq (by decide)

theorem every_command_answered_throwing :
    EveryCommandAnswered strictJson
      [turnOf .getEncryptionKey "\"ebebbb69-f9b3-4246-a937-f3bfe0f8f816\"",
        turnOf .sendEventsBatch "[]"] := by
  apply (every_command_answered_iff _).mpr
  · intro p hp
    apply mappable_iff.mpr
    revert p
    decide
  · intro turn hturn result
    simp only [List.mem_cons, List.not_mem_nil, or_false] at hturn
    obtain rfl | rfl := hturn
    · rfl
    · rfl

end DriverBus.Services
