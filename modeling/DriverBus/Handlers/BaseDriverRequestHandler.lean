import DriverBus.Models.Commands

/-!
# Handling one request of the driver

`Handle` runs the handler, serializes its response and writes one result: a
successful one, or a failed one with the code and text of the exception that
either stage threw. Only the write itself lies outside its catch block.
-/

namespace DriverBus.Handlers

open DriverBus.Models

/-- `BaseDriverRequest<T>`. -/
structure BaseDriverRequest (T : Type) where
  id : Guid
  commandType : CommandType
  requestBody : T

/-- What a handler supplies: its `ExecuteRequest`, and how its response is serialized. -/
structure RequestHandler (B R : Type) where
  executeRequest : B → Except Exn R
  serialize : R → Except Exn String

variable {B R : Type}

/-- The result `Handle` builds. -/
def commandResult (handler : RequestHandler B R) (request : BaseDriverRequest B) : CommandResult :=
  match (handler.executeRequest request.requestBody).bind handler.serialize with
  | .ok responseJson =>
    { id := request.id
      commandType := request.commandType
      isSuccess := true
      errorCode := none
      errorMessage := none
      result := some responseJson }
  | .error ex =>
    { id := request.id
      commandType := request.commandType
      isSuccess := false
      errorCode := some ex.hResult
      errorMessage := some ex.message
      result := none }

/-- `Handle`: how it ends, and the results that have been written. -/
def handle (handler : RequestHandler B R) (write : CommandResult → Except Exn Unit)
    (request : BaseDriverRequest B) : Except Exn Unit × List CommandResult :=
  match write (commandResult handler request) with
  | .ok () => (.ok (), [commandResult handler request])
  | .error e => (.error e, [])

variable {handler : RequestHandler B R} {write : CommandResult → Except Exn Unit}
  {request : BaseDriverRequest B}

/-- The result carries the Id and the type of its request, whatever the handler does. -/
theorem commandResult_request : (commandResult handler request).id = request.id ∧
    (commandResult handler request).commandType = request.commandType := by
  unfold commandResult
  split
  · constructor <;> rfl
  · constructor <;> rfl

/-- An exception of the handler gives an unsuccessful result with the code and the text of it. -/
theorem commandResult_of_throws {ex : Exn}
    (hthrow : handler.executeRequest request.requestBody = .error ex) :
    (commandResult handler request).isSuccess = false ∧
      (commandResult handler request).errorCode = some ex.hResult ∧
      (commandResult handler request).errorMessage = some ex.message := by
  simp [commandResult, hthrow, Except.bind]

theorem handle_writes (hwrite : ∀ result, write result = .ok ()) :
    (handle handler write request).2 = [commandResult handler request] := by
  simp [handle, hwrite]

end DriverBus.Handlers
