import DriverBus.Handlers.GetEncryptionKeyHandler
import DriverBus.Models.Serialization
import DriverBus.Services.RequestExecutor

/-!
# The JSON inside a request

The parameters of a request are themselves a JSON text, and so is the response
of its handler. A document Id and a key come back from their texts as they
were, so both survive being written into a property of the outer object.
-/

namespace DriverBus.Services

open DriverBus.Foundations DriverBus.Foundations.Json DriverBus.Models DriverBus.Handlers
  DriverBus.Client

/-- The `ArgumentNullException` of `JsonSerializer.Deserialize`. -/
def argumentNull : Exn where
  hResult := -2147467261
  message := "Value cannot be null. (Parameter 'json')"

/-- `BaseDriverRequest<Guid>.DeserializeRequestBody`. -/
def deserializeGuid (reader : TextReader) : Option String → Except Exn Guid
  | none => .error argumentNull
  | some json => do readGuid "$" (← reader.read (utf8 json))

/-- The serializer of the bus, up to how it reads `DriverEventDto[]`. -/
def busJson {E : Type} (reader : TextReader) (eventsBody : Option String → Except Exn E) :
    BusJson E where
  guidBody := deserializeGuid reader
  eventsBody := eventsBody
  keyResponse key := .ok (serializeText (.string key))
  markResponse mark := .ok (serializeText (.integer mark.toInt))

/-- A document Id in the parameters of a request comes back. -/
theorem deserializeGuid_serialized (reader : TextReader) (id : Guid) :
    deserializeGuid reader (some (serializeText (.string (guidText id)))) = .ok id := by
  have hread : reader.read (utf8 (serializeText (.string (guidText id)))) =
    .ok (.string (guidText id)) := read_serializeText reader trivial
  simp [deserializeGuid, hread, bind, Except.bind]

end DriverBus.Services
