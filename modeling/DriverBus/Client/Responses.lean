import DriverBus.Client.Threads
import DriverBus.Pipe.Fragments

/-!
# The client's responses as the service reads them

The client puts the Id it has decoded between two fixed texts. With the Id of
a command the whole is the line of an object, and the service reads it as a
result of that command: the names of the properties differ in case only, the
type of the command is missing and keeps its default.
-/

namespace DriverBus.Client

open DriverBus.Foundations DriverBus.Foundations.Json DriverBus.Models DriverBus.Pipe

/-- Every printable character that has no meaning in a string stands for itself. -/
def plainEncoder : Encoder where
  plain n := 0x20 ≤ n && n < 0x7F && n != 0x22 && n != 0x5C
  printable n h := by
    simp only [Bool.and_eq_true, decide_eq_true_eq, bne_iff_ne] at h
    omega

def errorMessage : String :=
  "Test message Error526526Error123123Error123123Error123123Error123123Error123123" ++
    "Error123123Error123123Error123123commandId=fac75ca5-56e2-4c0b-80ed-10d007fa5ba4"

def responseMembers (id : String) : List (String × Value) :=
  [("id", .string id), ("isSuccess", .boolean true), ("errorCode", .integer 0),
    ("errorMessage", .string errorMessage)]

/-- The result the service makes of a response. -/
def responseResult (id : Guid) : Models.CommandResult where
  id := id
  commandType := .default
  isSuccess := true
  errorCode := some 0
  errorMessage := some errorMessage
  result := none

/-- All characters stand for themselves. -/
def IsPlain (s : String) : Prop := ∀ c ∈ s.toList, plainEncoder.plain c.toNat = true

theorem responseMembers_flat (id : String) : Flat (responseMembers id) where
  distinct := by
    have hkeys : (responseMembers id).map Prod.fst =
      ["id", "isSuccess", "errorCode", "errorMessage"] := rfl
    rw [hkeys]
    decide
  scalar := by
    simp only [responseMembers, List.forall_mem_cons, List.not_mem_nil, false_implies,
      implies_true, and_true]
    exact ⟨trivial, trivial, by constructor <;> norm_num, trivial⟩

theorem writeChars_plain {cs : List Char} (h : ∀ c ∈ cs, plainEncoder.plain c.toNat = true) :
    writeChars plainEncoder cs = cs.flatMap String.utf8EncodeChar := by
  induction cs with
  | nil => rfl
  | cons c cs ih =>
    obtain ⟨hc, hcs⟩ := List.forall_mem_cons.mp h
    have hascii : c.val.toNat ≤ 0x7F := by
      have hrange := plainEncoder.printable _ hc
      change c.toNat ≤ 0x7F
      omega
    have hchar : writeChar plainEncoder c = String.utf8EncodeChar c := by
      rw [writeChar, if_pos hc, String.utf8EncodeChar, if_pos hascii]
      rfl
    have hcons : writeChars plainEncoder (c :: cs) =
      writeChar plainEncoder c ++ writeChars plainEncoder cs := rfl
    rw [hcons, hchar, ih hcs, List.flatMap_cons]

def responseStart : Bytes := leftBrace :: (writeString plainEncoder "id" ++ [colon, quote])

def responseEnd : Bytes :=
  quote :: comma :: (writeMembers plainEncoder (responseMembers "").tail ++ [rightBrace])

theorem write_responseMembers (id : String) :
    Json.write plainEncoder (.object (responseMembers id)) =
      responseStart ++ (writeChars plainEncoder id.toList ++ responseEnd) := by
  simp [Json.write, responseMembers, writeMembers, writeString, responseStart, responseEnd]

/-- What the client writes for a plain Id is the line of an object. -/
theorem response_eq {id : String} (h : IsPlain id) : response id =
    Json.write plainEncoder (.object (responseMembers id)) ++ [lf] := by
  have hid : utf8 id = writeChars plainEncoder id.toList := by
    rw [utf8_eq, writeChars_plain h]
  have hstart : utf8 "\x7b\"id\":\"" = responseStart := by decide
  have hend : utf8 ("\",\"isSuccess\":true,\"errorCode\":0,\"errorMessage\":\"" ++
      "Test message Error526526Error123123Error123123Error123123Error123123Error123123" ++
      "Error123123Error123123Error123123commandId=fac75ca5-56e2-4c0b-80ed-10d007fa5ba4\"\x7d\n") =
      responseEnd ++ [lf] := by decide +kernel
  rw [response, write_responseMembers, ← hid, ← hstart]
  simp only [utf8_append, List.append_assoc] at hend ⊢
  rw [hend]

/-- The text of an Id has only digits and hyphens, so it is written as it is. -/
theorem guidText_plain (id : Guid) : IsPlain (guidText id) := by
  have hdigit (n : ℕ) : plainEncoder.plain (Nat.digitChar (n % 16)).toNat = true := by
    have hlt : n % 16 < 16 := Nat.mod_lt _ (by omega)
    generalize n % 16 = d at hlt
    interval_cases d <;> rfl
  have hdigits (bits n : ℕ) : ∀ c ∈ hexDigits bits n, plainEncoder.plain c.toNat = true := by
    induction n with
    | zero => simp [hexDigits]
    | succ n ih =>
      rw [hexDigits, List.forall_mem_cons]
      exact ⟨hdigit _, ih⟩
  have hall := hdigits id.bits.toNat 32
  intro c hc
  rw [guidText, String.toList_ofList] at hc
  simp only [List.append_assoc, List.cons_append, List.mem_append, List.mem_cons] at hc
  rcases hc with hc | rfl | hc | rfl | hc | rfl | hc | rfl | hc
  · exact hall c (List.mem_of_mem_take hc)
  · rfl
  · exact hall c (List.mem_of_mem_drop (List.mem_of_mem_take hc))
  · rfl
  · exact hall c (List.mem_of_mem_drop (List.mem_of_mem_take hc))
  · rfl
  · exact hall c (List.mem_of_mem_drop (List.mem_of_mem_take hc))
  · rfl
  · exact hall c (List.mem_of_mem_drop hc)

/-- The response to a command, as the service reads its line. -/
def responseFrame (id : Guid) : Frame where
  text := Json.write plainEncoder (.object (responseMembers (guidText id)))
  isObject := write_object_isObject plainEncoder _
  oneLine b hb := inLine_of_printable (write_printable plainEncoder _ b hb)
  lineEnd := .lf

theorem responseFrame_bytes (id : Guid) : (responseFrame id).bytes = response (guidText id) := by
  rw [response_eq (guidText_plain id)]
  rfl

/-- The service reads the response to a command as a result with the Id of the command. -/
theorem deserialize_response (reader : TextReader) (id : Guid) :
    Models.CommandResult.deserialize reader (responseFrame id).text =
      .ok (some (responseResult id)) := by
  have hid : lowerCase "id" = "id" := rfl
  have hsuccess : lowerCase "isSuccess" = "issuccess" := rfl
  have hcode : lowerCase "errorCode" = "errorcode" := rfl
  have hmessage : lowerCase "errorMessage" = "errormessage" := rfl
  have hzero (path : String) : readNullableInt32 path (.integer 0) = .ok (some 0) := rfl
  apply deserialize_object reader plainEncoder (responseMembers_flat _)
  simp [responseMembers, Models.CommandResult.setProperty, hid, hsuccess, hcode, hmessage, readGuid,
    guidOf_guidText, readBoolean, readString, hzero, Except.map, bind, Except.bind, pure,
    Except.pure, Models.CommandResult.new, responseResult]

/-- The service reads nothing but complete texts. -/
theorem deserialize_texts {α : Type} {type : String} {new : α}
    {setProperty : α → String × Value → Except Exn α} (reader : TextReader) :
    AcceptsOnlyTexts (Models.deserialize reader type new setProperty) := by
  intro text v h
  obtain ⟨value, hread, -⟩ := bind_eq_ok_iff.mp h
  exact reader.texts hread

end DriverBus.Client
