import DriverBus.Client.Responses
import DriverBus.Foundations.Matching
import DriverBus.Services.BusJson

/-!
# A request on its way to the service and back

The driver's requests, the turns of `ExecuteRequests` and the thread that reads
the responses taken together. What the thread decodes are responses to some of
the requests, each to one of its own and in their order, and only successful
ones: the first failed request ends the client.
-/

namespace DriverBus.Services

open DriverBus.Foundations DriverBus.Models DriverBus.Handlers DriverBus.Client DriverBus.Pipe

variable {E : Type} {json : BusJson E} {reader : TextReader} {newline : LineEnd}
  {turns : List (Turn E)} {turn : Turn E} {command : Models.Command} {pipe : Incoming}
  {frames : List (List Frame)} {reads : List Read} {d : Client.CommandResult}

/-- The result built for a command, when the command can be mapped. -/
def resultTo (json : BusJson E) (turn : Turn E) (command : Models.Command) :
    Option Models.CommandResult :=
  match mapCommandToRequest json command with
  | .error _ => none
  | .ok (.getEncryptionKey request) =>
    some (commandResult ⟨turn.getEncryptionKey, json.keyResponse⟩ request)
  | .ok (.sendEventsBatch request) =>
    some (commandResult ⟨turn.sendEventsBatch, json.markResponse⟩ request)

/-- What the driver decodes of the result, when it can. -/
def responseTo (json : BusJson E) (p : Turn E × Models.Command) : Option Client.CommandResult :=
  (resultTo json p.1 p.2).bind decodedAs

/-- The handler of the command has returned a value, and the driver has got its text. -/
inductive Responded (json : BusJson E) (turn : Turn E) (command : Models.Command) :
    Client.CommandResult → Prop
  | key {body key text} (htype : command.type = .getEncryptionKey)
      (hbody : json.guidBody command.parameters = .ok body)
      (hkey : turn.getEncryptionKey body = .ok key) (htext : json.keyResponse key = .ok text) :
      Responded json turn command ⟨guidText command.id, true, text⟩
  | mark {body mark text} (htype : command.type = .sendEventsBatch)
      (hbody : json.eventsBody command.parameters = .ok body)
      (hmark : turn.sendEventsBatch body = .ok mark) (htext : json.markResponse mark = .ok text) :
      Responded json turn command ⟨guidText command.id, true, text⟩

/-- The service has read commands of the driver's lines and `reads` is what the driver gets of the
results written. -/
structure RequestRound (json : BusJson E) (reader : TextReader) (newline : LineEnd)
    (pipe : Incoming) (frames : List (List Frame)) (turns : List (Turn E))
    (reads : List Read) : Prop where
  incoming : Sends pipe frames
  commands : ∃ n, (received turns).map Prod.snd =
    readCalls (Models.Command.deserialize reader) n pipe
  lines : dataOf reads =
    ((resultLines newline (executeRequests json turns)).map Line.bytes).flatten
  /-- `HResult` is an `int`. -/
  codes : ∀ r ∈ executeRequests json turns, ∀ n ∈ r.errorCode, InInt32 n

/-- The result of a handled request is decoded when the handler returned and its value could be
serialized. -/
theorem decodedAs_commandResult {B R : Type} {handler : RequestHandler B R}
    {request : BaseDriverRequest B} :
    decodedAs (commandResult handler request) = some d ↔
      ∃ value text, handler.executeRequest request.requestBody = .ok value ∧
        handler.serialize value = .ok text ∧ d = ⟨guidText request.id, true, text⟩ := by
  cases hexec : handler.executeRequest request.requestBody with
  | error ex => simp [decodedAs, commandResult, hexec, Except.bind]
  | ok value =>
    cases hser : handler.serialize value with
    | error ex => simp [decodedAs, commandResult, hexec, hser, Except.bind]
    | ok text => simp [decodedAs, commandResult, hexec, hser, Except.bind, eq_comm]

/-- A mapped command has one of the two types, and its parameters decode to the body. -/
theorem mapCommandToRequest_ok_iff {request : DriverRequest E} :
    mapCommandToRequest json command = .ok request ↔
      (∃ body, command.type = .getEncryptionKey ∧ json.guidBody command.parameters = .ok body ∧
        request = .getEncryptionKey ⟨command.id, command.type, body⟩) ∨
      (∃ body, command.type = .sendEventsBatch ∧ json.eventsBody command.parameters = .ok body ∧
        request = .sendEventsBatch ⟨command.id, command.type, body⟩) := by
  unfold mapCommandToRequest
  cases htype : command.type with
  | getEncryptionKey =>
    simp only [map_eq_ok_iff, reduceCtorEq, false_and, exists_false, or_false, true_and]
    apply exists_congr
    intro body
    rw [eq_comm (a := request)]
  | sendEventsBatch =>
    simp only [map_eq_ok_iff, reduceCtorEq, false_and, exists_false, false_or, true_and]
    apply exists_congr
    intro body
    rw [eq_comm (a := request)]
  | _ => simp

theorem responseTo_iff : responseTo json (turn, command) = some d ↔
    Responded json turn command d := by
  constructor
  · intro h
    obtain ⟨result, hresult, hd⟩ := Option.bind_eq_some_iff.mp h
    cases hmap : mapCommandToRequest json command with
    | error e => simp [resultTo, hmap] at hresult
    | ok request =>
      rcases mapCommandToRequest_ok_iff.mp hmap with
        ⟨body, htype, hbody, rfl⟩ | ⟨body, htype, hbody, rfl⟩
      · simp only [resultTo, hmap, Option.some.injEq] at hresult
        rw [← hresult, decodedAs_commandResult] at hd
        obtain ⟨key, text, hkey, htext, rfl⟩ := hd
        exact .key htype hbody hkey htext
      · simp only [resultTo, hmap, Option.some.injEq] at hresult
        rw [← hresult, decodedAs_commandResult] at hd
        obtain ⟨mark, text, hmark, htext, rfl⟩ := hd
        exact .mark htype hbody hmark htext
  · intro h
    cases h with
    | key htype hbody hkey htext =>
      have hmap := mapCommandToRequest_ok_iff.mpr (.inl ⟨_, htype, hbody, rfl⟩)
      simp only [responseTo, resultTo, hmap, Option.bind_some, decodedAs_commandResult]
      exact ⟨_, _, hkey, htext, rfl⟩
    | mark htype hbody hmark htext =>
      have hmap := mapCommandToRequest_ok_iff.mpr (.inr ⟨_, htype, hbody, rfl⟩)
      simp only [responseTo, resultTo, hmap, Option.bind_some, decodedAs_commandResult]
      exact ⟨_, _, hmark, htext, rfl⟩

theorem Responded.id (h : Responded json turn command d) : d.id = guidText command.id := by
  cases h <;> rfl

theorem Responded.isSuccess (h : Responded json turn command d) : d.isSuccess = true := by
  cases h <;> rfl

/-- One turn writes the result of its command, or nothing. -/
theorem readAndExecuteRequest_eq (hread : turn.read = .ok command) :
    (readAndExecuteRequest json turn).Sublist (resultTo json turn command).toList ∧
      ((∀ result, turn.write result = .ok ()) →
        readAndExecuteRequest json turn = (resultTo json turn command).toList) := by
  have hhandle {B R : Type} (handler : RequestHandler B R) (request : BaseDriverRequest B) :
      (handle handler turn.write request).2.Sublist [commandResult handler request] := by
    unfold handle
    split <;> simp
  cases hmap : mapCommandToRequest json command with
  | error e =>
    have hturn : readAndExecuteRequest json turn = [] := by
      simp [readAndExecuteRequest, hread, hmap]
    simp [hturn, resultTo, hmap]
  | ok request =>
    have hturn : readAndExecuteRequest json turn = (sendRequest json turn request).2 := by
      simp [readAndExecuteRequest, hread, hmap]
    rw [hturn, resultTo, hmap]
    cases request with
    | getEncryptionKey request => exact ⟨hhandle _ _, handle_writes⟩
    | sendEventsBatch request => exact ⟨hhandle _ _, handle_writes⟩

/-- The results written are results of commands received, in their order. -/
theorem executeRequests_sublist (json : BusJson E) (turns : List (Turn E)) :
    (executeRequests json turns).Sublist
        ((received turns).filterMap fun p => resultTo json p.1 p.2) ∧
      ((∀ turn ∈ turns, ∀ result, turn.write result = .ok ()) →
        executeRequests json turns =
          (received turns).filterMap fun p => resultTo json p.1 p.2) := by
  induction turns with
  | nil => simp [executeRequests, received]
  | cons turn turns ih =>
    have hexec : executeRequests json (turn :: turns) =
        readAndExecuteRequest json turn ++ executeRequests json turns := by
      simp [executeRequests]
    rw [hexec]
    cases hread : turn.read with
    | error e =>
      have hreceived : received (turn :: turns) = received turns := by
        simp [received, hread, Except.toOption]
      have hnothing : readAndExecuteRequest json turn = [] := by
        simp [readAndExecuteRequest, hread]
      rw [hreceived, hnothing]
      exact ⟨ih.1, fun hwrite => ih.2 fun t ht => hwrite t (List.mem_cons_of_mem _ ht)⟩
    | ok command =>
      have hreceived : received (turn :: turns) = (turn, command) :: received turns := by
        simp [received, hread, Except.toOption]
      have hfilter : ((turn, command) :: received turns).filterMap
            (fun p => resultTo json p.1 p.2) =
          (resultTo json turn command).toList ++
            (received turns).filterMap fun p => resultTo json p.1 p.2 := by
        cases h : resultTo json turn command <;> simp [h]
      obtain ⟨hsublist, heq⟩ := @readAndExecuteRequest_eq _ json _ _ hread
      rw [hreceived, hfilter]
      refine ⟨hsublist.append ih.1, ?_⟩
      intro hwrite
      rw [heq (hwrite turn List.mem_cons_self),
        ih.2 fun t ht => hwrite t (List.mem_cons_of_mem _ ht)]

theorem mem_received : (turn, command) ∈ received turns ↔
    turn ∈ turns ∧ turn.read = .ok command := by
  rw [received, List.mem_filterMap]
  constructor
  · rintro ⟨t, ht, hcommand⟩
    obtain ⟨c, hc, heq⟩ := Option.map_eq_some_iff.mp hcommand
    cases heq
    cases hread : turn.read with
    | error e => simp [hread, Except.toOption] at hc
    | ok c => simpa [hread, Except.toOption, ht] using hc
  · rintro ⟨hturn, hread⟩
    exact ⟨turn, hturn, by simp [hread, Except.toOption]⟩

theorem all_responded_iff : (∀ p ∈ received turns, ∃ d, Responded json p.1 p.2 d) ↔
    ((received turns).filterMap fun p => resultTo json p.1 p.2).length = (received turns).length ∧
      ∀ r ∈ (received turns).filterMap fun p => resultTo json p.1 p.2, (decodedAs r).isSome := by
  rw [List.filterMap_length_eq_length]
  constructor
  · intro h
    constructor
    · intro p hp
      obtain ⟨d, hd⟩ := h p hp
      obtain ⟨r, hr, -⟩ := Option.bind_eq_some_iff.mp (responseTo_iff.mpr hd)
      exact Option.isSome_of_eq_some hr
    · intro r hr
      obtain ⟨p, hp, hresult⟩ := List.mem_filterMap.mp hr
      obtain ⟨d, hd⟩ := h p hp
      have hresponse := responseTo_iff.mpr hd
      rw [responseTo, hresult, Option.bind_some] at hresponse
      exact Option.isSome_of_eq_some hresponse
  · rintro ⟨hmapped, hdecoded⟩ p hp
    obtain ⟨r, hr⟩ := Option.isSome_iff_exists.mp (hmapped p hp)
    obtain ⟨d, hd⟩ := Option.isSome_iff_exists.mp
      (hdecoded r (List.mem_filterMap.mpr ⟨p, hp, hr⟩))
    exact ⟨d, responseTo_iff.mp (by rw [responseTo, hr, Option.bind_some, hd])⟩

/-- Only two types of requests have a handler. -/
theorem resultTo_commandType {result : Models.CommandResult}
    (h : resultTo json turn command = some result) :
    result.commandType = .getEncryptionKey ∨ result.commandType = .sendEventsBatch := by
  cases hmap : mapCommandToRequest json command with
  | error e => simp [resultTo, hmap] at h
  | ok request =>
    rcases mapCommandToRequest_ok_iff.mp hmap with
      ⟨body, htype, -, rfl⟩ | ⟨body, htype, -, rfl⟩
    · simp only [resultTo, hmap, Option.some.injEq] at h
      left
      rw [← h, commandResult_request.2, htype]
    · simp only [resultTo, hmap, Option.some.injEq] at h
      right
      rw [← h, commandResult_request.2, htype]

namespace RequestRound

variable (h : RequestRound json reader newline pipe frames turns reads)
include h

theorem isValue : ∀ r ∈ executeRequests json turns, r.IsValue := by
  intro r hr
  refine ⟨?_, h.codes r hr⟩
  obtain ⟨p, -, hp⟩ := List.mem_filterMap.mp ((executeRequests_sublist json turns).1.subset hr)
  rcases resultTo_commandType hp with htype | htype
  · rw [htype]
    exact ⟨by decide, rfl⟩
  · rw [htype]
    exact ⟨by decide, rfl⟩

theorem decoded_sublist :
    (decodedResults reads).Sublist ((received turns).filterMap (responseTo json)) := by
  obtain ⟨k, -, hdecoded, -⟩ := results_take h.isValue h.lines
  rw [hdecoded]
  have hall := (executeRequests_sublist json turns).1.filterMap decodedAs
  rw [List.filterMap_filterMap] at hall
  exact ((List.take_sublist k _).filterMap decodedAs).trans hall

/-- Every command received belongs to a request of its own. -/
theorem received_matched : List.SublistForall₂
    (fun p f => Models.Command.deserialize reader f.text = .ok (some p.2))
    (received turns) frames.flatten := by
  obtain ⟨n, hcommands⟩ := h.commands
  obtain ⟨fs, fss, rfl, hpending⟩ := h.incoming.pending
  have htextsOnly : AcceptsOnlyTexts (Models.Command.deserialize reader) := deserialize_texts reader
  obtain ⟨kept, hkept, hvalues⟩ := readCalls_sublist htextsOnly n hpending
  rw [← hcommands] at hvalues
  apply List.sublistForall₂_iff.mpr
  refine ⟨kept, ?_, hkept⟩
  exact List.forall₂_map_left_iff.mp hvalues

/-- However the bytes are cut in both directions, every result the driver decodes is the response
of a handler to a request of its own. -/
theorem responses_matched : List.SublistForall₂
    (fun d f => ∃ turn ∈ turns, ∃ command, turn.read = .ok command ∧
      Models.Command.deserialize reader f.text = .ok (some command) ∧
      Responded json turn command d)
    (decodedResults reads) frames.flatten := by
  have hresponses := sublistForall₂_mem (sublistForall₂_of_filterMap h.decoded_sublist)
  apply sublistForall₂_mono _ (sublistForall₂_comp hresponses h.received_matched)
  rintro d f ⟨⟨turn, command⟩, ⟨hresponse, hmem⟩, hdecodes⟩
  obtain ⟨hturn, hread⟩ := mem_received.mp hmem
  exact ⟨turn, hturn, command, hread, hdecodes, responseTo_iff.mp hresponse⟩

end RequestRound

/-- The driver gets a response to every request exactly when no read holds bytes behind a line feed
and every request has been handled with success. -/
theorem all_requests_responded_iff
    (h : RequestRound json reader newline pipe frames turns reads)
    (hwrite : ∀ turn ∈ turns, ∀ result, turn.write result = .ok ()) (hclosed : ClosedAtEnd reads) :
    (decodedResults reads).length = (received turns).length ↔
      LineFeedsEndReads reads ∧ ∀ p ∈ received turns, ∃ d, Responded json p.1 p.2 d := by
  obtain ⟨k, hk, hdecoded, hsome, hiff⟩ := results_take h.isValue h.lines
  have hresults := (executeRequests_sublist json turns).2 hwrite
  have hlength : (decodedResults reads).length = k := by
    rw [hdecoded, List.filterMap_length_eq_length.mpr hsome, List.length_take,
      Nat.min_eq_left hk]
  have hle : (executeRequests json turns).length ≤ (received turns).length := by
    rw [hresults]
    exact List.length_filterMap_le _ _
  have hresponded : (∀ p ∈ received turns, ∃ d, Responded json p.1 p.2 d) ↔
      (executeRequests json turns).length = (received turns).length ∧
        ∀ r ∈ executeRequests json turns, (decodedAs r).isSome := by
    rw [hresults]
    exact all_responded_iff
  rw [hlength, hresponded]
  constructor
  · intro hall
    obtain ⟨hends, hdecodes⟩ := (hiff hclosed).mp (by omega)
    exact ⟨hends, by omega, hdecodes⟩
  · rintro ⟨hends, hall, hdecodes⟩
    rw [(hiff hclosed).mpr ⟨hends, hdecodes⟩, hall]

end DriverBus.Services
