import DriverBus.Client.Decoding

/-!
# What a client thread does with the lines of the service

A thread passes on the first lines, one a string. The string after them, if
there is one, cannot be decoded: it is a line that is refused, or several lines
that came together. Its exception ends the process and with it both threads; a
thread that was ended by the other one makes no further reads.
-/

namespace DriverBus.Client

open DriverBus.Foundations DriverBus.Foundations.Json DriverBus.Models DriverBus.Pipe

/-- A line with bytes of the next ones behind it is not decoded. -/
def RefusesMerged (body : Bytes → Except JsonException (List Bytes)) (lines : List Line) : Prop :=
  ∀ line others, line :: others <:+ lines → ∀ more, more ≠ [] →
    more <+: (others.map Line.bytes).flatten → ∃ e, body (line.bytes ++ more) = .error e

/-- The first lines have been passed on one by one, and then perhaps a string that has not been
decoded. -/
inductive PassesPrefix (body : Bytes → Except JsonException (List Bytes)) :
    List Line → Thread → Prop
  | waits {lines} : PassesPrefix body lines ⟨[], []⟩
  | fails {lines string e} (hne : string ≠ []) (h : body string = .error e) :
      PassesPrefix body lines ⟨[string], []⟩
  | line {line lines rest responses} (h : body line.bytes = .ok responses)
      (hrest : PassesPrefix body lines rest) :
      PassesPrefix body (line :: lines) ⟨line.bytes :: rest.passed, responses ++ rest.written⟩

/-- What the thread writes for a line. -/
def responsesTo (body : Bytes → Except JsonException (List Bytes)) (line : Line) : List Bytes :=
  match body line.bytes with
  | .ok responses => responses
  | .error _ => []

variable {body : Bytes → Except JsonException (List Bytes)} {message more : Bytes}
  {reads : List Read} {lines others : List Line} {line : Line} {thread : Thread}

/-- Once bytes behind a line are collected with it, the thread passes on no line any more. -/
theorem passes_of_merged
    (hrefuses : ∀ more, more ≠ [] → more <+: (others.map Line.bytes).flatten →
      ∃ e, body (line.bytes ++ more) = .error e)
    (hmore : more ≠ []) (hdata : more ++ dataOf reads <+: (others.map Line.bytes).flatten) :
    PassesPrefix body lines (readPipe body (line.bytes ++ more) reads) := by
  induction reads generalizing more with
  | nil => exact .waits
  | cons r reads ih =>
    cases r with
    | noData finished =>
      cases finished with
      | true => exact .waits
      | false => exact ih hmore hdata
    | data bytes hne hfits =>
      have hnext : (more ++ bytes) ++ dataOf reads <+: (others.map Line.bytes).flatten := by
        simpa [dataOf] using hdata
      have hnonempty : more ++ bytes ≠ [] := by simp [hne]
      rw [readPipe, List.append_assoc]
      split_ifs
      · obtain ⟨e, he⟩ :=
          hrefuses (more ++ bytes) hnonempty ((List.prefix_append _ _).trans hnext)
        rw [he]
        exact .fails (by simp [hne]) he
      · exact ih hnonempty hnext

/-- Bytes with a line feed inside are the first line and bytes of the next ones. -/
theorem lines_of_inside {bytes rest : Bytes} (hne : bytes ≠ []) (hno : lf ∉ message)
    (hinside : lf ∈ bytes.dropLast)
    (hdata : message ++ (bytes ++ rest) = (lines.map Line.bytes).flatten) :
    ∃ first others more, lines = first :: others ∧ more ≠ [] ∧
      message ++ bytes = first.bytes ++ more ∧ more ++ rest = (others.map Line.bytes).flatten := by
  rcases List.eq_nil_or_concat' bytes with rfl | ⟨init, b, rfl⟩
  · exact absurd rfl hne
  · rw [List.dropLast_concat] at hinside
    obtain ⟨front, tail, rfl, hfront⟩ := List.eq_append_cons_of_mem hinside
    have hline : (message ++ front) ++ lf :: (tail ++ [b] ++ rest) =
        (lines.map Line.bytes).flatten := by
      simpa using hdata
    obtain ⟨first, others, rfl, hfirst, hothers⟩ := lines_eq_cons (by simp [hno, hfront]) hline
    refine ⟨first, others, tail ++ [b], rfl, by simp, ?_, hothers⟩
    rw [← hfirst]
    simp

theorem RefusesMerged.tail (h : RefusesMerged body (line :: lines)) : RefusesMerged body lines := by
  intro l others hsuffix
  exact h l others (hsuffix.trans (List.suffix_cons line lines))

/-- However the bytes of the lines are cut into reads, the thread passes on the first of them. -/
theorem readPipe_passes (hrefuses : RefusesMerged body lines) (hno : lf ∉ message)
    (hdata : message ++ dataOf reads = (lines.map Line.bytes).flatten) :
    PassesPrefix body lines (readPipe body message reads) := by
  induction reads generalizing message lines with
  | nil => exact .waits
  | cons r reads ih =>
    cases r with
    | noData finished =>
      cases finished with
      | true => exact .waits
      | false => exact ih hrefuses hno hdata
    | data bytes hne hfits =>
      rcases lineFeed_cases bytes with hnone | ⟨front, rfl, hfront⟩ | hinside
      · have hlast : bytes.getLast? ≠ some lf := by
          intro hlast
          exact hnone (List.mem_of_getLast? hlast)
        rw [readPipe, if_neg hlast]
        exact ih hrefuses (by simp [hno, hnone]) (by simpa [dataOf] using hdata)
      · have hline : (message ++ front) ++ lf :: dataOf reads = (lines.map Line.bytes).flatten := by
          simpa [dataOf] using hdata
        obtain ⟨first, others, rfl, hfirst, hothers⟩ := lines_eq_cons (by simp [hno, hfront]) hline
        have hwhole : message ++ (front ++ [lf]) = first.bytes := by
          rw [← List.append_assoc]
          exact hfirst
        rw [readPipe, if_pos (by simp), hwhole]
        cases hbody : body first.bytes with
        | error e => exact .fails (by simp [Line.bytes]) hbody
        | ok responses =>
          exact .line hbody (ih hrefuses.tail List.not_mem_nil (by simpa using hothers))
      · obtain ⟨first, others, more, rfl, hmore, hcut, hothers⟩ :=
          lines_of_inside hne hno hinside hdata
        have hmerged := hrefuses first others List.suffix_rfl
        rw [readPipe, hcut]
        split_ifs
        · obtain ⟨e, he⟩ := hmerged more hmore (by rw [← hothers]; exact List.prefix_append _ _)
          rw [he]
          exact .fails (by simp [hmore]) he
        · exact passes_of_merged hmerged hmore (by rw [hothers])

/-- The strings behind the lines that have been passed on: none, or one that is refused. -/
def Refused (body : Bytes → Except JsonException (List Bytes)) (strings : List Bytes) : Prop :=
  strings = [] ∨ ∃ string e, strings = [string] ∧ string ≠ [] ∧ body string = .error e

/-- How far the thread has come. -/
theorem PassesPrefix.exists_take (h : PassesPrefix body lines thread) :
    ∃ k ≤ lines.length, ∃ refused, Refused body refused ∧
      thread.passed = (lines.take k).map Line.bytes ++ refused ∧
      thread.written = (lines.take k).flatMap (responsesTo body) ∧
      ∀ line ∈ lines.take k, ∃ responses, body line.bytes = .ok responses := by
  induction h with
  | waits => exact ⟨0, by simp, [], .inl rfl, by simp⟩
  | @fails lines string e hne h => exact ⟨0, by simp, [string], .inr ⟨string, e, rfl, hne, h⟩, by simp⟩
  | @line line lines rest responses hbody _ ih =>
    obtain ⟨k, hk, refused, hrefused, hpassed, hwritten, hdecoded⟩ := ih
    refine ⟨k + 1, by simpa using hk, refused, hrefused, ?_, ?_, ?_⟩
    · rw [List.take_succ_cons, List.map_cons, hpassed, List.cons_append]
    · rw [List.take_succ_cons, List.flatMap_cons, hwritten, responsesTo, hbody]
    · rw [List.take_succ_cons, List.forall_mem_cons]
      exact ⟨⟨responses, hbody⟩, hdecoded⟩

/-- No byte is passed on twice. -/
theorem passed_flatten_isPrefix :
    (readPipe body message reads).passed.flatten <+: message ++ dataOf reads := by
  induction reads generalizing message with
  | nil => simp [readPipe]
  | cons r reads ih =>
    cases r with
    | noData finished =>
      cases finished with
      | true => simp [readPipe]
      | false => exact ih
    | data bytes hne hfits =>
      rw [readPipe, dataOf, ← List.append_assoc]
      split_ifs
      · cases body (message ++ bytes) with
        | error e => simp
        | ok responses =>
          rw [List.flatten_cons]
          exact List.prefix_append_right_inj _ |>.mpr ih
      · exact ih

/-- How far the thread comes: it passes on the first `k` lines, which are all lines exactly when every
line feed ends a read and every line is decoded. -/
theorem readPipe_takes (hrefuses : RefusesMerged body lines)
    (hdata : dataOf reads = (lines.map Line.bytes).flatten) :
    ∃ k ≤ lines.length, ∃ refused, Refused body refused ∧
      (readPipe body [] reads).passed = (lines.take k).map Line.bytes ++ refused ∧
      (readPipe body [] reads).written = (lines.take k).flatMap (responsesTo body) ∧
      (∀ line ∈ lines.take k, ∃ responses, body line.bytes = .ok responses) ∧
      (ClosedAtEnd reads → (k = lines.length ↔ LineFeedsEndReads reads ∧
        ∀ line ∈ lines, ∃ responses, body line.bytes = .ok responses)) := by
  have hstart : ([] : Bytes) ++ dataOf reads = (lines.map Line.bytes).flatten := hdata
  have hpasses := readPipe_passes hrefuses List.not_mem_nil hstart
  obtain ⟨k, hk, refused, hrefused, hpassed, hwritten, hdecoded⟩ := hpasses.exists_take
  refine ⟨k, hk, refused, hrefused, hpassed, hwritten, hdecoded, ?_⟩
  intro hclosed
  have hiff := @passed_eq_iff body _ _ _ List.not_mem_nil hstart hclosed
  constructor
  · intro hall
    rw [hall, List.take_length] at hpassed hdecoded
    have hnothing : refused = [] := by
      have hstarts := @passed_flatten_isPrefix body [] reads
      rw [hpassed, List.nil_append, hdata, List.flatten_append] at hstarts
      have hnil := List.append_right_eq_self.mp (hstarts.eq_of_length_le (by simp))
      rcases hrefused with hnone | ⟨string, e, rfl, hne, -⟩
      · exact hnone
      · exact absurd (by simpa using hnil) hne
    rw [hnothing, List.append_nil] at hpassed
    exact ⟨(hiff.mp hpassed).1, hdecoded⟩
  · rintro ⟨hends, hall⟩
    have hlines := hiff.mpr ⟨hends, fun line hline => hall line (List.mem_of_mem_dropLast hline)⟩
    have hnothing : refused = [] := by
      rcases hrefused with hnone | ⟨string, e, rfl, -, herror⟩
      · exact hnone
      · have hmem : string ∈ lines.map Line.bytes := by
          rw [← hlines, hpassed]
          simp
        obtain ⟨line, hline, rfl⟩ := List.mem_map.mp hmem
        obtain ⟨a, ha⟩ := hall line hline
        rw [ha] at herror
        cases herror
    have hlength := congrArg List.length (hpassed.symm.trans hlines)
    simp only [hnothing, List.append_nil, List.length_map, List.length_take] at hlength
    omega

section Objects

variable {mss : List (List (String × Value))} {newline : LineEnd}

theorem inLine_of_printable {b : UInt8} (h : 0x20 ≤ b ∧ b < 0x7F) : inLine b = true := by
  have hlf : b ≠ lf := by
    rintro rfl
    exact absurd h.1 (by decide)
  have hcr : b ≠ cr := by
    rintro rfl
    exact absurd h.1 (by decide)
  simp [inLine, hlf, hcr]

/-- The message of an object with these members. -/
def objectMessage (members : List (String × Value)) : Message where
  text := Json.write defaultEncoder (.object members)
  isObject := write_object_isObject defaultEncoder members
  oneLine b hb := inLine_of_printable (write_printable defaultEncoder _ b hb)

def objectLine (newline : LineEnd) (members : List (String × Value)) : Line :=
  .ofMessage newline (objectMessage members)

theorem objectLine_bytes (members : List (String × Value)) : (objectLine newline members).bytes =
    Json.write defaultEncoder (.object members) ++ newline.bytes :=
  Line.ofMessage_bytes

theorem objectLine_head (newline : LineEnd) (members : List (String × Value)) :
    ∃ rest, (objectLine newline members).bytes = leftBrace :: rest := by
  rw [objectLine_bytes]
  exact ⟨_, rfl⟩

/-- The parser refuses two objects in one string, so whatever parses its string first does. -/
theorem refusesMerged_objects (hflat : ∀ ms ∈ mss, Flat ms)
    (hbody : ∀ string e, parse string = .error e → ∃ e, body string = .error e) :
    RefusesMerged body (mss.map (objectLine newline)) := by
  intro line others hsuffix more hmore hstarts
  have hmem : ∀ l ∈ line :: others, ∃ ms ∈ mss, objectLine newline ms = l := fun l hl =>
    List.mem_map.mp (hsuffix.subset hl)
  obtain ⟨ms, hms, rfl⟩ := hmem line List.mem_cons_self
  obtain ⟨next, others, rfl⟩ : ∃ next rest, others = next :: rest := by
    apply List.exists_cons_of_ne_nil
    rintro rfl
    exact hmore (List.prefix_nil.mp hstarts)
  obtain ⟨ms', -, rfl⟩ := hmem next (by simp)
  obtain ⟨rest, hrest⟩ := objectLine_head newline ms'
  obtain ⟨b, more, rfl⟩ := List.exists_cons_of_ne_nil hmore
  rw [List.map_cons, List.flatten_cons, hrest, List.cons_append, List.cons_prefix_cons] at hstarts
  rw [hstarts.1, objectLine_bytes, List.append_assoc]
  exact hbody _ _ (parse_merged (hflat ms hms))

end Objects

section Commands

variable {newline : LineEnd} {commands : List Models.Command}

/-- The client can decode every property it reads of the command. -/
def Decodable (c : Models.Command) : Prop := c.parameters ≠ none

/-- The lines the service writes for commands. -/
def commandLines (newline : LineEnd) (commands : List Models.Command) : List Line :=
  commands.map fun c => objectLine newline c.members

theorem commandLine_bytes (c : Models.Command) :
    (objectLine newline c.members).bytes = c.serialize ++ newline.bytes :=
  objectLine_bytes c.members

/-- What the thread does with a line. -/
def answer (line : Bytes) : Except JsonException (List Bytes) :=
  (Command.deserialize parse line).map fun c => [response c.id]

theorem responsesTo_command {c : Models.Command} (h : c.type.IsValue)
    (hdecodable : Decodable c) :
    responsesTo answer (objectLine newline c.members) = [response (guidText c.id)] := by
  obtain ⟨parameters, hparameters⟩ := Option.ne_none_iff_exists'.mp hdecodable
  rw [responsesTo, answer, commandLine_bytes, command_line h, hparameters]
  rfl

theorem decodable_iff {c : Models.Command} (h : c.type.IsValue) :
    Decodable c ↔ ∃ responses, answer (objectLine newline c.members).bytes = .ok responses := by
  rw [answer, commandLine_bytes, command_line h, Decodable]
  cases c.parameters <;> simp [Except.map]

theorem commandLines_refuse (hvalues : ∀ c ∈ commands, c.type.IsValue) :
    RefusesMerged answer (commandLines newline commands) := by
  have hlines : commandLines newline commands =
      (commands.map Models.Command.members).map (objectLine newline) := by
    simp [commandLines]
  rw [hlines]
  apply refusesMerged_objects
  · intro ms hms
    obtain ⟨c, hc, rfl⟩ := List.mem_map.mp hms
    exact Models.Command.members_flat (hvalues c hc)
  · intro string e he
    rw [answer, Command.deserialize, he]
    exact ⟨e, rfl⟩

theorem commandLines_decoded_iff (hvalues : ∀ c ∈ commands, c.type.IsValue) :
    (∀ line ∈ commandLines newline commands, ∃ responses, answer line.bytes = .ok responses) ↔
      ∀ c ∈ commands, Decodable c := by
  rw [commandLines, List.forall_mem_map]
  apply forall₂_congr
  intro c hc
  exact (decodable_iff (hvalues c hc)).symm

/-- How far the thread has come, in commands. -/
theorem commands_take (hvalues : ∀ c ∈ commands, c.type.IsValue)
    (hdata : dataOf reads = ((commandLines newline commands).map Line.bytes).flatten) :
    ∃ k ≤ commands.length,
      (readCommandPipe parse reads).written =
        ((commands.take k).map fun c => response (guidText c.id)) ∧
      (∀ c ∈ commands.take k, Decodable c) ∧
      (ClosedAtEnd reads → (k = commands.length ↔
        LineFeedsEndReads reads ∧ ∀ c ∈ commands, Decodable c)) := by
  obtain ⟨k, hk, -, -, -, hwritten, hdecoded, hall⟩ :=
    readPipe_takes (commandLines_refuse hvalues) hdata
  have htake : (commandLines newline commands).take k = commandLines newline (commands.take k) := by
    rw [commandLines, commandLines, List.map_take]
  have htaken : ∀ c ∈ commands.take k, c.type.IsValue :=
    fun c hc => hvalues c (List.mem_of_mem_take hc)
  have hlength : (commandLines newline commands).length = commands.length := List.length_map _
  rw [htake, commandLines_decoded_iff htaken] at hdecoded
  rw [hlength] at hk hall
  rw [commandLines_decoded_iff hvalues] at hall
  refine ⟨k, hk, ?_, hdecoded, hall⟩
  have hthread : (readCommandPipe parse reads).written = _ := hwritten
  rw [hthread, htake, commandLines, List.flatMap_map, List.map_eq_flatMap]
  apply List.flatMap_congr
  intro c hc
  exact responsesTo_command (htaken c hc) (hdecoded c hc)

/-- Reads that end with the lines, of commands the client can decode. -/
theorem answers_all (hvalues : ∀ c ∈ commands, c.type.IsValue)
    (hdata : dataOf reads = ((commandLines newline commands).map Line.bytes).flatten)
    (hclosed : ClosedAtEnd reads) (hends : LineFeedsEndReads reads)
    (hall : ∀ c ∈ commands, Decodable c) :
    (readCommandPipe parse reads).written =
      (commands.map fun c => response (guidText c.id)) := by
  obtain ⟨k, -, hwritten, -, hiff⟩ := commands_take hvalues hdata
  rw [hwritten, (hiff hclosed).mpr ⟨hends, hall⟩, List.take_length]

/-- A command with parameters, for concrete runs. -/
def paramsCommand : Models.Command where
  id := ⟨7⟩
  type := .setParams
  isEncrypted := false
  parameters := some "\x7b\x7d"

def paramsLine : Bytes := paramsCommand.serialize ++ LineEnd.lf.bytes

/-- The client reads the line in two pieces, and the handles are closed afterwards. -/
def twoReads : List Read :=
  [.data (paramsLine.take 20) (by decide +kernel) (by decide +kernel), .noData false,
    .data (paramsLine.drop 20) (by decide +kernel) (by decide +kernel), .noData true]

theorem twoReads_lines :
    dataOf twoReads = ((commandLines .lf [paramsCommand]).map Line.bytes).flatten := by
  have hdata : dataOf twoReads = paramsLine.take 20 ++ paramsLine.drop 20 := by
    simp [twoReads, dataOf]
  have hline : (objectLine .lf paramsCommand.members).bytes = paramsLine :=
    commandLine_bytes paramsCommand
  rw [hdata, List.take_append_drop]
  simp [commandLines, hline]

theorem twoReads_end : LineFeedsEndReads twoReads := by
  have hfirst : lf ∉ (paramsLine.take 20).dropLast := by decide +kernel
  have hsecond : lf ∉ (paramsLine.drop 20).dropLast := by decide +kernel
  simp only [twoReads, lineFeedsEndReads_data, lineFeedsEndReads_noData, lineFeedsEndReads_nil,
    and_true]
  exact ⟨hfirst, hsecond⟩

theorem paramsCommand_value : ∀ command ∈ [paramsCommand], command.type.IsValue := by
  intro command hmem
  rw [List.mem_singleton.mp hmem]
  exact ⟨by decide, rfl⟩

theorem twoReads_written :
    (readCommandPipe parse twoReads).written = [response (guidText ⟨7⟩)] := by
  apply answers_all paramsCommand_value twoReads_lines _ twoReads_end
  · simp [Decodable, paramsCommand]
  · simp [twoReads, ClosedAtEnd, dataOf]

/-- However the lines of commands are cut into reads, the client answers the first of them, each
once and in order, and nothing else. -/
theorem commands_answered (hvalues : ∀ c ∈ commands, c.type.IsValue)
    (hdata : dataOf reads = ((commandLines newline commands).map Line.bytes).flatten) :
    ∃ k ≤ commands.length, (∀ c ∈ commands.take k, Decodable c) ∧
      (readCommandPipe parse reads).written =
        (commands.take k).map fun c => response (guidText c.id) := by
  obtain ⟨k, hk, hwritten, hdecodable, -⟩ := commands_take hvalues hdata
  exact ⟨k, hk, hdecodable, hwritten⟩

/-- Two commands that come in one read. -/
def mergedReads : List Read :=
  [.data (paramsLine ++ paramsLine) (by decide +kernel) (by decide +kernel)]

theorem commands_answered_merged : ∃ k ≤ 2,
    (readCommandPipe parse mergedReads).written =
      ([paramsCommand, paramsCommand].take k).map fun c => response (guidText c.id) := by
  have hvalues : ∀ c ∈ [paramsCommand, paramsCommand], c.type.IsValue := by
    intro c hc
    exact paramsCommand_value c (by simpa using hc)
  have hline : (objectLine .lf paramsCommand.members).bytes = paramsLine :=
    commandLine_bytes paramsCommand
  have hdata : dataOf mergedReads =
      ((commandLines .lf [paramsCommand, paramsCommand]).map Line.bytes).flatten := by
    simp [mergedReads, dataOf, commandLines, hline]
  obtain ⟨k, hk, -, hwritten⟩ := commands_answered hvalues hdata
  exact ⟨k, hk, hwritten⟩

/-- All commands are answered exactly when no read holds bytes behind a line feed and no command
has null parameters. -/
theorem all_commands_answered_iff (hvalues : ∀ c ∈ commands, c.type.IsValue)
    (hdata : dataOf reads = ((commandLines newline commands).map Line.bytes).flatten)
    (hclosed : ClosedAtEnd reads) :
    (readCommandPipe parse reads).written =
        (commands.map fun c => response (guidText c.id)) ↔
      LineFeedsEndReads reads ∧ ∀ c ∈ commands, Decodable c := by
  constructor
  · intro hall
    obtain ⟨k, hk, hwritten, -, hiff⟩ := commands_take hvalues hdata
    have hlength := congrArg List.length (hwritten.symm.trans hall)
    simp only [List.length_map, List.length_take] at hlength
    exact (hiff hclosed).mp (by omega)
  · rintro ⟨hends, hall⟩
    exact answers_all hvalues hdata hclosed hends hall

theorem all_commands_answered_split :
    (readCommandPipe parse twoReads).written =
        ([paramsCommand].map fun c => response (guidText c.id)) ↔
      LineFeedsEndReads twoReads ∧ ∀ c ∈ [paramsCommand], Decodable c :=
  all_commands_answered_iff paramsCommand_value twoReads_lines
    (by simp [twoReads, ClosedAtEnd, dataOf])

end Commands

section Results

variable {newline : LineEnd} {results : List Models.CommandResult} {r : Models.CommandResult}

/-- The lines the service writes for results. -/
def resultLines (newline : LineEnd) (results : List Models.CommandResult) : List Line :=
  results.map fun r => objectLine newline r.members

/-- What the client makes of a result; nothing when its `Result` is null. -/
def decodedAs (r : Models.CommandResult) : Option CommandResult :=
  r.result.map fun result => ⟨guidText r.id, r.isSuccess, result⟩

/-- What the thread does with a line. -/
def accept (line : Bytes) : Except JsonException (List Bytes) :=
  (CommandResult.deserialize parse line).map fun _ => []

/-- The results the thread decodes. -/
def decodedResults (reads : List Read) : List CommandResult :=
  (readResponsePipe parse reads).passed.filterMap fun line =>
    (CommandResult.deserialize parse line).toOption

theorem result_line (h : r.IsValue) :
    (CommandResult.deserialize parse (objectLine newline r.members).bytes).toOption =
      decodedAs r := by
  have hread : parse (objectLine newline r.members).bytes = .ok (.object (properties r)) := by
    rw [objectLine_bytes, parse_line (Models.CommandResult.members_flat h), ofMembers_result]
  rw [deserialize_properties hread, decodedAs]
  cases r.result <;> rfl

theorem accept_iff {line : Bytes} : (∃ responses, accept line = .ok responses) ↔
    ((CommandResult.deserialize parse line).toOption).isSome := by
  rw [accept]
  cases CommandResult.deserialize parse line <;> simp [Except.map, Except.toOption]

/-- A string that was refused gives no result. -/
theorem Refused.decodes_nothing {strings : List Bytes} (h : Refused accept strings) :
    strings.filterMap (fun line => (CommandResult.deserialize parse line).toOption) = [] := by
  rcases h with rfl | ⟨string, e, rfl, -, herror⟩
  · rfl
  · have hnone : (CommandResult.deserialize parse string).toOption = none := by
      rw [← Option.not_isSome_iff_eq_none, ← accept_iff, herror]
      simp
    simp [hnone]

theorem resultLines_refuse (hvalues : ∀ r ∈ results, r.IsValue) :
    RefusesMerged accept (resultLines newline results) := by
  have hlines : resultLines newline results =
      (results.map Models.CommandResult.members).map (objectLine newline) := by
    simp [resultLines]
  rw [hlines]
  apply refusesMerged_objects
  · intro ms hms
    obtain ⟨r, hr, rfl⟩ := List.mem_map.mp hms
    exact Models.CommandResult.members_flat (hvalues r hr)
  · intro string e he
    rw [accept, CommandResult.deserialize, he]
    exact ⟨e, rfl⟩

theorem resultLines_decoded_iff (hvalues : ∀ r ∈ results, r.IsValue) :
    (∀ line ∈ resultLines newline results, ∃ responses, accept line.bytes = .ok responses) ↔
      ∀ r ∈ results, (decodedAs r).isSome := by
  rw [resultLines, List.forall_mem_map]
  apply forall₂_congr
  intro r hr
  rw [accept_iff, result_line (hvalues r hr)]

/-- How far the thread has come, in results. -/
theorem results_take (hvalues : ∀ r ∈ results, r.IsValue)
    (hdata : dataOf reads = ((resultLines newline results).map Line.bytes).flatten) :
    ∃ k ≤ results.length,
      decodedResults reads = (results.take k).filterMap decodedAs ∧
      (∀ r ∈ results.take k, (decodedAs r).isSome) ∧
      (ClosedAtEnd reads → (k = results.length ↔
        LineFeedsEndReads reads ∧ ∀ r ∈ results, (decodedAs r).isSome)) := by
  obtain ⟨k, hk, refused, hrefused, hpassed, -, hdecoded, hall⟩ :=
    readPipe_takes (resultLines_refuse hvalues) hdata
  have htake : (resultLines newline results).take k = resultLines newline (results.take k) := by
    rw [resultLines, resultLines, List.map_take]
  have htaken : ∀ r ∈ results.take k, r.IsValue :=
    fun r hr => hvalues r (List.mem_of_mem_take hr)
  have hlength : (resultLines newline results).length = results.length := List.length_map _
  rw [htake] at hpassed hdecoded
  rw [resultLines_decoded_iff htaken] at hdecoded
  rw [hlength] at hk hall
  rw [resultLines_decoded_iff hvalues] at hall
  refine ⟨k, hk, ?_, hdecoded, hall⟩
  have hthread : (readResponsePipe parse reads).passed = _ := hpassed
  rw [decodedResults, hthread, List.filterMap_append, hrefused.decodes_nothing, List.append_nil,
    resultLines, List.map_map, List.filterMap_map]
  apply List.filterMap_congr
  intro r hr
  exact result_line (htaken r hr)

end Results

end DriverBus.Client
