import DriverBus.Client.CommandResult
import DriverBus.Foundations.Outcomes
import DriverBus.Pipe.WriteAsync

/-!
# The read loops of the driver client

Both threads collect what they read and look for a line feed only at the end
of each read. A read that holds a line feed further inside is therefore not
split there, and the two lines arrive as one. An exception of `Deserialize` is
not caught: it ends the process, so that the lines behind it are not passed on,
and the other thread makes no further reads.
-/

namespace DriverBus.Client

open DriverBus.Foundations DriverBus.Foundations.Json DriverBus.Pipe

/-- One turn of the loop: `ReadFile` fails or reads nothing, and `finished` is what the thread
then sees in `Finished`; or it reads between 1 and 255 bytes. -/
inductive Read
  | noData (finished : Bool)
  | data (bytes : Bytes) (nonempty : bytes ≠ []) (fits : bytes.length ≤ 255)

/-- The bytes of all successful reads. -/
def dataOf : List Read → Bytes
  | [] => []
  | .noData _ :: reads => dataOf reads
  | .data bytes _ _ :: reads => bytes ++ dataOf reads

/-- `Finished` is set after the pipe handles have been closed, and nothing is read then. -/
def ClosedAtEnd : List Read → Prop
  | [] => True
  | .noData true :: reads => dataOf reads = [] ∧ ClosedAtEnd reads
  | .noData false :: reads => ClosedAtEnd reads
  | .data _ _ _ :: reads => ClosedAtEnd reads

/-- What a thread does: the strings it passes to `Deserialize`, and the bytes it writes. -/
structure Thread where
  passed : List Bytes
  written : List Bytes
  deriving DecidableEq, Repr

/-- The loop, with the bytes collected in `message`. `body` is what is done with a line. -/
def readPipe (body : Bytes → Except JsonException (List Bytes)) (message : Bytes) :
    List Read → Thread
  | [] => ⟨[], []⟩
  | .noData finished :: reads => if finished then ⟨[], []⟩ else readPipe body message reads
  | .data bytes _ _ :: reads =>
    if bytes.getLast? = some lf then
      match body (message ++ bytes) with
      | .error _ => ⟨[message ++ bytes], []⟩
      | .ok responses =>
        let rest := readPipe body [] reads
        ⟨(message ++ bytes) :: rest.passed, responses ++ rest.written⟩
    else readPipe body (message ++ bytes) reads

/-- The response to a command. -/
def response (id : String) : Bytes :=
  utf8 ("\x7b\"id\":\"" ++ id ++ "\",\"isSuccess\":true,\"errorCode\":0,\"errorMessage\":\"" ++
    "Test message Error526526Error123123Error123123Error123123Error123123Error123123" ++
    "Error123123Error123123Error123123commandId=fac75ca5-56e2-4c0b-80ed-10d007fa5ba4\"\x7d\n")

def readCommandPipe (parse : Bytes → Except JsonException JsonValue) : List Read → Thread :=
  readPipe (fun line => (Command.deserialize parse line).map fun c => [response c.id]) []

def readResponsePipe (parse : Bytes → Except JsonException JsonValue) : List Read → Thread :=
  readPipe (fun line => (CommandResult.deserialize parse line).map fun _ => []) []

/-- A line the service writes, without its line feed. -/
structure Line where
  text : Bytes
  oneLine : lf ∉ text

def Line.bytes (line : Line) : Bytes := line.text ++ [lf]

/-- The line `WriteAsync` writes for a message. -/
def Line.ofMessage (newline : LineEnd) (m : Message) : Line :=
  ⟨lineBody newline m, lf_notMem_lineBody⟩

/-- No read holds bytes behind a line feed. -/
def LineFeedsEndReads (reads : List Read) : Prop :=
  ∀ bytes hne hfits, .data bytes hne hfits ∈ reads → lf ∉ bytes.dropLast

/-- All lines but the last one are decoded. -/
def DecodesAllButLast {α : Type} (decode : Bytes → Except JsonException α) (lines : List Line) :
    Prop :=
  ∀ line ∈ lines.dropLast, ∃ a, decode line.bytes = .ok a

variable {body : Bytes → Except JsonException (List Bytes)} {message bytes : Bytes}
  {reads : List Read} {lines : List Line} {line : Line}

@[simp] theorem Line.ofMessage_bytes {newline : LineEnd} {m : Message} :
    (Line.ofMessage newline m).bytes = lineOf newline m :=
  lineOf_eq.symm

/-- A line feed stands nowhere in a read, or at its end only, or further inside. -/
theorem lineFeed_cases (bytes : Bytes) : lf ∉ bytes ∨
    (∃ front, bytes = front ++ [lf] ∧ lf ∉ front) ∨ lf ∈ bytes.dropLast := by
  rcases List.eq_nil_or_concat' bytes with rfl | ⟨front, b, rfl⟩
  · simp
  · by_cases hfront : lf ∈ front
    · right
      right
      simpa using hfront
    · by_cases hb : b = lf
      · subst hb
        exact .inr (.inl ⟨front, rfl, hfront⟩)
      · left
        simp [hfront, Ne.symm hb]

/-- A string with a line feed inside is not a line. -/
theorem line_ne_of_mem (line : Line) {front : Bytes} (h : lf ∈ front) (hne : bytes ≠ []) :
    front ++ bytes ≠ line.bytes := by
  intro heq
  apply line.oneLine
  have hdrop := congrArg List.dropLast heq
  rw [List.dropLast_append_of_ne_nil hne, Line.bytes, List.dropLast_concat] at hdrop
  rw [← hdrop]
  exact List.mem_append_left _ h

/-- Once a line feed has been overrun the next string that is passed is not a line. -/
theorem passed_ne_of_mem (h : lf ∈ message) :
    ∀ rest, (readPipe body message reads).passed ≠ line.bytes :: rest := by
  induction reads generalizing message with
  | nil => simp [readPipe]
  | cons r reads ih =>
    intro rest
    cases r with
    | noData finished =>
      cases finished with
      | true => simp [readPipe]
      | false => exact ih h rest
    | data bytes hne hfits =>
      rw [readPipe]
      split
      · have hbad := line_ne_of_mem line h hne
        split
        · simp [hbad]
        · simp [hbad]
      · exact ih (List.mem_append_left _ h) rest

theorem passed_ne_of_inside (hne : bytes ≠ []) (hfits : bytes.length ≤ 255)
    (h : lf ∈ bytes.dropLast) (rest : List Bytes) :
    (readPipe body message (.data bytes hne hfits :: reads)).passed ≠ line.bytes :: rest := by
  rw [readPipe]
  split
  · have hsplit : message ++ bytes = (message ++ bytes.dropLast) ++ [bytes.getLast hne] := by
      rw [List.append_assoc, List.dropLast_append_getLast]
    have hbad : message ++ bytes ≠ line.bytes := by
      rw [hsplit]
      exact line_ne_of_mem line (List.mem_append_right _ h) (by simp)
    split
    · simp [hbad]
    · simp [hbad]
  · apply passed_ne_of_mem
    exact List.mem_append_right _ (List.mem_of_mem_dropLast h)

@[simp] theorem lineFeedsEndReads_nil : LineFeedsEndReads [] := by
  intro bytes hne hfits hmem
  cases hmem

@[simp] theorem lineFeedsEndReads_noData (finished : Bool) :
    LineFeedsEndReads (.noData finished :: reads) ↔ LineFeedsEndReads reads := by
  simp [LineFeedsEndReads]

@[simp] theorem lineFeedsEndReads_data (hne : bytes ≠ []) (hfits : bytes.length ≤ 255) :
    LineFeedsEndReads (.data bytes hne hfits :: reads) ↔
      lf ∉ bytes.dropLast ∧ LineFeedsEndReads reads := by
  constructor
  · intro h
    refine ⟨h bytes hne hfits List.mem_cons_self, ?_⟩
    intro b hb hb' hmem
    exact h b hb hb' (List.mem_cons_of_mem _ hmem)
  · rintro ⟨hbytes, hreads⟩ b hb hb' hmem
    rcases List.mem_cons.mp hmem with heq | hmem
    · cases heq
      exact hbytes
    · exact hreads b hb hb' hmem

theorem lineFeedsEndReads_of_noData (h : dataOf reads = []) : LineFeedsEndReads reads := by
  induction reads with
  | nil => simp
  | cons r reads ih =>
    cases r with
    | noData finished => simpa using ih h
    | data bytes hne hfits => simp [dataOf, hne] at h

/-- The bytes up to the first line feed are the first line. -/
theorem lines_eq_cons {front rest : Bytes} (hfront : lf ∉ front)
    (h : front ++ lf :: rest = (lines.map Line.bytes).flatten) :
    ∃ first others, lines = first :: others ∧ front ++ [lf] = first.bytes ∧
      rest = (others.map Line.bytes).flatten := by
  cases lines with
  | nil => simp at h
  | cons first others =>
    have hcut : front ++ lf :: rest = first.text ++ lf :: (others.map Line.bytes).flatten := by
      simpa [Line.bytes] using h
    have htext := cut_at_lf hfront first.oneLine hcut
    refine ⟨first, others, rfl, by rw [htext, Line.bytes], ?_⟩
    rw [htext] at hcut
    simpa using hcut

/-- Without a line feed there is no line. -/
theorem lines_eq_nil (h : lf ∉ (lines.map Line.bytes).flatten) : lines = [] := by
  cases lines with
  | nil => rfl
  | cons line lines => simp [Line.bytes] at h

@[simp] theorem decodesAllButLast_nil {α : Type} {decode : Bytes → Except JsonException α} :
    DecodesAllButLast decode [] := by
  simp [DecodesAllButLast]

theorem decodesAllButLast_cons {α : Type} {decode : Bytes → Except JsonException α} :
    DecodesAllButLast decode (line :: lines) ↔
      (lines ≠ [] → ∃ a, decode line.bytes = .ok a) ∧ DecodesAllButLast decode lines := by
  cases lines with
  | nil => simp [DecodesAllButLast]
  | cons l lines => simp [DecodesAllButLast]

/-- A read that completes a line. -/
theorem passed_of_complete (hne : bytes ≠ []) (hfits : bytes.length ≤ 255)
    (hlast : bytes.getLast? = some lf) (hline : message ++ bytes = line.bytes) :
    (readPipe body message (.data bytes hne hfits :: reads)).passed =
      (line :: lines).map Line.bytes ↔
    (lines ≠ [] → ∃ a, body line.bytes = .ok a) ∧
      ((∃ a, body line.bytes = .ok a) →
        (readPipe body [] reads).passed = lines.map Line.bytes) := by
  rw [readPipe, if_pos hlast, hline]
  cases body line.bytes with
  | error e => simp [eq_comm]
  | ok responses => simp

theorem passed_eq_iff (hno : lf ∉ message)
    (hdata : message ++ dataOf reads = (lines.map Line.bytes).flatten)
    (hclosed : ClosedAtEnd reads) :
    (readPipe body message reads).passed = lines.map Line.bytes ↔
      LineFeedsEndReads reads ∧ DecodesAllButLast body lines := by
  induction reads generalizing message lines with
  | nil =>
    have hnil : lines = [] := by
      apply lines_eq_nil
      simpa [← hdata, dataOf] using hno
    simp [hnil, readPipe]
  | cons r reads ih =>
    cases r with
    | noData finished =>
      cases finished with
      | true =>
        have hnil : lines = [] := by
          apply lines_eq_nil
          simpa [← hdata, dataOf, hclosed.1] using hno
        simp [hnil, readPipe, lineFeedsEndReads_of_noData hclosed.1]
      | false => simpa [readPipe] using ih hno hdata hclosed
    | data bytes hne hfits =>
      rw [lineFeedsEndReads_data]
      rcases lineFeed_cases bytes with hnone | ⟨front, rfl, hfront⟩ | hinside
      · have hlast : bytes.getLast? ≠ some lf := by
          intro hlast
          exact hnone (List.mem_of_getLast? hlast)
        have hdrop : lf ∉ bytes.dropLast := fun hmem => hnone (List.mem_of_mem_dropLast hmem)
        have hrest : (readPipe body (message ++ bytes) reads).passed = lines.map Line.bytes ↔ _ :=
          ih (by simp [hno, hnone]) (by simpa [dataOf] using hdata) hclosed
        simpa [readPipe, hlast, hdrop] using hrest
      · have hline : (message ++ front) ++ lf :: dataOf reads = (lines.map Line.bytes).flatten := by
          simpa [dataOf] using hdata
        obtain ⟨first, others, rfl, hfirst, hothers⟩ := lines_eq_cons (by simp [hno, hfront]) hline
        have hrest : (readPipe body [] reads).passed = others.map Line.bytes ↔ _ :=
          ih (by simp) (by simpa using hothers) hclosed
        rw [passed_of_complete hne hfits (by simp) (by simpa using hfirst), hrest,
          decodesAllButLast_cons, List.dropLast_concat]
        constructor
        · rintro ⟨hdecodes, hthen⟩
          by_cases hnil : others = []
          · have hnodata : dataOf reads = [] := by simpa [hnil] using hothers
            refine ⟨⟨hfront, lineFeedsEndReads_of_noData hnodata⟩, hdecodes, ?_⟩
            simp [hnil]
          · obtain ⟨hends, hall⟩ := hthen (hdecodes hnil)
            exact ⟨⟨hfront, hends⟩, hdecodes, hall⟩
        · rintro ⟨⟨-, hends⟩, hdecodes, hall⟩
          exact ⟨hdecodes, fun _ => ⟨hends, hall⟩⟩
      · constructor
        · intro hpassed
          cases lines with
          | nil =>
            have hnil : bytes = [] := by
              simp only [dataOf, List.map_nil, List.flatten_nil, List.append_eq_nil_iff] at hdata
              exact hdata.2.1
            exact absurd hnil hne
          | cons first others =>
            exact absurd hpassed (passed_ne_of_inside hne hfits hinside _)
        · rintro ⟨⟨hno, -⟩, -⟩
          exact absurd hinside hno

/-- What the thread does with a decoded line cannot throw. -/
theorem decodesAllButLast_map {α β : Type} {decode : Bytes → Except JsonException α} {f : α → β} :
    DecodesAllButLast (fun line => (decode line).map f) lines ↔ DecodesAllButLast decode lines := by
  simp [DecodesAllButLast, map_eq_ok_iff]

/-- For each of the two threads, the strings passed to `Deserialize` are the lines, one a call and
in order, exactly when no read holds bytes behind a line feed and no line but the last one makes
`Deserialize` throw. -/
theorem lines_passed_iff (parse : Bytes → Except JsonException JsonValue)
    (hdata : dataOf reads = (lines.map Line.bytes).flatten) (hclosed : ClosedAtEnd reads) :
    ((readCommandPipe parse reads).passed = lines.map Line.bytes ↔
      LineFeedsEndReads reads ∧ DecodesAllButLast (Command.deserialize parse) lines) ∧
    ((readResponsePipe parse reads).passed = lines.map Line.bytes ↔
      LineFeedsEndReads reads ∧ DecodesAllButLast (CommandResult.deserialize parse) lines) := by
  have hstart : ([] : Bytes) ++ dataOf reads = (lines.map Line.bytes).flatten := by
    simpa using hdata
  constructor
  · rw [readCommandPipe, passed_eq_iff List.not_mem_nil hstart hclosed, decodesAllButLast_map]
  · rw [readResponsePipe, passed_eq_iff List.not_mem_nil hstart hclosed, decodesAllButLast_map]

/-- An object without members on a line. -/
def emptyObjectLine : Line := ⟨[leftBrace, rightBrace], by decide⟩

/-- Behind the first object the parser expects the end of the input. -/
def trailingInput (_ : Bytes) : Except JsonException JsonValue :=
  .error ⟨101, "parse error at line 2, column 1: syntax error while parsing value - " ++
    "unexpected '\x7b'; expected end of input"⟩

/-- Two lines that arrive in one read are passed on as one string. -/
theorem two_lines_in_one_read :
    ∃ reads : List Read, ClosedAtEnd reads ∧
      dataOf reads = ([emptyObjectLine, emptyObjectLine].map Line.bytes).flatten ∧
      (readCommandPipe trailingInput reads).passed =
        [emptyObjectLine.bytes ++ emptyObjectLine.bytes] ∧
      (readResponsePipe trailingInput reads).passed =
        [emptyObjectLine.bytes ++ emptyObjectLine.bytes] ∧
      [emptyObjectLine.bytes ++ emptyObjectLine.bytes] ≠
        [emptyObjectLine, emptyObjectLine].map Line.bytes := by
  refine ⟨[.data (emptyObjectLine.bytes ++ emptyObjectLine.bytes) (by decide) (by decide)],
    trivial, rfl, rfl, rfl, ?_⟩
  decide

def commandText : String :=
  "\x7b\"Id\":\"00000000-0000-0000-0000-000000000007\",\"Type\":\"SetParams\"," ++
    "\"IsEncrypted\":false,\"Parameters\":\"p\"\x7d"

def commandValue : JsonValue :=
  .object [("Id", .string "00000000-0000-0000-0000-000000000007"), ("Type", .string "SetParams"),
    ("IsEncrypted", .boolean false), ("Parameters", .string "p")]

def commandLine : Line := ⟨utf8 commandText, by decide⟩

/-- One command arrives in two reads with a failed one between them, the next in one read. -/
theorem lines_passed_split : ∃ reads : List Read,
    dataOf reads = ([commandLine, commandLine].map Line.bytes).flatten ∧
      (readCommandPipe (parseLine commandText commandValue) reads).passed =
        [commandLine, commandLine].map Line.bytes := by
  have hends : lf ∉ ((utf8 commandText).drop 5 ++ [lf]).dropLast ∧
    lf ∉ commandLine.bytes.dropLast ∧ lf ∉ ((utf8 commandText).take 5).dropLast := by
    decide
  refine ⟨[.data ((utf8 commandText).take 5) (by decide) (by decide), .noData false,
    .data ((utf8 commandText).drop 5 ++ [lf]) (by decide) (by decide),
    .data commandLine.bytes (by decide) (by decide), .noData true], rfl, ?_⟩
  apply (lines_passed_iff (parseLine commandText commandValue) rfl
    (by simp [ClosedAtEnd, dataOf])).1.mpr
  constructor
  · simp only [lineFeedsEndReads_data, lineFeedsEndReads_noData, lineFeedsEndReads_nil, and_true]
    exact ⟨hends.2.2, hends.1, hends.2.1⟩
  · intro line hline
    have heq : line = commandLine := by simpa using hline
    have hread : parseLine commandText commandValue commandLine.bytes = .ok commandValue :=
      if_pos rfl
    rw [heq]
    exact ⟨⟨"00000000-0000-0000-0000-000000000007", false, "p"⟩, by
      rw [Command.deserialize, hread]
      rfl⟩

end DriverBus.Client
