import DriverBus.Client.Responses
import DriverBus.Pipe.Framing
import DriverBus.Services.Correlation
import Mathlib.Data.List.NodupEquivFin

/-!
# A command on its way to the driver and back

The calls of `ExecuteCommandAsync`, the client's thread and the reader loop
taken together. The thread answers the first of the lines it gets, and the
service reads some of the responses, in their order; both may cut the bytes in
any way. Losses along the way cost a call its reply, but no call gets the reply
to another command, and no reply goes to two calls.
-/

namespace DriverBus.Services

open DriverBus.Foundations DriverBus.Models DriverBus.Client DriverBus.Pipe

/-- The client has read the lines of the commands `sent`, and `pipe` holds what it wrote, a list of
responses for each of its connections. -/
structure DriverRound (newline : LineEnd) (sent : List Models.Command) (reads : List Read)
    (pipe : Incoming) (frames : List (List Frame)) : Prop where
  values : ∀ command ∈ sent, command.type.IsValue
  lines : dataOf reads = ((commandLines newline sent).map Line.bytes).flatten
  responses : frames.flatten.map Frame.bytes = (readCommandPipe parse reads).written
  incoming : Sends pipe frames

variable {ι τ : Type*} {newline : LineEnd} {sent : List Models.Command} {reads : List Read}
  {pipe : Incoming} {frames : List (List Frame)} {reader : TextReader}

/-- The text of a frame is determined by its bytes. -/
theorem frame_text_eq {f g : Frame} (h : f.bytes = g.bytes) : f.text = g.text := by
  have htext (f : Frame) : f.bytes.takeWhile inLine = f.text := by
    rw [Frame.bytes]
    cases f.lineEnd <;> exact takeWhile_inLine f.oneLine rfl
  rw [← htext f, ← htext g, h]

theorem texts_eq {fs gs : List Frame} (h : fs.map Frame.bytes = gs.map Frame.bytes) :
    fs.map (·.text) = gs.map (·.text) := by
  induction fs generalizing gs with
  | nil =>
    cases gs with
    | nil => rfl
    | cons g gs => simp at h
  | cons f fs ih =>
    cases gs with
    | nil => simp at h
    | cons g gs =>
      simp only [List.map_cons, List.cons.injEq] at h ⊢
      exact ⟨frame_text_eq h.1, ih h.2⟩

/-- The texts of the responses are those to the first commands. -/
theorem DriverRound.texts (h : DriverRound newline sent reads pipe frames) :
    ∃ k ≤ sent.length, (∀ command ∈ sent.take k, Decodable command) ∧
      frames.flatten.map (·.text) =
        (sent.take k).map fun command => (responseFrame command.id).text := by
  obtain ⟨k, hk, hwritten, hdecodable, -⟩ := commands_take h.values h.lines
  refine ⟨k, hk, hdecodable, ?_⟩
  have hframes : frames.flatten.map Frame.bytes =
      ((sent.take k).map fun command => responseFrame command.id).map Frame.bytes := by
    rw [h.responses, hwritten, List.map_map]
    apply List.map_congr_left
    intro command _
    exact (responseFrame_bytes command.id).symm
  rw [texts_eq hframes, List.map_map]
  rfl

/-- What the service reads are results of some of the first commands, in the order of these. -/
theorem DriverRound.results_sublist (h : DriverRound newline sent reads pipe frames)
    (reader : TextReader) (n : ℕ) :
    ∃ k ≤ sent.length, (∀ command ∈ sent.take k, Decodable command) ∧
      (readCalls (Models.CommandResult.deserialize reader) n pipe).Sublist
        ((sent.take k).map fun command => responseResult command.id) := by
  obtain ⟨k, hk, hdecodable, htexts⟩ := h.texts
  refine ⟨k, hk, hdecodable, ?_⟩
  obtain ⟨fs, fss, rfl, hpending⟩ := h.incoming.pending
  have htextsOnly : AcceptsOnlyTexts (Models.CommandResult.deserialize reader) :=
    deserialize_texts reader
  obtain ⟨kept, hkept, hvalues⟩ := readCalls_sublist htextsOnly n hpending
  have hmatched : List.SublistForall₂
      (fun r (f : Frame) => Models.CommandResult.deserialize reader f.text = .ok (some r))
      (readCalls (Models.CommandResult.deserialize reader) n pipe) (fs :: fss).flatten :=
    List.sublistForall₂_iff.mpr ⟨kept, hvalues, hkept⟩
  have htextMatched : List.SublistForall₂
      (fun r text => Models.CommandResult.deserialize reader text = .ok (some r))
      (readCalls (Models.CommandResult.deserialize reader) n pipe)
      ((fs :: fss).flatten.map (·.text)) :=
    List.sublistForall₂_map_right_iff.mpr hmatched
  rw [htexts, List.sublistForall₂_map_right_iff] at htextMatched
  obtain ⟨answered, hanswered, hsublist⟩ := List.sublistForall₂_iff.mp htextMatched
  have hresults := hanswered.imp fun r command hr => by
    rw [deserialize_response] at hr
    exact (Option.some.inj (Except.ok.inj hr)).symm
  rw [← List.forall₂_map_right_iff, List.forall₂_eq_eq_eq] at hresults
  rw [hresults]
  exact hsublist.map _

/-- When the reads of the client and the chunks of the service end with the lines, and no command
has null parameters, the service gets the result of every command, in order and once. -/
theorem every_result_read (reader : TextReader)
    (hvalues : ∀ command ∈ sent, command.type.IsValue)
    (hdecodable : ∀ command ∈ sent, Decodable command)
    (hlines : dataOf reads = ((commandLines newline sent).map Line.bytes).flatten)
    (hclosed : ClosedAtEnd reads) (hends : LineFeedsEndReads reads) {chunks : List Chunk}
    (hchunks : bytesOf chunks = (readCommandPipe parse reads).written.flatten)
    (hlast : LineFeedsLast chunks) {n : ℕ} (hn : sent.length ≤ n) :
    readCalls (Models.CommandResult.deserialize reader) n ⟨chunks, []⟩ =
      sent.map fun command => responseResult command.id := by
  have hvalues' : List.Forall₂
      (fun f r => Models.CommandResult.deserialize reader f.text = .ok (some r))
      (sent.map fun command => responseFrame command.id)
      (sent.map fun command => responseResult command.id) := by
    rw [List.forall₂_map_left_iff, List.forall₂_map_right_iff, List.forall₂_same]
    intro command _
    exact deserialize_response reader command.id
  have hbytes : bytesOf chunks = framesBytes (sent.map fun command => responseFrame command.id) := by
    rw [hchunks, answers_all hvalues hlines hclosed hends hdecodable, framesBytes, List.map_map]
    apply congrArg
    apply List.map_congr_left
    intro command _
    exact (responseFrame_bytes command.id).symm
  exact readCalls_of_lineFeedsLast hvalues' hbytes hlast (by simpa using hn)

section Example

def responseChunk : Chunk where
  bytes := (responseFrame ⟨7⟩).bytes
  nonempty := by decide +kernel
  fits := by decide +kernel

theorem responseChunk_last : LineFeedsLast [responseChunk] := by
  have hinside : lf ∉ (responseFrame ⟨7⟩).bytes.dropLast := by decide +kernel
  simpa [LineFeedsLast, responseChunk] using hinside

theorem responseChunk_read :
    readCalls (Models.CommandResult.deserialize libraryReader) 1 ⟨[responseChunk], []⟩ =
      [responseResult ⟨7⟩] := by
  have hvalues : List.Forall₂
      (fun f r => Models.CommandResult.deserialize libraryReader f.text = .ok (some r))
      [responseFrame ⟨7⟩] [responseResult ⟨7⟩] :=
    .cons (deserialize_response libraryReader ⟨7⟩) .nil
  exact readCalls_of_lineFeedsLast hvalues (by simp [responseChunk]) responseChunk_last (by simp)

theorem every_result_read_split :
    readCalls (Models.CommandResult.deserialize libraryReader) 2 ⟨[responseChunk], []⟩ =
      [responseResult ⟨7⟩] := by
  have hchunks : bytesOf [responseChunk] = (readCommandPipe parse twoReads).written.flatten := by
    rw [twoReads_written, ← responseFrame_bytes]
    simp [responseChunk]
  exact every_result_read libraryReader paramsCommand_value (by simp [Decodable, paramsCommand])
    twoReads_lines (by simp [twoReads, ClosedAtEnd, dataOf]) twoReads_end hchunks
    responseChunk_last (by simp)

end Example

variable {c : Calls ι τ} {s : State ι τ} {as : List (Action ι τ)} {t u : ι}
  {r : Models.CommandResult} {k : ℕ}

/-- The result of iteration `k` is the `k`-th result read in the run. -/
theorem LookedUpAfterAdd.getElem? (h : LookedUpAfterAdd as k r t) : (readsOf as)[k]? = some r := by
  obtain ⟨before, after, rfl, -, hlength, hlast⟩ := h
  have hsplit : readsOf (before ++ .tryGetValue :: after) =
      readsOf before ++ readsOf (.tryGetValue :: after) := List.filterMap_append
  rw [hsplit, List.getElem?_append_left (by omega)]
  rw [List.getLast?_eq_getElem?, hlength] at hlast
  exact hlast

variable [DecidableEq ι] [DecidableEq τ]

/-- The call has returned the response to a command with its Id, the `j`-th one sent. -/
def AnsweredBy (c : Calls ι τ) (sent : List Models.Command) (t : ι) (r : Models.CommandResult)
    (j : ℕ) : Prop :=
  ∃ command, sent[j]? = some command ∧ Decodable command ∧ command.id = (c.command t).id ∧
    r = responseResult (c.command t).id

/-- In every interleaving of the calls, and however the bytes are cut in both directions, a call
that returns has got the client's response to a sent command with its Id, and each call the
response to another one. -/
theorem replies_answer_sent_commands
    (h : Run (Steps (step c)) (State.initial ι τ) as s)
    (hround : DriverRound newline sent reads pipe frames) {n : ℕ}
    (hreads : readsOf as = readCalls (Models.CommandResult.deserialize reader) n pipe) :
    ∃ source : ι → ℕ,
      (∀ t r, s.phase t = .done (.returns r) → AnsweredBy c sent t r (source t)) ∧
      ∀ t u r r', s.phase t = .done (.returns r) → s.phase u = .done (.returns r') →
        source t = source u → t = u := by
  have ht : Traced c as s := h.history Traced.initial fun _ _ _ _ ht hs =>
    (transition_of_step c hs).traced ht
  obtain ⟨k, hk, hdecodable, hsublist⟩ := hround.results_sublist reader n
  rw [← hreads] at hsublist
  obtain ⟨place, hplace⟩ := List.sublist_iff_exists_orderEmbedding_getElem?_eq.mp hsublist
  refine ⟨fun t => place ((s.deliveredBy t).getD 0), ?_, ?_⟩
  · intro t r hp
    obtain ⟨hid, i, hi, hlooked, -⟩ := ht.repliedBy hp
    have hread := hlooked.getElem?
    rw [hplace, List.getElem?_map] at hread
    obtain ⟨command, hcommand, rfl⟩ := Option.map_eq_some_iff.mp hread
    have hid' : command.id = (c.command t).id := hid
    refine ⟨command, ?_, hdecodable command (List.mem_of_getElem? hcommand), hid', by rw [hid']⟩
    rw [List.getElem?_take] at hcommand
    split_ifs at hcommand
    simpa only [hi, Option.getD_some] using hcommand
  · intro t u r r' hp hp' heq
    obtain ⟨-, i, hi, -⟩ := ht.repliedBy hp
    obtain ⟨-, j, hj, -⟩ := ht.repliedBy hp'
    simp only [hi, hj, Option.getD_some, EmbeddingLike.apply_eq_iff_eq] at heq
    rw [heq] at hi
    exact ht.sole t u j hi hj

/-- One call of that command, and a run in which it returns. -/
def oneCall : Calls (Fin 1) (Fin 1) where
  command _ := paramsCommand
  token i := i

def returnsOnce : List (Action (Fin 1) (Fin 1)) :=
  [.start 0, .addOrUpdate 0, .writeReturns 0, .readThrows, .read (responseResult ⟨7⟩),
    .tryGetValue, .trySetResult, .removeEntry, .resume 0, .disposeRegistration 0]

theorem replies_answer_once : ∃ s,
    exec (step oneCall) (State.initial _ _) returnsOnce = some s ∧
      s.phase 0 = .done (.returns (responseResult ⟨7⟩)) ∧
      ∃ source : Fin 1 → ℕ,
        AnsweredBy oneCall [paramsCommand] 0 (responseResult ⟨7⟩) (source 0) := by
  have hrun : exec (step oneCall) (State.initial _ _) returnsOnce = some _ := rfl
  have hround : DriverRound .lf [paramsCommand] twoReads ⟨[responseChunk], []⟩
      [[responseFrame ⟨7⟩]] := by
    refine ⟨paramsCommand_value, twoReads_lines, ?_, ?_⟩
    · rw [twoReads_written, ← responseFrame_bytes]
      rfl
    · exact .cons (by simp [responseChunk]) .nil
  have hreads : readsOf returnsOnce =
      readCalls (Models.CommandResult.deserialize libraryReader) 1 ⟨[responseChunk], []⟩ :=
    responseChunk_read.symm
  obtain ⟨source, hanswered, -⟩ :=
    replies_answer_sent_commands (Run.of_exec hrun) hround hreads
  exact ⟨_, hrun, rfl, source, hanswered 0 _ rfl⟩

end DriverBus.Services
