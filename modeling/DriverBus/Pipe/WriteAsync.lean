import DriverBus.Pipe.Message
import Mathlib.Data.Fintype.Basic

/-!
# Concurrent `BaseNamedPipeStream.WriteAsync` calls

Every call builds a `StreamWriter` of its own over the shared pipe and holds no
lock, so the pipe writes of different calls interleave freely. The writer
issues a pipe write each time its buffer is full and one for the remainder.

JSON is written with everything outside ASCII escaped, so a character is a byte.
-/

namespace DriverBus.Pipe

open DriverBus.Foundations DriverBus.Foundations.Json

/-- The buffer of a `StreamWriter`, and the pipe writes it has issued. -/
structure StreamWriter where
  buffer : Bytes
  written : List Bytes

def bufferSize : ℕ := 1024

namespace StreamWriter

/-- One more character; a full buffer is written to the pipe before. -/
def put (w : StreamWriter) (b : UInt8) : StreamWriter :=
  if w.buffer.length = bufferSize then ⟨[b], w.written ++ [w.buffer]⟩
  else ⟨w.buffer ++ [b], w.written⟩

/-- The flush at the end. -/
def flush (w : StreamWriter) : List Bytes :=
  if w.buffer = [] then w.written else w.written ++ [w.buffer]

end StreamWriter

/-- `WriteLineAsync`: the pipe writes of one line, its line end included. -/
def writeLine (line : Bytes) : List Bytes :=
  (line.foldl StreamWriter.put ⟨[], []⟩).flush

def lineOf (newline : LineEnd) (m : Message) : Bytes := m.text ++ newline.bytes

/-- The pipe writes each call has still to issue, and what the pipe has received. -/
structure Writers (ι : Type*) where
  unwritten : ι → List Bytes
  received : Bytes

section System

variable {ι : Type*} [DecidableEq ι]

/-- Call `i` issues its next pipe write. -/
def write (s : Writers ι) (i : ι) : Option (Writers ι) :=
  match s.unwritten i with
  | [] => none
  | block :: rest => some ⟨Function.update s.unwritten i rest, s.received ++ block⟩

def Writers.start (newline : LineEnd) (messages : ι → Message) : Writers ι :=
  ⟨fun i => writeLine (lineOf newline (messages i)), []⟩

/-- Whenever all calls are done, the pipe has received their lines in some order. -/
def LinesStayWhole (newline : LineEnd) (messages : ι → Message) : Prop :=
  ∀ schedule s, Run (Steps write) (Writers.start newline messages) schedule s →
    (∀ i, s.unwritten i = []) → ∃ order : List ι, order.Nodup ∧ (∀ i, i ∈ order) ∧
      s.received = (order.map fun i => lineOf newline (messages i)).flatten

end System

namespace StreamWriter

variable (w : StreamWriter) (line : Bytes)

theorem put_bytes (b : UInt8) :
    (w.put b).written.flatten ++ (w.put b).buffer = w.written.flatten ++ w.buffer ++ [b] := by
  unfold put
  split_ifs <;> simp

theorem foldl_put_bytes : (line.foldl put w).written.flatten ++ (line.foldl put w).buffer =
    w.written.flatten ++ w.buffer ++ line := by
  induction line generalizing w with
  | nil => simp
  | cons b bs ih =>
    rw [List.foldl_cons, ih, put_bytes]
    simp

theorem flush_bytes : w.flush.flatten = w.written.flatten ++ w.buffer := by
  unfold flush
  split_ifs with h <;> simp [h]

/-- Characters that fit into the buffer cause no pipe write. -/
theorem foldl_put_fits (h : w.buffer.length + line.length ≤ bufferSize) :
    line.foldl put w = ⟨w.buffer ++ line, w.written⟩ := by
  induction line generalizing w with
  | nil => simp
  | cons b bs ih =>
    rw [List.length_cons] at h
    have hroom : w.buffer.length ≠ bufferSize := by omega
    have hput : w.put b = ⟨w.buffer ++ [b], w.written⟩ := by simp [put, hroom]
    rw [List.foldl_cons, hput, ih]
    · simp
    · simp only [List.length_append, List.length_singleton]
      omega

/-- Pipe writes are never taken back. -/
theorem foldl_put_written : ∃ more, (line.foldl put w).written = w.written ++ more := by
  induction line generalizing w with
  | nil => exact ⟨[], by simp⟩
  | cons b bs ih =>
    obtain ⟨more, hmore⟩ := ih (w.put b)
    rw [List.foldl_cons, hmore]
    unfold put
    split_ifs
    · exact ⟨w.buffer :: more, by simp⟩
    · exact ⟨more, rfl⟩

end StreamWriter

theorem writeLine_flatten (line : Bytes) : (writeLine line).flatten = line := by
  rw [writeLine, StreamWriter.flush_bytes, StreamWriter.foldl_put_bytes]
  simp

/-- A line that fits into the buffer is one pipe write. -/
theorem writeLine_short {line : Bytes} (hne : line ≠ []) (h : line.length ≤ bufferSize) :
    writeLine line = [line] := by
  rw [writeLine, StreamWriter.foldl_put_fits _ _ (by simpa using h)]
  simp [StreamWriter.flush, hne]

/-- A longer line starts with a pipe write of a full buffer. -/
theorem writeLine_long {line : Bytes} (h : bufferSize < line.length) :
    ∃ rest, writeLine line = line.take bufferSize :: rest := by
  have hlen : (line.take bufferSize).length = bufferSize := by
    rw [List.length_take]
    omega
  obtain ⟨b, bs, hdrop⟩ : ∃ b bs, line.drop bufferSize = b :: bs := by
    apply List.exists_cons_of_length_pos
    rw [List.length_drop]
    omega
  have hfits : (line.take bufferSize).foldl StreamWriter.put ⟨[], []⟩ =
      ⟨line.take bufferSize, []⟩ := StreamWriter.foldl_put_fits _ _ (by simp [hlen])
  have hfull : line.foldl StreamWriter.put ⟨[], []⟩ =
      bs.foldl StreamWriter.put ⟨[b], [line.take bufferSize]⟩ := by
    conv_lhs => rw [← List.take_append_drop bufferSize line, List.foldl_append, hfits, hdrop]
    simp [StreamWriter.put, hlen]
  obtain ⟨more, hmore⟩ := StreamWriter.foldl_put_written ⟨[b], [line.take bufferSize]⟩ bs
  rw [writeLine, hfull, StreamWriter.flush, hmore]
  split_ifs
  · exact ⟨more, rfl⟩
  · exact ⟨more ++ _, rfl⟩

section Lines

variable {newline : LineEnd} {m m' : Message}

/-- The bytes of a line before its line feed. -/
def lineBody (newline : LineEnd) (m : Message) : Bytes := m.text ++ newline.bytes.dropLast

theorem lineOf_eq : lineOf newline m = lineBody newline m ++ [lf] := by
  cases newline <;> simp [lineOf, lineBody, LineEnd.bytes]

theorem lf_notMem_lineBody : lf ∉ lineBody newline m := by
  have hno := lf_notMem m.oneLine
  cases newline with
  | lf => simpa [lineBody, LineEnd.bytes] using hno
  | crlf =>
    rw [lineBody, List.mem_append, not_or]
    exact ⟨hno, by decide⟩

theorem lineOf_ne_nil : lineOf newline m ≠ [] := by
  rw [lineOf_eq]
  simp

theorem takeWhile_ne_lf {a x : Bytes} (ha : lf ∉ a) :
    (a ++ lf :: x).takeWhile (· != lf) = a := by
  rw [List.takeWhile_append_of_pos]
  · simp
  · intro b hb
    simp only [bne_iff_ne, ne_eq]
    rintro rfl
    exact ha hb

/-- The bytes before the first line feed are determined. -/
theorem cut_at_lf {a b x y : Bytes} (ha : lf ∉ a) (hb : lf ∉ b)
    (h : a ++ lf :: x = b ++ lf :: y) : a = b := by
  rw [← takeWhile_ne_lf (x := x) ha, h, takeWhile_ne_lf hb]

/-- No line of a message is a line of another one with something before it. -/
theorem lineOf_not_torn {p x y : Bytes} (hp : p ≠ []) (hlf : lf ∉ p) :
    lineOf newline m ++ x ≠ p ++ lineOf newline m' ++ y := by
  intro h
  have hcut : lineBody newline m ++ lf :: x = (p ++ lineBody newline m') ++ lf :: y := by
    simpa [lineOf_eq] using h
  have hno : lf ∉ p ++ lineBody newline m' := by
    rw [List.mem_append, not_or]
    exact ⟨hlf, lf_notMem_lineBody⟩
  have hbody := cut_at_lf lf_notMem_lineBody hno hcut
  have htext : m.text = p ++ m'.text := by
    rw [lineBody, lineBody, ← List.append_assoc] at hbody
    exact List.append_cancel_right hbody
  have hsuffix : m'.text <:+ m.text := ⟨p, htext.symm⟩
  have hne : m'.text ≠ m.text := by
    intro heq
    rw [heq] at htext
    exact hp (List.append_left_eq_self.mp htext.symm)
  exact m.isObject.suffix_not_isText hsuffix hne m'.isObject.isText

end Lines

section System

variable {ι : Type*} [DecidableEq ι] {s s' : Writers ι} {newline : LineEnd}
  {messages : ι → Message}

/-- A pipe write appends the first unwritten block of its call. -/
theorem write_cases {i : ι} (h : write s i = some s') : ∃ block rest,
    s.unwritten i = block :: rest ∧
      s' = ⟨Function.update s.unwritten i rest, s.received ++ block⟩ := by
  unfold write at h
  split at h
  · cases h
  · rename_i block rest hblocks
    cases h
    exact ⟨block, rest, hblocks, rfl⟩

/-- One call at a time: its blocks are the rest of what the pipe has received. -/
def SoleWriter (newline : LineEnd) (messages : ι → Message) (s : Writers ι) : Prop :=
  ∀ i, s.received ++ (s.unwritten i).flatten = lineOf newline (messages i)

theorem SoleWriter.write {i : ι} (hone : ∀ i j : ι, i = j) (hs : SoleWriter newline messages s)
    (h : write s i = some s') : SoleWriter newline messages s' := by
  obtain ⟨block, rest, hblocks, rfl⟩ := write_cases h
  intro j
  have hji := hone j i
  subst hji
  have hold := hs j
  rw [hblocks] at hold
  simpa using hold

/-- Lines of one block each: those written so far are whole. -/
def WholeSoFar (newline : LineEnd) (messages : ι → Message) (s : Writers ι) : Prop :=
  ∃ order : List ι, order.Nodup ∧ (∀ i ∈ order, s.unwritten i = []) ∧
    (∀ i, i ∉ order → s.unwritten i = [lineOf newline (messages i)]) ∧
      s.received = (order.map fun i => lineOf newline (messages i)).flatten

theorem WholeSoFar.write {i : ι} (hs : WholeSoFar newline messages s)
    (h : write s i = some s') : WholeSoFar newline messages s' := by
  obtain ⟨block, rest, hblocks, rfl⟩ := write_cases h
  obtain ⟨order, hnodup, hdone, hleft, hreceived⟩ := hs
  have hi : i ∉ order := by
    intro hmem
    rw [hdone i hmem] at hblocks
    cases hblocks
  rw [hleft i hi, List.cons.injEq] at hblocks
  obtain ⟨rfl, rfl⟩ := hblocks
  refine ⟨order ++ [i], ?_, ?_, ?_, ?_⟩
  · rw [List.nodup_append_comm]
    exact List.nodup_cons.mpr ⟨hi, hnodup⟩
  · intro j hj
    by_cases hji : j = i
    · simp [hji]
    · have hmem : j ∈ order := by simpa [hji] using hj
      simp [hji, hdone j hmem]
  · intro j hj
    simp only [List.mem_append, List.mem_singleton, not_or] at hj
    simp [hj.2, hleft j hj.1]
  · simp [hreceived]

theorem linesStayWhole_of_sole [Fintype ι] (hone : ∀ i j : ι, i = j) :
    LinesStayWhole newline messages := by
  intro schedule s hrun hdone
  have hsole : SoleWriter newline messages s := by
    refine hrun.invariant ?_ fun _ _ _ hs h => hs.write hone h
    intro i
    exact writeLine_flatten _
  rcases isEmpty_or_nonempty ι with hempty | ⟨⟨i⟩⟩
  · have hnil : s.received = [] := by
      cases hrun with
      | nil => rfl
      | @snoc _ i _ _ _ _ => exact isEmptyElim i
    exact ⟨[], List.nodup_nil, fun i => isEmptyElim i, hnil⟩
  · refine ⟨[i], List.nodup_singleton i, fun j => by simp [hone j i], ?_⟩
    have hreceived := hsole i
    rw [hdone i] at hreceived
    simpa using hreceived

theorem linesStayWhole_of_short
    (hshort : ∀ i, (lineOf newline (messages i)).length ≤ bufferSize) :
    LinesStayWhole newline messages := by
  intro schedule s hrun hdone
  have hwhole : WholeSoFar newline messages s := by
    refine hrun.invariant ⟨[], List.nodup_nil, by simp, ?_, rfl⟩ fun _ _ _ hs h => hs.write h
    intro i _
    exact writeLine_short lineOf_ne_nil (hshort i)
  obtain ⟨order, hnodup, _, hleft, hreceived⟩ := hwhole
  refine ⟨order, hnodup, fun i => ?_, hreceived⟩
  by_contra hi
  have hblocks := hdone i
  rw [hleft i hi] at hblocks
  cases hblocks

/-- Call `i` issues all its remaining pipe writes. -/
def Writers.drain (s : Writers ι) (i : ι) : Writers ι :=
  ⟨Function.update s.unwritten i [], s.received ++ (s.unwritten i).flatten⟩

theorem run_drain (s : Writers ι) (i : ι) :
    ∃ schedule, Run (Steps write) s schedule (s.drain i) := by
  generalize hblocks : s.unwritten i = blocks
  induction blocks generalizing s with
  | nil =>
    have hsame : Function.update s.unwritten i [] = s.unwritten := by
      rw [← hblocks]
      exact Function.update_eq_self i s.unwritten
    have hdrain : s.drain i = s := by
      simp [Writers.drain, hblocks, hsame]
    exact ⟨[], by rw [hdrain]; exact .nil⟩
  | cons block rest ih =>
    have hstep : write s i = some ⟨Function.update s.unwritten i rest, s.received ++ block⟩ := by
      simp [write, hblocks]
    obtain ⟨schedule, hrun⟩ :=
      ih ⟨Function.update s.unwritten i rest, s.received ++ block⟩ (by simp)
    have hdrain : Writers.drain ⟨Function.update s.unwritten i rest, s.received ++ block⟩ i =
        s.drain i := by
      simp [Writers.drain, hblocks]
    rw [hdrain] at hrun
    exact ⟨i :: schedule, .cons hstep hrun⟩

/-- The calls of a list finish one after another. -/
theorem run_drainAll (is : List ι) (s : Writers ι) : ∃ schedule s',
    Run (Steps write) s schedule s' ∧ (∀ i, i ∈ is ∨ s.unwritten i = [] → s'.unwritten i = []) ∧
      s.received <+: s'.received := by
  induction is generalizing s with
  | nil => exact ⟨[], s, .nil, by simp, List.prefix_rfl⟩
  | cons i is ih =>
    obtain ⟨first, hfirst⟩ := run_drain s i
    obtain ⟨schedule, s', hrun, hdone, hreceived⟩ := ih (s.drain i)
    refine ⟨first ++ schedule, s', hfirst.append hrun, ?_, ?_⟩
    · intro j hj
      apply hdone
      by_cases hji : j = i
      · exact Or.inr (by simp [Writers.drain, hji])
      · simpa [Writers.drain, hji] using hj
    · exact (List.prefix_append _ _).trans hreceived

/-- Another call writes its line after the first block of a longer one. -/
theorem torn_run [Fintype ι] {i j : ι} (hij : j ≠ i)
    (hlong : bufferSize < (lineOf newline (messages i)).length) : ∃ schedule s rest,
    Run (Steps write) (Writers.start newline messages) schedule s ∧ (∀ k, s.unwritten k = []) ∧
      s.received = (lineOf newline (messages i)).take bufferSize ++
        lineOf newline (messages j) ++ rest := by
  obtain ⟨blocks, hblocks⟩ := writeLine_long hlong
  let s₁ : Writers ι := ⟨Function.update (Writers.start newline messages).unwritten i blocks,
    (lineOf newline (messages i)).take bufferSize⟩
  have hstep : write (Writers.start newline messages) i = some s₁ := by
    simp [write, Writers.start, hblocks, s₁]
  obtain ⟨second, hsecond⟩ := run_drain s₁ j
  obtain ⟨schedule, s, hrun, hdone, rest, hrest⟩ := run_drainAll Finset.univ.toList (s₁.drain j)
  refine ⟨_, s, rest, .cons hstep (hsecond.append hrun), fun k => hdone k (by simp), ?_⟩
  rw [← hrest]
  simp [Writers.drain, s₁, hij, Writers.start, writeLine_flatten]

theorem short_of_linesStayWhole [Fintype ι] (h : LinesStayWhole newline messages) {i j : ι}
    (hij : j ≠ i) : (lineOf newline (messages i)).length ≤ bufferSize := by
  by_contra hlong
  obtain ⟨schedule, s, rest, hrun, hdone, htorn⟩ := torn_run hij (not_le.mp hlong)
  obtain ⟨order, _, hall, hwhole⟩ := h schedule s hrun hdone
  obtain ⟨k, ks, rfl⟩ := List.exists_cons_of_ne_nil (List.ne_nil_of_mem (hall i))
  rw [hwhole, List.map_cons, List.flatten_cons] at htorn
  refine lineOf_not_torn ?_ ?_ htorn
  · intro hnil
    rw [List.take_eq_nil_iff] at hnil
    rcases hnil with hzero | hnil
    · cases hzero
    · exact lineOf_ne_nil hnil
  · rw [lineOf_eq] at hlong ⊢
    rw [List.length_append, List.length_singleton] at hlong
    rw [List.take_append_of_le_length (by omega)]
    intro hmem
    exact lf_notMem_lineBody (List.mem_of_mem_take hmem)

/-- Lines stay whole in every interleaving if and only if there is at most one call, or every
line fits into one pipe write. -/
theorem linesStayWhole_iff [Fintype ι] : LinesStayWhole newline messages ↔
    (∀ i j : ι, i = j) ∨ ∀ i, (lineOf newline (messages i)).length ≤ bufferSize := by
  constructor
  · intro h
    by_cases hone : ∀ i j : ι, i = j
    · exact Or.inl hone
    · right
      intro i
      obtain ⟨j, hj⟩ : ∃ j, j ≠ i := by
        by_contra hnone
        push Not at hnone
        exact hone fun a b => (hnone a).trans (hnone b).symm
      exact short_of_linesStayWhole h hj
  · rintro (hone | hshort)
    · exact linesStayWhole_of_sole hone
    · exact linesStayWhole_of_short hshort

end System

theorem stringBody_of_plain {bs : Bytes}
    (h : ∀ b ∈ bs, 0x20 ≤ b ∧ b ≠ quote ∧ b ≠ backslash) : StringBody bs := by
  induction bs with
  | nil => exact .nil
  | cons b bs ih =>
    obtain ⟨hb, hq, he⟩ := h b List.mem_cons_self
    exact .plain hb hq he (ih fun c hc => h c (List.mem_cons_of_mem b hc))

/-- The key `"Parameters"`. -/
def parametersKey : Bytes :=
  [quote, 0x50, 0x61, 0x72, 0x61, 0x6D, 0x65, 0x74, 0x65, 0x72, 0x73, quote]

/-- An object whose `Parameters` are `n` letters long. -/
def longMessage (n : ℕ) : Message where
  text := leftBrace ::
    ((parametersKey ++ colon :: quote :: (List.replicate n 0x61 ++ [quote])) ++ [rightBrace])
  isObject := by
    have hblank : IsBlank [] := by simp [IsBlank]
    have hkey : IsString parametersKey :=
      ⟨[0x50, 0x61, 0x72, 0x61, 0x6D, 0x65, 0x74, 0x65, 0x72, 0x73],
        stringBody_of_plain (by simp [quote, backslash]), rfl⟩
    have hletters : StringBody (List.replicate n 0x61) := by
      apply stringBody_of_plain
      intro b hb
      rw [List.eq_of_mem_replicate hb]
      decide
    have hvalue := Derives.element hblank (.string ⟨_, hletters, rfl⟩) hblank
    have hmember := Derives.member hblank hkey hblank hvalue
    simp only [List.nil_append, List.append_nil] at hmember
    exact ⟨_, Or.inr (.lastMember hmember), rfl⟩
  oneLine := by
    have hkey : parametersKey.all inLine = true := rfl
    have hrest : ∀ b ∈ [leftBrace, colon, quote, 0x61, rightBrace], inLine b = true :=
      List.all_eq_true.mp rfl
    intro b hb
    simp only [List.mem_cons, List.mem_append, List.mem_replicate, List.not_mem_nil,
      or_false] at hb
    rcases hb with rfl | (hb | rfl | rfl | ⟨_, rfl⟩ | rfl) | rfl
    case inr.inl.inl => exact List.all_eq_true.mp hkey b hb
    all_goals exact hrest _ (by simp)

theorem longMessage_length (newline : LineEnd) (n : ℕ) :
    n < (lineOf newline (longMessage n)).length := by
  simp only [lineOf, longMessage, List.length_append, List.length_cons, List.length_replicate]
  omega

/-- Two calls, one with a message that needs more than one pipe write. -/
def longAndShort (i : Fin 2) : Message := longMessage (if i.val = 0 then 2000 else 3)

theorem long_line_torn : ¬ LinesStayWhole .lf longAndShort := by
  intro h
  have hshort := short_of_linesStayWhole h (i := 0) (j := 1) (by decide)
  have hlong : 2000 < (lineOf .lf (longAndShort 0)).length := longMessage_length .lf 2000
  have hsize : bufferSize = 1024 := rfl
  omega

end DriverBus.Pipe
