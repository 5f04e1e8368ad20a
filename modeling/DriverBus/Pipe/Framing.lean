import DriverBus.Pipe.Fragments

/-!
# When no message is lost

A call returns after the first line feed it reads and drops what the chunk
holds behind it. So nothing is lost exactly when every line feed is the last
byte of its chunk.
-/

namespace DriverBus.Pipe

open DriverBus.Foundations.Json DriverBus.Models

variable {ε α : Type*}

/-- No chunk holds bytes behind a line feed. -/
def LineFeedsLast (chunks : List Chunk) : Prop := ∀ chunk ∈ chunks, lf ∉ chunk.bytes.dropLast

/-- Enough successive calls on the connected stream return the messages, in order, each once. -/
def YieldsAll (decode : Bytes → Except ε (Option α)) (value : Bytes → α) (chunks : List Chunk)
    (frames : List Frame) : Prop :=
  ∀ n, frames.length ≤ n →
    readCalls decode n ⟨chunks, []⟩ = frames.map fun f => value f.text

variable {decode : Bytes → Except ε (Option α)} {value : Bytes → α} {chunks : List Chunk}
  {frames : List Frame} {f : Frame} {v : Unread}

theorem lf_notMem_dropLast {kept buffer : Bytes} (hk : lf ∉ kept) :
    lf ∉ (kept ++ lf :: buffer).dropLast ↔ buffer = [] := by
  cases buffer with
  | nil => simpa using hk
  | cons b bs => simp [List.dropLast_append_of_ne_nil]

theorem StopsAfterLineFeed.lineFeedsLast (h : StopsAfterLineFeed ⟨[], chunks⟩ v) :
    LineFeedsLast chunks ↔ v.buffer = [] ∧ LineFeedsLast v.chunks := by
  obtain ⟨earlier, kept, heq, hearlier, hkept⟩ := h
  have hall : LineFeedsLast chunks ↔
      ∀ bs ∈ [] :: chunks.map Chunk.bytes, lf ∉ bs.dropLast := by
    simp [LineFeedsLast]
  have hearlier' : ∀ bs ∈ earlier, lf ∉ bs.dropLast := by
    intro bs hbs hmem
    exact hearlier (List.mem_flatten.mpr ⟨bs, hbs, List.mem_of_mem_dropLast hmem⟩)
  rw [hall, heq, List.forall_mem_append, List.forall_mem_cons, lf_notMem_dropLast hkept,
    and_iff_right hearlier', List.forall_mem_map]
  rfl

/-- A call at the start of a message returns it and leaves what follows in later chunks. -/
theorem readAsync_message (hf : decode f.text = .ok (some (value f.text)))
    (h : bytesOf chunks = framesBytes (f :: frames)) : ∃ v : Unread,
      readAsync decode ⟨chunks, []⟩ = some (.returned (value f.text), ⟨v.chunks, []⟩) ∧
        v.bytes = framesBytes frames ∧ StopsAfterLineFeed ⟨[], chunks⟩ v := by
  have hbytes : (⟨[], chunks⟩ : Unread).bytes =
      f.text ++ (f.lineEnd.bytes ++ framesBytes frames) := by
    simpa [Unread.bytes, Frame.bytes] using h
  obtain ⟨v, hline, hv, hstop⟩ := readLine_spec false f.oneLine hbytes
  refine ⟨v, ?_, hv, hstop⟩
  have hattempt := attempt_text decode f.text_ne_nil (readText_of_line f.text_ne_nil hline)
  simp [readAsync, readAttempts, Incoming.peerGone, hattempt, deserialize, hf]

/-- Losing a byte behind a message loses a message. -/
theorem resumable_of_proper_suffix {bs : Bytes} (h : bs <:+ framesBytes frames)
    (hne : bs ≠ framesBytes frames) :
    ∃ fs, fs.length < frames.length ∧ Resumable fs bs := by
  cases frames with
  | nil => exact absurd (List.suffix_nil.mp h) hne
  | cons f frames =>
    rcases suffix_append_cases h with hlater | ⟨p, hp, rfl⟩
    · obtain ⟨fs, hfs, hres⟩ := resumable_of_suffix hlater
      have hle := hfs.length_le
      exact ⟨fs, by simp only [List.length_cons]; omega, hres⟩
    · refine ⟨frames, by simp, p, rfl, Or.inr ⟨f, hp, ?_⟩⟩
      rintro rfl
      exact hne rfl

theorem readCalls_length_le (hd : AcceptsOnlyTexts decode) (n : ℕ) {fs : List Frame}
    (h : Resumable fs (bytesOf chunks)) : (readCalls decode n ⟨chunks, []⟩).length ≤ fs.length := by
  have hpending : Pending ⟨chunks, []⟩ fs [] := ⟨h, .nil⟩
  obtain ⟨kept, hkept, hvalues⟩ := readCalls_sublist hd n hpending
  have hle := hkept.length_le
  rw [List.flatten_nil, List.append_nil] at hle
  rw [hvalues.length_eq]
  exact hle

theorem readCalls_nil (n : ℕ) : readCalls decode n ⟨[], []⟩ = [] := by
  cases n <;> rfl

/-- Successive calls return exactly the messages, in order, each once, if and only if no chunk
holds anything behind a line feed. -/
theorem yieldsAll_iff_lineFeedsLast (hd : AcceptsOnlyTexts decode)
    (hv : ∀ f ∈ frames, decode f.text = .ok (some (value f.text)))
    (h : bytesOf chunks = framesBytes frames) :
    YieldsAll decode value chunks frames ↔ LineFeedsLast chunks := by
  induction frames generalizing chunks with
  | nil =>
    have hnil := bytesOf_eq_nil h
    subst hnil
    simp [YieldsAll, LineFeedsLast, readCalls_nil]
  | cons f frames ih =>
    obtain ⟨v, hread, hrest, hstop⟩ := readAsync_message (hv f List.mem_cons_self) h
    have hcalls : ∀ n, readCalls decode (n + 1) ⟨chunks, []⟩ =
        value f.text :: readCalls decode n ⟨v.chunks, []⟩ := by
      intro n
      rw [readCalls, hread]
    have hstep : YieldsAll decode value chunks (f :: frames) ↔
        YieldsAll decode value v.chunks frames := by
      constructor
      · intro hall n hn
        have hnext := hall (n + 1) (by simpa using hn)
        rw [hcalls, List.map_cons, List.cons.injEq] at hnext
        exact hnext.2
      · intro hall n hn
        obtain ⟨m, rfl⟩ : ∃ m, n = m + 1 := ⟨n - 1, by simp only [List.length_cons] at hn; omega⟩
        rw [hcalls, hall m (by simpa using hn), List.map_cons]
    rw [hstep, hstop.lineFeedsLast]
    by_cases hbuffer : v.buffer = []
    · have hbytes : bytesOf v.chunks = framesBytes frames := by
        simpa [Unread.bytes, hbuffer] using hrest
      simpa [hbuffer] using ih (fun g hg => hv g (List.mem_cons_of_mem f hg)) hbytes
    · -- The reader takes the start of the next message with it.
      have hsuffix : bytesOf v.chunks <:+ framesBytes frames := by
        rw [← hrest]
        exact List.suffix_append _ _
      have hne : bytesOf v.chunks ≠ framesBytes frames := by
        intro heq
        rw [← heq, Unread.bytes] at hrest
        exact hbuffer (List.append_left_eq_self.mp hrest)
      obtain ⟨fs, hlt, hres⟩ := resumable_of_proper_suffix hsuffix hne
      refine iff_of_false (fun hall => ?_) (fun hlast => hbuffer hlast.1)
      have hle := readCalls_length_le hd frames.length hres
      rw [hall frames.length le_rfl, List.length_map] at hle
      omega

/-- Chunks that end with the messages lose none of them. -/
theorem readCalls_of_lineFeedsLast {values : List α}
    (hvalues : List.Forall₂ (fun f v => decode f.text = .ok (some v)) frames values)
    (h : bytesOf chunks = framesBytes frames) (hlast : LineFeedsLast chunks) {n : ℕ}
    (hn : frames.length ≤ n) : readCalls decode n ⟨chunks, []⟩ = values := by
  induction hvalues generalizing chunks n with
  | nil =>
    rw [bytesOf_eq_nil h]
    exact readCalls_nil n
  | @cons f v frames values hf _ ih =>
    obtain ⟨n, rfl⟩ : ∃ m, n = m + 1 :=
      Nat.exists_eq_add_one.mpr (lt_of_lt_of_le (by simp) hn)
    obtain ⟨u, hread, hrest, hstop⟩ := @readAsync_message _ _ _ (fun _ => v) _ _ _ hf h
    obtain ⟨hbuffer, hlast'⟩ := hstop.lineFeedsLast.mp hlast
    have hbytes : bytesOf u.chunks = framesBytes frames := by
      simpa [Unread.bytes, hbuffer] using hrest
    rw [readCalls, hread]
    simp only
    rw [ih hbytes hlast' (by simpa using hn)]

/-- What `{}` deserializes to. -/
def defaultCommand : Command :=
  { id := ⟨0⟩, type := .default, isEncrypted := false, parameters := none }

/-- Two messages that arrive together. -/
def twoInOneChunk : List Chunk :=
  [⟨[leftBrace, rightBrace, lf, leftBrace, rightBrace, lf], by decide, by decide⟩]

theorem second_message_lost :
    AcceptsOnlyTexts deserializeEmpty ∧
      (∀ f ∈ [emptyObject .lf, emptyObject .lf],
        deserializeEmpty f.text = .ok (some defaultCommand)) ∧
      bytesOf twoInOneChunk = framesBytes [emptyObject .lf, emptyObject .lf] ∧
      ¬ YieldsAll deserializeEmpty (fun _ => defaultCommand) twoInOneChunk
        [emptyObject .lf, emptyObject .lf] := by
  refine ⟨deserializeEmpty_texts, by decide, rfl, fun hall => ?_⟩
  have hlength := congrArg List.length (hall 2 le_rfl)
  have hone : (readCalls deserializeEmpty 2 ⟨twoInOneChunk, []⟩).length = 1 := rfl
  rw [hone] at hlength
  simp at hlength

/-- The same messages, the second one over three chunks, with its line end cut in two. -/
def oneLinePerChunk : List Chunk :=
  [⟨[leftBrace, rightBrace, lf], by decide, by decide⟩, ⟨[leftBrace], by decide, by decide⟩,
    ⟨[rightBrace, cr], by decide, by decide⟩, ⟨[lf], by decide, by decide⟩]

theorem yieldsAll_oneLinePerChunk :
    readCalls deserializeEmpty 5 ⟨oneLinePerChunk, []⟩ = [defaultCommand, defaultCommand] ∧
      (YieldsAll deserializeEmpty (fun _ => defaultCommand) oneLinePerChunk
          [emptyObject .lf, emptyObject .crlf] ↔ LineFeedsLast oneLinePerChunk) :=
  ⟨rfl, yieldsAll_iff_lineFeedsLast deserializeEmpty_texts (by decide) rfl⟩

end DriverBus.Pipe
