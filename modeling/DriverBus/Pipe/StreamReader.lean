import DriverBus.Pipe.Message
import Mathlib.Data.List.TakeWhile

/-!
# Reading lines from a pipe

A `StreamReader` with a buffer of its own over a stream it does not own. It
takes a whole chunk from the pipe at a time; `ReadLineAsync` consumes the
buffer up to the first line end, and what is left in the buffer goes away with
the reader. A carriage return that ends the buffer makes the reader fetch the
next chunk, because the line feed of the same line end may come with it.

`none` stands for an operation that waits for the peer and never completes.
-/

namespace DriverBus.Pipe

open DriverBus.Foundations.Json

/-- What one read of the pipe returns. -/
structure Chunk where
  bytes : Bytes
  nonempty : 0 < bytes.length
  fits : bytes.length ≤ 1024

def bytesOf (chunks : List Chunk) : Bytes := (chunks.map Chunk.bytes).flatten

/-- The reader's buffer and the chunks the pipe still holds. -/
structure Unread where
  buffer : Bytes
  chunks : List Chunk

def Unread.bytes (u : Unread) : Bytes := u.buffer ++ bytesOf u.chunks

def dropLineFeed : Bytes → Bytes
  | [] => []
  | b :: bs => if b = lf then bs else b :: bs

/-- After a carriage return: a line feed that follows belongs to the same line end. -/
def skipLineFeed (peerGone : Bool) (u : Unread) : Option Unread :=
  match u.buffer, u.chunks with
  | [], [] => if peerGone then some u else none
  | [], chunk :: rest => some ⟨dropLineFeed chunk.bytes, rest⟩
  | buffer, chunks => some ⟨dropLineFeed buffer, chunks⟩

/-- The buffer's byte `b` ends the line `text`. -/
def endOfLine (peerGone : Bool) (text : Bytes) (b : UInt8) (u : Unread) :
    Option (Option Bytes × Unread) :=
  if b = cr then (skipLineFeed peerGone u).map fun u' => (some text, u') else some (some text, u)

/-- The loop of `ReadLineAsync`: `line` is what earlier buffers contributed to the line. -/
def restOfLine (peerGone : Bool) (line buffer : Bytes) (chunks : List Chunk) :
    Option (Option Bytes × Unread) :=
  match buffer.dropWhile inLine with
  | b :: after => endOfLine peerGone (line ++ buffer.takeWhile inLine) b ⟨after, chunks⟩
  | [] =>
    match chunks with
    | [] => if peerGone then some (some (line ++ buffer), ⟨[], []⟩) else none
    | chunk :: rest => restOfLine peerGone (line ++ buffer) chunk.bytes rest

/-- `ReadLineAsync`: the next line, or null at the end of the stream. -/
def readLine (peerGone : Bool) (u : Unread) : Option (Option Bytes × Unread) :=
  match u.buffer, u.chunks with
  | [], [] => if peerGone then some (none, u) else none
  | [], chunk :: rest => restOfLine peerGone [] chunk.bytes rest
  | buffer, chunks => restOfLine peerGone [] buffer chunks

@[simp] theorem bytesOf_nil : bytesOf [] = [] := rfl

@[simp] theorem bytesOf_cons (chunk : Chunk) (chunks : List Chunk) :
    bytesOf (chunk :: chunks) = chunk.bytes ++ bytesOf chunks := rfl

theorem bytesOf_eq_nil {chunks : List Chunk} (h : bytesOf chunks = []) : chunks = [] := by
  cases chunks with
  | nil => rfl
  | cons chunk rest =>
    have hpos := chunk.nonempty
    rw [bytesOf_cons, List.append_eq_nil_iff] at h
    simp [h.1] at hpos

theorem Unread.eq_nil {u : Unread} (h : u.bytes = []) : u = ⟨[], []⟩ := by
  obtain ⟨buffer, chunks⟩ := u
  obtain ⟨hb, hc⟩ := List.append_eq_nil_iff.mp h
  have hchunks := bytesOf_eq_nil hc
  simp_all

/-- Reading stopped right after a line feed of the chunk (or buffer) whose rest is now in the
buffer, and that was the first line feed. -/
def StopsAfterLineFeed (before after : Unread) : Prop :=
  ∃ earlier kept, before.buffer :: before.chunks.map Chunk.bytes =
      earlier ++ (kept ++ lf :: after.buffer) :: after.chunks.map Chunk.bytes ∧
    lf ∉ earlier.flatten ∧ lf ∉ kept

variable (peerGone : Bool) (line : Bytes) {u : Unread} {buffer text rest : Bytes}
  {chunks : List Chunk}

theorem takeWhile_inLine {b : UInt8} {after : Bytes} (ht : ∀ b ∈ text, inLine b = true)
    (hb : inLine b = false) : (text ++ b :: after).takeWhile inLine = text := by
  rw [List.takeWhile_append_of_pos ht]
  simp [hb]

theorem dropWhile_inLine {b : UInt8} {after : Bytes} (ht : ∀ b ∈ text, inLine b = true)
    (hb : inLine b = false) : (text ++ b :: after).dropWhile inLine = b :: after := by
  rw [List.dropWhile_append_of_pos ht]
  simp [hb]

namespace StopsAfterLineFeed

variable {v : Unread} {pre : Bytes}

/-- The first buffer may have carried more bytes before. -/
theorem prepend (h : StopsAfterLineFeed ⟨buffer, chunks⟩ v) (hp : lf ∉ pre) :
    StopsAfterLineFeed ⟨pre ++ buffer, chunks⟩ v := by
  obtain ⟨earlier, kept, heq, hearlier, hkept⟩ := h
  cases earlier with
  | nil =>
    simp only [List.nil_append, List.cons.injEq] at heq
    obtain ⟨hb, hc⟩ := heq
    exact ⟨[], pre ++ kept, by simp [hb, hc], by simp, by simp [hp, hkept]⟩
  | cons first earlier =>
    simp only [List.cons_append, List.cons.injEq] at heq
    obtain ⟨hb, hc⟩ := heq
    refine ⟨(pre ++ first) :: earlier, kept, by simp [hb, hc], ?_, hkept⟩
    simp_all

/-- A whole buffer may have been read before. -/
theorem next {chunk : Chunk} (h : StopsAfterLineFeed ⟨chunk.bytes, chunks⟩ v)
    (hb : lf ∉ buffer) : StopsAfterLineFeed ⟨buffer, chunk :: chunks⟩ v := by
  obtain ⟨earlier, kept, heq, hearlier, hkept⟩ := h
  refine ⟨buffer :: earlier, kept, ?_, by simp [hb, hearlier], hkept⟩
  simpa using heq

end StopsAfterLineFeed

theorem skipLineFeed_spec (h : buffer ++ bytesOf chunks = lf :: rest) :
    ∃ v, skipLineFeed peerGone ⟨buffer, chunks⟩ = some v ∧ v.bytes = rest ∧
      StopsAfterLineFeed ⟨buffer, chunks⟩ v := by
  cases buffer with
  | cons b bs =>
    rw [List.cons_append, List.cons.injEq] at h
    obtain ⟨rfl, hrest⟩ := h
    exact ⟨⟨bs, chunks⟩, rfl, hrest, [], [], rfl, by simp, by simp⟩
  | nil =>
    cases chunks with
    | nil => simp at h
    | cons chunk chunks =>
      obtain ⟨b, bs, hbytes⟩ := List.exists_cons_of_length_pos chunk.nonempty
      rw [List.nil_append, bytesOf_cons, hbytes, List.cons_append, List.cons.injEq] at h
      obtain ⟨rfl, hrest⟩ := h
      refine ⟨⟨bs, chunks⟩, ?_, hrest, [[]], [], by simp [hbytes], by simp, by simp⟩
      simp [skipLineFeed, dropLineFeed, hbytes]

/-- The line ends in the current buffer, with its line feed there or in the next chunk. -/
theorem restOfLine_ends {e : LineEnd} {b : UInt8} {after : Bytes} (ht : ∀ b ∈ text, inLine b = true)
    (h : b :: (after ++ bytesOf chunks) = e.bytes ++ rest) :
    ∃ v, restOfLine peerGone line (text ++ b :: after) chunks = some (some (line ++ text), v) ∧
      v.bytes = rest ∧ StopsAfterLineFeed ⟨text ++ b :: after, chunks⟩ v := by
  cases e with
  | lf =>
    rw [LineEnd.bytes, List.singleton_append, List.cons.injEq] at h
    obtain ⟨rfl, hrest⟩ := h
    refine ⟨⟨after, chunks⟩, ?_, hrest, [], text, by simp, by simp, lf_notMem ht⟩
    rw [restOfLine.eq_def, takeWhile_inLine ht rfl, dropWhile_inLine ht rfl]
    rfl
  | crlf =>
    rw [LineEnd.bytes, List.cons_append, List.singleton_append, List.cons.injEq] at h
    obtain ⟨rfl, hrest⟩ := h
    obtain ⟨v, hskip, hv, hstop⟩ := skipLineFeed_spec peerGone hrest
    have hpre : lf ∉ text ++ [cr] := by
      have hno := lf_notMem ht
      rw [List.mem_append, not_or]
      exact ⟨hno, by decide⟩
    refine ⟨v, ?_, hv, by simpa using hstop.prepend hpre⟩
    rw [restOfLine.eq_def, takeWhile_inLine ht rfl, dropWhile_inLine ht rfl]
    simp [endOfLine, hskip]

/-- A buffer without a line end is taken whole, and reading goes on with the next chunk. -/
theorem restOfLine_next {chunk : Chunk} (hb : ∀ b ∈ buffer, inLine b = true) :
    restOfLine peerGone line buffer (chunk :: chunks) =
      restOfLine peerGone (line ++ buffer) chunk.bytes chunks := by
  rw [restOfLine.eq_def, List.dropWhile_eq_nil_iff.mpr hb]

/-- The loop of `ReadLineAsync` returns the first line of the unread bytes, wherever the chunks
end, and leaves the bytes after the line end unread. -/
theorem restOfLine_spec {e : LineEnd} (ht : ∀ b ∈ text, inLine b = true)
    (h : buffer ++ bytesOf chunks = text ++ (e.bytes ++ rest)) :
    ∃ v, restOfLine peerGone line buffer chunks = some (some (line ++ text), v) ∧
      v.bytes = rest ∧ StopsAfterLineFeed ⟨buffer, chunks⟩ v := by
  induction chunks generalizing line buffer text with
  | nil =>
    rcases List.append_eq_append_iff.mp h with ⟨more, rfl, hmore⟩ | ⟨found, rfl, hfound⟩
    · have hnil := congrArg List.length hmore
      cases e <;> simp [LineEnd.bytes] at hnil
    · cases found with
      | nil =>
        have hnil := congrArg List.length hfound
        cases e <;> simp [LineEnd.bytes] at hnil
      | cons b after => exact restOfLine_ends peerGone line ht hfound.symm
  | cons chunk chunks ih =>
    rcases List.append_eq_append_iff.mp h with ⟨more, rfl, hmore⟩ | ⟨found, rfl, hfound⟩
    · -- The line goes on after this buffer.
      have hb : ∀ b ∈ buffer, inLine b = true := fun b hb => ht b (by simp [hb])
      obtain ⟨v, hread, hv, hstop⟩ := ih (line ++ buffer)
        (fun b hb => ht b (by simp [hb])) hmore
      refine ⟨v, ?_, hv, hstop.next (lf_notMem hb)⟩
      rw [restOfLine_next peerGone line hb, hread, List.append_assoc]
    · cases found with
      | nil =>
        rw [List.append_nil] at *
        obtain ⟨v, hread, hv, hstop⟩ :=
          ih (line ++ text) (fun b hb => absurd hb List.not_mem_nil) hfound.symm
        refine ⟨v, ?_, hv, hstop.next (lf_notMem ht)⟩
        rw [restOfLine_next peerGone line ht, hread, List.append_nil]
      | cons b after => exact restOfLine_ends peerGone line ht hfound.symm

/-- `ReadLineAsync` returns the first line of the unread bytes. -/
theorem readLine_spec {e : LineEnd} (ht : ∀ b ∈ text, inLine b = true)
    (h : u.bytes = text ++ (e.bytes ++ rest)) :
    ∃ v, readLine peerGone u = some (some text, v) ∧ v.bytes = rest ∧ StopsAfterLineFeed u v := by
  obtain ⟨buffer, chunks⟩ := u
  cases buffer with
  | cons b bs => exact restOfLine_spec peerGone [] ht h
  | nil =>
    cases chunks with
    | nil =>
      have hnil := congrArg List.length h
      cases e <;> simp [LineEnd.bytes, Unread.bytes] at hnil
    | cons chunk chunks =>
      have hbytes : chunk.bytes ++ bytesOf chunks = text ++ (e.bytes ++ rest) := h
      obtain ⟨v, hread, hv, hstop⟩ := restOfLine_spec peerGone [] ht hbytes
      exact ⟨v, hread, hv, hstop.next (by simp)⟩

/-- At the end of the stream `ReadLineAsync` returns null, or waits while the peer is there. -/
theorem readLine_end (h : u.bytes = []) :
    readLine peerGone u = if peerGone then some (none, u) else none := by
  rw [Unread.eq_nil h]
  rfl

end DriverBus.Pipe
