import DriverBus.Models.Commands
import DriverBus.Pipe.ReadAsync

/-!
# Reading from the middle of a message

A disposed reader takes the rest of its buffer with it, so the next one may
start at any byte. `Resumable` says where that can be: after the line end of a
message, or at a proper suffix of one message followed by whole ones. A line
read from there is a whole message or a proper suffix of one, and the grammar
of JSON rejects the latter.
-/

namespace DriverBus.Pipe

open DriverBus.Foundations.Json DriverBus.Models

/-- Every connection carries whole lines: those of `sent`, however its chunks are cut. -/
def Sends (pipe : Incoming) (sent : List (List Frame)) : Prop :=
  List.Forall₂ (fun chunks fs => bytesOf chunks = framesBytes fs) (pipe.current :: pipe.later) sent

/-- The unread bytes are whole frames, after a proper suffix of another one or not. -/
def Resumable (fs : List Frame) (bs : Bytes) : Prop :=
  ∃ p, bs = p ++ framesBytes fs ∧ (p = [] ∨ ∃ f : Frame, p <:+ f.bytes ∧ p ≠ f.bytes)

variable {f : Frame} {fs : List Frame} {bs : Bytes}

theorem resumable_whole (fs : List Frame) : Resumable fs (framesBytes fs) :=
  ⟨[], rfl, Or.inl rfl⟩

theorem suffix_append_cases {p q : Bytes} (h : bs <:+ p ++ q) :
    bs <:+ q ∨ ∃ p', p' <:+ p ∧ bs = p' ++ q := by
  obtain ⟨pre, hpre⟩ := h
  rcases List.append_eq_append_iff.mp hpre with ⟨p', rfl, hbs⟩ | ⟨q', rfl, hq⟩
  · exact Or.inr ⟨p', List.suffix_append _ _, hbs⟩
  · exact Or.inl ⟨q', hq.symm⟩

theorem resumable_of_suffix (h : bs <:+ framesBytes fs) : ∃ fs', fs' <:+ fs ∧ Resumable fs' bs := by
  induction fs with
  | nil =>
    have hnil := List.suffix_nil.mp h
    subst hnil
    exact ⟨[], List.suffix_rfl, resumable_whole []⟩
  | cons f fs ih =>
    rcases suffix_append_cases h with hlater | ⟨p, hp, rfl⟩
    · obtain ⟨fs', hfs, hr⟩ := ih hlater
      exact ⟨fs', hfs.trans (List.suffix_cons f fs), hr⟩
    · by_cases hwhole : p = f.bytes
      · subst hwhole
        exact ⟨f :: fs, List.suffix_rfl, resumable_whole (f :: fs)⟩
      · exact ⟨fs, List.suffix_cons f fs, p, rfl, Or.inr ⟨f, hp, hwhole⟩⟩

/-- Where a proper suffix of a frame starts: at its end, inside the line end, or in the text. -/
theorem Frame.suffix_cases {p : Bytes} (h : p <:+ f.bytes) (hne : p ≠ f.bytes) :
    p = [] ∨ (∃ e : LineEnd, p = e.bytes) ∨
      ∃ l, l ≠ [] ∧ l <:+ f.text ∧ l ≠ f.text ∧ p = l ++ f.lineEnd.bytes := by
  rcases suffix_append_cases h with hend | ⟨l, hl, rfl⟩
  · cases hcase : f.lineEnd with
    | lf =>
      rw [hcase, LineEnd.bytes, List.suffix_cons_iff, List.suffix_nil] at hend
      rcases hend with rfl | rfl
      · exact Or.inr (Or.inl ⟨.lf, rfl⟩)
      · exact Or.inl rfl
    | crlf =>
      rw [hcase, LineEnd.bytes, List.suffix_cons_iff, List.suffix_cons_iff, List.suffix_nil] at hend
      rcases hend with rfl | rfl | rfl
      · exact Or.inr (Or.inl ⟨.crlf, rfl⟩)
      · exact Or.inr (Or.inl ⟨.lf, rfl⟩)
      · exact Or.inl rfl
  · by_cases hnil : l = []
    · subst hnil
      exact Or.inr (Or.inl ⟨f.lineEnd, rfl⟩)
    · refine Or.inr (Or.inr ⟨l, hnil, hl, ?_, rfl⟩)
      rintro rfl
      exact hne rfl

/-- What an attempt can find: nothing more, a whole message, or a proper suffix of one. -/
inductive FoundText (fs : List Frame) : Option Bytes → Bytes → Prop
  | nothing : fs = [] → FoundText fs none []
  | message (f : Frame) (rest : List Frame) : fs = f :: rest →
      FoundText fs (some f.text) (framesBytes rest)
  | fragment (f : Frame) (l : Bytes) (hne : l ≠ []) (hl : l <:+ f.text) (hproper : l ≠ f.text) :
      FoundText fs (some l) (framesBytes fs)

variable {peerGone : Bool} {u v : Unread} {text : Option Bytes} {chunks : List Chunk}

/-- A reader at the start of a message reads that message. -/
theorem readLine_whole (h : u.bytes = framesBytes fs) (hr : readLine peerGone u = some (text, v)) :
    FoundText fs text v.bytes := by
  cases fs with
  | nil =>
    rw [readLine_end peerGone h] at hr
    split_ifs at hr
    cases hr
    rw [h]
    exact .nothing rfl
  | cons f fs =>
    rw [framesBytes_cons, Frame.bytes, List.append_assoc] at h
    obtain ⟨w, hw, hbytes, _⟩ := readLine_spec peerGone f.oneLine h
    rw [hw] at hr
    cases hr
    rw [hbytes]
    exact .message f fs rfl

theorem readText_of_line {line : Bytes} (hl : line ≠ [])
    (hr : readLine peerGone ⟨[], chunks⟩ = some (some line, v)) :
    readText peerGone chunks = some (some line, v) := by
  obtain ⟨b, bs, rfl⟩ := List.exists_cons_of_ne_nil hl
  simp [readText, hr]

theorem readText_of_blank (ht : text = none ∨ text = some [])
    (hr : readLine peerGone ⟨[], chunks⟩ = some (text, v)) :
    readText peerGone chunks = readLine peerGone v := by
  rcases ht with rfl | rfl <;> simp [readText, hr]

theorem readText_whole (h : bytesOf chunks = framesBytes fs)
    (hr : readText peerGone chunks = some (text, v)) : FoundText fs text v.bytes := by
  cases fs with
  | nil =>
    have hline : readLine peerGone ⟨[], chunks⟩ = _ := readLine_end peerGone h
    cases peerGone with
    | false => simp [readText, hline] at hr
    | true =>
      rw [readText_of_blank (Or.inl rfl) hline] at hr
      exact readLine_whole (u := ⟨[], chunks⟩) h hr
  | cons f fs =>
    have hbytes : (⟨[], chunks⟩ : Unread).bytes =
        f.text ++ (f.lineEnd.bytes ++ framesBytes fs) := by
      simpa [Unread.bytes, Frame.bytes] using h
    obtain ⟨w, hw, _⟩ := readLine_spec peerGone f.oneLine hbytes
    rw [readText_of_line f.text_ne_nil hw] at hr
    cases hr
    exact readLine_whole (u := ⟨[], chunks⟩) h hw

/-- From a resumable place an attempt finds the next whole message or the rest of one. -/
theorem Resumable.readText (h : Resumable fs (bytesOf chunks))
    (hr : readText peerGone chunks = some (text, v)) : FoundText fs text v.bytes := by
  obtain ⟨p, hbytes, hp⟩ := h
  have hcases : p = [] ∨ (∃ e : LineEnd, p = e.bytes) ∨ ∃ (f : Frame) (l : Bytes),
      l ≠ [] ∧ l <:+ f.text ∧ l ≠ f.text ∧ p = l ++ f.lineEnd.bytes := by
    rcases hp with rfl | ⟨f, hf, hne⟩
    · exact Or.inl rfl
    · rcases f.suffix_cases hf hne with hnil | hend | ⟨l, hl⟩
      · exact Or.inl hnil
      · exact Or.inr (Or.inl hend)
      · exact Or.inr (Or.inr ⟨f, l, hl⟩)
  rcases hcases with rfl | ⟨e, rfl⟩ | ⟨f, l, hne, hl, hproper, rfl⟩
  · exact readText_whole hbytes hr
  · -- Only the line end is left: a blank line, and the reader goes on to the next message.
    have hline : (⟨[], chunks⟩ : Unread).bytes = [] ++ (e.bytes ++ framesBytes fs) := hbytes
    obtain ⟨w, hw, hrest, _⟩ := readLine_spec peerGone (by simp) hline
    rw [readText_of_blank (Or.inr rfl) hw] at hr
    exact readLine_whole hrest hr
  · have hline : (⟨[], chunks⟩ : Unread).bytes = l ++ (f.lineEnd.bytes ++ framesBytes fs) := by
      simpa [Unread.bytes] using hbytes
    have hl' : ∀ b ∈ l, inLine b = true := fun b hb => f.oneLine b (hl.subset hb)
    obtain ⟨w, hw, hrest, _⟩ := readLine_spec peerGone hl' hline
    rw [readText_of_line hne hw] at hr
    cases hr
    rw [hrest]
    exact .fragment f l hne hl hproper

section Decode

variable {ε α : Type*} {decode : Bytes → Except ε (Option α)} {pipe pipe' : Incoming}
  {o : ReadOutcome ε α} {fss : List (List Frame)}

/-- The deserializer takes nothing but complete JSON texts. -/
def AcceptsOnlyTexts (decode : Bytes → Except ε (Option α)) : Prop :=
  ∀ text v, decode text = .ok v → IsText text

/-- A proper suffix of a message does not deserialize. -/
theorem AcceptsOnlyTexts.fragment_error (hd : AcceptsOnlyTexts decode) {l : Bytes}
    (hl : l <:+ f.text) (hproper : l ≠ f.text) : ∃ e, decode l = .error e := by
  cases h : decode l with
  | error e => exact ⟨e, rfl⟩
  | ok v => exact absurd (hd l v h) (f.isObject.suffix_not_isText hl hproper)

theorem deserialize_returned {text : Bytes} {v : α} (h : deserialize decode text = .returned v) :
    decode text = .ok (some v) := by
  unfold deserialize at h
  split at h <;> simp_all

/-- An outcome, and the frames still unread after it: a returned value is the decoding of a
frame before them. -/
def Yields (decode : Bytes → Except ε (Option α)) (fs : List Frame) (o : ReadOutcome ε α)
    (fs' : List Frame) : Prop :=
  fs'.Sublist fs ∧ ∀ v, o = .returned v → ∃ f, (f :: fs').Sublist fs ∧ decode f.text = .ok (some v)

theorem Yields.mono {gs fs' : List Frame} (h : Yields decode fs o fs') (hs : fs.Sublist gs) :
    Yields decode gs o fs' := by
  refine ⟨h.1.trans hs, fun v hv => ?_⟩
  obtain ⟨f, hf, hdec⟩ := h.2 v hv
  exact ⟨f, hf.trans hs, hdec⟩

theorem Yields.append {fs' : List Frame} (h : Yields decode fs o fs') (gs : List Frame) :
    Yields decode (fs ++ gs) o (fs' ++ gs) := by
  refine ⟨h.1.append_right gs, fun v hv => ?_⟩
  obtain ⟨f, hf, hdec⟩ := h.2 v hv
  exact ⟨f, hf.append_right gs, hdec⟩

theorem attempt_yields (hd : AcceptsOnlyTexts decode) {a : Attempt ε α}
    (h : Resumable fs (bytesOf chunks)) (ha : attempt decode peerGone chunks = some a) :
    ∃ fs', Resumable fs' (bytesOf a.chunks) ∧ Yields decode fs a.outcome fs' := by
  obtain ⟨⟨text, v⟩, hr, _⟩ := Option.map_eq_some_iff.mp ha
  have hfound := h.readText hr
  -- The rest of the reader's buffer is lost.
  have hdrop : bytesOf v.chunks <:+ v.bytes := List.suffix_append _ _
  generalize v.bytes = bs at hfound hdrop
  cases hfound with
  | nothing _ =>
    rw [attempt_null decode hr, Option.some.injEq] at ha
    subst ha
    refine ⟨[], ?_, List.nil_sublist _, by simp⟩
    rw [List.suffix_nil.mp hdrop]
    exact resumable_whole []
  | message f rest hcons =>
    rw [attempt_text decode f.text_ne_nil hr, Option.some.injEq] at ha
    subst ha hcons
    obtain ⟨fs', hfs, hres⟩ := resumable_of_suffix hdrop
    refine ⟨fs', hres, hfs.sublist.trans (List.sublist_cons_self f rest), fun v hv => ?_⟩
    exact ⟨f, hfs.sublist.cons_cons f, deserialize_returned hv⟩
  | fragment f l hne hl hproper =>
    rw [attempt_text decode hne hr, Option.some.injEq] at ha
    subst ha
    obtain ⟨fs', hfs, hres⟩ := resumable_of_suffix hdrop
    obtain ⟨e, he⟩ := hd.fragment_error hl hproper
    refine ⟨fs', hres, hfs.sublist, fun v hv => ?_⟩
    rw [deserialize_returned hv] at he
    cases he

/-- What is still to come: the frames left on the current connection, and on each later one. -/
def Pending (pipe : Incoming) (fs : List Frame) (fss : List (List Frame)) : Prop :=
  Resumable fs (bytesOf pipe.current) ∧
    List.Forall₂ (fun chunks fs => bytesOf chunks = framesBytes fs) pipe.later fss

/-- The retry callback starts at the first message of a connection, or where it was. -/
theorem Pending.retry {fs' : List Frame} {chunks : List Chunk} (h : Pending pipe fs fss)
    (hc : Resumable fs' (bytesOf chunks)) (atEnd : Bool) : ∃ gs gss,
      Pending (pipe.retry chunks atEnd) gs gss ∧
        (gs ++ gss.flatten).Sublist (fs' ++ fss.flatten) := by
  obtain ⟨_, hlater⟩ := h
  unfold Incoming.retry
  split
  · rename_i next later heq
    rw [heq] at hlater
    cases hlater with
    | @cons _ gs _ gss hnext hrest =>
      refine ⟨gs, gss, ⟨?_, hrest⟩, ?_⟩
      · rw [hnext]
        exact resumable_whole gs
      · simp
  · exact ⟨fs', fss, ⟨hc, hlater⟩, List.Sublist.refl _⟩

/-- However often a call retries, what it returns is the decoding of one whole message, and
what it leaves unread comes after that message. -/
theorem readAttempts_yields (hd : AcceptsOnlyTexts decode) {n : ℕ} (h : Pending pipe fs fss)
    (hr : readAttempts decode n pipe = some (o, pipe')) : ∃ gs gss,
      Pending pipe' gs gss ∧ Yields decode (fs ++ fss.flatten) o (gs ++ gss.flatten) := by
  induction n generalizing pipe fs fss with
  | zero =>
    obtain ⟨a, ha, heq⟩ := Option.map_eq_some_iff.mp hr
    cases heq
    obtain ⟨fs', hres, hy⟩ := attempt_yields hd h.1 ha
    exact ⟨fs', fss, ⟨hres, h.2⟩, hy.append fss.flatten⟩
  | succ n ih =>
    obtain ⟨a, ha, heq⟩ := Option.bind_eq_some_iff.mp hr
    obtain ⟨fs', hres, hy⟩ := attempt_yields hd h.1 ha
    split at heq
    · obtain ⟨gs, gss, hpending, hsub⟩ := h.retry hres a.atEnd
      obtain ⟨gs', gss', hpending', hy'⟩ := ih hpending heq
      exact ⟨gs', gss', hpending', hy'.mono (hsub.trans (hy.append fss.flatten).1)⟩
    · cases heq
      exact ⟨fs', fss, ⟨hres, h.2⟩, hy.append fss.flatten⟩

/-- The value is the decoding of the frame's whole text. -/
def DecodesTo (decode : Bytes → Except ε (Option α)) (v : α) (f : Frame) : Prop :=
  decode f.text = .ok (some v)

theorem readCalls_sublist (hd : AcceptsOnlyTexts decode) (n : ℕ) (h : Pending pipe fs fss) :
    ∃ kept, kept.Sublist (fs ++ fss.flatten) ∧
      List.Forall₂ (DecodesTo decode) (readCalls decode n pipe) kept := by
  induction n generalizing pipe fs fss with
  | zero => exact ⟨[], List.nil_sublist _, .nil⟩
  | succ n ih =>
    rw [readCalls]
    split
    · exact ⟨[], List.nil_sublist _, .nil⟩
    · rename_i v pipe' hr
      obtain ⟨gs, gss, hpending, hy⟩ := readAttempts_yields hd h hr
      obtain ⟨f, hf, hdec⟩ := hy.2 v rfl
      obtain ⟨kept, hkept, hvalues⟩ := ih hpending
      exact ⟨f :: kept, (hkept.cons_cons f).trans hf, .cons hdec hvalues⟩
    · rename_i o pipe' _ hr
      obtain ⟨gs, gss, hpending, hy⟩ := readAttempts_yields hd h hr
      obtain ⟨kept, hkept, hvalues⟩ := ih hpending
      exact ⟨kept, hkept.trans hy.1, hvalues⟩

theorem Sends.pending {sent : List (List Frame)} (h : Sends pipe sent) :
    ∃ fs fss, sent = fs :: fss ∧ Pending pipe fs fss := by
  cases h with
  | @cons _ fs _ fss hcurrent hlater =>
    refine ⟨fs, fss, rfl, ?_, hlater⟩
    rw [hcurrent]
    exact resumable_whole fs

/-- An attempt whose line is a proper suffix of a message ends the call with the exception of
the deserializer, whatever number of retries is left. -/
def ThrowsOnFragments (decode : Bytes → Except ε (Option α)) (pipe : Incoming) : Prop :=
  ∀ (f : Frame) (l : Bytes) (u : Unread), l ≠ [] → l <:+ f.text → l ≠ f.text →
    readText pipe.peerGone pipe.current = some (some l, u) →
      ∃ e, ∀ n, readAttempts decode n pipe = some (.threw e, ⟨u.chunks, pipe.later⟩)

theorem throwsOnFragments (hd : AcceptsOnlyTexts decode) : ThrowsOnFragments decode pipe := by
  intro f l u hne hl hproper hr
  obtain ⟨e, he⟩ := hd.fragment_error hl hproper
  refine ⟨e, fun n => ?_⟩
  cases n <;> simp [readAttempts, attempt_text decode hne hr, deserialize, he]

/-- However the bytes of whole lines are cut into chunks, the values that successive calls
return are the decodings of whole messages, in sending order and without repetition, and a
fragment always ends in an exception. -/
theorem fragment_never_returned (hd : AcceptsOnlyTexts decode) {sent : List (List Frame)}
    (h : Sends pipe sent) :
    (∀ n, ∃ kept, kept.Sublist sent.flatten ∧
      List.Forall₂ (DecodesTo decode) (readCalls decode n pipe) kept) ∧
    ∀ pipe : Incoming, ThrowsOnFragments decode pipe := by
  refine ⟨fun n => ?_, fun pipe => throwsOnFragments hd⟩
  obtain ⟨fs, fss, rfl, hpending⟩ := h.pending
  exact readCalls_sublist hd n hpending

end Decode

/-- The message `{}`, for concrete runs. -/
def emptyObject (lineEnd : LineEnd) : Frame where
  text := [leftBrace, rightBrace]
  lineEnd := lineEnd
  isObject := ⟨[], Or.inl (by simp [IsBlank]), rfl⟩
  oneLine := List.all_eq_true.mp rfl

/-- A deserializer of commands that knows no text but `{}`. -/
def deserializeEmpty (text : Bytes) : Except String (Option Command) :=
  if text = [leftBrace, rightBrace] then
    .ok (some { id := ⟨0⟩, type := .default, isEncrypted := false, parameters := none })
  else .error "JsonException"

theorem deserializeEmpty_texts : AcceptsOnlyTexts deserializeEmpty := by
  intro text v h
  unfold deserializeEmpty at h
  split_ifs at h with htext
  subst htext
  exact (emptyObject .lf).isObject.isText

/-- The first read drops the brace of the second message, whose rest is no message. -/
def cutInsideMessage : Incoming where
  current :=
    [⟨[leftBrace, rightBrace, lf, leftBrace], by decide, by decide⟩,
      ⟨[rightBrace, cr, lf], by decide, by decide⟩,
      ⟨[leftBrace, rightBrace], by decide, by decide⟩, ⟨[cr, lf], by decide, by decide⟩]
  later := []

theorem fragment_never_returned_cut :
    (readCalls deserializeEmpty 4 cutInsideMessage).length = 2 ∧
      ∃ kept, kept.Sublist [emptyObject .lf, emptyObject .crlf, emptyObject .crlf] ∧
        List.Forall₂ (DecodesTo deserializeEmpty)
          (readCalls deserializeEmpty 4 cutInsideMessage) kept := by
  have hsent : Sends cutInsideMessage [[emptyObject .lf, emptyObject .crlf, emptyObject .crlf]] :=
    .cons rfl .nil
  exact ⟨rfl, (fragment_never_returned deserializeEmpty_texts hsent).1 4⟩

end DriverBus.Pipe
