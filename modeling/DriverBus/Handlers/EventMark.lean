import DriverBus.Foundations.Runs
import DriverBus.Handlers.SendEventsBatchHandler
import Mathlib.Tactic

/-!
# The mark over a history of batches

Each batch overwrites the mark with its own maximum, so the mark is the
maximum of everything saved exactly as long as every batch reaches at least
the ids saved before it. A batch that throws changes the mark only after the
file has been truncated, and then to the low bytes that were written.
-/

namespace DriverBus.Handlers

open DriverBus.Models DriverBus.Foundations

/-- One request: its batch, and what its execution meets outside. -/
structure Handling where
  outside : Outside
  events : List (Option DriverEventDto)

/-- The request succeeds. -/
def Handled (file : MarkFile) (b : Handling) (file' : MarkFile) : Prop :=
  ∃ value, executeRequest b.outside file (some b.events) = (.ok value, file')

/-- The ids of all events of some batches. -/
def savedIds (batches : List Handling) : List Int64 := batches.flatMap fun b => idsOf b.events

/-- The mark a reader is to get: the largest saved id, 0 when there is none. -/
def IsMark (ids : List Int64) (value : Int64) : Prop :=
  (ids = [] ∧ value = 0) ∨ IsLargest ids value

/-- Between any two of the requests an empty batch returns the largest id saved so far, and
once there is one the mark never decreases. -/
structure MarkIsMaximum (batches : List Handling) : Prop where
  largest : ∀ before after file next value, batches = before ++ after →
    Run Handled none before file → executeRequest next file (some []) = (.ok value, file) →
    IsMark (savedIds before) value
  never_decreases : ∀ before between after file file', batches = before ++ between ++ after →
    savedIds before ≠ [] → Run Handled none before file → Run Handled file between file' →
    storedMark file ≤ storedMark file'

/-- Every batch that is not empty has an event with an id at least as large as all earlier ones. -/
def BatchesReachEarlierIds (batches : List Handling) : Prop :=
  ∀ before b after, batches = before ++ b :: after → b.events ≠ [] →
    ∃ id ∈ idsOf b.events, ∀ earlier ∈ savedIds before, earlier ≤ id

/-- The mark belongs to the last batch that was not empty. -/
def MarkOfLast (batches : List Handling) (value : Int64) : Prop :=
  (savedIds batches = [] ∧ value = 0) ∨
    ∃ before b after, batches = before ++ b :: after ∧ b.events ≠ [] ∧
      (∀ e ∈ after, e.events = []) ∧ IsLargest (idsOf b.events) value

variable {batches before after : List Handling} {b : Handling} {file file' : MarkFile}
  {value : Int64}

theorem savedIds_append : savedIds (before ++ after) = savedIds before ++ savedIds after := by
  simp [savedIds]

theorem savedIds_of_empty (h : ∀ e ∈ after, e.events = []) : savedIds after = [] := by
  rw [savedIds, List.flatMap_eq_nil_iff]
  intro e he
  rw [h e he]
  rfl

theorem MarkOfLast.snoc (hm : MarkOfLast batches (storedMark file)) (h : Handled file b file') :
    MarkOfLast (batches ++ [b]) (storedMark file') := by
  obtain ⟨v, hexec⟩ := h
  rcases executeRequest_ok hexec with ⟨hnil, rfl, -⟩ | ⟨hne, hlargest, rfl⟩
  · rcases hm with ⟨hids, hzero⟩ | ⟨before, b', after, rfl, hne, hempty, hlargest⟩
    · left
      refine ⟨?_, hzero⟩
      rw [savedIds_append, hids, savedIds_of_empty]
      · rfl
      · intro e he
        rw [List.mem_singleton.mp he]
        exact hnil
    · right
      refine ⟨before, b', after ++ [b], by simp, hne, ?_, hlargest⟩
      intro e he
      rcases List.mem_append.mp he with he | he
      · exact hempty e he
      · rw [List.mem_singleton.mp he]
        exact hnil
  · right
    refine ⟨batches, b, [], by simp, hne, by simp, ?_⟩
    rwa [storedMark_getBytes]

theorem markOfLast_of_run (h : Run Handled none batches file) :
    MarkOfLast batches (storedMark file) := by
  apply h.history (P := fun batches file => MarkOfLast batches (storedMark file))
  · exact .inl ⟨rfl, rfl⟩
  · intro batches file b file' hm hstep
    exact hm.snoc hstep

/-- While every batch reaches the earlier ids, the last maximum is the overall one. -/
theorem MarkOfLast.isMark (hm : MarkOfLast batches value)
    (hreach : BatchesReachEarlierIds batches) : IsMark (savedIds batches) value := by
  rcases hm with hnone | ⟨before, b, after, rfl, hne, hempty, hmem, hle⟩
  · exact .inl hnone
  · right
    obtain ⟨id, hid, hearlier⟩ := hreach before b after rfl hne
    have hids : savedIds (before ++ b :: after) = savedIds before ++ idsOf b.events := by
      have hafter := savedIds_of_empty hempty
      have hcons : savedIds (b :: after) = idsOf b.events ++ savedIds after := rfl
      rw [savedIds_append, hcons, hafter, List.append_nil]
    rw [hids]
    constructor
    · exact List.mem_append_right _ hmem
    · intro x hx
      rcases List.mem_append.mp hx with hx | hx
      · exact Int64.le_trans (hearlier x hx) (hle id hid)
      · exact hle x hx

theorem BatchesReachEarlierIds.prefix (h : BatchesReachEarlierIds (before ++ after)) :
    BatchesReachEarlierIds before := by
  intro earlier b later heq hne
  apply h earlier b (later ++ after) _ hne
  simp [heq]

theorem IsMark.mono {ids more : List Int64} {value' : Int64} (hne : ids ≠ [])
    (h : IsMark ids value) (h' : IsMark (ids ++ more) value') : value ≤ value' := by
  rcases h with ⟨hnil, -⟩ | ⟨hmem, -⟩
  · exact absurd hnil hne
  · rcases h' with ⟨hnil, -⟩ | ⟨-, hle⟩
    · simp [hne] at hnil
    · apply hle
      exact List.mem_append_left _ hmem

theorem markIsMaximum_of_reach (hreach : BatchesReachEarlierIds batches) :
    MarkIsMaximum batches := by
  have hmark : ∀ before after file, batches = before ++ after → Run Handled none before file →
      IsMark (savedIds before) (storedMark file) := by
    intro before after file heq hrun
    apply (markOfLast_of_run hrun).isMark
    rw [heq] at hreach
    exact hreach.prefix
  constructor
  · intro before after file next value heq hrun hempty
    rcases executeRequest_ok hempty with ⟨-, -, rfl⟩ | ⟨hne, -⟩
    · exact hmark before after file heq hrun
    · exact absurd rfl hne
  · intro before between after file file' heq hne hrun hrun'
    have hfirst := hmark before (between ++ after) file (by simpa using heq) hrun
    have hsecond := hmark (before ++ between) after file' heq (hrun.append hrun')
    rw [savedIds_append] at hsecond
    exact hfirst.mono hne hsecond

theorem reach_of_markIsMaximum (hrun : Run Handled none batches file)
    (hmax : MarkIsMaximum batches) : BatchesReachEarlierIds batches := by
  intro before b after heq hne
  have hfront : Run Handled none (before ++ [b] ++ after) file := by simpa [heq] using hrun
  obtain ⟨f, hbefore, -⟩ := hfront.split
  obtain ⟨g, -, v, hexec⟩ := hbefore.last
  rcases executeRequest_ok hexec with ⟨hnil, -⟩ | ⟨-, hlargest, rfl⟩
  · exact absurd hnil hne
  · -- Asked right after the batch, the handler returns the batch's own maximum.
    have hasked := hmax.largest (before ++ [b]) after _ .quiet v (by simpa using heq) hbefore
      (by rw [executeRequest, readMark_eq rfl, storedMark_getBytes])
    refine ⟨v, hlargest.1, ?_⟩
    intro earlier hearlier
    have hmem : earlier ∈ savedIds (before ++ [b]) := by
      rw [savedIds_append]
      exact List.mem_append_left _ hearlier
    rcases hasked with ⟨hnil, -⟩ | ⟨-, hle⟩
    · simp [hnil] at hmem
    · exact hle earlier hmem

/-- The mark is the maximum of all saved events exactly when every batch that is not empty has
an id at least as large as every id saved before it. -/
theorem markIsMaximum_iff (hrun : Run Handled none batches file) :
    MarkIsMaximum batches ↔ BatchesReachEarlierIds batches := by
  constructor
  · exact reach_of_markIsMaximum hrun
  · exact markIsMaximum_of_reach

/-- A batch of events with the given ids, handled while nothing outside throws. -/
def batchOf (ids : List Int64) : Handling where
  outside := .quiet
  events := ids.map fun id => some ⟨id, none, none, none, none, none⟩

/-- The mark after a resent batch is the smaller maximum of that batch. -/
theorem resent_batch_lowers_mark :
    ∃ file, Run Handled none [batchOf [10], batchOf [5]] file ∧
      (executeRequest .quiet file (some [])).1 = .ok 5 ∧
      ¬ IsMark (savedIds [batchOf [10], batchOf [5]]) 5 ∧
      ¬ MarkIsMaximum [batchOf [10], batchOf [5]] := by
  have hfirst : Handled none (batchOf [10]) (some (getBytes 10)) := ⟨10, rfl⟩
  have hsecond : Handled (some (getBytes 10)) (batchOf [5]) (some (getBytes 5)) := ⟨5, rfl⟩
  have hrun := Run.cons hfirst (Run.single hsecond)
  refine ⟨some (getBytes 5), hrun, rfl, ?_, ?_⟩
  · rintro (⟨hnil, -⟩ | ⟨-, hle⟩)
    · simp [savedIds, batchOf, idsOf] at hnil
    · have := hle 10 (by simp [savedIds, batchOf, idsOf])
      exact absurd this (by decide)
  · intro hmax
    obtain ⟨id, hid, hearlier⟩ := reach_of_markIsMaximum hrun hmax [batchOf [10]] (batchOf [5]) []
      rfl (by simp [batchOf])
    have hfive : id = 5 := by simpa [batchOf, idsOf] using hid
    have := hearlier 10 (by simp [savedIds, batchOf, idsOf])
    rw [hfive] at this
    exact absurd this (by decide)

theorem markIsMaximum_growing : MarkIsMaximum [batchOf [3, -7], batchOf [], batchOf [3, 12]] := by
  have hfirst : Handled none (batchOf [3, -7]) (some (getBytes 3)) := ⟨3, rfl⟩
  have hempty : Handled (some (getBytes 3)) (batchOf []) (some (getBytes 3)) := ⟨3, rfl⟩
  have hsecond : Handled (some (getBytes 3)) (batchOf [3, 12]) (some (getBytes 12)) := ⟨12, rfl⟩
  rw [markIsMaximum_iff (Run.cons hfirst (Run.cons hempty (Run.single hsecond)))]
  intro before b after heq hne
  rcases before with _ | ⟨_, _ | ⟨_, _ | ⟨_, _⟩⟩⟩ <;>
    simp only [List.nil_append, List.cons_append, List.cons.injEq] at heq
  · obtain ⟨rfl, -⟩ := heq
    exact ⟨3, by simp [batchOf, idsOf], by simp [savedIds]⟩
  · obtain ⟨-, rfl, -⟩ := heq
    exact absurd rfl hne
  · obtain ⟨rfl, rfl, rfl, -⟩ := heq
    have hsaved : savedIds [batchOf [3, -7], batchOf []] = [3, -7] := rfl
    refine ⟨12, by simp [batchOf, idsOf], ?_⟩
    intro earlier hearlier
    rw [hsaved] at hearlier
    simp only [List.mem_cons, List.not_mem_nil, or_false] at hearlier
    rcases hearlier with rfl | rfl
    · decide
    · decide
  · simp at heq

section Failures

variable {os : Outside} {request : BaseDriverRequest (Option (List (Option DriverEventDto)))}
  {serialize : Int64 → Except Exn String} {ex : Exn}

/-- The next empty batch returns the same value in both states. -/
def SameMark (file file' : MarkFile) : Prop :=
  ∀ next : Outside, next.openMark = .ok () →
    (executeRequest next file' (some [])).1 = (executeRequest next file (some [])).1

theorem sameMark_iff : SameMark file file' ↔ storedMark file' = storedMark file := by
  constructor
  · intro h
    have hquiet := h .quiet rfl
    rw [executeRequest, executeRequest, readMark_eq rfl, readMark_eq rfl] at hquiet
    exact Except.ok.inj hquiet
  · intro h next hopen
    rw [executeRequest, executeRequest, readMark_eq hopen, readMark_eq hopen, h]

/-- The file was not truncated, or the bytes written make the old mark again. -/
def MarkSurvives (os : Outside) (file : MarkFile)
    (events : Option (List (Option DriverEventDto))) : Prop :=
  ∀ maxId written, BreaksOff os events maxId written → lowBytes written maxId = storedMark file

theorem BreaksOff.unique {events : Option (List (Option DriverEventDto))} {m m' : Int64}
    {k k' : ℕ} (h : BreaksOff os events m k) (h' : BreaksOff os events m' k') :
    m = m' ∧ k = k' := by
  obtain ⟨batch, rfl, hreach⟩ := h.reaches
  obtain ⟨batch', heq, hreach'⟩ := h'.reaches
  cases heq
  obtain ⟨ex, hwrite⟩ := h.write
  obtain ⟨ex', hwrite'⟩ := h'.write
  constructor
  · exact hreach.largest.unique hreach'.largest
  · rw [hwrite] at hwrite'
    cases hwrite'
    rfl

/-- A request that throws is answered as failed, and it leaves the mark as it was exactly when
it did not break off after the truncation, or broke off with bytes that make the old mark. -/
theorem failed_batch_keeps_mark_iff
    (h : (executeRequest os file request.requestBody).1 = .error ex) :
    (commandResult (sendEventsBatchHandler os file serialize) request).isSuccess = false ∧
      (SameMark file (executeRequest os file request.requestBody).2 ↔
        MarkSurvives os file request.requestBody) := by
  constructor
  · exact (commandResult_of_throws h).1
  · rw [sameMark_iff]
    have hexec : executeRequest os file request.requestBody =
        (.error ex, (executeRequest os file request.requestBody).2) := by
      rw [← h]
    rcases executeRequest_error hexec with ⟨hsame, hno⟩ | ⟨m, k, hbreak, hfile⟩
    · rw [hsame]
      constructor
      · intro _ maxId written hbreak
        exact absurd hbreak (hno maxId written)
      · intro _
        rfl
    · rw [hfile, storedMark_take]
      constructor
      · intro hlow maxId written hbreak'
        obtain ⟨rfl, rfl⟩ := hbreak.unique hbreak'
        exact hlow
      · intro hsurvives
        exact hsurvives m k hbreak

/-- The disk is full when the mark is to be written. -/
def diskFull : Outside :=
  { Outside.quiet with
    writeMark := some (0, ⟨-2147024784, "There is not enough space on the disk."⟩) }

/-- The service is stopped during the delay. -/
def stopped : Outside :=
  { Outside.quiet with delay := .error ⟨-2146233029, "A task was canceled."⟩ }

/-- The driver asks to save one event with that id. -/
def saveRequest (id : Int64) : BaseDriverRequest (Option (List (Option DriverEventDto))) :=
  ⟨⟨1⟩, .sendEventsBatch, some (batchOf [id]).events⟩

/-- After the failed batch the mark 10 is gone, and an empty batch returns 0. -/
theorem failed_batch_loses_mark :
    (commandResult (sendEventsBatchHandler diskFull (some (getBytes 10)) fun _ => .ok "")
      (saveRequest 12)).isSuccess = false ∧
    ¬ SameMark (some (getBytes 10))
      (executeRequest diskFull (some (getBytes 10)) (saveRequest 12).requestBody).2 := by
  constructor
  · rfl
  · rw [sameMark_iff]
    decide

theorem failed_batch_keeps_mark_stopped :
    SameMark (some (getBytes 10))
      (executeRequest stopped (some (getBytes 10)) (saveRequest 12).requestBody).2 := by
  have hthrows : (executeRequest stopped (some (getBytes 10)) (saveRequest 12).requestBody).1 =
    .error ⟨-2146233029, "A task was canceled."⟩ := rfl
  have hboth : (commandResult (sendEventsBatchHandler stopped (some (getBytes 10)) fun _ => .ok "")
      (saveRequest 12)).isSuccess = false ∧ _ := failed_batch_keeps_mark_iff hthrows
  apply hboth.2.mpr
  intro maxId written hbreak
  obtain ⟨ex, hwrite⟩ := hbreak.write
  cases hwrite

end Failures

end DriverBus.Handlers
