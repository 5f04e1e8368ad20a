import DriverBus.Foundations.LittleEndian
import DriverBus.Foundations.Outcomes
import DriverBus.Handlers.BaseDriverRequestHandler
import Mathlib.Data.List.Basic

/-!
# Saving a batch of events

The handler remembers one number between requests, in a file: the largest
`DriverEventId` of the batch it saved last. An empty batch asks for it. The
file is truncated when it is created anew and only then written, and the
branch that reads it does not look at how many bytes it got.
-/

namespace DriverBus.Handlers

open DriverBus.Models DriverBus.Foundations

/-- What the handler reads of `DriverEventDto`. -/
structure DriverEventDto where
  driverEventId : Int64
  eventType : Option Int
  eventDateTimeUtc : Option Int
  docGuid : Option Guid
  fileName : Option String
  markerGuid : Option Guid
  deriving DecidableEq, Repr

/-- The bytes of `MaxDriverEventId.txt`, when it exists. -/
abbrev MarkFile := Option (List UInt8)

/-- What one execution meets outside. `writeMark` says how many bytes are in the file
when writing them throws. -/
structure Outside where
  openMark : Except Exn Unit
  logMax : Int64 → ℕ → Except Exn Unit
  logSave : Except Exn Unit
  logEvent : ℕ → DriverEventDto → Except Exn Unit
  delay : Except Exn Unit
  createMark : Except Exn Unit
  writeMark : Option (ℕ × Exn)

/-- Nothing outside throws. -/
def Outside.quiet : Outside :=
  ⟨.ok (), fun _ _ => .ok (), .ok (), fun _ _ => .ok (), .ok (), .ok (), none⟩

def nullReference : Exn where
  hResult := -2147467261
  message := "Object reference not set to an instance of an object."

def noElements : Exn where
  hResult := -2146233079
  message := "Sequence contains no elements"

/-- `BitConverter.GetBytes(long)`. -/
def getBytes (value : Int64) : List UInt8 := LittleEndian.toBytes 8 value.toBitVec.toNat

/-- `BitConverter.ToInt64(bytes, 0)`. -/
def toInt64 (bytes : List UInt8) : Int64 :=
  .ofBitVec (.ofNat 64 (LittleEndian.ofBytes bytes))

/-- The elements after the first one of `events.Max(e => e.DriverEventId)`. -/
def maxFrom (value : Int64) : List (Option DriverEventDto) → Except Exn Int64
  | [] => .ok value
  | none :: _ => .error nullReference
  | some e :: events => maxFrom (if value < e.driverEventId then e.driverEventId else value) events

/-- `events.Max(e => e.DriverEventId)`. -/
def maxDriverEventId : List (Option DriverEventDto) → Except Exn Int64
  | [] => .error noElements
  | none :: _ => .error nullReference
  | some e :: events => maxFrom e.driverEventId events

/-- The logging loop from the `n`-th event on. -/
def logEvents (os : Outside) (n : ℕ) : List (Option DriverEventDto) → Except Exn Unit
  | [] => .ok ()
  | none :: _ => .error nullReference
  | some e :: events => do
    os.logEvent n e
    logEvents os (n + 1) events

/-- What comes before the file is created. -/
def beforeSave (os : Outside) (events : List (Option DriverEventDto)) : Except Exn Int64 := do
  let maxId ← maxDriverEventId events
  os.logMax maxId events.length
  os.logSave
  logEvents os 0 events
  os.delay
  return maxId

/-- The bytes `fs.Read` leaves in the array of eight zeros, as a number. -/
def storedMark : MarkFile → Int64
  | none => 0
  | some content => toInt64 (content.takeD 8 0)

/-- The branch for an empty batch. -/
def readMark (os : Outside) (file : MarkFile) : Except Exn Int64 :=
  match file with
  | none => .ok 0
  | some _ =>
    match os.openMark with
    | .error e => .error e
    | .ok () => .ok (storedMark file)

/-- `File.Create` and the write: an exception of the latter leaves a truncated file behind. -/
def saveMark (os : Outside) (file : MarkFile) (maxId : Int64) : Except Exn Int64 × MarkFile :=
  match os.createMark with
  | .error e => (.error e, file)
  | .ok () =>
    match os.writeMark with
    | some (written, e) => (.error e, some ((getBytes maxId).take written))
    | none => (.ok maxId, some (getBytes maxId))

/-- `ExecuteRequest`: how it ends, and the file after it. -/
def executeRequest (os : Outside) (file : MarkFile) :
    Option (List (Option DriverEventDto)) → Except Exn Int64 × MarkFile
  | none => (.error nullReference, file)
  | some [] => (readMark os file, file)
  | some (e :: events) =>
    match beforeSave os (e :: events) with
    | .error ex => (.error ex, file)
    | .ok maxId => saveMark os file maxId

/-- The handler while the file is as given. -/
def sendEventsBatchHandler (os : Outside) (file : MarkFile)
    (serialize : Int64 → Except Exn String) :
    RequestHandler (Option (List (Option DriverEventDto))) Int64 where
  executeRequest events := (executeRequest os file events).1
  serialize := serialize

/-- The ids of the events of a batch. -/
def idsOf (events : List (Option DriverEventDto)) : List Int64 :=
  events.filterMap fun e => e.map DriverEventDto.driverEventId

/-- The value is in the list and nothing in the list is larger. -/
def IsLargest (ids : List Int64) (value : Int64) : Prop :=
  value ∈ ids ∧ ∀ id ∈ ids, id ≤ value

variable {os : Outside} {file file' : MarkFile} {events : List (Option DriverEventDto)}
  {value maxId : Int64} {written : ℕ} {ex : Exn}

theorem maxFrom_largest (h : maxFrom value events = .ok maxId) :
    IsLargest (value :: idsOf events) maxId := by
  induction events generalizing value with
  | nil =>
    cases h
    simp [IsLargest, idsOf]
  | cons e events ih =>
    cases e with
    | none => cases h
    | some e =>
      have hids : idsOf (some e :: events) = e.driverEventId :: idsOf events := rfl
      obtain ⟨hmem, hle⟩ := ih h
      simp only [List.mem_cons, forall_eq_or_imp] at hmem hle
      simp only [IsLargest, hids, List.mem_cons, forall_eq_or_imp]
      by_cases hlt : value < e.driverEventId
      · rw [if_pos hlt] at hmem hle
        refine ⟨.inr hmem, ?_, hle⟩
        exact Int64.le_trans (Int64.le_of_lt hlt) hle.1
      · rw [if_neg hlt] at hmem hle
        refine ⟨hmem.imp_right .inr, hle.1, ?_, hle.2⟩
        exact Int64.le_trans (Int64.not_lt.mp hlt) hle.1

theorem maxFrom_isOk (value : Int64) (hnull : none ∉ events) :
    ∃ m, maxFrom value events = .ok m := by
  induction events generalizing value with
  | nil => exact ⟨value, rfl⟩
  | cons e events ih =>
    cases e with
    | none => simp at hnull
    | some e =>
      apply ih
      intro hmem
      exact hnull (List.mem_cons_of_mem _ hmem)

theorem none_notMem_of_maxFrom (h : maxFrom value events = .ok maxId) : none ∉ events := by
  induction events generalizing value with
  | nil => simp
  | cons e events ih =>
    cases e with
    | none => cases h
    | some e =>
      have hrest := ih h
      simpa using hrest

theorem IsLargest.unique {ids : List Int64} {v w : Int64} (hv : IsLargest ids v)
    (hw : IsLargest ids w) : v = w :=
  Int64.le_antisymm (hw.2 v hv.1) (hv.2 w hw.1)

/-- The maximum is computed when there is an event and no null element. -/
theorem maxDriverEventId_ok_iff : maxDriverEventId events = .ok maxId ↔
    none ∉ events ∧ IsLargest (idsOf events) maxId := by
  cases events with
  | nil => simp [maxDriverEventId, IsLargest, idsOf]
  | cons e events =>
    cases e with
    | none => simp [maxDriverEventId]
    | some e =>
      constructor
      · intro h
        have hnull := none_notMem_of_maxFrom h
        exact ⟨by simpa using hnull, maxFrom_largest h⟩
      · rintro ⟨hnull, hlargest⟩
        obtain ⟨m, hm⟩ := maxFrom_isOk e.driverEventId
          fun hmem => hnull (List.mem_cons_of_mem _ hmem)
        rw [hlargest.unique (maxFrom_largest hm)]
        exact hm

theorem logEvents_ok_iff {n : ℕ} (hnull : none ∉ events) : logEvents os n events = .ok () ↔
    ∀ i e, events[i]? = some (some e) → os.logEvent (n + i) e = .ok () := by
  induction events generalizing n with
  | nil => simp [logEvents]
  | cons e events ih =>
    cases e with
    | none => simp at hnull
    | some e =>
      have hrest := ih (n := n + 1) fun hmem => hnull (List.mem_cons_of_mem _ hmem)
      rw [logEvents, bind_eq_ok_iff]
      constructor
      · rintro ⟨_, hlog, hlogs⟩ i e' hi
        cases i with
        | zero =>
          cases hi
          exact hlog
        | succ i =>
          have := hrest.mp hlogs i e' hi
          rwa [Nat.add_right_comm] at this
      · intro h
        refine ⟨(), h 0 e rfl, hrest.mpr ?_⟩
        intro i e' hi
        have := h (i + 1) e' hi
        rwa [← Nat.add_assoc, Nat.add_right_comm] at this

/-- The batch has events, none of them null, and neither the logger nor the delay throws. -/
structure ReachesSave (os : Outside) (events : List (Option DriverEventDto)) (maxId : Int64) :
    Prop where
  noNull : none ∉ events
  largest : IsLargest (idsOf events) maxId
  logMax : os.logMax maxId events.length = .ok ()
  logSave : os.logSave = .ok ()
  logEvent : ∀ i e, events[i]? = some (some e) → os.logEvent i e = .ok ()
  delay : os.delay = .ok ()

theorem beforeSave_ok_iff : beforeSave os events = .ok maxId ↔ ReachesSave os events maxId := by
  constructor
  · intro h
    obtain ⟨m, hmax, h⟩ := bind_eq_ok_iff.mp h
    obtain ⟨_, hlogMax, h⟩ := bind_eq_ok_iff.mp h
    obtain ⟨_, hlogSave, h⟩ := bind_eq_ok_iff.mp h
    obtain ⟨_, hlogs, h⟩ := bind_eq_ok_iff.mp h
    obtain ⟨_, hdelay, h⟩ := bind_eq_ok_iff.mp h
    cases h
    obtain ⟨hnull, hlargest⟩ := maxDriverEventId_ok_iff.mp hmax
    rw [logEvents_ok_iff hnull] at hlogs
    exact ⟨hnull, hlargest, hlogMax, hlogSave, by simpa using hlogs, hdelay⟩
  · intro h
    have hmax := maxDriverEventId_ok_iff.mpr ⟨h.noNull, h.largest⟩
    have hlogs : logEvents os 0 events = .ok () :=
      (logEvents_ok_iff h.noNull).mpr (by simpa using h.logEvent)
    unfold beforeSave
    rw [hmax]
    simp [bind, Except.bind, h.logMax, h.logSave, hlogs, h.delay, pure, Except.pure]

/-- The number made of the low `k` bytes, the others zero. -/
def lowBytes (k : ℕ) (value : Int64) : Int64 :=
  .ofBitVec (.ofNat 64 (value.toBitVec.toNat % 256 ^ k))

/-- The eight bytes hold the whole number. -/
theorem lowBytes_eight : lowBytes 8 value = value := by
  have hlt : value.toBitVec.toNat < 256 ^ 8 := value.toBitVec.isLt
  rw [lowBytes, Nat.mod_eq_of_lt hlt, BitVec.ofNat_toNat, BitVec.setWidth_eq,
    Int64.ofBitVec_toBitVec]

/-- What the reading branch makes of a file whose writing broke off. -/
theorem storedMark_take : storedMark (some ((getBytes value).take written)) =
    lowBytes written value := by
  have hlt : value.toBitVec.toNat < 256 ^ 8 := value.toBitVec.isLt
  rw [storedMark, toInt64, getBytes, LittleEndian.ofBytes_takeD_toBytes hlt, lowBytes]

theorem storedMark_getBytes : storedMark (some (getBytes value)) = value := by
  have hwhole : (getBytes value).take 8 = getBytes value := by
    apply List.take_of_length_le
    simp [getBytes]
  rw [← hwhole, storedMark_take, lowBytes_eight]

theorem readMark_eq (hopen : os.openMark = .ok ()) : readMark os file = .ok (storedMark file) := by
  cases file with
  | none => rfl
  | some content => simp [readMark, hopen]

/-- A request that succeeds asked for the mark, or saved a batch and made its maximum the mark. -/
theorem executeRequest_ok (h : executeRequest os file (some events) = (.ok value, file')) :
    (events = [] ∧ file' = file ∧ value = storedMark file) ∨
      (events ≠ [] ∧ IsLargest (idsOf events) value ∧ file' = some (getBytes value)) := by
  cases events with
  | nil =>
    obtain ⟨hread, rfl⟩ := Prod.mk.inj h
    refine .inl ⟨rfl, rfl, ?_⟩
    cases file with
    | none => exact (Except.ok.inj hread).symm
    | some content =>
      cases hopen : os.openMark with
      | error e => simp [readMark, hopen] at hread
      | ok u =>
        rw [readMark_eq hopen] at hread
        exact (Except.ok.inj hread).symm
  | cons e events =>
    right
    cases hbefore : beforeSave os (e :: events) with
    | error ex => simp [executeRequest, hbefore] at h
    | ok m =>
      simp only [executeRequest, hbefore, saveMark] at h
      split at h
      · simp at h
      · split at h
        · simp at h
        · simp only [Prod.mk.injEq, Except.ok.injEq] at h
          obtain ⟨rfl, rfl⟩ := h
          exact ⟨by simp, (beforeSave_ok_iff.mp hbefore).largest, rfl⟩

/-- The batch throws after `File.Create` has truncated the file, with that many of the bytes
of the batch's maximum written. -/
structure BreaksOff (os : Outside) (events : Option (List (Option DriverEventDto)))
    (maxId : Int64) (written : ℕ) : Prop where
  reaches : ∃ batch, events = some batch ∧ ReachesSave os batch maxId
  create : os.createMark = .ok ()
  write : ∃ ex, os.writeMark = some (written, ex)

theorem saveMark_error (hbefore : beforeSave os events = .ok value)
    (h : saveMark os file value = (.error ex, file')) :
    (file' = file ∧ ∀ maxId written, ¬ BreaksOff os (some events) maxId written) ∨
      ∃ maxId written, BreaksOff os (some events) maxId written ∧
        file' = some ((getBytes maxId).take written) := by
  cases hcreate : os.createMark with
  | error e =>
    simp only [saveMark, hcreate, Prod.mk.injEq] at h
    refine .inl ⟨h.2.symm, ?_⟩
    intro maxId written hbreak
    have hok := hbreak.create
    rw [hcreate] at hok
    cases hok
  | ok u =>
    cases hwrite : os.writeMark with
    | none => simp [saveMark, hcreate, hwrite] at h
    | some w =>
      simp only [saveMark, hcreate, hwrite, Prod.mk.injEq] at h
      have hreach := beforeSave_ok_iff.mp hbefore
      exact .inr ⟨value, w.1, ⟨⟨events, rfl, hreach⟩, hcreate, w.2, hwrite⟩, h.2.symm⟩

/-- A request that throws leaves the file alone unless its writing broke off. -/
theorem executeRequest_error {batch : Option (List (Option DriverEventDto))}
    (h : executeRequest os file batch = (.error ex, file')) :
    (file' = file ∧ ∀ maxId written, ¬ BreaksOff os batch maxId written) ∨
      ∃ maxId written, BreaksOff os batch maxId written ∧
        file' = some ((getBytes maxId).take written) := by
  cases batch with
  | none =>
    obtain ⟨-, rfl⟩ := Prod.mk.inj h
    refine .inl ⟨rfl, ?_⟩
    intro maxId written hbreak
    obtain ⟨_, hnone, -⟩ := hbreak.reaches
    cases hnone
  | some events =>
    cases events with
    | nil =>
      obtain ⟨-, rfl⟩ := Prod.mk.inj h
      refine .inl ⟨rfl, ?_⟩
      intro maxId written hbreak
      obtain ⟨_, hnil, hreach⟩ := hbreak.reaches
      cases hnil
      exact absurd hreach.largest.1 List.not_mem_nil
    | cons e events =>
      rw [executeRequest] at h
      cases hbefore : beforeSave os (e :: events) with
      | error ex =>
        rw [hbefore] at h
        obtain ⟨-, rfl⟩ := Prod.mk.inj h
        refine .inl ⟨rfl, ?_⟩
        intro maxId written hbreak
        obtain ⟨_, hsome, hreach⟩ := hbreak.reaches
        cases hsome
        rw [beforeSave_ok_iff.mpr hreach] at hbefore
        cases hbefore
      | ok m =>
        simp only [hbefore] at h
        exact saveMark_error hbefore h

end DriverBus.Handlers
