import DriverBus.Foundations.Simulation
import DriverBus.Services.CallFailures
import DriverBus.Services.Correlation

/-!
# One call by itself

With pairwise distinct Ids every call of a run can be looked at alone: the
steps of the other calls and the iterations for other Ids are deleted, and what
is left is a run of the system with that single call. `SameForCall` relates the
two states, and each update of the shared state either changes both in the same
way or is invisible to the call.
-/

namespace DriverBus.Services

open DriverBus.Models DriverBus.Foundations

variable {ι τ : Type*}

/-- The system with the single call `i`. -/
def Calls.only (c : Calls ι τ) (i : ι) : Calls Unit τ where
  command _ := c.command i
  token _ := c.token i

/-- The same phase with the calls renamed. -/
def Phase.map {κ : Type*} (f : κ → ι) : Phase κ → Phase ι
  | .notStarted => .notStarted
  | .registered => .registered
  | .writing => .writing
  | .waiting w => .waiting w
  | .catching e => .catching e
  | .faulting e removed => .faulting e (removed.map f)
  | .leaving o => .leaving o
  | .done o => .done o

/-- The same iteration with the calls renamed. -/
def Reader.map {κ : Type*} (f : κ → ι) : Reader κ → Reader ι
  | .idle => .idle
  | .received r => .received r
  | .found r t => .found r (f t)
  | .removing key => .removing key

/-- The Id the iteration in progress is about. -/
def Reader.key? : Reader ι → Option Guid
  | .idle => none
  | .received r | .found r _ => some r.id
  | .removing key => some key

section Labels

variable [DecidableEq ι]

/-- The iteration that began with the last result read is about `id`. -/
def iterationOf (id : Guid) (before : List (Action ι τ)) : Bool :=
  ((readsOf before).getLast?.map CommandResult.id) == some id

/-- The label in the system with call `i` alone. Steps of other calls, and of iterations for
other Ids, have none. -/
def Action.only (c : Calls ι τ) (i : ι) (before : List (Action ι τ)) :
    Action ι τ → Option (Action Unit τ)
  | .start j => if j = i then some (.start ()) else none
  | .addOrUpdate j => if j = i then some (.addOrUpdate ()) else none
  | .writeReturns j => if j = i then some (.writeReturns ()) else none
  | .writeThrows j e => if j = i then some (.writeThrows () e) else none
  | .waitTimesOut j => if j = i then some (.waitTimesOut ()) else none
  | .waitCanceled j => if j = i then some (.waitCanceled ()) else none
  | .resume j => if j = i then some (.resume ()) else none
  | .tryRemove j => if j = i then some (.tryRemove ()) else none
  | .trySetException j => if j = i then some (.trySetException ()) else none
  | .disposeRegistration j => if j = i then some (.disposeRegistration ()) else none
  | .cancel k => some (.cancel k)
  | .cancelCallback j => if j = i then some (.cancelCallback ()) else none
  | .read r => if r.id = (c.command i).id then some (.read r) else none
  | .readThrows => some .readThrows
  | .tryGetValue => if iterationOf (c.command i).id before then some .tryGetValue else none
  | .trySetResult => if iterationOf (c.command i).id before then some .trySetResult else none
  | .removeEntry => if iterationOf (c.command i).id before then some .removeEntry else none

/-- The run with all steps of other calls and all iterations for other Ids deleted. -/
def onlyCall (c : Calls ι τ) (i : ι) (as : List (Action ι τ)) : List (Action Unit τ) :=
  kept (Action.only c i) [] as

end Labels

/-- Call `i` and what it can see are the same in the two states: its table entry, its source,
its phase with the outcome, the tokens, and the iteration for its Id. -/
structure SameForCall (c : Calls ι τ) (i : ι) (s : State ι τ) (t : State Unit τ) : Prop where
  entry : s.dict (c.command i).id = (t.dict (c.command i).id).map fun _ => i
  source : s.task i = t.task ()
  phase : s.phase i = (t.phase ()).map fun _ => i
  cancelled : s.cancelled = t.cancelled
  own : s.reader.key? = some (c.command i).id → s.reader = t.reader.map fun _ => i
  other : s.reader.key? ≠ some (c.command i).id → t.reader = .idle

variable {c : Calls ι τ} {i j : ι} {s s' : State ι τ} {t : State Unit τ} {a : Action ι τ}
  {as : List (Action ι τ)}

theorem Phase.map_injective {κ : Type*} {f : κ → ι} (hf : Function.Injective f) :
    Function.Injective (Phase.map f) := by
  intro p q h
  cases p <;> cases q <;> simp only [Phase.map, reduceCtorEq, waiting.injEq, catching.injEq,
    leaving.injEq, done.injEq, faulting.injEq] at h
  case faulting.faulting =>
    obtain ⟨rfl, hremoved⟩ := h
    rw [Option.map_injective hf hremoved]
  all_goals simp [h]

theorem Phase.map_sourceCompleted {κ : Type*} (f : κ → ι) (o : Outcome) (p : Phase κ) :
    (p.map f).sourceCompleted o = (p.sourceCompleted o).map f := by
  cases p with
  | waiting w => cases w <;> rfl
  | _ => rfl

theorem Phase.map_callbackRegistered {κ : Type*} (f : κ → ι) (p : Phase κ) :
    (p.map f).callbackRegistered = p.callbackRegistered := by
  cases p <;> rfl

theorem Reader.map_key? {κ : Type*} (f : κ → ι) (rd : Reader κ) : (rd.map f).key? = rd.key? := by
  cases rd <;> rfl

namespace SameForCall

theorem initial : SameForCall c i (State.initial ι τ) (State.initial Unit τ) := by
  constructor <;> simp [State.initial, Phase.map, Reader.map]

theorem phase_eq (h : SameForCall c i s t) {p : Phase Unit}
    (hp : s.phase i = p.map fun _ => i) : t.phase () = p := by
  have hinj : Function.Injective fun _ : Unit => i := fun _ _ _ => rfl
  apply Phase.map_injective hinj
  rw [← h.phase, hp]

theorem token_eq (h : SameForCall c i s t) :
    s.cancelled (c.token i) = t.cancelled ((c.only i).token ()) := by
  rw [h.cancelled]
  rfl

/-- The iteration for the call's Id stands at the same place in both systems. -/
theorem reader_eq (h : SameForCall c i s t) (rd : Reader Unit)
    (hk : s.reader.key? = some (c.command i).id) (hr : s.reader = rd.map fun _ => i) :
    t.reader = rd := by
  have hmap := (h.own hk).symm.trans hr
  cases hrd : t.reader <;> cases rd <;> simp_all [Reader.map]

/-- The reader moves within an iteration for the call's Id, or ends it. -/
theorem iterate_own (h : SameForCall c i s t) (rd : Reader Unit)
    (hk : rd = .idle ∨ rd.key? = some (c.command i).id) (n m : ℕ) (d : ι → Option ℕ)
    (d' : Unit → Option ℕ) :
    SameForCall c i
      { s with reader := rd.map fun _ => i, reads := n, deliveredBy := d }
      { t with reader := rd, reads := m, deliveredBy := d' } := by
  refine ⟨h.entry, h.source, h.phase, h.cancelled, fun _ => rfl, ?_⟩
  intro hne
  apply hk.resolve_right
  intro heq
  apply hne
  rw [← heq, Reader.map_key?]

/-- The reader moves within an iteration for another Id, or ends it. -/
theorem iterate_other (h : SameForCall c i s t) {rd : Reader ι}
    (hk : rd.key? ≠ some (c.command i).id) (hidle : t.reader = .idle) (n : ℕ)
    (d : ι → Option ℕ) :
    SameForCall c i { s with reader := rd, reads := n, deliveredBy := d } t := by
  refine ⟨h.entry, h.source, h.phase, h.cancelled, ?_, fun _ => hidle⟩
  intro heq
  exact absurd heq hk

theorem setEntry (h : SameForCall c i s t) (entry : Option Unit) :
    SameForCall c i (s.setEntry (c.command i).id (entry.map fun _ => i))
      (t.setEntry (c.command i).id entry) :=
  ⟨by simp, h.source, h.phase, h.cancelled, h.own, h.other⟩

theorem setEntry_other (h : SameForCall c i s t) {key : Guid} (hkey : key ≠ (c.command i).id)
    (entry : Option ι) : SameForCall c i (s.setEntry key entry) t :=
  ⟨by simpa [hkey.symm] using h.entry, h.source, h.phase, h.cancelled, h.own, h.other⟩

variable [DecidableEq ι]

theorem setPhase (h : SameForCall c i s t) (p : Phase Unit) :
    SameForCall c i (s.setPhase i (p.map fun _ => i)) (t.setPhase () p) :=
  ⟨h.entry, h.source, by simp, h.cancelled, h.own, h.other⟩

theorem setPhase_other (h : SameForCall c i s t) (hj : j ≠ i) (p : Phase ι) :
    SameForCall c i (s.setPhase j p) t :=
  ⟨h.entry, h.source, by simpa [hj.symm] using h.phase, h.cancelled, h.own, h.other⟩

theorem complete (h : SameForCall c i s t) (o : Outcome) :
    SameForCall c i (s.complete i o) (t.complete () o) := by
  have hsource := h.source
  refine ⟨?_, ?_, ?_, ?_, ?_, ?_⟩
  · simpa using h.entry
  · by_cases hn : t.task () = none <;> simp [hsource, hn]
  · by_cases hn : t.task () = none
    · simp [hsource, hn, h.phase, Phase.map_sourceCompleted]
    · simp [hsource, hn, h.phase]
  · simpa using h.cancelled
  · simpa using h.own
  · simpa using h.other

theorem complete_other (h : SameForCall c i s t) (hj : j ≠ i) (o : Outcome) :
    SameForCall c i (s.complete j o) t := by
  refine ⟨?_, ?_, ?_, ?_, ?_, ?_⟩
  · simpa using h.entry
  · simpa [hj.symm] using h.source
  · simpa [hj.symm] using h.phase
  · simpa using h.cancelled
  · simpa using h.own
  · simpa using h.other

end SameForCall

/-- What is needed of the state beside the relation. -/
structure Projectable (c : Calls ι τ) (as : List (Action ι τ)) (s : State ι τ) : Prop where
  consistent : Consistent c s
  removed : ∀ j e u, s.phase j = .faulting e (some u) → (c.command u).id = (c.command j).id
  iteration : ∀ key, s.reader.key? = some key →
    (readsOf as).getLast?.map CommandResult.id = some key

theorem Projectable.initial : Projectable c [] (State.initial ι τ) := by
  refine ⟨Consistent.initial, ?_, ?_⟩ <;> simp [State.initial, Reader.key?]

/-- A step of an iteration is kept exactly when the iteration is about the call's Id. -/
theorem Projectable.keeps_iff (hp : Projectable c as s) {key id : Guid}
    (hk : s.reader.key? = some key) : iterationOf id as = true ↔ key = id := by
  simp [iterationOf, hp.iteration key hk]

theorem Projectable.drops (hp : Projectable c as s) {key : Guid} (hk : s.reader.key? = some key)
    (hne : key ≠ (c.command i).id) : iterationOf (c.command i).id as = false := by
  rw [← Bool.not_eq_true, hp.keeps_iff hk]
  exact hne

section Updates

variable [DecidableEq ι]

/-- Completing the source of another call is invisible to call `i`. -/
theorem SameForCall.faultRemoved_other (hs : SameForCall c i s t) {removed : Option ι}
    (hr : ∀ u, removed = some u → u ≠ i) (e : Failure) :
    SameForCall c i (faultRemoved s e removed) t := by
  cases removed with
  | none => exact hs
  | some u => exact hs.complete_other (hr u rfl) _

theorem SameForCall.faultRemoved_own (hs : SameForCall c i s t) (removed : Option Unit)
    (e : Failure) :
    SameForCall c i (faultRemoved s e (removed.map fun _ => i)) (faultRemoved t e removed) := by
  cases removed with
  | none => exact hs
  | some u => exact hs.complete _

theorem SameForCall.startCall_own (hs : SameForCall c i s t) :
    SameForCall c i (startCall c s i) (startCall (c.only i) t ()) := by
  have hstarted : SameForCall c i (s.setPhase i .registered) (t.setPhase () .registered) :=
    hs.setPhase .registered
  unfold startCall
  rw [hs.token_eq]
  cases t.cancelled ((c.only i).token ()) with
  | true => exact hstarted.complete _
  | false => exact hstarted

theorem SameForCall.startCall_other (hs : SameForCall c i s t) (hj : j ≠ i) :
    SameForCall c i (startCall c s j) t := by
  have hstarted := hs.setPhase_other hj .registered
  unfold startCall
  cases s.cancelled (c.token j) with
  | true => exact hstarted.complete_other hj _
  | false => exact hstarted

end Updates

variable [DecidableEq ι] [DecidableEq τ]

theorem Transition.projectable (h : Transition c s a s') (hp : Projectable c as s) :
    Projectable c (as ++ [a]) s' where
  consistent := h.consistent hp.consistent
  removed j e u hj := by
    rcases h.phase_change j with heq | hch
    · exact hp.removed j e u (heq ▸ hj)
    · rw [hj] at hch
      exact hp.consistent.entry_id _ u hch.faulting.2.symm
  iteration key hk := by
    rcases h.reader_change with heq | hch
    · rw [heq] at hk
      have hbusy : s.reader ≠ .idle := by
        intro hidle
        simp [hidle, Reader.key?] at hk
      simpa [(h.reads_nothing hbusy).2] using hp.iteration key hk
    · generalize hrd : s.reader = rd at hch
      generalize hrd' : s'.reader = rd' at hch hk
      cases hch with
      | read r => simpa [Action.result?, Reader.key?] using hk
      | lookupHits r u _ =>
        have hold := hp.iteration key (by rw [hrd]; exact hk)
        simpa [Action.result?] using hold
      | trySetResult r u =>
        have hold := hp.iteration key (by rw [hrd]; exact hk)
        simpa [Action.result?] using hold
      | _ => simp [Reader.key?] at hk

/-- A step of call `i` is the same step of the call alone. -/
theorem SameForCall.own_step (hs : SameForCall c i s t) (h : Transition c s a s')
    (ha : a.caller = some i) : ∃ b t', Action.only c i as a = some b ∧
      step (c.only i) t b = some t' ∧ SameForCall c i s' t' := by
  cases h with
  | start hphase =>
    cases ha
    have ht := hs.phase_eq (p := .notStarted) hphase
    refine ⟨.start (), _, by simp [Action.only], by simp [step, ht]; rfl, ?_⟩
    exact hs.startCall_own
  | addOrUpdate hphase =>
    cases ha
    have ht := hs.phase_eq (p := .registered) hphase
    refine ⟨.addOrUpdate (), _, by simp [Action.only], by simp [step, ht]; rfl, ?_⟩
    exact (hs.setEntry (some ())).setPhase .writing
  | writeReturns hphase =>
    cases ha
    have ht := hs.phase_eq (p := .writing) hphase
    refine ⟨.writeReturns (), _, by simp [Action.only], by simp [step, ht]; rfl, ?_⟩
    rw [hs.source, hs.token_eq]
    exact hs.setPhase (.waiting _)
  | @writeThrows _ e hphase =>
    cases ha
    have ht := hs.phase_eq (p := .writing) hphase
    refine ⟨.writeThrows () e, _, by simp [Action.only], by simp [step, ht]; rfl, ?_⟩
    exact hs.setPhase (.catching _)
  | waitTimesOut hphase =>
    cases ha
    have ht := hs.phase_eq (p := .waiting none) hphase
    refine ⟨.waitTimesOut (), _, by simp [Action.only], by simp [step, ht]; rfl, ?_⟩
    exact hs.setPhase (.waiting _)
  | waitCanceled hphase hc =>
    cases ha
    have ht := hs.phase_eq (p := .waiting none) hphase
    rw [hs.token_eq] at hc
    refine ⟨.waitCanceled (), _, by simp [Action.only], by simp [step, ht, hc]; rfl, ?_⟩
    exact hs.setPhase (.waiting _)
  | resumeReturns hphase =>
    cases ha
    have ht := hs.phase_eq (p := .waiting (some (.returns _))) hphase
    refine ⟨.resume (), _, by simp [Action.only], by simp [step, ht]; rfl, ?_⟩
    exact hs.setPhase (.leaving _)
  | resumeThrows hphase =>
    cases ha
    have ht := hs.phase_eq (p := .waiting (some (.throws _))) hphase
    refine ⟨.resume (), _, by simp [Action.only], by simp [step, ht]; rfl, ?_⟩
    exact hs.setPhase (.catching _)
  | tryRemove hphase =>
    cases ha
    have ht := hs.phase_eq (p := .catching _) hphase
    refine ⟨.tryRemove (), _, by simp [Action.only], by simp [step, ht]; rfl, ?_⟩
    rw [hs.entry]
    exact (hs.setEntry none).setPhase (.faulting _ _)
  | trySetException hphase =>
    cases ha
    have hmap := hs.phase
    rw [hphase] at hmap
    cases ht : t.phase () <;> rw [ht] at hmap <;> cases hmap
    refine ⟨.trySetException (), _, by simp [Action.only], by simp [step, ht]; rfl, ?_⟩
    exact (hs.faultRemoved_own _ _).setPhase (.leaving _)
  | disposeRegistration hphase =>
    cases ha
    have ht := hs.phase_eq (p := .leaving _) hphase
    refine ⟨.disposeRegistration (), _, by simp [Action.only], by simp [step, ht]; rfl, ?_⟩
    exact hs.setPhase (.done _)
  | cancelCallback hc hphase =>
    cases ha
    rw [hs.token_eq] at hc
    rw [hs.phase, Phase.map_callbackRegistered] at hphase
    refine ⟨.cancelCallback (), _, by simp [Action.only], by simp [step, hc, hphase]; rfl, ?_⟩
    exact hs.complete _
  | _ => cases ha

/-- A step of another call is invisible. -/
theorem SameForCall.other_step (hs : SameForCall c i s t) (hp : Projectable c as s)
    (hids : Function.Injective fun j => (c.command j).id) (h : Transition c s a s')
    (ha : a.caller = some j) (hj : j ≠ i) :
    Action.only c i as a = none ∧ SameForCall c i s' t := by
  have hkey : (c.command j).id ≠ (c.command i).id := fun heq => hj (hids heq)
  cases h with
  | start hphase =>
    cases ha
    exact ⟨by simp [Action.only, hj], hs.startCall_other hj⟩
  | addOrUpdate hphase =>
    cases ha
    exact ⟨by simp [Action.only, hj], (hs.setEntry_other hkey _).setPhase_other hj _⟩
  | tryRemove hphase =>
    cases ha
    exact ⟨by simp [Action.only, hj], (hs.setEntry_other hkey _).setPhase_other hj _⟩
  | trySetException hphase =>
    cases ha
    refine ⟨by simp [Action.only, hj], (hs.faultRemoved_other ?_ _).setPhase_other hj _⟩
    -- What the catch block took out of the table is the source of its own call.
    rintro u rfl rfl
    exact hj (hids (hp.removed _ _ _ hphase).symm)
  | cancelCallback hc hphase =>
    cases ha
    exact ⟨by simp [Action.only, hj], hs.complete_other hj _⟩
  | writeReturns | writeThrows | waitTimesOut | waitCanceled | resumeReturns | resumeThrows
  | disposeRegistration =>
    cases ha
    exact ⟨by simp [Action.only, hj], hs.setPhase_other hj _⟩
  | _ => cases ha

/-- What a step of the reader or of a token's owner does to the call. -/
theorem SameForCall.shared_step (hs : SameForCall c i s t) (hp : Projectable c as s)
    (h : Transition c s a s') (ha : a.caller = none) :
    (Action.only c i as a = none ∧ SameForCall c i s' t) ∨
      ∃ b t', Action.only c i as a = some b ∧ step (c.only i) t b = some t' ∧
        SameForCall c i s' t' := by
  cases h with
  | @cancel k =>
    refine .inr ⟨.cancel k, _, rfl, rfl, ?_⟩
    exact ⟨hs.entry, hs.source, hs.phase, by simp [hs.cancelled], hs.own, hs.other⟩
  | @read r hr =>
    have hidle := hs.other (by simp [hr, Reader.key?])
    by_cases hid : r.id = (c.command i).id
    · refine .inr ⟨.read r, _, by simp [Action.only, hid], by simp [step, hidle]; rfl, ?_⟩
      exact hs.iterate_own (.received r) (.inr (congrArg some hid)) _ _ _ _
    · refine .inl ⟨by simp [Action.only, hid], ?_⟩
      exact hs.iterate_other (by simpa [Reader.key?] using hid) hidle _ _
  | readThrows hr =>
    have hidle := hs.other (by simp [hr, Reader.key?])
    exact .inr ⟨.readThrows, t, rfl, by simp [step, hidle], hs⟩
  | @lookupHits r u hr hd =>
    have hk : s.reader.key? = some r.id := by simp [hr, Reader.key?]
    by_cases hid : r.id = (c.command i).id
    · have hkeep := (hp.keeps_iff hk).mpr hid
      have ht := hs.reader_eq (.received r) (by rw [hk, hid]) hr
      have hentry := hs.entry
      rw [← hid, hd] at hentry
      obtain ⟨v, hv, rfl⟩ := Option.map_eq_some_iff.mp hentry.symm
      refine .inr ⟨.tryGetValue, _, by simp [Action.only, hkeep], by simp [step, ht, hv]; rfl, ?_⟩
      exact hs.iterate_own (.found r v) (.inr (congrArg some hid)) _ _ _ _
    · refine .inl ⟨by simp [Action.only, hp.drops hk hid], ?_⟩
      exact hs.iterate_other (by simpa [Reader.key?] using hid) (hs.other (by simp [hk, hid])) _ _
  | @lookupMisses r hr hd =>
    have hk : s.reader.key? = some r.id := by simp [hr, Reader.key?]
    by_cases hid : r.id = (c.command i).id
    · have hkeep := (hp.keeps_iff hk).mpr hid
      have ht := hs.reader_eq (.received r) (by rw [hk, hid]) hr
      have hentry := hs.entry
      rw [← hid, hd, eq_comm, Option.map_eq_none_iff] at hentry
      refine .inr ⟨.tryGetValue, _, by simp [Action.only, hkeep],
        by simp [step, ht, hentry]; rfl, ?_⟩
      exact hs.iterate_own .idle (.inl rfl) _ _ _ _
    · refine .inl ⟨by simp [Action.only, hp.drops hk hid], ?_⟩
      exact hs.iterate_other (by simp [Reader.key?]) (hs.other (by simp [hk, hid])) _ _
  | @trySetResult r u hr =>
    have hk : s.reader.key? = some r.id := by simp [hr, Reader.key?]
    by_cases hid : r.id = (c.command i).id
    · have hkeep := (hp.keeps_iff hk).mpr hid
      have hmap := hs.own (by rw [hk, hid])
      rw [hr] at hmap
      cases ht : t.reader <;> rw [ht] at hmap <;> cases hmap
      refine .inr ⟨.trySetResult, _, by simp [Action.only, hkeep], by simp [step, ht]; rfl, ?_⟩
      exact (hs.complete (.returns r)).iterate_own (.removing r.id)
        (.inr (congrArg some hid)) _ _ _ _
    · have hu : u ≠ i := by
        rintro rfl
        exact hid (hp.consistent.found_id r u hr).symm
      have hidle := hs.other (by simp [hk, hid])
      refine .inl ⟨by simp [Action.only, hp.drops hk hid], ?_⟩
      exact (hs.complete_other hu (.returns r)).iterate_other
        (by simpa [Reader.key?] using hid) hidle _ _
  | @removeEntry key hr =>
    have hk : s.reader.key? = some key := by simp [hr, Reader.key?]
    by_cases hid : key = (c.command i).id
    · have hkeep := (hp.keeps_iff hk).mpr hid
      have ht := hs.reader_eq (.removing key) (by rw [hk, hid]) hr
      subst hid
      refine .inr ⟨.removeEntry, _, by simp [Action.only, hkeep], by simp [step, ht]; rfl, ?_⟩
      exact (hs.setEntry none).iterate_own .idle (.inl rfl) _ _ _ _
    · refine .inl ⟨by simp [Action.only, hp.drops hk hid], ?_⟩
      exact (hs.setEntry_other hid none).iterate_other (by simp [Reader.key?])
        (hs.other (by simp [hk, hid])) _ _
  | _ => cases ha

/-- Every step is either invisible to call `i` or a step of the system with that call alone. -/
theorem Transition.matchesOnly (hids : Function.Injective fun j => (c.command j).id)
    (h : Transition c s a s') (hp : Projectable c as s) (hs : SameForCall c i s t) :
    Matches (Action.only c i) (Steps (step (c.only i)))
      (fun as s t => Projectable c as s ∧ SameForCall c i s t) as a s' t := by
  have hp' := h.projectable hp
  cases ha : a.caller with
  | none =>
    rcases hs.shared_step hp h ha with ⟨hnone, hs'⟩ | ⟨b, t', hsome, hb, hs'⟩
    · exact .inl ⟨hnone, hp', hs'⟩
    · exact .inr ⟨b, t', hsome, hb, hp', hs'⟩
  | some j =>
    by_cases hj : j = i
    · subst hj
      obtain ⟨b, t', hsome, hb, hs'⟩ := hs.own_step h ha
      exact .inr ⟨b, t', hsome, hb, hp', hs'⟩
    · obtain ⟨hnone, hs'⟩ := hs.other_step hp hids h ha hj
      exact .inl ⟨hnone, hp', hs'⟩

theorem onlyCall_run (hids : Function.Injective fun j => (c.command j).id)
    (h : Run (Steps (step c)) (State.initial ι τ) as s) (i : ι) :
    ∃ t, Run (Steps (step (c.only i))) (State.initial Unit τ) (onlyCall c i as) t ∧
      SameForCall c i s t := by
  have hstep : ∀ as s a s' t, Projectable c as s ∧ SameForCall c i s t →
      Steps (step c) s a s' → Matches (Action.only c i) (Steps (step (c.only i)))
        (fun as s t => Projectable c as s ∧ SameForCall c i s t) as a s' t := by
    intro as s a s' t hrel hs
    exact (transition_of_step c hs).matchesOnly hids hrel.1 hrel.2
  obtain ⟨t, hrun, -, hs⟩ := h.simulate ⟨Projectable.initial, SameForCall.initial⟩ hstep
  exact ⟨t, hrun, hs⟩

/-- Calls with different Ids do not interfere: what is left of a run for one call is a run of
that call alone, and after every step the two systems agree on what the call has and sees. -/
theorem calls_do_not_interfere (hids : Function.Injective fun j => (c.command j).id)
    (h : Run (Steps (step c)) (State.initial ι τ) as s) (i : ι) :
    ∀ before after, as = before ++ after →
      onlyCall c i before <+: onlyCall c i as ∧
      ∃ u t, exec (step c) (State.initial ι τ) before = some u ∧
        exec (step (c.only i)) (State.initial Unit τ) (onlyCall c i before) = some t ∧
        SameForCall c i u t := by
  intro before after heq
  have hexec := h.exec_eq
  rw [heq, exec_append] at hexec
  obtain ⟨u, hu, -⟩ := Option.bind_eq_some_iff.mp hexec
  obtain ⟨t, ht, hs⟩ := onlyCall_run hids (Run.of_exec hu) i
  constructor
  · rw [heq, onlyCall, onlyCall, kept_append]
    exact List.prefix_append _ _
  · exact ⟨u, t, hu, ht.exec_eq, hs⟩

/-- The reader is between the lookup and the completion for call `j` while call `i` times out. -/
def interleavedCalls (i j : ι) : List (Action ι τ) :=
  [.start i, .start j, .addOrUpdate i, .addOrUpdate j, .writeReturns j, .read (success ⟨1⟩),
    .tryGetValue, .writeReturns i, .waitTimesOut i, .resume i, .trySetResult, .tryRemove i,
    .removeEntry, .trySetException i, .resume j, .disposeRegistration i]

theorem calls_do_not_interfere_interleaved : ∃ s t,
    exec (step (pairOfCalls fun j => ⟨j.val⟩)) (State.initial _ _) (interleavedCalls 0 1) =
      some s ∧
    exec (step ((pairOfCalls fun j => ⟨j.val⟩).only 0)) (State.initial _ _)
      (onlyCall (pairOfCalls fun j => ⟨j.val⟩) 0 (interleavedCalls 0 1)) = some t ∧
    SameForCall (pairOfCalls fun j => ⟨j.val⟩) 0 s t ∧ t.phase () = .done (.throws .timeout) := by
  have hids : Function.Injective fun j => ((pairOfCalls fun j => ⟨j.val⟩).command j).id := by
    intro j k
    revert j k
    decide
  have h : exec (step (pairOfCalls fun j => ⟨j.val⟩)) (State.initial _ _)
    (interleavedCalls 0 1) = some _ := rfl
  obtain ⟨-, s, t, hs, ht, hsame⟩ := calls_do_not_interfere hids (Run.of_exec h) 0
    (interleavedCalls 0 1) [] rfl
  refine ⟨s, t, hs, ht, hsame, ?_⟩
  apply hsame.phase_eq
  rw [h] at hs
  cases hs
  rfl

end DriverBus.Services
