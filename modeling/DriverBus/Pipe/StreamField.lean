import DriverBus.Pipe.ReconnectTransitions

/-!
# Which instance the stream field refers to

`Healthy` says who is responsible for the one undisposed instance: the field,
or one callback that has created it and not yet assigned it. Two steps can
break it, because they use a value read before an await: a re-read that finds
the stream another callback has just reconnected, and the assignment of a kept
stream over a newer one. In runs without these two it is an invariant.
-/

namespace DriverBus.Pipe.Reconnect

open DriverBus.Foundations

/-- The instance a callback has created and will assign. -/
def Callback.owned? : Callback → Option ℕ
  | .awaiting n | .assigning n => some n
  | _ => none

/-- The stream a callback has read from the field. -/
def Callback.stream? : Callback → Option ℕ
  | .captured c | .keeping c | .disposing c => some c
  | _ => none

/-- The callback has disposed the old stream and not yet assigned the new one. -/
def Callback.reconnecting : Callback → Bool
  | .creating | .awaiting _ | .assigning _ => true
  | _ => false

variable {ι : Type*} {s s' : State ι} {a : Action ι} {as : List (Action ι)}

structure Healthy (s : State ι) : Prop where
  fresh : ∀ n, s.next ≤ n → s.status n = .absent
  one : ∀ m n, (s.status m).undisposed = true → (s.status n).undisposed = true → m = n
  owner : ∀ n, (s.status n).undisposed = true →
    n = s.field ∨ ∃ i, (s.callback i).owned? = some n
  recovering : s.status s.field = .disposed → ∃ i, (s.callback i).reconnecting = true
  owned : ∀ i n, (s.callback i).owned? = some n →
    (s.status n).undisposed = true ∧ n ≠ s.field
  sole : ∀ i j n, (s.callback i).owned? = some n → (s.callback j).owned? = some n → i = j
  current : ∀ i c, (s.callback i).stream? = some c → c = s.field ∨ s.status c = .disposed
  dead : ∀ i x, s.callback i = .disposing x → s.status x ≠ .connected
  settled : s.status s.field ≠ .absent ∧ s.status s.field ≠ .listening
  arrived : ∀ i n, s.callback i = .assigning n → s.status n ≠ .listening

theorem Healthy.initial : Healthy (State.initial ι) := by
  have hzero : ∀ n, ((State.initial ι).status n).undisposed = true → n = 0 := by
    intro n hn
    by_contra hne
    simp [State.initial, hne, Status.undisposed] at hn
  constructor
  · intro n hn
    have hpos : n ≠ 0 := by
      have hone : 1 ≤ n := hn
      omega
    simp [State.initial, hpos]
  · intro m n hm hn
    rw [hzero m hm, hzero n hn]
  · intro n hn
    exact Or.inl (hzero n hn)
  all_goals simp [State.initial, Callback.owned?, Callback.stream?]

theorem Healthy.fieldIsSole (h : Healthy s) : FieldIsSole s := by
  intro hrest n
  constructor
  · intro hn
    rcases h.owner n hn with hfield | ⟨i, hi⟩
    · exact hfield
    · rw [hrest i] at hi
      cases hi
  · rintro rfl
    cases hst : s.status s.field with
    | absent => exact absurd hst h.settled.1
    | listening => exact absurd hst h.settled.2
    | disposed =>
      obtain ⟨i, hi⟩ := h.recovering hst
      rw [hrest i] at hi
      cases hi
    | _ => rfl

/-- An instance that is neither absent nor disposed is undisposed. -/
theorem undisposed_of_ne {st : Status} (ha : st ≠ .absent) (hd : st ≠ .disposed) :
    st.undisposed = true := by
  cases st <;> simp_all [Status.undisposed]

theorem ne_of_disposed {m n : ℕ} (hm : (s.status m).undisposed = true)
    (hn : s.status n = .disposed) : m ≠ n := by
  rintro rfl
  simp [hn, Status.undisposed] at hm

theorem Healthy.lt_next (h : Healthy s) {n : ℕ} (hn : s.status n ≠ .absent) : n < s.next := by
  by_contra hle
  exact hn (h.fresh n (not_lt.mp hle))

/-- When the field is disposed and callback `i` is not the one reconnecting, another one is. -/
theorem Healthy.recovering_other (h : Healthy s) {i : ι} (hi : (s.callback i).reconnecting = false)
    (hd : s.status s.field = .disposed) : ∃ j, j ≠ i ∧ (s.callback j).reconnecting = true := by
  obtain ⟨j, hj⟩ := h.recovering hd
  refine ⟨j, ?_, hj⟩
  rintro rfl
  rw [hi] at hj
  cases hj

/-- The driver connects to an instance that listens, or drops a connection. -/
theorem Healthy.setStatus (h : Healthy s) {n : ℕ} {st : Status}
    (hst : (s.status n = .listening ∧ st = .connected) ∨ (s.status n = .connected ∧ st = .broken)) :
    Healthy (s.setStatus n st) := by
  have hsame : ∀ m, ((s.setStatus n st).status m).undisposed = (s.status m).undisposed := by
    intro m
    by_cases hm : m = n
    · rcases hst with ⟨hold, rfl⟩ | ⟨hold, rfl⟩ <;> simp [hm, hold, Status.undisposed]
    · simp [hm]
  have hdisposed : ∀ m, (s.setStatus n st).status m = .disposed ↔ s.status m = .disposed := by
    intro m
    by_cases hm : m = n
    · rcases hst with ⟨hold, rfl⟩ | ⟨hold, rfl⟩ <;> simp [hm, hold]
    · simp [hm]
  have hlisten : ∀ m, s.status m ≠ .listening → (s.setStatus n st).status m ≠ .listening := by
    intro m hm
    by_cases hmn : m = n
    · rcases hst with ⟨_, rfl⟩ | ⟨_, rfl⟩ <;> simp [hmn]
    · simpa [hmn] using hm
  have hnext : n < s.next := by
    apply h.lt_next
    rcases hst with ⟨hold, _⟩ | ⟨hold, _⟩ <;> simp [hold]
  constructor
  · intro m hm
    have hle : s.next ≤ m := hm
    have hne : m ≠ n := by omega
    simpa [hne] using h.fresh m hm
  · simpa only [hsame] using h.one
  · simpa only [hsame, State.setStatus_callback, State.setStatus_field] using h.owner
  · simpa only [hdisposed, State.setStatus_callback, State.setStatus_field] using h.recovering
  · simpa only [hsame, State.setStatus_callback, State.setStatus_field] using h.owned
  · exact h.sole
  · simpa only [hdisposed, State.setStatus_callback, State.setStatus_field] using h.current
  · intro i x hx
    by_cases hxn : x = n
    · subst hxn
      rcases hst with ⟨hold, _⟩ | ⟨_, rfl⟩
      · -- The stream that listens is not the one in the field.
        rcases h.current i x (by rw [show s.callback i = .disposing x from hx]; rfl) with hf | hd
        · rw [hf] at hold
          exact absurd hold h.settled.2
        · rw [hold] at hd
          cases hd
      · simp
    · simpa [hxn] using h.dead i x hx
  · refine ⟨?_, hlisten _ h.settled.2⟩
    by_cases hf : s.field = n
    · rcases hst with ⟨_, rfl⟩ | ⟨_, rfl⟩ <;> simp [hf]
    · simpa [hf] using h.settled.1
  · intro i m hm
    exact hlisten m (h.arrived i m hm)

variable [DecidableEq ι]

/-- A step of one callback that neither creates, disposes nor assigns. -/
theorem Healthy.setCallback (h : Healthy s) {i : ι} {p : Callback}
    (howned : p.owned? = (s.callback i).owned?)
    (hstream : ∀ c, p.stream? = some c → c = s.field ∨ s.status c = .disposed)
    (hdead : ∀ x, p = .disposing x → s.status x ≠ .connected)
    (harrived : ∀ n, p = .assigning n → s.status n ≠ .listening)
    (hrec : s.status s.field = .disposed →
      p.reconnecting = true ∨ ∃ j, j ≠ i ∧ (s.callback j).reconnecting = true) :
    Healthy (s.setCallback i p) := by
  have hsame : ∀ j, ((s.setCallback i p).callback j).owned? = (s.callback j).owned? := by
    intro j
    by_cases hj : j = i
    · simp [hj, howned]
    · simp [hj]
  refine ⟨h.fresh, h.one, ?_, ?_, ?_, ?_, ?_, ?_, h.settled, ?_⟩
  · simpa only [hsame, State.setCallback_status, State.setCallback_field] using h.owner
  · intro hd
    rcases hrec hd with hp | ⟨j, hj, hr⟩
    · exact ⟨i, by simpa using hp⟩
    · exact ⟨j, by simpa [hj] using hr⟩
  · simpa only [hsame, State.setCallback_status, State.setCallback_field] using h.owned
  · simpa only [hsame] using h.sole
  · intro j c hc
    by_cases hj : j = i
    · exact hstream c (by simpa [hj] using hc)
    · exact h.current j c (by simpa [hj] using hc)
  · intro j x hx
    by_cases hj : j = i
    · exact hdead x (by simpa [hj] using hx)
    · exact h.dead j x (by simpa [hj] using hx)
  · intro j n hn
    by_cases hj : j = i
    · exact harrived n (by simpa [hj] using hn)
    · exact h.arrived j n (by simpa [hj] using hn)

/-- A callback that owns no instance gives up. -/
theorem Healthy.giveUp (h : Healthy s) {i : ι} (howned : (s.callback i).owned? = none)
    (hrec : s.status s.field = .disposed → ∃ j, j ≠ i ∧ (s.callback j).reconnecting = true) :
    Healthy (s.setCallback i .idle) := by
  apply h.setCallback
  · rw [howned]
    rfl
  · simp [Callback.stream?]
  · simp
  · simp
  · intro hd
    exact Or.inr (hrec hd)

theorem Healthy.dispose (h : Healthy s) {i : ι} {x : ℕ} (hp : s.callback i = .disposing x) :
    Healthy ((s.setStatus x .disposed).setCallback i .creating) := by
  have hx : x = s.field ∨ s.status x = .disposed := h.current i x (by rw [hp]; rfl)
  have hnone : (s.callback i).owned? = none := by
    rw [hp]
    rfl
  have hxnext : x < s.next := by
    apply h.lt_next
    rcases hx with rfl | hd
    · exact h.settled.1
    · simp [hd]
  have hother : ∀ j n, (((s.setStatus x .disposed).setCallback i .creating).callback j).owned? =
      some n → (s.callback j).owned? = some n := by
    intro j n hn
    by_cases hj : j = i
    · simp [hj, Callback.owned?] at hn
    · simpa [hj] using hn
  have hlive : ∀ n, (((s.setStatus x .disposed).setCallback i .creating).status n).undisposed =
      true → n ≠ x ∧ (s.status n).undisposed = true := by
    intro n hn
    by_cases hnx : n = x
    · simp [hnx, Status.undisposed] at hn
    · exact ⟨hnx, by simpa [hnx] using hn⟩
  have hstays : ∀ n, s.status n = .disposed →
      ((s.setStatus x .disposed).setCallback i .creating).status n = .disposed := by
    intro n hn
    by_cases hnx : n = x <;> simp [hnx, hn]
  constructor
  · intro n hn
    have hle : s.next ≤ n := hn
    have hne : n ≠ x := by omega
    simpa [hne] using h.fresh n hle
  · intro m n hm hn
    exact h.one m n (hlive m hm).2 (hlive n hn).2
  · intro n hn
    rcases h.owner n (hlive n hn).2 with hf | ⟨j, hj⟩
    · exact Or.inl hf
    · refine Or.inr ⟨j, ?_⟩
      have hji : j ≠ i := by
        rintro rfl
        rw [hnone] at hj
        cases hj
      simpa [hji] using hj
  · intro _
    exact ⟨i, by simp [Callback.reconnecting]⟩
  · intro j n hn
    obtain ⟨hu, hf⟩ := h.owned j n (hother j n hn)
    have hnx : n ≠ x := by
      rcases hx with rfl | hxd
      · exact hf
      · exact ne_of_disposed hu hxd
    exact ⟨by simpa [hnx] using hu, hf⟩
  · intro j k n hj hk
    exact h.sole j k n (hother j n hj) (hother k n hk)
  · intro j c hc
    by_cases hj : j = i
    · simp [hj, Callback.stream?] at hc
    · exact (h.current j c (by simpa [hj] using hc)).imp_right (hstays c)
  · intro j y hy
    by_cases hj : j = i
    · simp [hj] at hy
    · have hold := h.dead j y (by simpa [hj] using hy)
      by_cases hyx : y = x <;> simp [hyx, hold]
  · by_cases hf : s.field = x <;> simp [hf, h.settled]
  · intro j n hn
    by_cases hj : j = i
    · simp [hj] at hn
    · have hold := h.arrived j n (by simpa [hj] using hn)
      by_cases hnx : n = x <;> simp [hnx, hold]

/-- `GetNewStream` while no instance exists: the callback owns the new one. -/
theorem Healthy.create (h : Healthy s) {i : ι}
    (hnone : ∀ n, (s.status n).undisposed = false) :
    Healthy { (s.setStatus s.next .listening).setCallback i (.awaiting s.next) with
      next := s.next + 1 } := by
  have hfield : s.field ≠ s.next := (h.lt_next h.settled.1).ne
  have hno : ∀ j n, (s.callback j).owned? ≠ some n := by
    intro j n hj
    have hu := (h.owned j n hj).1
    rw [hnone n] at hu
    cases hu
  constructor
  · intro n hn
    have hle : s.next + 1 ≤ n := hn
    have hne : n ≠ s.next := by omega
    simpa [hne] using h.fresh n (by omega)
  · have hnew : ∀ n, (((s.setStatus s.next .listening).setCallback i
        (.awaiting s.next)).status n).undisposed = true → n = s.next := by
      intro n hn
      by_contra hne
      simp [hne, hnone n] at hn
    intro m n hm hn
    rw [hnew m hm, hnew n hn]
  · intro n hn
    refine Or.inr ⟨i, ?_⟩
    by_cases hne : n = s.next
    · simp [hne, Callback.owned?]
    · simp [hne, hnone n] at hn
  · intro _
    exact ⟨i, by simp [Callback.reconnecting]⟩
  · intro j n hn
    by_cases hj : j = i
    · have hn' : s.next = n := by simpa [hj, Callback.owned?] using hn
      subst hn'
      exact ⟨by simp [Status.undisposed], hfield.symm⟩
    · exact absurd (by simpa [hj] using hn) (hno j n)
  · intro j k n hj hk
    by_cases hji : j = i
    · by_cases hki : k = i
      · rw [hji, hki]
      · exact absurd (by simpa [hki] using hk) (hno k n)
    · exact absurd (by simpa [hji] using hj) (hno j n)
  · intro j c hc
    by_cases hj : j = i
    · simp [hj, Callback.stream?] at hc
    · rcases h.current j c (by simpa [hj] using hc) with hf | hd
      · exact Or.inl hf
      · have hne : c ≠ s.next := by
          rintro rfl
          rw [h.fresh _ le_rfl] at hd
          cases hd
        exact Or.inr (by simpa [hne] using hd)
  · intro j x hx
    by_cases hj : j = i
    · simp [hj] at hx
    · have hold := h.dead j x (by simpa [hj] using hx)
      by_cases hne : x = s.next <;> simp [hne, hold]
  · simp [hfield, h.settled]
  · intro j n hn
    by_cases hj : j = i
    · simp [hj] at hn
    · have hp : s.callback j = .assigning n := by simpa [hj] using hn
      exact absurd (by rw [hp]; rfl) (hno j n)

/-- A callback that finds another instance gives up; whoever owns that one is still there. -/
theorem Healthy.createRefused (h : Healthy s) {i : ι} (hp : s.callback i = .creating) {n : ℕ}
    (hn : (s.status n).undisposed = true) : Healthy (s.setCallback i .idle) := by
  apply h.giveUp
  · rw [hp]
    rfl
  · intro hd
    obtain ⟨j, hj⟩ := (h.owner n hn).resolve_left (ne_of_disposed hn hd)
    refine ⟨j, ?_, ?_⟩
    · rintro rfl
      rw [hp] at hj
      cases hj
    · cases hcb : s.callback j <;> simp_all [Callback.owned?, Callback.reconnecting]

/-- The awaited stream replaces the disposed one. -/
theorem Healthy.assignNew (h : Healthy s) {i : ι} {n : ℕ} (hp : s.callback i = .assigning n) :
    Healthy { s.setCallback i .idle with field := n } := by
  obtain ⟨hlive, hne⟩ := h.owned i n (by rw [hp]; rfl)
  have hold : s.status s.field = .disposed := by
    by_contra hd
    exact hne (h.one n s.field hlive (undisposed_of_ne h.settled.1 hd))
  have hno : ∀ j m, j ≠ i → (s.callback j).owned? ≠ some m := by
    intro j m hj hm
    have hmn := h.one m n (h.owned j m hm).1 hlive
    subst hmn
    exact hj (h.sole j i m hm (by rw [hp]; rfl))
  have howned : ∀ j m, (({ s.setCallback i .idle with field := n } : State ι).callback j).owned? ≠
      some m := by
    intro j m hm
    by_cases hj : j = i
    · simp [hj, Callback.owned?] at hm
    · exact hno j m hj (by simpa [hj] using hm)
  refine ⟨h.fresh, h.one, fun m hm => Or.inl (h.one m n hm hlive), ?_, ?_, ?_, ?_, ?_, ?_, ?_⟩
  · intro hd
    exact absurd rfl (ne_of_disposed hlive hd)
  · intro j m hm
    exact absurd hm (howned j m)
  · intro j k m hj
    exact absurd hj (howned j m)
  · intro j c hc
    by_cases hj : j = i
    · simp [hj, Callback.stream?] at hc
    · rcases h.current j c (by simpa [hj] using hc) with rfl | hd
      · exact Or.inr hold
      · exact Or.inr hd
  · intro j x hx
    by_cases hj : j = i
    · simp [hj] at hx
    · exact h.dead j x (by simpa [hj] using hx)
  · constructor
    · intro ha
      have ha' : s.status n = .absent := ha
      rw [ha'] at hlive
      cases hlive
    · exact h.arrived i n hp
  · intro j m hm
    by_cases hj : j = i
    · simp [hj] at hm
    · exact h.arrived j m (by simpa [hj] using hm)

/-- A kept stream is assigned where that changes nothing, or while another callback is about
to assign a new one. -/
theorem Healthy.assignKept (h : Healthy s) {i : ι} {c : ℕ} (hp : s.callback i = .keeping c)
    (hc : c = s.field ∨ s.status s.field = .disposed) :
    Healthy { s.setCallback i .idle with field := c } := by
  have hidle : Healthy (s.setCallback i .idle) := by
    apply h.giveUp
    · rw [hp]
      rfl
    · exact h.recovering_other (by rw [hp]; rfl)
  by_cases hcf : c = s.field
  · subst hcf
    exact hidle
  · have hfield : s.status s.field = .disposed := hc.resolve_left hcf
    have hcd : s.status c = .disposed :=
      (h.current i c (by rw [hp]; rfl)).resolve_left hcf
    refine ⟨hidle.fresh, hidle.one, ?_, ?_, ?_, hidle.sole, ?_, hidle.dead, ?_, hidle.arrived⟩
    · intro m hm
      exact Or.inr ((hidle.owner m hm).resolve_left (ne_of_disposed hm hfield))
    · intro _
      exact hidle.recovering hfield
    · intro j m hm
      have hu := (hidle.owned j m hm).1
      exact ⟨hu, ne_of_disposed hu hcd⟩
    · intro j d hd
      rcases hidle.current j d hd with rfl | hdd
      · exact Or.inr hfield
      · exact Or.inr hdd
    · simp [hcd]

/-- A step that does not reconnect on a stale value keeps the instances accounted for. -/
theorem Transition.healthy (hs : Transition s a s') (h : Healthy s) (hno : NoOutsideFailure s a)
    (hreread : RereadsDeadStream s a) (hkeep : KeepsCurrentStream s a) : Healthy s' := by
  cases hs with
  | capture hp =>
    apply h.setCallback (by rw [hp]; rfl) _ (by simp) (by simp)
    · intro hd
      exact .inr (h.recovering_other (by rw [hp]; rfl) hd)
    · intro c hc
      exact .inl (Option.some.inj hc).symm
  | @testKeeps i c hp hst =>
    apply h.setCallback (by rw [hp]; rfl) _ (by simp) (by simp)
    · intro hd
      exact .inr (h.recovering_other (by rw [hp]; rfl) hd)
    · intro d hd
      rw [← Option.some.inj hd]
      exact h.current i c (by rw [hp]; rfl)
  | testFails hp hst =>
    apply h.setCallback (by rw [hp]; rfl) (by simp [Callback.stream?]) (by simp) (by simp)
    intro hd
    exact .inr (h.recovering_other (by rw [hp]; rfl) hd)
  | @reread i hp =>
    apply h.setCallback (by rw [hp]; rfl) _ _ (by simp)
    · intro hd
      exact .inr (h.recovering_other (by rw [hp]; rfl) hd)
    · intro c hc
      exact .inl (Option.some.inj hc).symm
    · intro x hx
      cases hx
      exact hreread i rfl
  | dispose hp => exact h.dispose hp
  | create hp hfree =>
    apply h.create
    intro n
    by_contra hn
    rw [Bool.not_eq_false] at hn
    apply hfree
    refine ⟨n, h.lt_next ?_, hn⟩
    intro ha
    rw [ha] at hn
    cases hn
  | createRefused hp hbusy =>
    obtain ⟨n, -, hn⟩ := hbusy
    exact h.createRefused hp hn
  | @createThrows i => exact absurd rfl (hno i).1
  | waitReturns hp hst =>
    apply h.setCallback (by rw [hp]; rfl) (by simp [Callback.stream?]) (by simp)
    · intro n hn
      cases hn
      rcases hst with hst | hst <;> simp [hst]
    · intro _
      exact .inl rfl
  | @waitThrows i => exact absurd rfl (hno i).2
  | @assignKept i c hp => exact h.assignKept hp (hkeep i rfl _ (by rw [hp]; rfl))
  | assignNew hp => exact h.assignNew hp
  | connect hst => exact h.setStatus (.inl ⟨hst, rfl⟩)
  | drop hst => exact h.setStatus (.inr ⟨hst, rfl⟩)

/-- In any run in which no re-read finds a reconnected stream and no kept stream is written over
one in use, the field is the only undisposed instance whenever no callback is in progress, and
no callback disposes a connected instance. -/
theorem stream_field_consistent
    (h : Run (Guarded (fun s a => NoOutsideFailure s a ∧ RereadsDeadStream s a ∧
      KeepsCurrentStream s a) (Steps step)) (State.initial ι) as s) :
    FieldIsSole s ∧ DisposesNoConnected s := by
  have hh : Healthy s := h.invariant Healthy.initial fun _ _ _ hh hs =>
    (transition_of_step hs.2).healthy hh hs.1.1 hs.1.2.1 hs.1.2.2
  exact ⟨hh.fieldIsSole, hh.dead⟩

/-- The driver drops the connection while two calls fail. -/
def bothFail : List (Action (Fin 2)) := [.drop 0, .capture 0, .capture 1]

/-- Callback 0 reconnects. -/
def firstReconnects : List (Action (Fin 2)) :=
  [.test 0, .reread 0, .dispose 0, .create 0, .connect 1, .waitReturns 0, .assign 0]

/-- Callback 1 tests before and re-reads after the reconnect, and is about to dispose the new
stream; or it has captured the old stream before, tests after, and writes the old one back. -/
theorem overlapping_callbacks : ∃ s t,
    Run (Guarded NoOutsideFailure (Steps step)) (State.initial (Fin 2))
        (bothFail ++ .test 1 :: firstReconnects ++ [.reread 1]) s ∧ ¬ DisposesNoConnected s ∧
      Run (Guarded NoOutsideFailure (Steps step)) (State.initial (Fin 2))
        (bothFail ++ firstReconnects ++ [.test 1, .assign 1]) t ∧ ¬ FieldIsSole t := by
  have h : exec (guardStep NoOutsideFailure step) (State.initial (Fin 2))
    (bothFail ++ .test 1 :: firstReconnects ++ [.reread 1]) = some _ := rfl
  have h' : exec (guardStep NoOutsideFailure step) (State.initial (Fin 2))
    (bothFail ++ firstReconnects ++ [.test 1, .assign 1]) = some _ := rfl
  refine ⟨_, _, Run.of_exec_guarded h, fun hd => hd 1 1 rfl rfl, Run.of_exec_guarded h', ?_⟩
  intro hf
  have hone := (hf (Fin.forall_fin_two.mpr ⟨rfl, rfl⟩) 1).mp rfl
  cases hone

/-- The same two failures with the second callback finding the first one's result. -/
theorem stream_field_consistent_twice : ∃ s,
    exec step (State.initial (Fin 2)) (bothFail ++ .test 1 :: .reread 1 :: firstReconnects ++
        [.dispose 1, .create 1]) = some s ∧
      s.field = 1 ∧ AtRest s ∧ FieldIsSole s ∧ DisposesNoConnected s := by
  have h : exec (guardStep (fun s a => NoOutsideFailure s a ∧ RereadsDeadStream s a ∧
    KeepsCurrentStream s a) step) (State.initial (Fin 2))
    (bothFail ++ .test 1 :: .reread 1 :: firstReconnects ++ [.dispose 1, .create 1]) = some _ := rfl
  exact ⟨_, rfl, rfl, Fin.forall_fin_two.mpr ⟨rfl, rfl⟩,
    stream_field_consistent (Run.of_exec_guarded h)⟩

end DriverBus.Pipe.Reconnect
