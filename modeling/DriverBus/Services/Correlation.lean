import DriverBus.Services.PendingTable

/-!
# Which read a reply came from

Iteration `k` of the reader is the one that processes the `k`-th result read.
`Traced` ties the sources and the half-finished iteration to the labels of the
run: a source holds the result of one iteration, that iteration looked it up
after the owner of the source had registered, and no source shares it.
-/

namespace DriverBus.Services

open DriverBus.Models DriverBus.Foundations

variable {ι τ : Type*}

/-- The result a `ReadAsync` of the reader loop returned in this step. -/
def Action.result? : Action ι τ → Option CommandResult
  | .read r => some r
  | _ => none

/-- The results read from the output stream, oldest first. -/
def readsOf (as : List (Action ι τ)) : List CommandResult :=
  as.filterMap Action.result?

/-- Iteration `k` processed `r`, and its `TryGetValue` ran after the `AddOrUpdate` of `t`. -/
def LookedUpAfterAdd (as : List (Action ι τ)) (k : ℕ) (r : CommandResult) (t : ι) : Prop :=
  ∃ before after, as = before ++ .tryGetValue :: after ∧ .addOrUpdate t ∈ before ∧
    (readsOf before).length = k + 1 ∧ (readsOf before).getLast? = some r

/-- The outcome of `t` is the reply of an iteration that belongs to `t` alone. -/
def RepliedBy (c : Calls ι τ) (as : List (Action ι τ)) (s : State ι τ) (t : ι)
    (r : CommandResult) : Prop :=
  r.id = (c.command t).id ∧ ∃ k, s.deliveredBy t = some k ∧ LookedUpAfterAdd as k r t ∧
    ∀ u, u ≠ t → s.deliveredBy u ≠ some k

variable {c : Calls ι τ} {s s' : State ι τ} {a : Action ι τ} {as : List (Action ι τ)}
  {t u : ι} {r : CommandResult} {k : ℕ}

@[simp] theorem readsOf_snoc : readsOf (as ++ [a]) = readsOf as ++ a.result?.toList := by
  cases h : a.result? <;> simp [readsOf, h]

theorem LookedUpAfterAdd.snoc (h : LookedUpAfterAdd as k r t) :
    LookedUpAfterAdd (as ++ [a]) k r t := by
  obtain ⟨before, after, rfl, hrest⟩ := h
  exact ⟨before, after ++ [a], by simp, hrest⟩

/-- The reader has read a result and has not tried to set it. -/
def Reader.undelivered : Reader ι → Bool
  | .received _ | .found _ _ => true
  | _ => false

structure Traced (c : Calls ι τ) (as : List (Action ι τ)) (s : State ι τ) : Prop where
  consistent : Consistent c s
  reads : s.reads = (readsOf as).length
  added : ∀ t, (s.phase t).added = true → .addOrUpdate t ∈ as
  received : ∀ r, s.reader = .received r → (readsOf as).getLast? = some r
  found : ∀ r t, s.reader = .found r t → ∃ k, s.reads = k + 1 ∧ LookedUpAfterAdd as k r t
  replied : ∀ t r, s.task t = some (.returns r) →
    ∃ k, s.deliveredBy t = some k ∧ LookedUpAfterAdd as k r t
  earlier : ∀ t k, s.deliveredBy t = some k → k < s.reads
  /-- The iteration in progress has delivered nothing before its `TrySetResult`. -/
  fresh : s.reader.undelivered = true →
    0 < s.reads ∧ ∀ t k, s.deliveredBy t = some k → k + 1 < s.reads
  sole : ∀ t u k, s.deliveredBy t = some k → s.deliveredBy u = some k → t = u

theorem Traced.initial : Traced c [] (State.initial ι τ) := by
  refine ⟨Consistent.initial, ?_, ?_, ?_, ?_, ?_, ?_, ?_, ?_⟩ <;>
    simp [State.initial, readsOf, Phase.added, Reader.undelivered]

theorem Traced.repliedBy (ht : Traced c as s) (hp : s.phase t = .done (.returns r)) :
    RepliedBy c as s t r := by
  have htask := ht.consistent.settled t r (by rw [hp]; rfl)
  obtain ⟨k, hk, hl⟩ := ht.replied t r htask
  refine ⟨(ht.consistent.replied_id t r htask).symm, k, hk, hl, fun u hne hu => ?_⟩
  exact hne (ht.sole u t k hu hk)

theorem result?_eq_none (h : ∀ r, a ≠ .read r) : a.result? = none := by
  cases a with
  | read r => exact absurd rfl (h r)
  | _ => rfl

theorem ReaderChange.received {rd : Reader ι} (h : ReaderChange s a rd (.received r)) :
    a = .read r := by
  cases h
  rfl

theorem ReaderChange.of_received {rd : Reader ι} (h : ReaderChange s a (.received r) rd) :
    a = .tryGetValue := by
  cases h <;> rfl

/-- An entry of the table belongs to a call whose `AddOrUpdate` is in the run. -/
theorem Traced.entry_added (ht : Traced c as s) {key : Guid} (hd : s.dict key = some t) :
    .addOrUpdate t ∈ as := by
  have hp := ht.consistent.entry_phase key t hd
  apply ht.added t
  cases h : s.phase t <;> simp_all [Phase.added, Phase.holdsEntry]

variable [DecidableEq ι] [DecidableEq τ]

theorem Transition.reads_mono (h : Transition c s a s') : s.reads ≤ s'.reads := by
  rcases h.reads_change with ⟨hsame, _⟩ | ⟨_, _, _, _, hnext⟩ <;> omega

/-- Nothing is read while an iteration is under way. -/
theorem Transition.reads_nothing (h : Transition c s a s') (hr : s.reader ≠ .idle) :
    s'.reads = s.reads ∧ a.result? = none := by
  obtain ⟨hsame, hno⟩ := h.reads_stays hr
  exact ⟨hsame, result?_eq_none hno⟩

theorem Traced.reads_step (ht : Traced c as s) (h : Transition c s a s') :
    s'.reads = (readsOf (as ++ [a])).length := by
  have hold := ht.reads
  rcases h.reads_change with ⟨hsame, hno⟩ | ⟨r, rfl, _, _, hnext⟩
  · simp [hsame, hold, result?_eq_none hno]
  · simp [hnext, hold, Action.result?]

theorem Traced.received_step (ht : Traced c as s) (h : Transition c s a s')
    (hr : s'.reader = .received r) : (readsOf (as ++ [a])).getLast? = some r := by
  rcases h.reader_change with heq | hch
  · rw [heq] at hr
    have hno := (h.reads_nothing (by simp [hr])).2
    simpa [hno] using ht.received r hr
  · rw [hr] at hch
    have ha := hch.received
    subst ha
    simp [Action.result?]

theorem Traced.found_step (ht : Traced c as s) (h : Transition c s a s')
    (hr : s'.reader = .found r t) :
    ∃ k, s'.reads = k + 1 ∧ LookedUpAfterAdd (as ++ [a]) k r t := by
  rcases h.reader_change with heq | hch
  · rw [heq] at hr
    obtain ⟨k, hk, hl⟩ := ht.found r t hr
    have hreads := (h.reads_nothing (by simp [hr])).1
    exact ⟨k, by rw [hreads, hk], hl.snoc⟩
  · rw [hr] at hch
    obtain ⟨hrd, hd⟩ := hch.found
    obtain ⟨k, hk⟩ := Nat.exists_eq_add_one.mpr (ht.fresh (by rw [hrd]; rfl)).1
    have hreads := (h.reads_nothing (by simp [hrd])).1
    rw [hrd] at hch
    have ha := hch.of_received
    subst ha
    exact ⟨k, by rw [hreads, hk], as, [], rfl, ht.entry_added hd, by rw [← ht.reads, hk],
      ht.received r hrd⟩

theorem Traced.replied_step (ht : Traced c as s) (h : Transition c s a s')
    (htask : s'.task t = some (.returns r)) :
    ∃ k, s'.deliveredBy t = some k ∧ LookedUpAfterAdd (as ++ [a]) k r t := by
  rcases h.replied htask with hold | ⟨hf, _, _, hk'⟩
  · obtain ⟨k, hk, hl⟩ := ht.replied t r hold
    exact ⟨k, by rw [h.delivered_stays hold, hk], hl.snoc⟩
  · obtain ⟨k, hk, hl⟩ := ht.found r t hf
    have hreads := (h.reads_nothing (by simp [hf])).1
    refine ⟨k, ?_, hl.snoc⟩
    rw [hk', hreads, hk]
    rfl

/-- A new delivery is the one of the iteration in progress. -/
theorem Traced.delivered_step (ht : Traced c as s) (h : Transition c s a s')
    (hk : s'.deliveredBy t = some k) :
    s.deliveredBy t = some k ∨
      ∃ r, s.reader = .found r t ∧ s'.reader = .removing r.id ∧ s.reads = k + 1 := by
  rcases h.delivered_change t with hsame | ⟨r, hf, _, hrem, hnew⟩
  · exact Or.inl (hsame ▸ hk)
  · right
    have hpos := (ht.fresh (by rw [hf]; rfl)).1
    rw [hk] at hnew
    have hkr := Option.some.inj hnew
    exact ⟨r, hf, hrem, by omega⟩

theorem Traced.fresh_step (ht : Traced c as s) (h : Transition c s a s')
    (hr : s'.reader.undelivered = true) :
    0 < s'.reads ∧ ∀ t k, s'.deliveredBy t = some k → k + 1 < s'.reads := by
  have hold : ∀ t k, s'.deliveredBy t = some k → s.deliveredBy t = some k := by
    intro t k hk
    rcases ht.delivered_step h hk with hk | ⟨r, _, hrem, _⟩
    · exact hk
    · simp [hrem, Reader.undelivered] at hr
  have hgoes : s.reader.undelivered = true → 0 < s'.reads ∧
      ∀ t k, s'.deliveredBy t = some k → k + 1 < s'.reads := by
    intro hu
    obtain ⟨hpos, hbound⟩ := ht.fresh hu
    have hle := h.reads_mono
    refine ⟨by omega, fun t k hk => ?_⟩
    have := hbound t k (hold t k hk)
    omega
  rcases h.reader_change with heq | hch
  · exact hgoes (heq ▸ hr)
  · rcases h.reads_change with ⟨_, hno⟩ | ⟨r, _, _, _, hnext⟩
    · apply hgoes
      generalize hrd : s.reader = rd at hch
      generalize hrd' : s'.reader = rd' at hch hr
      cases hch with
      | read r => exact absurd rfl (hno r)
      | lookupHits r t _ => rfl
      | _ => simp [Reader.undelivered] at hr
    · refine ⟨by omega, fun t k hk => ?_⟩
      have := ht.earlier t k (hold t k hk)
      omega

theorem Traced.sole_step (ht : Traced c as s) (h : Transition c s a s')
    (hk : s'.deliveredBy t = some k) (hu : s'.deliveredBy u = some k) : t = u := by
  have hclash : ∀ {v w : ι} {r : CommandResult}, s.reader = .found r w → s.reads = k + 1 →
      s.deliveredBy v ≠ some k := by
    intro v w r hf hreads hv
    have := (ht.fresh (by rw [hf]; rfl)).2 v k hv
    omega
  rcases ht.delivered_step h hk with hk | ⟨r, hf, _, hreads⟩ <;>
    rcases ht.delivered_step h hu with hu | ⟨r', hf', _, hreads'⟩
  · exact ht.sole t u k hk hu
  · exact absurd hk (hclash hf' hreads')
  · exact absurd hu (hclash hf hreads)
  · rw [hf] at hf'
    cases hf'
    rfl

theorem Transition.traced (h : Transition c s a s') (ht : Traced c as s) :
    Traced c (as ++ [a]) s' where
  consistent := h.consistent ht.consistent
  reads := ht.reads_step h
  added t hp := by
    rcases h.added_or hp with hold | rfl
    · exact List.mem_append_left _ (ht.added t hold)
    · simp
  received _ hr := ht.received_step h hr
  found _ _ hr := ht.found_step h hr
  replied _ _ htask := ht.replied_step h htask
  earlier t k hk := by
    have hle := h.reads_mono
    rcases ht.delivered_step h hk with hk | ⟨_, _, _, hreads⟩
    · have := ht.earlier t k hk
      omega
    · omega
  fresh hr := ht.fresh_step h hr
  sole _ _ _ hk hu := ht.sole_step h hk hu

/-- In every interleaving a call that returns a result returns one with its own Id, which an
iteration of the reader looked up after the call had registered, and no other call has the
result of that iteration. -/
theorem reply_correlated (h : Run (Steps (step c)) (State.initial ι τ) as s) :
    ∀ t r, s.phase t = .done (.returns r) → RepliedBy c as s t r := by
  have ht : Traced c as s := h.history Traced.initial fun _ _ _ _ ht hs =>
    (transition_of_step c hs).traced ht
  intro t r hp
  exact ht.repliedBy hp

/-- Two calls with one Id and a duplicate of the first reply: each call has a read of its own. -/
def repliesTwice (i j : ι) : List (Action ι τ) :=
  [.start i, .addOrUpdate i, .writeReturns i, .read (success ⟨7⟩), .tryGetValue, .trySetResult,
    .removeEntry, .resume i, .disposeRegistration i, .read (success ⟨8⟩), .tryGetValue,
    .start j, .addOrUpdate j, .writeReturns j, .read (success ⟨7⟩), .tryGetValue, .trySetResult,
    .resume j, .disposeRegistration j]

theorem reply_correlated_twice : ∃ s,
    exec (step (pairOfCalls fun _ => ⟨7⟩)) (State.initial _ _) (repliesTwice 0 1) = some s ∧
      s.deliveredBy 0 = some 0 ∧ s.deliveredBy 1 = some 2 ∧
      RepliedBy (pairOfCalls fun _ => ⟨7⟩) (repliesTwice 0 1) s 1 (success ⟨7⟩) := by
  have h : exec (step (pairOfCalls fun _ => ⟨7⟩)) (State.initial _ _) (repliesTwice 0 1) =
    some _ := rfl
  exact ⟨_, h, rfl, rfl, reply_correlated (Run.of_exec h) 1 _ rfl⟩

end DriverBus.Services
