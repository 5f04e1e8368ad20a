import DriverBus.Foundations.Copies
import DriverBus.Foundations.Retries
import DriverBus.Pipe.WriteAsync
import Mathlib.Algebra.BigOperators.Group.Finset.Basic
import Mathlib.Tactic

/-!
# The retries of one `WriteAsync` call

Every attempt writes the whole line again. It can fail at any of its block
writes or in a flush after the last one, and what it has written by then stays
with the peer. The next attempt goes to the same connection when the stream
still reports `IsConnected`, and to another one otherwise. Which attempts a
call makes, and whether it returns, is up to the policy's loop; what they leave
with the peers follows from the pattern of outcomes it was run on.
-/

namespace DriverBus.Pipe.WriteRetries

open DriverBus.Foundations DriverBus.Foundations.Json DriverBus.Pipe

/-- The block writes of one line. -/
structure LineBlocks where
  blocks : List Bytes
  body : Bytes
  nonempty : ∀ b ∈ blocks, b ≠ []
  flatten_eq : blocks.flatten = body ++ [lf]
  oneLine : lf ∉ body

/-- The line with its line feed. -/
def LineBlocks.line (l : LineBlocks) : Bytes := l.body ++ [lf]

/-- How an attempt ends: block write `k` throws, or a flush after the last block, or nothing. -/
inductive AttemptEnd (n : ℕ)
  | blockThrows (k : Fin n)
  | flushThrows
  | returns
  deriving DecidableEq, Repr

/-- What the callback leaves in `_pipeServerStream`: the same stream, one on a connection that
this callback or another user has made since, or a disposed one because the reconnect failed. -/
inductive Retry
  | keeps
  | replaces
  | fails
  deriving DecidableEq, Repr

/-- What would happen in each attempt of a call: how its writes go, and what the callback behind
it leaves in the field. -/
abbrev Outcomes (n : ℕ) := ℕ → AttemptEnd n × Retry

/-- `_pipeServerStream`, as the connection of its stream, none when it is disposed, and the number
of the next connection. -/
structure Field where
  stream : Option ℕ
  next : ℕ
  deriving DecidableEq, Repr

def Field.initial (disposed : Bool) : Field := ⟨if disposed then none else some 0, 1⟩

/-- The callback's effect on the field. -/
def Retry.apply (retry : Retry) (f : Field) : Field :=
  match retry with
  | .keeps => f
  | .replaces => ⟨some f.next, f.next + 1⟩
  | .fails => { f with stream := none }

/-- An attempt: the connection of the stream it finds, none when it is disposed, and its end. -/
structure Attempt (n : ℕ) where
  connection : Option ℕ
  ending : AttemptEnd n
  deriving DecidableEq, Repr

/-- How many block writes return, on a stream that is not disposed. -/
def AttemptEnd.blocks {n : ℕ} : AttemptEnd n → ℕ
  | .blockThrows k => k
  | .flushThrows | .returns => n

/-- How many blocks reach the peer: on a disposed stream the first block write throws. -/
def Attempt.delivered {n : ℕ} (a : Attempt n) : ℕ :=
  match a.connection with
  | none => 0
  | some _ => a.ending.blocks

def Attempt.returned {n : ℕ} (a : Attempt n) : Bool :=
  match a.connection, a.ending with
  | some _, .returns => true
  | _, _ => false

section Call

variable {n : ℕ} (disposed : Bool) (outcomes : Outcomes n)

/-- One `WriteAsync` call under `WaitAndRetryAsync(3, ...)`. -/
def writeCall : Execution (Attempt n) :=
  waitAndRetry (fun k f => ⟨f.stream, (outcomes k).1⟩) Attempt.returned
    (fun k => (outcomes k).2.apply) 3 0 (.initial disposed)

/-- Whether the stream that attempt `k` would find is one that has not been disposed. -/
def live : ℕ → Bool
  | 0 => !disposed
  | k + 1 =>
    match (outcomes k).2 with
    | .keeps => live k
    | .replaces => true
    | .fails => false

/-- The call comes to attempt `j`: no earlier one has returned, on a stream not disposed. -/
def ComesTo (j : ℕ) : Prop :=
  j ≤ 3 ∧ ∀ m < j, live disposed outcomes m = true → (outcomes m).1 ≠ .returns

/-- The pattern of outcomes gives no later attempt anything to repeat or to continue. -/
structure FailsCleanly : Prop where
  /-- After a flush has thrown, no attempt gets past its last block write. -/
  afterFlush : ∀ i j, i < j → ComesTo disposed outcomes j →
    live disposed outcomes i = true → (outcomes i).1 = .flushThrows →
    live disposed outcomes j = true → (outcomes j).1.blocks < n
  /-- After a block write behind the first one has thrown, no attempt gets past its first block
  write as long as the callback keeps the stream. -/
  afterTorn : ∀ i j k, i < j → ComesTo disposed outcomes j →
    live disposed outcomes i = true → (outcomes i).1 = .blockThrows k → 0 < k.val →
    (∀ m, i ≤ m → m < j → (outcomes m).2 = .keeps) → (outcomes j).1.blocks = 0

end Call

section Delivery

variable (l : LineBlocks)

/-- The bytes an attempt delivers. -/
def bytesOf (a : Attempt l.blocks.length) : Bytes := (l.blocks.take a.delivered).flatten

/-- The bytes connection `c` receives. -/
def received (as : List (Attempt l.blocks.length)) (c : ℕ) : Bytes :=
  (as.filter fun a => a.connection = some c).flatMap (bytesOf l)

def connections {n : ℕ} (as : List (Attempt n)) : Finset ℕ :=
  (as.filterMap Attempt.connection).toFinset

/-- The complete copies of the line over all connections together. -/
def totalCopies (as : List (Attempt l.blocks.length)) : ℕ :=
  ∑ c ∈ connections as, copies l.line (received l as c)

/-- The connection ends in an incomplete copy. -/
def HoldsFragment (bytes : Bytes) : Prop := bytes ≠ [] ∧ bytes.getLast? ≠ some lf

/-- No attempt writes anything to a connection that ends in an incomplete copy. -/
def NothingBehindFragment (as : List (Attempt l.blocks.length)) : Prop :=
  ∀ before a after c, as = before ++ a :: after →
    a.connection = some c → HoldsFragment (received l before c) → bytesOf l a = []

/-- The peer gets the line at most once, once when the call returns, and never anything behind
an incomplete copy. -/
structure DeliversOnce (call : Execution (Attempt l.blocks.length)) : Prop where
  atMostOnce : totalCopies l call.attempts ≤ 1
  onceOnReturn : call.returns = true → totalCopies l call.attempts = 1
  nothingBehindFragment : NothingBehindFragment l call.attempts

end Delivery

/-- All blocks were written: the attempt returned, or a flush threw. -/
def Attempt.complete {n : ℕ} (a : Attempt n) : Bool := a.delivered = n

/-- A block write other than the first one threw. -/
def Attempt.torn {n : ℕ} (a : Attempt n) : Prop := 0 < a.delivered ∧ a.delivered < n

variable {l : LineBlocks} {as bs : List (Attempt l.blocks.length)} {a : Attempt l.blocks.length}
  {c : ℕ}

theorem LineBlocks.blocks_ne_nil : l.blocks ≠ [] := by
  intro hnil
  have hflat := l.flatten_eq
  simp [hnil] at hflat

theorem AttemptEnd.blocks_le {n : ℕ} (e : AttemptEnd n) : e.blocks ≤ n := by
  cases e with
  | blockThrows k => exact k.isLt.le
  | flushThrows => exact le_rfl
  | returns => exact le_rfl

theorem Attempt.delivered_le {n : ℕ} (a : Attempt n) : a.delivered ≤ n := by
  unfold Attempt.delivered
  split
  · exact Nat.zero_le n
  · exact a.ending.blocks_le

theorem Attempt.delivered_pos_connection {n : ℕ} {a : Attempt n} (h : a.delivered ≠ 0) :
    ∃ c, a.connection = some c := by
  cases hc : a.connection with
  | none => simp [Attempt.delivered, hc] at h
  | some c => exact ⟨c, rfl⟩

theorem bytesOf_complete (h : a.delivered = l.blocks.length) : bytesOf l a = l.line := by
  rw [bytesOf, h, List.take_length, l.flatten_eq, LineBlocks.line]

/-- Blocks of the line are not empty. -/
theorem flatten_ne_nil {p : List Bytes} (hsub : ∀ b ∈ p, b ∈ l.blocks) (hne : p ≠ []) :
    p.flatten ≠ [] := by
  intro hnil
  obtain ⟨b, rest, rfl⟩ := List.exists_cons_of_ne_nil hne
  have hb : b ∈ l.blocks := hsub b List.mem_cons_self
  rw [List.flatten_cons, List.append_eq_nil_iff] at hnil
  exact l.nonempty b hb hnil.1

theorem bytesOf_eq_nil_iff : bytesOf l a = [] ↔ a.delivered = 0 := by
  constructor
  · intro h
    by_contra hpos
    apply flatten_ne_nil (l := l) (p := l.blocks.take a.delivered) _ _ h
    · intro b hb
      exact List.mem_of_mem_take hb
    · intro htake
      rcases List.take_eq_nil_iff.mp htake with hzero | hblocks
      · exact hpos hzero
      · exact l.blocks_ne_nil hblocks
  · intro h
    simp [bytesOf, h]

/-- The blocks before the last one hold no line feed. -/
theorem lf_notMem_bytesOf (h : a.delivered < l.blocks.length) : lf ∉ bytesOf l a := by
  have hrest : (l.blocks.drop a.delivered).flatten ≠ [] := by
    apply flatten_ne_nil (l := l)
    · intro b hb
      exact List.mem_of_mem_drop hb
    · intro hdrop
      have hlen := congrArg List.length hdrop
      rw [List.length_drop, List.length_nil] at hlen
      omega
  have hsplit : bytesOf l a ++ (l.blocks.drop a.delivered).flatten = l.body ++ [lf] := by
    rw [bytesOf, ← List.flatten_append, List.take_append_drop, l.flatten_eq]
  intro hmem
  apply l.oneLine
  have hdrop := congrArg List.dropLast hsplit
  rw [List.dropLast_append_of_ne_nil hrest, List.dropLast_concat] at hdrop
  rw [← hdrop]
  exact List.mem_append_left _ hmem

theorem received_append : received l (as ++ bs) c = received l as c ++ received l bs c := by
  simp [received]

/-- An attempt adds its bytes to its own connection. -/
theorem received_snoc : received l (as ++ [a]) c =
    received l as c ++ if a.connection = some c then bytesOf l a else [] := by
  rw [received_append]
  by_cases hc : a.connection = some c <;> simp [received, hc]

theorem copies_append_bytesOf {stream : Bytes} : copies l.line (stream ++ bytesOf l a) =
    copies l.line stream + if a.complete then 1 else 0 := by
  by_cases hcomplete : a.delivered = l.blocks.length
  · rw [bytesOf_complete hcomplete, LineBlocks.line, copies_append_word l.oneLine]
    simp [Attempt.complete, hcomplete]
  · have hlt := lt_of_le_of_ne a.delivered_le hcomplete
    rw [LineBlocks.line, copies_append_of_notMem (lf_notMem_bytesOf hlt)]
    simp [Attempt.complete, hcomplete]

theorem copies_received_snoc : copies l.line (received l (as ++ [a]) c) =
    copies l.line (received l as c) +
      if a.connection = some c then (if a.complete then 1 else 0) else 0 := by
  rw [received_snoc]
  by_cases hc : a.connection = some c
  · rw [if_pos hc, if_pos hc, copies_append_bytesOf]
  · rw [if_neg hc, if_neg hc, List.append_nil]
    rfl

theorem complete_of_returned {n : ℕ} {a : Attempt n} (h : a.returned = true) :
    a.complete = true := by
  obtain ⟨connection, ending⟩ := a
  cases connection with
  | none => cases h
  | some c =>
    cases ending with
    | returns => simp [Attempt.complete, Attempt.delivered, AttemptEnd.blocks]
    | _ => cases h

theorem complete_connection {n : ℕ} {a : Attempt n} (hn : 0 < n) (h : a.complete = true) :
    ∃ c, a.connection = some c := by
  apply Attempt.delivered_pos_connection
  have hall : a.delivered = n := by simpa [Attempt.complete] using h
  omega

/-- A copy is completed by each attempt that gets past its last block write. -/
theorem sum_copies {s : Finset ℕ} (hs : connections as ⊆ s) :
    ∑ c ∈ s, copies l.line (received l as c) = as.countP Attempt.complete := by
  induction as using List.reverseRecOn with
  | nil => simp [received]
  | append_singleton as a ih =>
    have hsplit : connections (as ++ [a]) = connections as ∪ connections [a] := by
      simp only [connections, List.filterMap_append, List.toFinset_append]
    rw [hsplit] at hs
    have hold := ih (Finset.union_subset_left hs)
    simp only [copies_received_snoc, Finset.sum_add_distrib, hold, List.countP_append]
    congr 1
    cases hc : a.connection with
    | none =>
      have hincomplete : a.complete = false := by
        rw [← Bool.not_eq_true]
        intro hcomplete
        obtain ⟨c, hsome⟩ := complete_connection (List.length_pos_of_ne_nil l.blocks_ne_nil)
          hcomplete
        simp [hc] at hsome
      simp [hincomplete]
    | some d =>
      have hd : d ∈ s := by
        apply Finset.union_subset_right hs
        simp [connections, hc]
      simp [hd, List.countP_cons]

theorem totalCopies_eq : totalCopies l as = as.countP Attempt.complete :=
  sum_copies subset_rfl

theorem received_of_unreached (h : ¬ (a.connection = some c ∧ a.delivered ≠ 0)) :
    received l (as ++ [a]) c = received l as c := by
  rw [received_snoc]
  by_cases hc : a.connection = some c
  · have hzero : a.delivered = 0 := by
      by_contra hpos
      exact h ⟨hc, hpos⟩
    simp [hc, bytesOf_eq_nil_iff.mpr hzero]
  · simp [hc]

/-- What a connection holds at its end is decided by the last attempt that reached it. -/
theorem holdsFragment_of_reached (hc : a.connection = some c) (hpos : a.delivered ≠ 0) :
    HoldsFragment (received l (as ++ [a]) c) ↔ a.delivered < l.blocks.length := by
  have hne : bytesOf l a ≠ [] := fun hnil => hpos (bytesOf_eq_nil_iff.mp hnil)
  rw [received_snoc, if_pos hc, HoldsFragment, List.getLast?_append_of_ne_nil _ hne]
  constructor
  · rintro ⟨-, hlast⟩
    apply lt_of_le_of_ne a.delivered_le
    intro hcomplete
    rw [bytesOf_complete hcomplete, LineBlocks.line, List.getLast?_concat] at hlast
    exact hlast rfl
  · intro hlt
    constructor
    · simp [hne]
    · intro hlast
      exact lf_notMem_bytesOf hlt (List.mem_of_getLast? hlast)

theorem torn_of_holdsFragment (h : HoldsFragment (received l as c)) :
    ∃ before a after, as = before ++ a :: after ∧ a.connection = some c ∧ a.torn := by
  induction as using List.reverseRecOn with
  | nil => exact absurd rfl h.1
  | append_singleton as a ih =>
    by_cases hreached : a.connection = some c ∧ a.delivered ≠ 0
    · rw [holdsFragment_of_reached hreached.1 hreached.2] at h
      exact ⟨as, a, [], rfl, hreached.1, Nat.pos_of_ne_zero hreached.2, h⟩
    · rw [received_of_unreached hreached] at h
      obtain ⟨before, b, after, rfl, hc, htorn⟩ := ih h
      exact ⟨before, b, after ++ [a], by simp, hc, htorn⟩

/-- While nothing is written behind a fragment, the fragment stays at the connection's end. -/
theorem holdsFragment_between {before between r : List (Attempt l.blocks.length)}
    (hnothing : ∀ front b back c, before ++ a :: (between ++ r) = front ++ b :: back →
      b.connection = some c → HoldsFragment (received l front c) → bytesOf l b = [])
    (hc : a.connection = some c) (htorn : a.torn) :
    HoldsFragment (received l (before ++ a :: between) c) := by
  induction between using List.reverseRecOn generalizing r with
  | nil => exact (holdsFragment_of_reached hc htorn.1.ne').mpr htorn.2
  | append_singleton between b ih =>
    have hfragment := ih (r := b :: r) (by simpa using hnothing)
    have hsplit : before ++ a :: (between ++ [b]) = (before ++ a :: between) ++ [b] := by simp
    have hunreached : ¬ (b.connection = some c ∧ b.delivered ≠ 0) := by
      rintro ⟨hb, hpos⟩
      apply hpos
      apply bytesOf_eq_nil_iff.mp
      exact hnothing (before ++ a :: between) b r c (by simp) hb hfragment
    rw [hsplit, received_of_unreached hunreached]
    exact hfragment

/-- Nothing is written behind a fragment exactly when no torn attempt is followed on its
connection by one that gets past its first block write. -/
theorem nothingBehindFragment_iff : NothingBehindFragment l as ↔
    as.Pairwise fun a b => a.torn → a.connection = b.connection → b.delivered = 0 := by
  rw [pairwise_iff_split]
  constructor
  · intro h before a between b after heq htorn hconn
    obtain ⟨c, hc⟩ := Attempt.delivered_pos_connection htorn.1.ne'
    have hfragment := holdsFragment_between (r := b :: after)
      (fun front x back d hx => h front x back d (heq.trans hx)) hc htorn
    apply bytesOf_eq_nil_iff.mp
    exact h (before ++ a :: between) b after c (by simpa using heq) (hconn ▸ hc) hfragment
  · intro h before a after c heq hc hfragment
    obtain ⟨front, b, back, rfl, hb, htorn⟩ := torn_of_holdsFragment hfragment
    apply bytesOf_eq_nil_iff.mpr
    exact h front b back a after (by simpa using heq) htorn (hb.trans hc.symm)

theorem totalCopies_le_one_iff : totalCopies l as ≤ 1 ↔
    as.Pairwise fun a b => a.complete = true → b.complete = false := by
  rw [totalCopies_eq, countP_le_one_iff]

section Loop

variable {n : ℕ} {disposed : Bool} {outcomes : Outcomes n} {i j : ℕ}

/-- What attempt `k` would find in the field. -/
def fieldAt (disposed : Bool) (outcomes : Outcomes n) (k : ℕ) : Field :=
  stateAt (fun m => (outcomes m).2.apply) (.initial disposed) k

theorem fieldAt_succ (k : ℕ) :
    fieldAt disposed outcomes (k + 1) = (outcomes k).2.apply (fieldAt disposed outcomes k) := rfl

theorem isSome_stream (k : ℕ) :
    (fieldAt disposed outcomes k).stream.isSome = live disposed outcomes k := by
  induction k with
  | zero => cases disposed <;> rfl
  | succ k ih =>
    rw [fieldAt_succ, live]
    cases (outcomes k).2 with
    | keeps => exact ih
    | replaces => rfl
    | fails => rfl

/-- Connections are numbered in the order they are made. -/
theorem stream_lt_next (k : ℕ) {d : ℕ} (hd : (fieldAt disposed outcomes k).stream = some d) :
    d < (fieldAt disposed outcomes k).next := by
  induction k with
  | zero =>
    cases disposed with
    | true => cases hd
    | false =>
      cases hd
      exact Nat.one_pos
  | succ k ih =>
    rw [fieldAt_succ] at hd ⊢
    generalize (outcomes k).2 = retry at hd ⊢
    cases retry with
    | keeps => exact ih hd
    | replaces =>
      cases hd
      exact Nat.lt_succ_self _
    | fails => cases hd

theorem next_monotone : Monotone fun k => (fieldAt disposed outcomes k).next := by
  refine monotone_nat_of_le_succ fun k => ?_
  rw [fieldAt_succ]
  cases (outcomes k).2 with
  | keeps => exact le_rfl
  | replaces => exact Nat.le_succ _
  | fails => exact le_rfl

/-- A stream the callback puts in place is on a connection of its own. -/
theorem stream_succ_iff (k : ℕ) {d : ℕ} (hd : d < (fieldAt disposed outcomes k).next) :
    (fieldAt disposed outcomes (k + 1)).stream = some d ↔
      (fieldAt disposed outcomes k).stream = some d ∧ (outcomes k).2 = .keeps := by
  rw [fieldAt_succ]
  cases (outcomes k).2 with
  | keeps => simp [Retry.apply]
  | replaces => simp [Retry.apply, hd.ne']
  | fails => simp [Retry.apply]

/-- Two attempts are on one connection when every callback between them keeps the stream. -/
theorem same_stream_iff (hij : i ≤ j) {d : ℕ} (hd : (fieldAt disposed outcomes i).stream = some d) :
    (fieldAt disposed outcomes j).stream = some d ↔
      ∀ m, i ≤ m → m < j → (outcomes m).2 = .keeps := by
  induction j, hij using Nat.le_induction with
  | base =>
    constructor
    · intro _ m hm hlt
      omega
    · intro _
      exact hd
  | succ j hij ih =>
    have hnext := (stream_lt_next i hd).trans_le (next_monotone hij)
    rw [stream_succ_iff j hnext, ih]
    constructor
    · rintro ⟨hbefore, hlast⟩ m hm hlt
      rcases Nat.lt_succ_iff_lt_or_eq.mp hlt with hlt | rfl
      · exact hbefore m hm hlt
      · exact hlast
    · intro h
      exact ⟨fun m hm hlt => h m hm (hlt.trans (Nat.lt_succ_self j)),
        h j hij (Nat.lt_succ_self j)⟩

/-- Attempt `k`, if the call comes to it. -/
def attempt (disposed : Bool) (outcomes : Outcomes n) (k : ℕ) : Attempt n :=
  ⟨(fieldAt disposed outcomes k).stream, (outcomes k).1⟩

theorem attempt_delivered (k : ℕ) : (attempt disposed outcomes k).delivered =
    if live disposed outcomes k = true then (outcomes k).1.blocks else 0 := by
  rw [← isSome_stream, attempt, Attempt.delivered]
  cases (fieldAt disposed outcomes k).stream <;> rfl

theorem attempt_returned_iff (k : ℕ) : (attempt disposed outcomes k).returned = true ↔
    live disposed outcomes k = true ∧ (outcomes k).1 = .returns := by
  rw [← isSome_stream, attempt, Attempt.returned]
  cases (fieldAt disposed outcomes k).stream <;> cases (outcomes k).1 <;> simp

theorem comesTo_iff (j : ℕ) : ComesTo disposed outcomes j ↔
    j ≤ 3 ∧ ∀ m < j, (attempt disposed outcomes m).returned = false := by
  simp only [ComesTo, ← Bool.not_eq_true, attempt_returned_iff, not_and, ne_eq]

/-- What holds between any two attempts of a call, in terms of its outcomes. -/
theorem writeCall_pairwise_iff {R : Attempt n → Attempt n → Prop} :
    (writeCall disposed outcomes).attempts.Pairwise R ↔
      ∀ i j, i < j → ComesTo disposed outcomes j →
        R (attempt disposed outcomes i) (attempt disposed outcomes j) := by
  simp only [comesTo_iff, and_imp]
  exact waitAndRetry_pairwise_iff

/-- An attempt that an attempt follows is complete only when its flush threw. -/
theorem complete_iff_of_comesTo (hn : 0 < n) (hij : i < j) (hj : ComesTo disposed outcomes j) :
    (attempt disposed outcomes i).complete = true ↔
      live disposed outcomes i = true ∧ (outcomes i).1 = .flushThrows := by
  rw [Attempt.complete, decide_eq_true_eq, attempt_delivered]
  by_cases hlive : live disposed outcomes i = true
  · have hno := hj.2 i hij hlive
    cases he : (outcomes i).1 with
    | blockThrows k => simp [hlive, AttemptEnd.blocks, k.isLt.ne]
    | flushThrows => simp [hlive, AttemptEnd.blocks]
    | returns => exact absurd he hno
  · simp [hlive, hn.ne]

theorem complete_eq_false_iff (hn : 0 < n) : (attempt disposed outcomes j).complete = false ↔
    (live disposed outcomes j = true → (outcomes j).1.blocks < n) := by
  rw [Attempt.complete, decide_eq_false_iff_not, attempt_delivered]
  have hle := (outcomes j).1.blocks_le
  split_ifs with hlive
  · simp only [hlive, true_imp_iff]
    omega
  · simp [hlive, hn.ne]

theorem torn_iff : (attempt disposed outcomes i).torn ↔
    live disposed outcomes i = true ∧ ∃ k, (outcomes i).1 = .blockThrows k ∧ 0 < k.val := by
  rw [Attempt.torn, attempt_delivered]
  by_cases hlive : live disposed outcomes i = true
  · cases he : (outcomes i).1 with
    | blockThrows k => simp [hlive, AttemptEnd.blocks]
    | flushThrows => simp [hlive, AttemptEnd.blocks]
    | returns => simp [hlive, AttemptEnd.blocks]
  · simp [hlive]

/-- The pattern of outcomes is clean exactly when no two attempts of the call are complete and no
torn one is continued. -/
theorem failsCleanly_iff (hn : 0 < n) : FailsCleanly disposed outcomes ↔
    (writeCall disposed outcomes).attempts.Pairwise
        (fun a b => a.complete = true → b.complete = false) ∧
      (writeCall disposed outcomes).attempts.Pairwise
        (fun a b => a.torn → a.connection = b.connection → b.delivered = 0) := by
  rw [writeCall_pairwise_iff, writeCall_pairwise_iff]
  constructor
  · intro h
    constructor
    · intro i j hij hj hi
      obtain ⟨hlive, hflush⟩ := (complete_iff_of_comesTo hn hij hj).mp hi
      exact (complete_eq_false_iff hn).mpr (h.afterFlush i j hij hj hlive hflush)
    · intro i j hij hj htorn hconn
      obtain ⟨hlive, k, hk, hpos⟩ := torn_iff.mp htorn
      rw [attempt_delivered]
      split_ifs with hlivej
      · obtain ⟨d, hd⟩ := Option.isSome_iff_exists.mp ((isSome_stream i).trans hlive)
        exact h.afterTorn i j k hij hj hlive hk hpos
          ((same_stream_iff hij.le hd).mp (hconn.symm.trans hd))
      · rfl
  · rintro ⟨hcomplete, htorn⟩
    constructor
    · intro i j hij hj hlive hflush
      exact (complete_eq_false_iff hn).mp
        (hcomplete i j hij hj ((complete_iff_of_comesTo hn hij hj).mpr ⟨hlive, hflush⟩))
    · intro i j k hij hj hlive hk hpos hkeeps
      obtain ⟨d, hd⟩ := Option.isSome_iff_exists.mp ((isSome_stream i).trans hlive)
      have hdj := (same_stream_iff hij.le hd).mpr hkeeps
      have hlivej : live disposed outcomes j = true := by
        rw [← isSome_stream, hdj]
        rfl
      have hzero := htorn i j hij hj (torn_iff.mpr ⟨hlive, k, hk, hpos⟩) (hd.trans hdj.symm)
      rwa [attempt_delivered, if_pos hlivej] at hzero

end Loop

/-- A call that returns has made a complete attempt. -/
theorem totalCopies_pos_of_returns {disposed : Bool} {outcomes : Outcomes l.blocks.length}
    (h : (writeCall disposed outcomes).returns = true) :
    0 < totalCopies l (writeCall disposed outcomes).attempts := by
  obtain ⟨a, ha, hreturned⟩ := waitAndRetry_returns_iff.mp h
  rw [totalCopies_eq]
  exact List.countP_pos_iff.mpr ⟨a, ha, complete_of_returned hreturned⟩

theorem deliversOnce_iff {disposed : Bool} {outcomes : Outcomes l.blocks.length} :
    DeliversOnce l (writeCall disposed outcomes) ↔ FailsCleanly disposed outcomes := by
  rw [failsCleanly_iff (List.length_pos_of_ne_nil l.blocks_ne_nil), ← totalCopies_le_one_iff,
    ← nothingBehindFragment_iff]
  constructor
  · intro h
    exact ⟨h.atMostOnce, h.nothingBehindFragment⟩
  · rintro ⟨hmost, hbehind⟩
    refine ⟨hmost, fun hreturns => ?_, hbehind⟩
    have hpos := totalCopies_pos_of_returns hreturns
    omega

/-- Blocks are issued when the buffer is full, or at the end when it is not empty. -/
theorem foldl_put_nonempty (w : StreamWriter) (line : Bytes) (h : ∀ b ∈ w.written, b ≠ []) :
    ∀ b ∈ (line.foldl StreamWriter.put w).written, b ≠ [] := by
  induction line generalizing w with
  | nil => exact h
  | cons c line ih =>
    apply ih
    intro b hb
    unfold StreamWriter.put at hb
    split_ifs at hb with hfull
    · rcases List.mem_append.mp hb with hb | hb
      · exact h b hb
      · rw [List.mem_singleton.mp hb]
        intro hnil
        rw [hnil] at hfull
        cases hfull
    · exact h b hb

theorem writeLine_nonempty (line : Bytes) : ∀ b ∈ writeLine line, b ≠ [] := by
  have hwritten := foldl_put_nonempty ⟨[], []⟩ line (by simp)
  intro b hb
  unfold writeLine StreamWriter.flush at hb
  split_ifs at hb with hbuffer
  · exact hwritten b hb
  · rcases List.mem_append.mp hb with hb | hb
    · exact hwritten b hb
    · rw [List.mem_singleton.mp hb]
      exact hbuffer

/-- The block writes of a message. -/
def LineBlocks.ofMessage (newline : LineEnd) (m : Message) : LineBlocks where
  blocks := writeLine (lineOf newline m)
  body := lineBody newline m
  nonempty := writeLine_nonempty _
  flatten_eq := by rw [writeLine_flatten, lineOf_eq]
  oneLine := lf_notMem_lineBody

/-- One call delivers its line at most once, once when it returns, and nothing behind a fragment,
exactly when its outcomes are such that no attempt after one whose flush threw gets past the last
block write, and none after a torn one gets past the first block write on a stream that was kept. -/
theorem write_delivers_once_iff (newline : LineEnd) (m : Message) (disposed : Bool)
    (outcomes : Outcomes (LineBlocks.ofMessage newline m).blocks.length) :
    DeliversOnce (.ofMessage newline m) (writeCall disposed outcomes) ↔
      FailsCleanly disposed outcomes :=
  deliversOnce_iff

/-- A flush throws after the line has been written, and the stream is replaced. -/
def flushThrowsFirst (n : ℕ) : Outcomes n
  | 0 => (.flushThrows, .replaces)
  | _ => (.returns, .keeps)

/-- The retry writes the line to the new connection as well. -/
theorem flush_failure_duplicates :
    totalCopies (.ofMessage .lf (longMessage 3)) (writeCall false (flushThrowsFirst _)).attempts
        = 2 ∧
      ¬ DeliversOnce (.ofMessage .lf (longMessage 3)) (writeCall false (flushThrowsFirst _)) := by
  have htwo : totalCopies (.ofMessage .lf (longMessage 3))
      (writeCall false (flushThrowsFirst _)).attempts = 2 := by
    rw [totalCopies_eq]
    decide
  refine ⟨htwo, ?_⟩
  intro h
  have hle := h.atMostOnce
  omega

theorem one_lt_blocks {newline : LineEnd} {m : Message}
    (hlong : bufferSize < (lineOf newline m).length) :
    1 < (writeLine (lineOf newline m)).length := by
  obtain ⟨rest, hrest⟩ := writeLine_long hlong
  have hne : rest ≠ [] := by
    rintro rfl
    have hflat := congrArg (List.length ∘ List.flatten) hrest
    simp only [Function.comp_apply, writeLine_flatten, List.flatten_singleton,
      List.length_take] at hflat
    omega
  have hpos := List.length_pos_of_ne_nil hne
  rw [hrest, List.length_cons]
  omega

/-- The second block write throws, and the stream still reports `IsConnected`. -/
def tearsFirst {n : ℕ} (hn : 1 < n) : Outcomes n
  | 0 => (.blockThrows ⟨1, hn⟩, .keeps)
  | _ => (.returns, .keeps)

/-- A line that needs more than one block write can be torn, and the retry writes the line behind
the fragment. -/
theorem torn_line_continued {newline : LineEnd} {m : Message}
    (hlong : bufferSize < (lineOf newline m).length) :
    ¬ DeliversOnce (.ofMessage newline m) (writeCall false (tearsFirst (one_lt_blocks hlong))) := by
  have hmany := one_lt_blocks hlong
  rw [deliversOnce_iff]
  intro h
  have hcomes : ComesTo false (tearsFirst hmany) 1 := by
    refine ⟨by omega, fun m hm _ => ?_⟩
    obtain rfl : m = 0 := by omega
    simp [tearsFirst]
  have hkeeps : ∀ m, 0 ≤ m → m < 1 → (tearsFirst hmany m).2 = .keeps := by
    intro m _ hm
    obtain rfl : m = 0 := by omega
    rfl
  have hzero : (writeLine (lineOf newline m)).length = 0 :=
    h.afterTorn 0 1 ⟨1, hmany⟩ Nat.one_pos hcomes rfl rfl Nat.one_pos hkeeps
  omega

end DriverBus.Pipe.WriteRetries
