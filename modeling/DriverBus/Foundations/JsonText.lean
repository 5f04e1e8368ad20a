import DriverBus.Foundations.Runs
import Mathlib.Tactic

/-!
# JSON texts as byte strings

The grammar of JSON over bytes, and a scanner that keeps the nesting depth and
whether it is inside a string. Every text of the grammar brings the scanner
back to where it started. A proper suffix of an object closes the object's
brace without having opened it, unless it starts inside a string, and then it
and the object disagree about every quote; so no such suffix is a JSON text.

Inside strings any byte from 0x20 on is allowed, so that the grammar does not
depend on the encoding.
-/

namespace DriverBus.Foundations.Json

abbrev Bytes := List UInt8

def quote : UInt8 := 0x22
def backslash : UInt8 := 0x5C
def leftBrace : UInt8 := 0x7B
def rightBrace : UInt8 := 0x7D
def leftBracket : UInt8 := 0x5B
def rightBracket : UInt8 := 0x5D
def comma : UInt8 := 0x2C
def colon : UInt8 := 0x3A

/-- Space, tab, line feed and carriage return. -/
def IsBlank (bs : Bytes) : Prop := ∀ b ∈ bs, b ∈ ([0x20, 0x09, 0x0A, 0x0D] : Bytes)

def IsDigit (b : UInt8) : Prop := 0x30 ≤ b ∧ b ≤ 0x39

def IsHex (b : UInt8) : Prop := IsDigit b ∨ (0x41 ≤ b ∧ b ≤ 0x46) ∨ (0x61 ≤ b ∧ b ≤ 0x66)

/-- The bytes that may follow a backslash, `u` apart. -/
def simpleEscapes : Bytes := [quote, backslash, 0x2F, 0x62, 0x66, 0x6E, 0x72, 0x74]

/-- What stands between the quotes of a string. -/
inductive StringBody : Bytes → Prop
  | nil : StringBody []
  | plain {b bs} (hb : 0x20 ≤ b) (hq : b ≠ quote) (he : b ≠ backslash) :
      StringBody bs → StringBody (b :: bs)
  | escape {b bs} (hb : b ∈ simpleEscapes) : StringBody bs → StringBody (backslash :: b :: bs)
  | unicode {hs bs} (hl : hs.length = 4) (hh : ∀ h ∈ hs, IsHex h) :
      StringBody bs → StringBody (backslash :: 0x75 :: (hs ++ bs))

def IsString (bs : Bytes) : Prop := ∃ body, StringBody body ∧ bs = quote :: (body ++ [quote])

def IsDigits (bs : Bytes) : Prop := bs ≠ [] ∧ ∀ b ∈ bs, IsDigit b

/-- `int`: zero alone, or digits that do not start with zero. -/
def IsInt (bs : Bytes) : Prop := bs = [0x30] ∨ IsDigits bs ∧ bs.head? ≠ some 0x30

def IsFraction (bs : Bytes) : Prop := bs = [] ∨ ∃ ds, IsDigits ds ∧ bs = 0x2E :: ds

def IsExponent (bs : Bytes) : Prop :=
  bs = [] ∨ ∃ e sign ds, e ∈ ([0x65, 0x45] : Bytes) ∧ sign ∈ ([[], [0x2B], [0x2D]] : List Bytes) ∧
    IsDigits ds ∧ bs = e :: (sign ++ ds)

def IsNumber (bs : Bytes) : Prop :=
  ∃ sign int frac exp, sign ∈ ([[], [0x2D]] : List Bytes) ∧ IsInt int ∧ IsFraction frac ∧
    IsExponent exp ∧ bs = sign ++ int ++ frac ++ exp

/-- `true`, `false` and `null`. -/
def literals : List Bytes :=
  [[0x74, 0x72, 0x75, 0x65], [0x66, 0x61, 0x6C, 0x73, 0x65], [0x6E, 0x75, 0x6C, 0x6C]]

inductive Nonterminal
  | value
  | element
  | member
  | members
  | elements

inductive Derives : Nonterminal → Bytes → Prop
  | literal {bs} (h : bs ∈ literals) : Derives .value bs
  | number {bs} (h : IsNumber bs) : Derives .value bs
  | string {bs} (h : IsString bs) : Derives .value bs
  | emptyObject {w} (hw : IsBlank w) : Derives .value (leftBrace :: (w ++ [rightBrace]))
  | object {ms} (h : Derives .members ms) : Derives .value (leftBrace :: (ms ++ [rightBrace]))
  | emptyArray {w} (hw : IsBlank w) : Derives .value (leftBracket :: (w ++ [rightBracket]))
  | array {es} (h : Derives .elements es) : Derives .value (leftBracket :: (es ++ [rightBracket]))
  | element {w v w'} (hw : IsBlank w) (h : Derives .value v) (hw' : IsBlank w') :
      Derives .element (w ++ v ++ w')
  | member {w s w' e} (hw : IsBlank w) (hs : IsString s) (hw' : IsBlank w')
      (h : Derives .element e) : Derives .member (w ++ s ++ w' ++ colon :: e)
  | lastMember {m} (h : Derives .member m) : Derives .members m
  | moreMembers {m ms} (h : Derives .member m) (hs : Derives .members ms) :
      Derives .members (m ++ comma :: ms)
  | lastElement {e} (h : Derives .element e) : Derives .elements e
  | moreElements {e es} (h : Derives .element e) (hs : Derives .elements es) :
      Derives .elements (e ++ comma :: es)

/-- A complete JSON text: one value, with whitespace around it. -/
def IsText (bs : Bytes) : Prop := Derives .element bs

/-- An object from its opening to its closing brace. -/
def IsObject (bs : Bytes) : Prop :=
  ∃ body, (IsBlank body ∨ Derives .members body) ∧ bs = leftBrace :: (body ++ [rightBrace])

/-- What the scanner keeps of the bytes before: the depth, and how a string stands. -/
inductive Scan
  | outside (depth : ℕ)
  | inString (depth : ℕ)
  | escaped (depth : ℕ)
  deriving DecidableEq, Repr

namespace Scan

def next : Scan → UInt8 → Option Scan
  | .outside d, b =>
    if b = quote then some (.inString d)
    else if b = backslash then none
    else if b = leftBrace ∨ b = leftBracket then some (.outside (d + 1))
    else if b = rightBrace ∨ b = rightBracket then
      if d = 0 then none else some (.outside (d - 1))
    else some (.outside d)
  | .inString d, b =>
    if b = quote then some (.outside d)
    else if b = backslash then some (.escaped d)
    else some (.inString d)
  | .escaped d, _ => some (.inString d)

/-- The same state `k` levels deeper. -/
def raise (k : ℕ) : Scan → Scan
  | .outside d => .outside (d + k)
  | .inString d => .inString (d + k)
  | .escaped d => .escaped (d + k)

/-- One state is inside a string and the other is not. -/
def Opposite : Scan → Scan → Prop
  | .outside _, .inString _ | .inString _, .outside _ => True
  | _, _ => False

variable {s t s' t' : Scan} {b : UInt8} {bs : Bytes}

theorem next_raise (k : ℕ) (h : s.next b = some t) : (s.raise k).next b = some (t.raise k) := by
  cases s with
  | outside d =>
    simp only [next] at h
    split_ifs at h with hq he ho hc hd <;> cases h
    · simp [next, raise, hq]
    · simp [next, raise, hq, he, ho]
      omega
    · have hdk : ¬ d + k = 0 := by omega
      have hsub : d + k - 1 = d - 1 + k := by omega
      simp only [next, raise, hq, he, ho, hc, hdk, hsub, if_true, if_false]
    · simp [next, raise, hq, he, ho, hc]
  | inString d =>
    simp only [next] at h
    split_ifs at h with hq he <;> cases h
    · simp [next, raise, hq]
    · subst he
      rfl
    · simp [next, raise, hq, he]
  | escaped d =>
    cases h
    rfl

/-- Scanning does not depend on how deep the scanner already is. -/
theorem scan_raise (k : ℕ) (h : exec next s bs = some t) :
    exec next (s.raise k) bs = some (t.raise k) := by
  induction bs generalizing s with
  | nil =>
    cases h
    rfl
  | cons b bs ih =>
    obtain ⟨u, hu, hrest⟩ := Option.bind_eq_some_iff.mp h
    rw [exec_cons, next_raise k hu]
    exact ih hrest

theorem next_opposite (ho : Opposite s t) (hs : s.next b = some s') (ht : t.next b = some t') :
    Opposite s' t' := by
  cases s <;> cases t <;> simp only [Opposite] at ho
  all_goals
    simp only [next] at hs ht
    split_ifs at hs ht <;> cases hs <;> cases ht <;> trivial

/-- Two scanners that disagree about being inside a string disagree to the end. -/
theorem scan_opposite (ho : Opposite s t) (hs : exec next s bs = some s')
    (ht : exec next t bs = some t') : Opposite s' t' := by
  induction bs generalizing s t with
  | nil =>
    cases hs
    cases ht
    exact ho
  | cons b bs ih =>
    obtain ⟨u, hu, hs⟩ := Option.bind_eq_some_iff.mp hs
    obtain ⟨v, hv, ht⟩ := Option.bind_eq_some_iff.mp ht
    exact ih (next_opposite ho hu hv) hs ht

end Scan

/-- The scanner is back in the same place after `bs`, at any depth. -/
def Balanced (bs : Bytes) : Prop := ∀ d, exec Scan.next (.outside d) bs = some (.outside d)

/-- A byte without a meaning outside strings. -/
def Neutral (b : UInt8) : Prop :=
  b ∉ ([quote, backslash, leftBrace, leftBracket, rightBrace, rightBracket] : Bytes)

instance (b : UInt8) : Decidable (Neutral b) := inferInstanceAs (Decidable (b ∉ _))

variable {b : UInt8} {bs cs : Bytes}

theorem Balanced.append (hb : Balanced bs) (hc : Balanced cs) : Balanced (bs ++ cs) := by
  intro d
  rw [exec_append, hb d]
  exact hc d

theorem Balanced.neutral_cons (hb : Neutral b) (hc : Balanced bs) : Balanced (b :: bs) := by
  intro d
  simp only [Neutral, List.mem_cons, List.not_mem_nil, or_false, not_or] at hb
  have hnext : (Scan.outside d).next b = some (.outside d) := by
    simp [Scan.next, hb]
  rw [exec_cons, hnext]
  exact hc d

theorem balanced_nil : Balanced [] := fun _ => rfl

theorem balanced_of_neutral (h : ∀ b ∈ bs, Neutral b) : Balanced bs := by
  induction bs with
  | nil => exact balanced_nil
  | cons b bs ih =>
    exact (ih fun c hc => h c (List.mem_cons_of_mem b hc)).neutral_cons (h b List.mem_cons_self)

/-- A bracket pair around a balanced text is balanced. -/
theorem Balanced.enclosed {o c : UInt8} (h : Balanced bs)
    (ho : ∀ d, (Scan.outside d).next o = some (.outside (d + 1)))
    (hc : ∀ d, (Scan.outside (d + 1)).next c = some (.outside d)) :
    Balanced (o :: (bs ++ [c])) := by
  intro d
  rw [exec_cons, ho d, Option.bind_some, exec_append, h (d + 1), Option.bind_some, exec_cons, hc d]
  rfl

theorem Balanced.braces (h : Balanced bs) : Balanced (leftBrace :: (bs ++ [rightBrace])) :=
  h.enclosed (fun _ => rfl) (fun _ => rfl)

theorem Balanced.brackets (h : Balanced bs) : Balanced (leftBracket :: (bs ++ [rightBracket])) :=
  h.enclosed (fun _ => rfl) (fun _ => rfl)

theorem IsBlank.balanced (h : IsBlank bs) : Balanced bs := by
  apply balanced_of_neutral
  intro b hb
  have hmem := h b hb
  simp only [List.mem_cons, List.not_mem_nil, or_false] at hmem
  rcases hmem with rfl | rfl | rfl | rfl <;> decide

theorem IsDigit.neutral (h : IsDigit b) : Neutral b := by
  obtain ⟨hlow, hhigh⟩ := h
  simp only [Neutral, quote, backslash, leftBrace, leftBracket, rightBrace, rightBracket,
    List.mem_cons, List.not_mem_nil, or_false]
  rintro (rfl | rfl | rfl | rfl | rfl | rfl) <;> revert hlow hhigh <;> decide

theorem IsDigits.balanced (h : IsDigits bs) : Balanced bs :=
  balanced_of_neutral fun b hb => (h.2 b hb).neutral

theorem IsNumber.balanced (h : IsNumber bs) : Balanced bs := by
  obtain ⟨sign, int, frac, exp, hsign, hint, hfrac, hexp, rfl⟩ := h
  have hs : Balanced sign := by
    simp only [List.mem_cons, List.not_mem_nil, or_false] at hsign
    rcases hsign with rfl | rfl
    · exact balanced_nil
    · exact balanced_nil.neutral_cons (by decide)
  have hi : Balanced int := by
    rcases hint with rfl | ⟨hd, _⟩
    · exact balanced_nil.neutral_cons (by decide)
    · exact hd.balanced
  have hf : Balanced frac := by
    rcases hfrac with rfl | ⟨ds, hd, rfl⟩
    · exact balanced_nil
    · exact hd.balanced.neutral_cons (by decide)
  have he : Balanced exp := by
    rcases hexp with rfl | ⟨e, sg, ds, hmem, hsg, hd, rfl⟩
    · exact balanced_nil
    · have hsgn : Balanced (sg ++ ds) := by
        simp only [List.mem_cons, List.not_mem_nil, or_false] at hsg
        rcases hsg with rfl | rfl | rfl
        · exact hd.balanced
        · exact hd.balanced.neutral_cons (by decide)
        · exact hd.balanced.neutral_cons (by decide)
      simp only [List.mem_cons, List.not_mem_nil, or_false] at hmem
      rcases hmem with rfl | rfl <;> exact hsgn.neutral_cons (by decide)
  exact ((hs.append hi).append hf).append he

theorem IsHex.plain (h : IsHex b) : b ≠ quote ∧ b ≠ backslash := by
  constructor <;> rintro rfl <;> revert h <;>
    simp only [IsHex, IsDigit, quote, backslash] <;> decide

theorem Scan.next_plain {d : ℕ} (hq : b ≠ quote) (he : b ≠ backslash) :
    (Scan.inString d).next b = some (.inString d) := by
  simp [Scan.next, hq, he]

theorem Scan.scan_plain {d : ℕ} (h : ∀ b ∈ bs, b ≠ quote ∧ b ≠ backslash) :
    exec Scan.next (.inString d) bs = some (.inString d) := by
  induction bs with
  | nil => rfl
  | cons b bs ih =>
    obtain ⟨hq, he⟩ := h b List.mem_cons_self
    rw [exec_cons, Scan.next_plain hq he]
    exact ih fun c hc => h c (List.mem_cons_of_mem b hc)

/-- The text between the quotes leaves the scanner inside the string. -/
theorem StringBody.scan {d : ℕ} (h : StringBody bs) :
    exec Scan.next (.inString d) bs = some (.inString d) := by
  induction h with
  | nil => rfl
  | plain _ hq he _ ih =>
    rw [exec_cons, Scan.next_plain hq he]
    exact ih
  | escape _ _ ih => exact ih
  | @unicode hs bs _ hh _ ih =>
    have hescaped : exec Scan.next (.inString d) (backslash :: 0x75 :: (hs ++ bs)) =
        exec Scan.next (.inString d) (hs ++ bs) := rfl
    rw [hescaped, exec_append, Scan.scan_plain fun b hb => (hh b hb).plain]
    exact ih

theorem IsString.balanced (h : IsString bs) : Balanced bs := by
  obtain ⟨body, hbody, rfl⟩ := h
  intro d
  have hopen : (Scan.outside d).next quote = some (.inString d) := rfl
  rw [exec_cons, hopen, Option.bind_some, exec_append, hbody.scan]
  rfl

theorem literals_balanced (h : bs ∈ literals) : Balanced bs := by
  apply balanced_of_neutral
  simp only [literals, List.mem_cons, List.not_mem_nil, or_false] at h
  rcases h with rfl | rfl | rfl <;>
    simp [Neutral, quote, backslash, leftBrace, leftBracket, rightBrace, rightBracket]

/-- Every text of the grammar brings the scanner back to where it started. -/
theorem Derives.balanced {n : Nonterminal} (h : Derives n bs) : Balanced bs := by
  induction h with
  | literal h => exact literals_balanced h
  | number h => exact h.balanced
  | string h => exact h.balanced
  | emptyObject hw => exact hw.balanced.braces
  | object _ ih => exact ih.braces
  | emptyArray hw => exact hw.balanced.brackets
  | array _ ih => exact ih.brackets
  | element hw _ hw' ih => exact (hw.balanced.append ih).append hw'.balanced
  | member hw hs hw' _ ih =>
    have hkey := (hw.balanced.append hs.balanced).append hw'.balanced
    exact hkey.append (ih.neutral_cons (by decide))
  | lastMember _ ih => exact ih
  | moreMembers _ _ ih ihs => exact ih.append (ihs.neutral_cons (by decide))
  | lastElement _ ih => exact ih
  | moreElements _ _ ih ihs => exact ih.append (ihs.neutral_cons (by decide))

theorem IsObject.body (h : IsObject bs) :
    ∃ body, Balanced body ∧ bs = leftBrace :: (body ++ [rightBrace]) := by
  obtain ⟨body, hbody | hbody, rfl⟩ := h
  · exact ⟨body, hbody.balanced, rfl⟩
  · exact ⟨body, hbody.balanced, rfl⟩

/-- An object is a JSON text by itself. -/
theorem IsObject.isText (h : IsObject bs) : IsText bs := by
  have hblank : IsBlank [] := by simp [IsBlank]
  have hvalue : Derives .value bs := by
    obtain ⟨body, hbody | hbody, rfl⟩ := h
    · exact .emptyObject hbody
    · exact .object hbody
  have helement := Derives.element hblank hvalue hblank
  rwa [List.nil_append, List.append_nil] at helement

theorem IsNumber.ne_nil (h : IsNumber bs) : bs ≠ [] := by
  obtain ⟨sign, int, frac, exp, _, hint, _, _, rfl⟩ := h
  rcases hint with rfl | ⟨hd, _⟩
  · simp
  · simp [hd.1]

theorem Derives.ne_nil {n : Nonterminal} (h : Derives n bs) : bs ≠ [] := by
  induction h with
  | literal h =>
    rintro rfl
    simp [literals] at h
  | number h => exact h.ne_nil
  | string h =>
    obtain ⟨body, _, rfl⟩ := h
    simp
  | element _ _ _ ih => simp [ih]
  | lastMember _ ih => exact ih
  | lastElement _ ih => exact ih
  | _ => simp

/-- A balanced text cannot take the scanner from inside a bracket pair to the outside. -/
theorem Balanced.not_closing (h : Balanced bs) (hne : bs ≠ []) (s : Scan) :
    exec Scan.next (s.raise 1) bs ≠ some (.outside 0) := by
  intro hs
  cases s with
  | outside d =>
    -- The suffix starts between tokens: it would have to end as deep as it starts.
    have hd := h (d + 1)
    rw [Scan.raise, hd] at hs
    simp at hs
  | inString d =>
    -- The suffix starts inside a string: the object and the text disagree to the end.
    exact Scan.scan_opposite (s := .inString (d + 1)) (t := .outside 0) trivial hs (h 0)
  | escaped d =>
    obtain ⟨b, cs, rfl⟩ := List.exists_cons_of_ne_nil hne
    have hrest : exec Scan.next (.inString (d + 1)) cs = some (.outside 0) := hs
    obtain ⟨u, hu, hcs⟩ := Option.bind_eq_some_iff.mp (h 0)
    by_cases hq : b = quote
    · -- The escaped quote opens a string of the text, one level too low.
      subst hq
      cases hu
      have hraised := Scan.scan_raise (d + 1) hcs
      simp [Scan.raise, hrest] at hraised
    · have hout : ∃ e, u = .outside e := by
        simp only [Scan.next, hq, if_false] at hu
        split_ifs at hu <;> cases hu <;> exact ⟨_, rfl⟩
      obtain ⟨e, rfl⟩ := hout
      exact Scan.scan_opposite (s := .inString (d + 1)) (t := .outside e) trivial hrest hcs

/-- Wherever the body of an object is cut, the scanner is inside its braces. -/
theorem Balanced.scan_prefix (h : Balanced bs) (hp : cs <+: bs) :
    ∃ s : Scan, exec Scan.next (.outside 1) cs = some (s.raise 1) := by
  obtain ⟨rest, rfl⟩ := hp
  have hzero := h 0
  rw [exec_append] at hzero
  obtain ⟨s, hs, _⟩ := Option.bind_eq_some_iff.mp hzero
  exact ⟨s, Scan.scan_raise 1 hs⟩

/-- No proper suffix of an object is a complete JSON text. -/
theorem IsObject.suffix_not_isText {o : Bytes} (ho : IsObject o) (hs : bs <:+ o) (hne : bs ≠ o) :
    ¬ IsText bs := by
  intro htext
  obtain ⟨body, hbody, rfl⟩ := ho.body
  obtain ⟨before, hcut⟩ := hs
  cases before with
  | nil => exact hne hcut
  | cons b before =>
    rw [List.cons_append, List.cons.injEq] at hcut
    obtain ⟨rfl, hcut⟩ := hcut
    have hprefix : before <+: body := by
      rcases List.prefix_concat_iff.mp ⟨bs, hcut⟩ with hall | hbefore
      · rw [hall] at hcut
        exact absurd (List.append_right_eq_self.mp hcut) htext.ne_nil
      · exact hbefore
    obtain ⟨s, hscan⟩ := hbody.scan_prefix hprefix
    have hclose : exec Scan.next (.outside 1) (before ++ bs) = some (.outside 0) := by
      rw [hcut, exec_append, hbody 1]
      rfl
    rw [exec_append, hscan] at hclose
    exact htext.balanced.not_closing htext.ne_nil s hclose

end DriverBus.Foundations.Json
