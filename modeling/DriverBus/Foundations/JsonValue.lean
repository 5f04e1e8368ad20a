import DriverBus.Foundations.JsonText
import Mathlib.Data.Nat.Digits.Lemmas
import Mathlib.Tactic

/-!
# JSON values and the text a writer makes of them

A writer puts no blanks between the tokens. Which characters of a string it
writes as they are is the choice of its encoder; all others become escapes, so
the text is ASCII and stays on one line. What is written is a text of the
grammar.
-/

namespace DriverBus.Foundations.Json

/-- A number with a fraction or an exponent is kept as `mantissa * 10 ^ exponent`. -/
inductive Value
  | null
  | boolean (b : Bool)
  | integer (n : Int)
  | float (mantissa exponent : Int)
  | string (s : String)
  | array (elements : List Value)
  | object (members : List (String × Value))

/-- A value without parts, an integer among them only when it has 64 bits. -/
def Value.IsScalar : Value → Prop
  | .null | .boolean _ | .string _ => True
  | .integer n => -2 ^ 63 ≤ n ∧ n < 2 ^ 63
  | .float _ _ | .array _ | .object _ => False

/-- The members of an object without parts of its own, and with no key twice. -/
structure Flat (members : List (String × Value)) : Prop where
  distinct : (members.map Prod.fst).Nodup
  scalar : ∀ m ∈ members, m.2.IsScalar

/-- A value without parts, or an object whose members have none. -/
def Value.IsShallow : Value → Prop
  | .object members => Flat members
  | v => v.IsScalar

/-- Induction over a value: of an array all elements, of an object the values of all members. -/
@[elab_as_elim]
theorem Value.induction {P : Value → Prop} (null : P .null) (boolean : ∀ b, P (.boolean b))
    (integer : ∀ n, P (.integer n)) (float : ∀ m e, P (.float m e)) (string : ∀ s, P (.string s))
    (array : ∀ vs, (∀ v ∈ vs, P v) → P (.array vs))
    (object : ∀ ms, (∀ m ∈ ms, P m.2) → P (.object ms)) (v : Value) : P v := by
  apply @Value.rec P (fun vs => ∀ v ∈ vs, P v) (fun ms => ∀ m ∈ ms, P m.2) fun m => P m.2
  · exact null
  · exact boolean
  · exact integer
  · exact float
  · exact string
  · exact array
  · exact object
  · simp
  · intro v vs hv hvs
    simpa using ⟨hv, hvs⟩
  · simp
  · intro m ms hm hms x hx
    rcases List.mem_cons.mp hx with rfl | hx
    · exact hm
    · exact hms x hx
  · intro key v hv
    exact hv

/-- The characters a writer leaves alone are printable, and none of them has a meaning in a
string. -/
structure Encoder where
  plain : ℕ → Bool
  printable : ∀ n, plain n = true → 0x20 ≤ n ∧ n < 0x7F ∧ n ≠ 0x22 ∧ n ≠ 0x5C

def minus : UInt8 := 0x2D
def letterE : UInt8 := 0x65
def letterU : UInt8 := 0x75

def digitByte (n : ℕ) : UInt8 := .ofNat (0x30 + n)

def hexByte (n : ℕ) : UInt8 := if n < 10 then .ofNat (0x30 + n) else .ofNat (0x37 + n)

/-- The decimal digits of a number. -/
def writeNat (n : ℕ) : Bytes :=
  if n = 0 then [digitByte 0] else ((Nat.digits 10 n).reverse).map digitByte

def writeInt (n : Int) : Bytes :=
  if n < 0 then minus :: writeNat n.natAbs else writeNat n.natAbs

/-- `\uXXXX` of one UTF-16 code unit. -/
def unicodeEscape (unit : ℕ) : Bytes :=
  [backslash, letterU, hexByte (unit / 4096 % 16), hexByte (unit / 256 % 16),
    hexByte (unit / 16 % 16), hexByte (unit % 16)]

/-- The UTF-16 code units of a character. -/
def utf16 (c : Char) : List ℕ :=
  if c.toNat < 0x10000 then [c.toNat]
  else [0xD800 + (c.toNat - 0x10000) / 0x400, 0xDC00 + (c.toNat - 0x10000) % 0x400]

/-- The code points with an escape of two characters, and the second one of it. -/
def shortEscape : ℕ → Option UInt8
  | 0x08 => some 0x62
  | 0x09 => some 0x74
  | 0x0A => some 0x6E
  | 0x0C => some 0x66
  | 0x0D => some 0x72
  | 0x5C => some backslash
  | _ => none

section Writer

variable (encoder : Encoder)

def writeChar (c : Char) : Bytes :=
  if encoder.plain c.toNat then [.ofNat c.toNat]
  else
    match shortEscape c.toNat with
    | some b => [backslash, b]
    | none => (utf16 c).flatMap unicodeEscape

def writeChars (cs : List Char) : Bytes := cs.flatMap (writeChar encoder)

def writeString (s : String) : Bytes := quote :: (writeChars encoder s.toList ++ [quote])

mutual

def write : Value → Bytes
  | .null => [0x6E, 0x75, 0x6C, 0x6C]
  | .boolean true => [0x74, 0x72, 0x75, 0x65]
  | .boolean false => [0x66, 0x61, 0x6C, 0x73, 0x65]
  | .integer n => writeInt n
  | .float mantissa exponent => writeInt mantissa ++ letterE :: writeInt exponent
  | .string s => writeString encoder s
  | .array elements => leftBracket :: (writeElements elements ++ [rightBracket])
  | .object members => leftBrace :: (writeMembers members ++ [rightBrace])

def writeElements : List Value → Bytes
  | [] => []
  | [v] => write v
  | v :: w :: rest => write v ++ comma :: writeElements (w :: rest)

def writeMembers : List (String × Value) → Bytes
  | [] => []
  | [(key, v)] => writeString encoder key ++ colon :: write v
  | (key, v) :: m :: rest =>
    writeString encoder key ++ colon :: (write v ++ comma :: writeMembers (m :: rest))

end

end Writer

section Text

theorem digitByte_isDigit {n : ℕ} (h : n < 10) : IsDigit (digitByte n) := by
  unfold IsDigit digitByte
  interval_cases n <;> decide

theorem digitByte_ne_zero {n : ℕ} (h : n < 10) (hn : n ≠ 0) : digitByte n ≠ digitByte 0 := by
  interval_cases n
  · exact absurd rfl hn
  all_goals decide

theorem hexByte_isHex {n : ℕ} (h : n < 16) : IsHex (hexByte n) := by
  unfold IsHex IsDigit hexByte
  interval_cases n <;> decide

theorem writeNat_isDigits (n : ℕ) : IsDigits (writeNat n) := by
  unfold writeNat
  split_ifs with hn
  · constructor
    · simp
    · intro b hb
      rw [List.mem_singleton.mp hb]
      exact digitByte_isDigit (by omega)
  · constructor
    · simpa [Nat.digits_eq_nil_iff_eq_zero] using hn
    · intro b hb
      obtain ⟨d, hd, rfl⟩ := List.mem_map.mp hb
      exact digitByte_isDigit (Nat.digits_lt_base (by omega) (List.mem_reverse.mp hd))

theorem IsDigits.snoc {ds : Bytes} {b : UInt8} (h : IsDigits ds) (hb : IsDigit b) :
    IsDigits (ds ++ [b]) := by
  constructor
  · simp
  · intro c hc
    rcases List.mem_append.mp hc with hc | hc
    · exact h.2 c hc
    · rw [List.mem_singleton.mp hc]
      exact hb

theorem isDigits_singleton {b : UInt8} (hb : IsDigit b) : IsDigits [b] := by
  simp [IsDigits, hb]

/-- The decimal digits of a number do not start with a zero, unless it is zero. -/
theorem writeNat_isInt (n : ℕ) : IsInt (writeNat n) := by
  by_cases hn : n = 0
  · left
    subst hn
    rfl
  · right
    refine ⟨writeNat_isDigits n, ?_⟩
    have hne : Nat.digits 10 n ≠ [] := Nat.digits_ne_nil_iff_ne_zero.mpr hn
    have hlast : (Nat.digits 10 n).getLast hne ≠ 0 := Nat.getLast_digit_ne_zero 10 hn
    have hlt : (Nat.digits 10 n).getLast hne < 10 :=
      Nat.digits_lt_base (by omega) (List.getLast_mem hne)
    rw [writeNat, if_neg hn, List.head?_map, List.head?_reverse, List.getLast?_eq_some_getLast hne]
    intro h
    exact digitByte_ne_zero hlt hlast (Option.some.inj h)

theorem writeInt_isNumber (n : Int) : IsNumber (writeInt n) := by
  have hint := writeNat_isInt n.natAbs
  unfold writeInt
  split_ifs
  · exact ⟨[minus], _, [], [], by simp [minus], hint, .inl rfl, .inl rfl, by simp⟩
  · exact ⟨[], _, [], [], by simp, hint, .inl rfl, .inl rfl, by simp⟩

theorem writeFloat_isNumber (m e : Int) : IsNumber (writeInt m ++ letterE :: writeInt e) := by
  have hexp : IsExponent (letterE :: writeInt e) := by
    have hdigits := writeNat_isDigits e.natAbs
    right
    unfold writeInt
    split_ifs
    · exact ⟨letterE, [minus], _, by simp [letterE], by simp [minus], hdigits, rfl⟩
    · exact ⟨letterE, [], _, by simp [letterE], by simp, hdigits, rfl⟩
  have hint := writeNat_isInt m.natAbs
  unfold writeInt at hexp ⊢
  by_cases hm : m < 0
  · rw [if_pos hm]
    exact ⟨[minus], _, [], _, by simp [minus], hint, .inl rfl, hexp, by simp⟩
  · rw [if_neg hm]
    exact ⟨[], _, [], _, by simp, hint, .inl rfl, hexp, by simp⟩

variable (encoder : Encoder)

theorem shortEscape_mem {n : ℕ} {b : UInt8} (h : shortEscape n = some b) : b ∈ simpleEscapes := by
  unfold shortEscape at h
  split at h <;> cases h <;> decide

theorem plain_stringBody {n : ℕ} {bs : Bytes} (h : encoder.plain n = true) (hb : StringBody bs) :
    StringBody (.ofNat n :: bs) := by
  obtain ⟨hlow, hhigh, hquote, hback⟩ := encoder.printable n h
  have hn : (UInt8.ofNat n).toNat = n := by
    rw [UInt8.toNat_ofNat']
    omega
  apply StringBody.plain _ _ _ hb
  · rw [UInt8.le_iff_toNat_le, hn]
    exact hlow
  · intro heq
    rw [heq] at hn
    exact hquote hn.symm
  · intro heq
    rw [heq] at hn
    exact hback hn.symm

theorem unicodeEscape_stringBody {units : List ℕ} {bs : Bytes} (hb : StringBody bs) :
    StringBody (units.flatMap unicodeEscape ++ bs) := by
  induction units with
  | nil => exact hb
  | cons unit units ih =>
    have hhex : ∀ h ∈ [hexByte (unit / 4096 % 16), hexByte (unit / 256 % 16),
        hexByte (unit / 16 % 16), hexByte (unit % 16)], IsHex h := by
      intro h hmem
      simp only [List.mem_cons, List.not_mem_nil, or_false] at hmem
      rcases hmem with rfl | rfl | rfl | rfl <;> exact hexByte_isHex (Nat.mod_lt _ (by omega))
    have hcons : (unit :: units).flatMap unicodeEscape ++ bs = backslash :: 0x75 ::
        ([hexByte (unit / 4096 % 16), hexByte (unit / 256 % 16), hexByte (unit / 16 % 16),
          hexByte (unit % 16)] ++ (units.flatMap unicodeEscape ++ bs)) := rfl
    rw [hcons]
    exact .unicode rfl hhex ih

theorem writeChars_stringBody (cs : List Char) : StringBody (writeChars encoder cs) := by
  induction cs with
  | nil => exact .nil
  | cons c cs ih =>
    have hcons : writeChars encoder (c :: cs) = writeChar encoder c ++ writeChars encoder cs := rfl
    rw [hcons, writeChar]
    split_ifs with hplain
    · exact plain_stringBody encoder hplain ih
    · cases hshort : shortEscape c.toNat with
      | some b => exact .escape (shortEscape_mem hshort) ih
      | none => exact unicodeEscape_stringBody ih

theorem writeString_isString (s : String) : IsString (writeString encoder s) :=
  ⟨_, writeChars_stringBody encoder s.toList, rfl⟩

theorem isBlank_nil : IsBlank [] := by simp [IsBlank]

/-- A value needs no blanks around it to be an element. -/
theorem Derives.asElement {bs : Bytes} (h : Derives .value bs) : Derives .element bs := by
  simpa using Derives.element isBlank_nil h isBlank_nil

theorem Derives.asMember {key bs : Bytes} (hk : IsString key) (h : Derives .value bs) :
    Derives .member (key ++ colon :: bs) := by
  simpa using Derives.member isBlank_nil hk isBlank_nil h.asElement

theorem writeElements_derives {vs : List Value} (hne : vs ≠ [])
    (h : ∀ v ∈ vs, Derives .value (write encoder v)) :
    Derives .elements (writeElements encoder vs) := by
  induction vs with
  | nil => exact absurd rfl hne
  | cons v vs ih =>
    have hv := (h v List.mem_cons_self).asElement
    cases vs with
    | nil => exact .lastElement hv
    | cons w vs => exact .moreElements hv (ih (by simp) fun x hx => h x (List.mem_cons_of_mem v hx))

theorem writeMembers_derives {ms : List (String × Value)} (hne : ms ≠ [])
    (h : ∀ m ∈ ms, Derives .value (write encoder m.2)) :
    Derives .members (writeMembers encoder ms) := by
  induction ms with
  | nil => exact absurd rfl hne
  | cons m ms ih =>
    obtain ⟨key, v⟩ := m
    have hkey := writeString_isString encoder key
    have hv := (h (key, v) List.mem_cons_self).asMember hkey
    cases ms with
    | nil => exact .lastMember hv
    | cons m ms =>
      have hrest := ih (by simp) fun x hx => h x (List.mem_cons_of_mem _ hx)
      simpa [writeMembers] using Derives.moreMembers hv hrest

/-- What is written is a text of the grammar. -/
theorem write_derives (v : Value) : Derives .value (write encoder v) := by
  induction v using Value.induction with
  | null => exact .literal (by simp [write, literals])
  | boolean b => cases b <;> exact .literal (by simp [write, literals])
  | integer n => exact .number (writeInt_isNumber n)
  | float m e => exact .number (writeFloat_isNumber m e)
  | string s => exact .string (writeString_isString encoder s)
  | array vs ih =>
    cases vs with
    | nil => exact .emptyArray isBlank_nil
    | cons v vs => exact .array (writeElements_derives encoder (by simp) ih)
  | object ms ih =>
    cases ms with
    | nil => exact .emptyObject isBlank_nil
    | cons m ms => exact .object (writeMembers_derives encoder (by simp) ih)

theorem write_object_isObject (members : List (String × Value)) :
    IsObject (write encoder (.object members)) := by
  cases members with
  | nil => exact ⟨[], .inl isBlank_nil, rfl⟩
  | cons m ms =>
    have hvalues : ∀ x ∈ m :: ms, Derives .value (write encoder x.2) :=
      fun x _ => write_derives encoder x.2
    exact ⟨_, .inr (writeMembers_derives encoder (by simp) hvalues), rfl⟩

end Text

section Printable

/-- Printable ASCII characters only. -/
def Printable (bs : Bytes) : Prop := ∀ b ∈ bs, 0x20 ≤ b ∧ b < 0x7F

variable {bs cs : Bytes} (encoder : Encoder)

@[simp] theorem printable_nil : Printable [] := by simp [Printable]

@[simp] theorem printable_cons {b : UInt8} :
    Printable (b :: bs) ↔ (0x20 ≤ b ∧ b < 0x7F) ∧ Printable bs := by
  simp [Printable]

@[simp] theorem printable_append : Printable (bs ++ cs) ↔ Printable bs ∧ Printable cs :=
  List.forall_mem_append

theorem IsDigit.printable {b : UInt8} (h : IsDigit b) : 0x20 ≤ b ∧ b < 0x7F := by
  obtain ⟨hlow, hhigh⟩ := h
  rw [UInt8.le_iff_toNat_le] at hlow hhigh
  rw [UInt8.le_iff_toNat_le, UInt8.lt_iff_toNat_lt]
  have h30 : (0x30 : UInt8).toNat = 0x30 := rfl
  have h39 : (0x39 : UInt8).toNat = 0x39 := rfl
  have h20 : (0x20 : UInt8).toNat = 0x20 := rfl
  have h7F : (0x7F : UInt8).toNat = 0x7F := rfl
  omega

theorem hexByte_printable {n : ℕ} (h : n < 16) : 0x20 ≤ hexByte n ∧ hexByte n < 0x7F := by
  unfold hexByte
  interval_cases n <;> decide

theorem writeNat_printable (n : ℕ) : Printable (writeNat n) := by
  intro b hb
  exact ((writeNat_isDigits n).2 b hb).printable

theorem writeInt_printable (n : Int) : Printable (writeInt n) := by
  unfold writeInt
  split_ifs
  · rw [printable_cons]
    exact ⟨by decide, writeNat_printable _⟩
  · exact writeNat_printable _

theorem writeChar_printable (c : Char) : Printable (writeChar encoder c) := by
  unfold writeChar
  split_ifs with hplain
  · obtain ⟨hlow, hhigh, -⟩ := encoder.printable _ hplain
    have hn : (UInt8.ofNat c.toNat).toNat = c.toNat := by
      rw [UInt8.toNat_ofNat']
      omega
    have h20 : (0x20 : UInt8).toNat = 0x20 := rfl
    have h7F : (0x7F : UInt8).toNat = 0x7F := rfl
    rw [printable_cons, UInt8.le_iff_toNat_le, UInt8.lt_iff_toNat_lt, hn, h20, h7F]
    exact ⟨⟨hlow, hhigh⟩, printable_nil⟩
  · cases hshort : shortEscape c.toNat with
    | some b =>
      have hmem := shortEscape_mem hshort
      have hall : ∀ x ∈ simpleEscapes, 0x20 ≤ x ∧ x < 0x7F := by
        simp only [simpleEscapes, List.forall_mem_cons, List.not_mem_nil, false_implies,
          implies_true, and_true]
        decide
      rw [printable_cons, printable_cons]
      exact ⟨by decide, hall b hmem, printable_nil⟩
    | none =>
      intro b hb
      obtain ⟨unit, -, hb⟩ := List.mem_flatMap.mp hb
      simp only [unicodeEscape, List.mem_cons, List.not_mem_nil, or_false] at hb
      rcases hb with rfl | rfl | rfl | rfl | rfl | rfl
      · decide
      · decide
      all_goals exact hexByte_printable (Nat.mod_lt _ (by omega))

theorem writeString_printable (s : String) : Printable (writeString encoder s) := by
  have hchars : Printable (writeChars encoder s.toList) := by
    intro b hb
    obtain ⟨c, -, hb⟩ := List.mem_flatMap.mp hb
    exact writeChar_printable encoder c b hb
  simpa [writeString, hchars] using by decide

theorem writeElements_printable {vs : List Value}
    (h : ∀ v ∈ vs, Printable (write encoder v)) : Printable (writeElements encoder vs) := by
  induction vs with
  | nil => simp [writeElements]
  | cons v vs ih =>
    have hv := h v List.mem_cons_self
    cases vs with
    | nil => exact hv
    | cons w vs =>
      have hrest := ih fun x hx => h x (List.mem_cons_of_mem v hx)
      simpa [writeElements, hv, hrest] using by decide

theorem writeMembers_printable {ms : List (String × Value)}
    (h : ∀ m ∈ ms, Printable (write encoder m.2)) : Printable (writeMembers encoder ms) := by
  induction ms with
  | nil => simp [writeMembers]
  | cons m ms ih =>
    obtain ⟨key, v⟩ := m
    have hkey := writeString_printable encoder key
    have hv : Printable (write encoder v) := h (key, v) List.mem_cons_self
    cases ms with
    | nil => simpa [writeMembers, hkey, hv] using by decide
    | cons m ms =>
      have hrest := ih fun x hx => h x (List.mem_cons_of_mem _ hx)
      simpa [writeMembers, hkey, hv, hrest] using by decide

/-- What is written is printable ASCII, on one line. -/
theorem write_printable (v : Value) : Printable (write encoder v) := by
  induction v using Value.induction with
  | null => simp [write]
  | boolean b => cases b <;> simp [write]
  | integer n => exact writeInt_printable n
  | float m e => simpa [write, writeInt_printable] using by decide
  | string s => exact writeString_printable encoder s
  | array vs ih => simpa [write, writeElements_printable encoder ih] using by decide
  | object ms ih => simpa [write, writeMembers_printable encoder ih] using by decide

end Printable

end DriverBus.Foundations.Json
