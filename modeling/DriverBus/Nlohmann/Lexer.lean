import DriverBus.Foundations.JsonValue

/-!
# The lexer of the driver's JSON library

One call of `scan` skips blanks and reads one token. Strings are copied byte by
byte while their UTF-8 is checked and their escapes are replaced by the bytes
they stand for; numbers follow the state machine of the library's own table.
-/

namespace DriverBus.Nlohmann

open DriverBus.Foundations.Json

inductive Token
  | literalTrue
  | literalFalse
  | literalNull
  | string (text : Bytes)
  | unsigned (n : ℕ)
  | integer (n : Int)
  | float (text : Bytes)
  | beginArray
  | beginObject
  | endArray
  | endObject
  | nameSeparator
  | valueSeparator
  | parseError (message : String)
  | endOfInput
  deriving DecidableEq, Repr

/-- The tokens behind which the lexer is not asked again. -/
def Token.last : Token → Bool
  | .parseError _ | .endOfInput => true
  | _ => false

def isBlank (b : UInt8) : Bool := b = 0x20 || b = 0x09 || b = 0x0A || b = 0x0D

def isDigit (b : UInt8) : Bool := 0x30 ≤ b && b ≤ 0x39

def hexValue (b : UInt8) : Option ℕ :=
  if 0x30 ≤ b ∧ b ≤ 0x39 then some (b.toNat - 0x30)
  else if 0x41 ≤ b ∧ b ≤ 0x46 then some (b.toNat - 0x37)
  else if 0x61 ≤ b ∧ b ≤ 0x66 then some (b.toNat - 0x57)
  else none

/-- `get_codepoint`: the number of four hexadecimal digits. -/
def getCodepoint : Bytes → Option (ℕ × Bytes)
  | a :: b :: c :: d :: rest => do
    let a ← hexValue a
    let b ← hexValue b
    let c ← hexValue c
    let d ← hexValue d
    return (a * 4096 + b * 256 + c * 16 + d, rest)
  | _ => none

/-- The UTF-8 bytes of a code point. -/
def codepointBytes (n : ℕ) : Bytes :=
  if n < 0x80 then [.ofNat n]
  else if n ≤ 0x7FF then [.ofNat (0xC0 ||| n >>> 6), .ofNat (0x80 ||| n &&& 0x3F)]
  else if n ≤ 0xFFFF then
    [.ofNat (0xE0 ||| n >>> 12), .ofNat (0x80 ||| n >>> 6 &&& 0x3F), .ofNat (0x80 ||| n &&& 0x3F)]
  else
    [.ofNat (0xF0 ||| n >>> 18), .ofNat (0x80 ||| n >>> 12 &&& 0x3F),
      .ofNat (0x80 ||| n >>> 6 &&& 0x3F), .ofNat (0x80 ||| n &&& 0x3F)]

/-- `next_byte_in_range`, with one range for each byte. -/
def nextBytesInRange : List (UInt8 × UInt8) → Bytes → Option (Bytes × Bytes)
  | [], bs => some ([], bs)
  | _ :: _, [] => none
  | (low, high) :: ranges, b :: bs =>
    if low ≤ b ∧ b ≤ high then
      (nextBytesInRange ranges bs).map fun (piece, rest) => (b :: piece, rest)
    else none

/-- The ranges of the bytes that continue a character whose first byte is not ASCII. -/
def continuation (b : UInt8) : Option (List (UInt8 × UInt8)) :=
  if 0xC2 ≤ b ∧ b ≤ 0xDF then some [(0x80, 0xBF)]
  else if b = 0xE0 then some [(0xA0, 0xBF), (0x80, 0xBF)]
  else if (0xE1 ≤ b ∧ b ≤ 0xEC) ∨ b = 0xEE ∨ b = 0xEF then some [(0x80, 0xBF), (0x80, 0xBF)]
  else if b = 0xED then some [(0x80, 0x9F), (0x80, 0xBF)]
  else if b = 0xF0 then some [(0x90, 0xBF), (0x80, 0xBF), (0x80, 0xBF)]
  else if 0xF1 ≤ b ∧ b ≤ 0xF3 then some [(0x80, 0xBF), (0x80, 0xBF), (0x80, 0xBF)]
  else if b = 0xF4 then some [(0x80, 0x8F), (0x80, 0xBF), (0x80, 0xBF)]
  else none

/-- The character a two-character escape stands for. -/
def simpleEscape : UInt8 → Option UInt8
  | 0x22 => some 0x22
  | 0x5C => some 0x5C
  | 0x2F => some 0x2F
  | 0x62 => some 0x08
  | 0x66 => some 0x0C
  | 0x6E => some 0x0A
  | 0x72 => some 0x0D
  | 0x74 => some 0x09
  | _ => none

def controlNames : List String :=
  ["NUL", "SOH", "STX", "ETX", "EOT", "ENQ", "ACK", "BEL", "BS", "HT", "LF", "VT", "FF", "CR",
    "SO", "SI", "DLE", "DC1", "DC2", "DC3", "DC4", "NAK", "SYN", "ETB", "CAN", "EM", "SUB", "ESC",
    "FS", "GS", "RS", "US"]

/-- The message of a control character that is not escaped. -/
def controlMessage (b : UInt8) : String :=
  let digits := String.ofList ((unicodeEscape b.toNat).drop 2 |>.map fun d => Char.ofNat d.toNat)
  let short := match shortEscape b.toNat with
    | some e => " or \\" ++ String.singleton (Char.ofNat e.toNat)
    | none => ""
  "invalid string: control character U+" ++ digits ++ " (" ++ controlNames.getD b.toNat "" ++
    ") must be escaped to \\u" ++ digits ++ short

/-- One turn of the loop of `scan_string`. -/
inductive StringStep
  | closed (rest : Bytes)
  | add (piece rest : Bytes)
  | fails (message : String)
  deriving DecidableEq, Repr

def unfinishedEscape : String :=
  "invalid string: '\\u' must be followed by 4 hex digits"

def highSurrogateAlone : String :=
  "invalid string: surrogate U+D800..U+DBFF must be followed by U+DC00..U+DFFF"

/-- The low surrogate that has to follow a high one. -/
def lowSurrogate (high : ℕ) : Bytes → StringStep
  | b :: c :: bs =>
    if b = backslash ∧ c = letterU then
      match getCodepoint bs with
      | none => .fails unfinishedEscape
      | some (low, rest) =>
        if 0xDC00 ≤ low ∧ low ≤ 0xDFFF then
          .add (codepointBytes (high * 1024 + low - 0x35FDC00)) rest
        else .fails highSurrogateAlone
    else .fails highSurrogateAlone
  | _ => .fails highSurrogateAlone

/-- An escape after `\u`. -/
def unicodeStep (bs : Bytes) : StringStep :=
  match getCodepoint bs with
  | none => .fails unfinishedEscape
  | some (unit, rest) =>
    if 0xD800 ≤ unit ∧ unit ≤ 0xDBFF then lowSurrogate unit rest
    else if 0xDC00 ≤ unit ∧ unit ≤ 0xDFFF then
      .fails "invalid string: surrogate U+DC00..U+DFFF must follow U+D800..U+DBFF"
    else .add (codepointBytes unit) rest

/-- An escape after its backslash. -/
def escapeStep : Bytes → StringStep
  | [] => .fails "invalid string: forbidden character after backslash"
  | b :: bs =>
    match simpleEscape b with
    | some c => .add [c] bs
    | none =>
      if b = letterU then unicodeStep bs
      else .fails "invalid string: forbidden character after backslash"

def stringStep : Bytes → StringStep
  | [] => .fails "invalid string: missing closing quote"
  | b :: bs =>
    if b = quote then .closed bs
    else if b = backslash then escapeStep bs
    else if b < 0x20 then .fails (controlMessage b)
    else if b < 0x80 then .add [b] bs
    else
      match (continuation b).bind fun ranges => nextBytesInRange ranges bs with
      | some (piece, rest) => .add (b :: piece) rest
      | none => .fails "invalid string: ill-formed UTF-8 byte"

/-- The states of `scan_number` behind its first character. -/
inductive NumberState
  | minus
  | zero
  | any1
  | decimal1
  | decimal2
  | exponent
  | sign
  | any2
  deriving DecidableEq, Repr

def isE (b : UInt8) : Bool := b = 0x65 || b = 0x45

/-- Behind the point, the exponent letter or a digit of the integer. -/
def NumberState.afterInteger (b : UInt8) : Option NumberState :=
  if b = 0x2E then some .decimal1 else if isE b then some .exponent else none

/-- The row of the table for each state; without an entry the number ends or is ill-formed. -/
def NumberState.next (b : UInt8) : NumberState → Option NumberState
  | .minus => if b = 0x30 then some .zero else if isDigit b then some .any1 else none
  | .zero => afterInteger b
  | .any1 => if isDigit b then some .any1 else afterInteger b
  | .decimal1 => if isDigit b then some .decimal2 else none
  | .decimal2 => if isDigit b then some .decimal2 else if isE b then some .exponent else none
  | .exponent =>
    if b = 0x2B ∨ b = 0x2D then some .sign else if isDigit b then some .any2 else none
  | .sign => if isDigit b then some .any2 else none
  | .any2 => if isDigit b then some .any2 else none

/-- What is missing where the number must not end. -/
def NumberState.failure : NumberState → Option String
  | .minus => some "invalid number; expected digit after '-'"
  | .decimal1 => some "invalid number; expected digit after '.'"
  | .exponent => some "invalid number; expected '+', '-', or digit after exponent"
  | .sign => some "invalid number; expected digit after exponent sign"
  | .zero | .any1 | .decimal2 | .any2 => none

inductive NumberType
  | unsigned
  | integer
  | float
  deriving DecidableEq, Repr

/-- The type of the number once a state has been entered. -/
def NumberType.enter (type : NumberType) : NumberState → NumberType
  | .decimal1 | .exponent => .float
  | _ => type

def natOf (digits : Bytes) : ℕ := digits.foldl (fun n b => 10 * n + (b.toNat - 0x30)) 0

def intOf : Bytes → Int
  | [] => 0
  | b :: bs => if b = 0x2D then -natOf bs else if b = 0x2B then natOf bs else natOf (b :: bs)

/-- Integers that `strtoull` and `strtoll` cannot hold become floats. -/
def numberToken (buffer : Bytes) : NumberType → Token
  | .unsigned => if natOf buffer < 2 ^ 64 then .unsigned (natOf buffer) else .float buffer
  | .integer => if -2 ^ 63 ≤ intOf buffer then .integer (intOf buffer) else .float buffer
  | .float => .float buffer

/-- `scan_number` from a state on, with the character behind the number left unread. -/
def scanNumber (state : NumberState) (type : NumberType) (buffer : Bytes) : Bytes → Token × Bytes
  | [] =>
    match state.failure with
    | some message => (.parseError message, [])
    | none => (numberToken buffer type, [])
  | b :: bs =>
    match state.next b with
    | some next => scanNumber next (type.enter next) (buffer ++ [b]) bs
    | none =>
      match state.failure with
      | some message => (.parseError message, [])
      | none => (numberToken buffer type, b :: bs)

/-- `scan_literal` behind its first character. -/
def scanLiteral (token : Token) : Bytes → Bytes → Token × Bytes
  | [], bs => (token, bs)
  | _ :: _, [] => (.parseError "invalid literal", [])
  | c :: cs, b :: bs =>
    if b = c then scanLiteral token cs bs else (.parseError "invalid literal", [])

/-- Bytes that may stand in a string before anything else that may. -/
def InString (bs : Bytes) : Prop := bs ≠ [] ∧ ∀ more, StringBody more → StringBody (bs ++ more)

theorem hexValue_isHex {b : UInt8} {n : ℕ} (h : hexValue b = some n) : IsHex b := by
  unfold hexValue at h
  split_ifs at h with hdigit hupper hlower
  · exact .inl hdigit
  · exact .inr (.inl hupper)
  · exact .inr (.inr hlower)

theorem getCodepoint_reads {bs rest : Bytes} {n : ℕ} (h : getCodepoint bs = some (n, rest)) :
    ∃ hs, hs.length = 4 ∧ (∀ b ∈ hs, IsHex b) ∧ bs = hs ++ rest := by
  unfold getCodepoint at h
  split at h
  · rename_i a b c d rest
    simp only [Option.bind_eq_bind, Option.bind_eq_some_iff, Option.pure_def, Option.some.injEq,
      Prod.mk.injEq] at h
    obtain ⟨_, ha, _, hb, _, hc, _, hd, -, rfl⟩ := h
    refine ⟨[a, b, c, d], rfl, ?_, rfl⟩
    simp only [List.forall_mem_cons, List.not_mem_nil, false_implies, implies_true, and_true]
    exact ⟨hexValue_isHex ha, hexValue_isHex hb, hexValue_isHex hc, hexValue_isHex hd⟩
  · cases h

theorem unicode_inString {hs : Bytes} (hl : hs.length = 4) (hh : ∀ b ∈ hs, IsHex b) :
    InString (backslash :: letterU :: hs) := by
  constructor
  · simp
  · intro more hmore
    exact .unicode hl hh hmore

theorem InString.append {bs cs : Bytes} (hb : InString bs) (hc : InString cs) :
    InString (bs ++ cs) := by
  constructor
  · simp [hb.1]
  · intro more hmore
    rw [List.append_assoc]
    exact hb.2 _ (hc.2 _ hmore)

/-- The escape of a unit, or of a pair of surrogates. -/
theorem unicodeStep_reads {bs piece rest : Bytes} (h : unicodeStep bs = .add piece rest) :
    ∃ eaten, InString (backslash :: letterU :: eaten) ∧ bs = eaten ++ rest := by
  unfold unicodeStep at h
  split at h
  · cases h
  · rename_i unit after hcode
    obtain ⟨hs, hl, hh, rfl⟩ := getCodepoint_reads hcode
    have hfirst := unicode_inString hl hh
    split_ifs at h
    · unfold lowSurrogate at h
      split at h
      · split_ifs at h with hmark
        obtain ⟨rfl, rfl⟩ := hmark
        split at h
        · cases h
        · rename_i low final hlow
          obtain ⟨hs', hl', hh', rfl⟩ := getCodepoint_reads hlow
          split_ifs at h
          simp only [StringStep.add.injEq] at h
          obtain ⟨-, rfl⟩ := h
          have hpair := hfirst.append (unicode_inString hl' hh')
          exact ⟨hs ++ backslash :: letterU :: hs', hpair, by simp⟩
      · cases h
    · cases h
      exact ⟨hs, hfirst, rfl⟩

theorem simpleEscape_mem {b c : UInt8} (h : simpleEscape b = some c) : b ∈ simpleEscapes := by
  unfold simpleEscape at h
  split at h <;> first | decide | cases h

theorem continuation_high {b : UInt8} {ranges : List (UInt8 × UInt8)}
    (h : continuation b = some ranges) : ∀ r ∈ ranges, 0x80 ≤ r.1 := by
  unfold continuation at h
  split_ifs at h <;> cases h <;>
    simp only [List.forall_mem_cons, List.not_mem_nil, false_implies, implies_true, and_true] <;>
    decide

theorem nextBytesInRange_reads {ranges : List (UInt8 × UInt8)} {bs piece rest : Bytes}
    (hhigh : ∀ r ∈ ranges, 0x80 ≤ r.1) (h : nextBytesInRange ranges bs = some (piece, rest)) :
    (∀ b ∈ piece, 0x80 ≤ b) ∧ bs = piece ++ rest := by
  induction ranges generalizing bs piece with
  | nil =>
    cases h
    simp
  | cons range ranges ih =>
    obtain ⟨low, high⟩ := range
    cases bs with
    | nil => cases h
    | cons b bs =>
      rw [nextBytesInRange] at h
      split_ifs at h with hb
      obtain ⟨⟨piece, rest⟩, hnext, hpair⟩ := Option.map_eq_some_iff.mp h
      cases hpair
      obtain ⟨hpiece, rfl⟩ := ih (fun r hr => hhigh r (List.mem_cons_of_mem _ hr)) hnext
      have hlow : 0x80 ≤ low := hhigh (low, high) List.mem_cons_self
      simp only [List.forall_mem_cons, List.cons_append, and_true]
      exact ⟨UInt8.le_trans hlow hb.1, hpiece⟩

theorem high_inString {bs : Bytes} (hne : bs ≠ []) (h : ∀ b ∈ bs, 0x80 ≤ b) : InString bs := by
  refine ⟨hne, ?_⟩
  intro more hmore
  clear hne
  induction bs with
  | nil => exact hmore
  | cons b bs ih =>
    have hb := h b List.mem_cons_self
    apply StringBody.plain
    · exact UInt8.le_trans (by decide) hb
    · rintro rfl
      exact absurd hb (by decide)
    · rintro rfl
      exact absurd hb (by decide)
    · exact ih fun c hc => h c (List.mem_cons_of_mem b hc)

theorem stringStep_closed {bs rest : Bytes} (h : stringStep bs = .closed rest) :
    bs = quote :: rest := by
  have hunicode : ∀ cs, unicodeStep cs ≠ .closed rest := by
    intro cs
    unfold unicodeStep lowSurrogate
    grind
  cases bs with
  | nil => cases h
  | cons b bs =>
    rw [stringStep] at h
    split_ifs at h with hquote
    · cases h
      rw [hquote]
    · cases bs with
      | nil => cases h
      | cons e bs =>
        rw [escapeStep] at h
        split at h
        · cases h
        · split_ifs at h
          exact absurd h (hunicode bs)
    · split at h <;> cases h

/-- A turn of the loop reads bytes that may stand in a string. -/
theorem stringStep_add {bs piece rest : Bytes} (h : stringStep bs = .add piece rest) :
    ∃ eaten, InString eaten ∧ bs = eaten ++ rest := by
  cases bs with
  | nil => cases h
  | cons b bs =>
    rw [stringStep] at h
    split_ifs at h with hquote hback hcontrol hascii
    · subst hback
      cases bs with
      | nil => cases h
      | cons e bs =>
        rw [escapeStep] at h
        split at h
        · rename_i c hc
          cases h
          have hin : InString [backslash, e] :=
            ⟨by simp, fun more hmore => .escape (simpleEscape_mem hc) hmore⟩
          exact ⟨_, hin, rfl⟩
        · split_ifs at h with hu
          subst hu
          obtain ⟨eaten, hin, rfl⟩ := unicodeStep_reads h
          exact ⟨_, hin, rfl⟩
    · cases h
      have hin : InString [b] :=
        ⟨by simp, fun more hmore => .plain (UInt8.not_lt.mp hcontrol) hquote hback hmore⟩
      exact ⟨_, hin, rfl⟩
    · split at h
      · rename_i more after hnext
        cases h
        obtain ⟨ranges, hranges, hrange⟩ := Option.bind_eq_some_iff.mp hnext
        obtain ⟨hpiece, rfl⟩ := nextBytesInRange_reads (continuation_high hranges) hrange
        have hin : InString (b :: more) := by
          apply high_inString (by simp)
          simp only [List.forall_mem_cons]
          exact ⟨UInt8.not_lt.mp hascii, hpiece⟩
        exact ⟨_, hin, rfl⟩
      · cases h

theorem stringStep_length {bs piece rest : Bytes} (h : stringStep bs = .add piece rest) :
    rest.length < bs.length := by
  obtain ⟨eaten, hin, rfl⟩ := stringStep_add h
  have hpos := List.length_pos_of_ne_nil hin.1
  rw [List.length_append]
  omega

/-- The loop of `scan_string` behind the opening quote. -/
def scanString (buffer bs : Bytes) : Token × Bytes :=
  match h : stringStep bs with
  | .closed rest => (.string buffer, rest)
  | .add piece rest => scanString (buffer ++ piece) rest
  | .fails message => (.parseError message, [])
termination_by bs.length
decreasing_by exact stringStep_length h

/-- The tokens of one character. -/
def structural (b : UInt8) : Option Token :=
  if b = leftBracket then some .beginArray
  else if b = rightBracket then some .endArray
  else if b = leftBrace then some .beginObject
  else if b = rightBrace then some .endObject
  else if b = colon then some .nameSeparator
  else if b = comma then some .valueSeparator
  else none

/-- A number that starts with `b`, or the end of the input, or nothing a token starts with. -/
def scanOther (b : UInt8) (rest : Bytes) : Token × Bytes :=
  if b = minus then scanNumber .minus .integer [b] rest
  else if b = 0x30 then scanNumber .zero .unsigned [b] rest
  else if isDigit b then scanNumber .any1 .unsigned [b] rest
  else if b = 0 then (.endOfInput, rest)
  else (.parseError "invalid literal", rest)

/-- The token that starts with `b`. -/
def scanToken (b : UInt8) (rest : Bytes) : Token × Bytes :=
  match structural b with
  | some token => (token, rest)
  | none =>
    if b = 0x74 then scanLiteral .literalTrue [0x72, 0x75, 0x65] rest
    else if b = 0x66 then scanLiteral .literalFalse [0x61, 0x6C, 0x73, 0x65] rest
    else if b = 0x6E then scanLiteral .literalNull [0x75, 0x6C, 0x6C] rest
    else if b = quote then scanString [] rest
    else scanOther b rest

def scan (bs : Bytes) : Token × Bytes :=
  match bs.dropWhile isBlank with
  | [] => (.endOfInput, [])
  | b :: rest => scanToken b rest

/-- The texts of the tokens behind which the lexer is asked again. -/
inductive Lexeme : Token → Bytes → Prop
  | literalTrue : Lexeme .literalTrue [0x74, 0x72, 0x75, 0x65]
  | literalFalse : Lexeme .literalFalse [0x66, 0x61, 0x6C, 0x73, 0x65]
  | literalNull : Lexeme .literalNull [0x6E, 0x75, 0x6C, 0x6C]
  | string {text bs} (h : IsString bs) : Lexeme (.string text) bs
  | unsigned {n bs} (h : IsNumber bs) : Lexeme (.unsigned n) bs
  | integer {n bs} (h : IsNumber bs) : Lexeme (.integer n) bs
  | float {bs} (h : IsNumber bs) : Lexeme (.float bs) bs
  | beginArray : Lexeme .beginArray [leftBracket]
  | beginObject : Lexeme .beginObject [leftBrace]
  | endArray : Lexeme .endArray [rightBracket]
  | endObject : Lexeme .endObject [rightBrace]
  | nameSeparator : Lexeme .nameSeparator [colon]
  | valueSeparator : Lexeme .valueSeparator [comma]

/-- What has been read of a number in each state. -/
def NumberState.HasRead (bs : Bytes) : NumberState → Prop
  | .minus => bs = [0x2D]
  | .zero => ∃ sign ∈ ([[], [0x2D]] : List Bytes), bs = sign ++ [0x30]
  | .any1 => ∃ sign ∈ ([[], [0x2D]] : List Bytes), ∃ ds, IsDigits ds ∧ ds.head? ≠ some 0x30 ∧
      bs = sign ++ ds
  | .decimal1 => ∃ sign ∈ ([[], [0x2D]] : List Bytes), ∃ int, IsInt int ∧ bs = sign ++ int ++ [0x2E]
  | .decimal2 => ∃ sign ∈ ([[], [0x2D]] : List Bytes), ∃ int ds, IsInt int ∧ IsDigits ds ∧
      bs = sign ++ int ++ 0x2E :: ds
  | .exponent => ∃ sign ∈ ([[], [0x2D]] : List Bytes), ∃ int frac e, IsInt int ∧ IsFraction frac ∧
      e ∈ ([0x65, 0x45] : Bytes) ∧ bs = sign ++ int ++ frac ++ [e]
  | .sign => ∃ sign ∈ ([[], [0x2D]] : List Bytes), ∃ int frac e s, IsInt int ∧ IsFraction frac ∧
      e ∈ ([0x65, 0x45] : Bytes) ∧ s ∈ ([0x2B, 0x2D] : Bytes) ∧ bs = sign ++ int ++ frac ++ [e, s]
  | .any2 => ∃ sign ∈ ([[], [0x2D]] : List Bytes), ∃ int frac e s ds, IsInt int ∧ IsFraction frac ∧
      e ∈ ([0x65, 0x45] : Bytes) ∧ s ∈ ([[], [0x2B], [0x2D]] : List Bytes) ∧ IsDigits ds ∧
      bs = sign ++ int ++ frac ++ e :: (s ++ ds)

theorem isDigit_iff {b : UInt8} : isDigit b = true ↔ IsDigit b := by
  simp [isDigit, IsDigit]

theorem isE_iff {b : UInt8} : isE b = true ↔ b ∈ ([0x65, 0x45] : Bytes) := by
  simp [isE]

/-- Behind an integer come a fraction and an exponent. -/
theorem hasRead_afterInteger {bs int : Bytes} {b : UInt8} {state : NumberState} {sign : Bytes}
    (hsign : sign ∈ ([[], [0x2D]] : List Bytes)) (hint : IsInt int) (hbs : bs = sign ++ int)
    (h : NumberState.afterInteger b = some state) : state.HasRead (bs ++ [b]) := by
  subst hbs
  unfold NumberState.afterInteger at h
  split_ifs at h with hpoint he
  · cases h
    exact ⟨sign, hsign, int, hint, by rw [hpoint]⟩
  · cases h
    exact ⟨sign, hsign, int, [], b, hint, .inl rfl, isE_iff.mp he, by simp⟩

theorem NumberState.hasRead_next {bs : Bytes} {b : UInt8} {state next : NumberState}
    (hread : state.HasRead bs) (h : state.next b = some next) : next.HasRead (bs ++ [b]) := by
  cases state with
  | minus =>
    rw [NumberState.next] at h
    cases hread
    split_ifs at h with hzero hdigit
    · cases h
      exact ⟨[0x2D], by simp, by rw [hzero]⟩
    · cases h
      refine ⟨[0x2D], by simp, [b], isDigits_singleton (isDigit_iff.mp hdigit), ?_, rfl⟩
      simpa using hzero
  | zero =>
    obtain ⟨sign, hsign, hbs⟩ := hread
    exact hasRead_afterInteger hsign (.inl rfl) hbs h
  | any1 =>
    obtain ⟨sign, hsign, ds, hds, hhead, hbs⟩ := hread
    rw [NumberState.next] at h
    split_ifs at h with hdigit
    · cases h
      refine ⟨sign, hsign, ds ++ [b], hds.snoc (isDigit_iff.mp hdigit), ?_, by simp [hbs]⟩
      rwa [List.head?_append_of_ne_nil _ hds.1]
    · exact hasRead_afterInteger hsign (.inr ⟨hds, hhead⟩) hbs h
  | decimal1 =>
    obtain ⟨sign, hsign, int, hint, rfl⟩ := hread
    rw [NumberState.next] at h
    split_ifs at h with hdigit
    cases h
    exact ⟨sign, hsign, int, [b], hint, isDigits_singleton (isDigit_iff.mp hdigit), by simp⟩
  | decimal2 =>
    obtain ⟨sign, hsign, int, ds, hint, hds, rfl⟩ := hread
    rw [NumberState.next] at h
    split_ifs at h with hdigit he
    · cases h
      exact ⟨sign, hsign, int, ds ++ [b], hint, hds.snoc (isDigit_iff.mp hdigit), by simp⟩
    · cases h
      exact ⟨sign, hsign, int, 0x2E :: ds, b, hint, .inr ⟨ds, hds, rfl⟩, isE_iff.mp he, by simp⟩
  | exponent =>
    obtain ⟨sign, hsign, int, frac, e, hint, hfrac, he, rfl⟩ := hread
    rw [NumberState.next] at h
    split_ifs at h with hs hdigit
    · cases h
      exact ⟨sign, hsign, int, frac, e, b, hint, hfrac, he, by simpa using hs, by simp⟩
    · cases h
      have hds := isDigits_singleton (isDigit_iff.mp hdigit)
      exact ⟨sign, hsign, int, frac, e, [], [b], hint, hfrac, he, by simp, hds, by simp⟩
  | sign =>
    obtain ⟨sign, hsign, int, frac, e, s, hint, hfrac, he, hs, rfl⟩ := hread
    rw [NumberState.next] at h
    split_ifs at h with hdigit
    cases h
    have hds := isDigits_singleton (isDigit_iff.mp hdigit)
    exact ⟨sign, hsign, int, frac, e, [s], [b], hint, hfrac, he, by simpa using hs, hds, by simp⟩
  | any2 =>
    obtain ⟨sign, hsign, int, frac, e, s, ds, hint, hfrac, he, hs, hds, rfl⟩ := hread
    rw [NumberState.next] at h
    split_ifs at h with hdigit
    cases h
    have hmore := hds.snoc (isDigit_iff.mp hdigit)
    exact ⟨sign, hsign, int, frac, e, s, ds ++ [b], hint, hfrac, he, hs, hmore, by simp⟩

/-- In the states in which a number may end, one has been read. -/
theorem NumberState.HasRead.isNumber {bs : Bytes} {state : NumberState}
    (hread : state.HasRead bs) (h : state.failure = none) : IsNumber bs := by
  cases state with
  | zero =>
    obtain ⟨sign, hsign, rfl⟩ := hread
    exact ⟨sign, [0x30], [], [], hsign, .inl rfl, .inl rfl, .inl rfl, by simp⟩
  | any1 =>
    obtain ⟨sign, hsign, ds, hds, hhead, rfl⟩ := hread
    exact ⟨sign, ds, [], [], hsign, .inr ⟨hds, hhead⟩, .inl rfl, .inl rfl, by simp⟩
  | decimal2 =>
    obtain ⟨sign, hsign, int, ds, hint, hds, rfl⟩ := hread
    exact ⟨sign, int, _, [], hsign, hint, .inr ⟨ds, hds, rfl⟩, .inl rfl, by simp⟩
  | any2 =>
    obtain ⟨sign, hsign, int, frac, e, s, ds, hint, hfrac, he, hs, hds, rfl⟩ := hread
    exact ⟨sign, int, frac, _, hsign, hint, hfrac, .inr ⟨e, s, ds, he, hs, hds, rfl⟩, rfl⟩
  | minus | decimal1 | exponent | sign => cases h

theorem numberToken_lexeme {bs : Bytes} (type : NumberType) (h : IsNumber bs) :
    Lexeme (numberToken bs type) bs := by
  cases type with
  | unsigned =>
    rw [numberToken]
    split_ifs
    · exact .unsigned h
    · exact .float h
  | integer =>
    rw [numberToken]
    split_ifs
    · exact .integer h
    · exact .float h
  | float => exact .float h

theorem scanNumber_sound {state : NumberState} {type : NumberType} {buffer bs rest : Bytes}
    {token : Token} (hread : state.HasRead buffer)
    (h : scanNumber state type buffer bs = (token, rest)) (hlast : token.last = false) :
    ∃ eaten, Lexeme token (buffer ++ eaten) ∧ bs = eaten ++ rest := by
  induction bs generalizing state type buffer with
  | nil =>
    rw [scanNumber] at h
    cases hfail : state.failure with
    | some message =>
      rw [hfail] at h
      cases h
      cases hlast
    | none =>
      rw [hfail] at h
      cases h
      exact ⟨[], by simpa using numberToken_lexeme type (hread.isNumber hfail), rfl⟩
  | cons b bs ih =>
    rw [scanNumber] at h
    cases hnext : state.next b with
    | some next =>
      rw [hnext] at h
      obtain ⟨eaten, hlex, rfl⟩ := ih (NumberState.hasRead_next hread hnext) h
      exact ⟨b :: eaten, by simpa using hlex, rfl⟩
    | none =>
      rw [hnext] at h
      cases hfail : state.failure with
      | some message =>
        rw [hfail] at h
        cases h
        cases hlast
      | none =>
        rw [hfail] at h
        cases h
        exact ⟨[], by simpa using numberToken_lexeme type (hread.isNumber hfail), rfl⟩

theorem scanLiteral_sound {goal token : Token} {cs bs rest : Bytes}
    (h : scanLiteral goal cs bs = (token, rest)) (hlast : token.last = false) :
    token = goal ∧ bs = cs ++ rest := by
  induction cs generalizing bs with
  | nil =>
    cases h
    exact ⟨rfl, rfl⟩
  | cons c cs ih =>
    cases bs with
    | nil =>
      cases h
      cases hlast
    | cons b bs =>
      rw [scanLiteral] at h
      split_ifs at h with hb
      · obtain ⟨rfl, rfl⟩ := ih h
        exact ⟨rfl, by rw [hb]; rfl⟩
      · cases h
        cases hlast

theorem scanString_sound {buffer bs rest : Bytes} {token : Token}
    (h : scanString buffer bs = (token, rest)) (hlast : token.last = false) :
    ∃ text body, token = .string text ∧ StringBody body ∧ bs = body ++ quote :: rest := by
  fun_induction scanString buffer bs with
  | case1 buffer bs after hstep =>
    cases h
    exact ⟨buffer, [], rfl, .nil, stringStep_closed hstep⟩
  | case2 buffer bs piece after hstep ih =>
    obtain ⟨text, body, rfl, hbody, rfl⟩ := ih h
    obtain ⟨eaten, hin, rfl⟩ := stringStep_add hstep
    exact ⟨text, eaten ++ body, rfl, hin.2 body hbody, by simp⟩
  | case3 buffer bs message hstep =>
    cases h
    cases hlast

theorem structural_lexeme {b : UInt8} {token : Token} (h : structural b = some token) :
    Lexeme token [b] := by
  unfold structural at h
  split_ifs at h with h1 h2 h3 h4 h5 h6 <;> cases h
  · rw [h1]
    exact .beginArray
  · rw [h2]
    exact .endArray
  · rw [h3]
    exact .beginObject
  · rw [h4]
    exact .endObject
  · rw [h5]
    exact .nameSeparator
  · rw [h6]
    exact .valueSeparator

theorem scanOther_sound {b : UInt8} {bs rest : Bytes} {token : Token}
    (h : scanOther b bs = (token, rest)) (hlast : token.last = false) :
    ∃ eaten, Lexeme token (b :: eaten) ∧ bs = eaten ++ rest := by
  unfold scanOther at h
  split_ifs at h with hminus hzero hdigit hnul
  · have hread : NumberState.HasRead [b] .minus := by
      rw [hminus]
      rfl
    exact scanNumber_sound hread h hlast
  · have hread : NumberState.HasRead [b] .zero := ⟨[], by simp, by simp [hzero]⟩
    exact scanNumber_sound hread h hlast
  · have hread : NumberState.HasRead [b] .any1 :=
      ⟨[], by simp, [b], isDigits_singleton (isDigit_iff.mp hdigit), by simpa using hzero, rfl⟩
    exact scanNumber_sound hread h hlast
  · cases h
    cases hlast
  · cases h
    cases hlast

theorem scanToken_sound {b : UInt8} {bs rest : Bytes} {token : Token}
    (h : scanToken b bs = (token, rest)) (hlast : token.last = false) :
    ∃ eaten, Lexeme token (b :: eaten) ∧ bs = eaten ++ rest := by
  unfold scanToken at h
  split at h
  · rename_i t hstructural
    cases h
    exact ⟨[], structural_lexeme hstructural, rfl⟩
  · split_ifs at h with htrue hfalse hnull hquote
    · obtain ⟨rfl, rfl⟩ := scanLiteral_sound h hlast
      exact ⟨_, htrue ▸ .literalTrue, rfl⟩
    · obtain ⟨rfl, rfl⟩ := scanLiteral_sound h hlast
      exact ⟨_, hfalse ▸ .literalFalse, rfl⟩
    · obtain ⟨rfl, rfl⟩ := scanLiteral_sound h hlast
      exact ⟨_, hnull ▸ .literalNull, rfl⟩
    · obtain ⟨text, body, rfl, hbody, rfl⟩ := scanString_sound h hlast
      exact ⟨body ++ [quote], .string ⟨body, hbody, by rw [hquote]⟩, by simp⟩
    · exact scanOther_sound h hlast

theorem takeWhile_isBlank (bs : Bytes) : IsBlank (bs.takeWhile isBlank) := by
  intro b hb
  have hall := List.all_eq_true.mp (List.all_takeWhile (p := isBlank) (l := bs)) b hb
  simpa [isBlank, or_assoc] using hall

/-- A token stands behind blanks, and its text is one of the grammar's. -/
theorem scan_sound {bs rest : Bytes} {token : Token} (h : scan bs = (token, rest))
    (hlast : token.last = false) : ∃ blanks lexeme, IsBlank blanks ∧ Lexeme token lexeme ∧
      bs = blanks ++ (lexeme ++ rest) := by
  unfold scan at h
  split at h
  · cases h
    cases hlast
  · rename_i b after hdrop
    obtain ⟨eaten, hlex, rfl⟩ := scanToken_sound h hlast
    refine ⟨bs.takeWhile isBlank, b :: eaten, takeWhile_isBlank bs, hlex, ?_⟩
    rw [List.cons_append, ← hdrop, List.takeWhile_append_dropWhile]

theorem Lexeme.ne_nil {token : Token} {bs : Bytes} (h : Lexeme token bs) : bs ≠ [] := by
  cases h with
  | string h =>
    obtain ⟨body, -, rfl⟩ := h
    simp
  | unsigned h | integer h | float h => exact h.ne_nil
  | _ => simp

theorem scan_length {bs rest : Bytes} {token : Token} (h : scan bs = (token, rest))
    (hlast : token.last = false) : rest.length < bs.length := by
  obtain ⟨blanks, lexeme, -, hlex, rfl⟩ := scan_sound h hlast
  have hpos := List.length_pos_of_ne_nil hlex.ne_nil
  simp only [List.length_append]
  omega

/-- All tokens of a text, up to the first error or the end. -/
def tokens (bs : Bytes) : List Token :=
  match h : scan bs with
  | (token, rest) =>
    if hlast : token.last = true then [token] else token :: tokens rest
termination_by bs.length
decreasing_by exact scan_length h (by simpa using hlast)

theorem tokens_of_scan {bs rest : Bytes} {token : Token} (h : scan bs = (token, rest))
    (hlast : token.last = false) : tokens bs = token :: tokens rest := by
  rw [tokens]
  split
  rename_i token' rest' h'
  rw [h] at h'
  cases h'
  simp [hlast]

theorem tokens_end {bs : Bytes} (h : (scan bs).1 = .endOfInput) : tokens bs = [.endOfInput] := by
  rw [tokens]
  split
  rename_i token rest hscan
  rw [hscan] at h
  cases h
  rfl

end DriverBus.Nlohmann
