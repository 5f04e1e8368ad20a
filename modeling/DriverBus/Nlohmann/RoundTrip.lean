import DriverBus.Nlohmann.Parser

/-!
# What is written is read back

The lexer takes a written value apart into its tokens, whatever encoder wrote
it, and the parser makes the same value of them. What stands behind the value
is left for the next token.
-/

namespace DriverBus.Nlohmann

open DriverBus.Foundations.Json

section Characters

theorem or_eq_add {k a b : ℕ} (h : b < 2 ^ k) : 2 ^ k * a ||| b = b + 2 ^ k * a := by
  rw [← Nat.two_pow_add_eq_or_of_lt h, Nat.add_comm]

theorem continuationByte_eq (n : ℕ) : 0x80 ||| n &&& 0x3F = n % 0x40 + 0x80 := by
  have hmod : n &&& 0x3F = n % 0x40 := Nat.and_two_pow_sub_one_eq_mod n 6
  rw [hmod]
  exact or_eq_add (k := 6) (a := 2) (Nat.mod_lt _ (by omega))

/-- The bytes the lexer makes of a code point are its UTF-8. -/
theorem codepointBytes_char (c : Char) : codepointBytes c.toNat = String.utf8EncodeChar c := by
  have hc : c.toNat < 0x110000 := by
    rcases c.valid with h | h <;> simp only [Char.toNat] <;> omega
  have hval : c.val.toNat = c.toNat := rfl
  have h6 : c.toNat >>> 6 = c.toNat / 64 := Nat.shiftRight_eq_div_pow _ _
  have h12 : c.toNat >>> 12 = c.toNat / 4096 := Nat.shiftRight_eq_div_pow _ _
  have h18 : c.toNat >>> 18 = c.toNat / 262144 := Nat.shiftRight_eq_div_pow _ _
  unfold codepointBytes String.utf8EncodeChar
  simp only [hval, h6, h12, h18, continuationByte_eq]
  split_ifs with h1 h2 h3 h4 h5 h6 <;> try omega
  · rfl
  · have hlead : 0xC0 ||| c.toNat / 64 = c.toNat / 64 % 0x20 + 0xC0 := by
      rw [Nat.mod_eq_of_lt (by omega)]
      exact or_eq_add (k := 5) (a := 6) (by omega)
    rw [hlead]
  · have hlead : 0xE0 ||| c.toNat / 4096 = c.toNat / 4096 % 0x10 + 0xE0 := by
      rw [Nat.mod_eq_of_lt (by omega)]
      exact or_eq_add (k := 4) (a := 14) (by omega)
    rw [hlead]
  · have hlead : 0xF0 ||| c.toNat / 262144 = c.toNat / 262144 % 0x08 + 0xF0 := by
      rw [Nat.mod_eq_of_lt (by omega)]
      exact or_eq_add (k := 3) (a := 30) (by omega)
    rw [hlead]

theorem hexValue_hexByte {d : ℕ} (h : d < 16) : hexValue (hexByte d) = some d := by
  interval_cases d <;> rfl

theorem getCodepoint_unicodeEscape {unit : ℕ} (h : unit < 0x10000) (bs : Bytes) :
    getCodepoint ((unicodeEscape unit).drop 2 ++ bs) = some (unit, bs) := by
  have hdigit (n : ℕ) : hexValue (hexByte (n % 16)) = some (n % 16) :=
    hexValue_hexByte (Nat.mod_lt _ (by omega))
  simp only [unicodeEscape, List.drop_succ_cons, List.drop_zero, List.cons_append,
    List.nil_append, getCodepoint, hdigit, Option.bind_eq_bind, Option.bind_some, Option.pure_def,
    Option.some.injEq, Prod.mk.injEq, and_true]
  omega

theorem unicodeEscape_eq (unit : ℕ) (bs : Bytes) : unicodeEscape unit ++ bs =
    backslash :: letterU :: ((unicodeEscape unit).drop 2 ++ bs) := rfl

theorem escapeStep_unicode (bs : Bytes) : escapeStep (letterU :: bs) = unicodeStep bs := rfl

theorem stringStep_backslash (bs : Bytes) : stringStep (backslash :: bs) = escapeStep bs := rfl

theorem plain_step {encoder : Encoder} {c : Char} (h : encoder.plain c.toNat = true) (bs : Bytes) :
    stringStep (.ofNat c.toNat :: bs) = .add (String.utf8EncodeChar c) bs := by
  obtain ⟨hlow, hhigh, hquote, hback⟩ := encoder.printable _ h
  have hn : (UInt8.ofNat c.toNat).toNat = c.toNat := by
    rw [UInt8.toNat_ofNat']
    omega
  have hutf8 : String.utf8EncodeChar c = [.ofNat c.toNat] := by
    have hsmall : c.val.toNat ≤ 0x7F := by
      change c.toNat ≤ 0x7F
      omega
    rw [String.utf8EncodeChar, if_pos hsmall]
    rfl
  have hnotQuote : UInt8.ofNat c.toNat ≠ quote := by
    intro heq
    rw [heq] at hn
    exact hquote hn.symm
  have hnotBack : UInt8.ofNat c.toNat ≠ backslash := by
    intro heq
    rw [heq] at hn
    exact hback hn.symm
  have hcontrol : ¬ UInt8.ofNat c.toNat < 0x20 := by
    rw [UInt8.lt_iff_toNat_lt, hn]
    exact not_lt.mpr hlow
  have hascii : UInt8.ofNat c.toNat < 0x80 := by
    rw [UInt8.lt_iff_toNat_lt, hn]
    exact lt_trans hhigh (by decide)
  rw [stringStep, if_neg hnotQuote, if_neg hnotBack, if_neg hcontrol, if_pos hascii, hutf8]

theorem shortEscape_step {c : Char} {b : UInt8} (h : shortEscape c.toNat = some b) (bs : Bytes) :
    stringStep (backslash :: b :: bs) = .add (String.utf8EncodeChar c) bs := by
  have hcode := codepointBytes_char c
  rw [stringStep_backslash, ← hcode]
  generalize c.toNat = n at h
  unfold shortEscape at h
  split at h <;> cases h <;> rfl

theorem unicode_step {c : Char} (bs : Bytes) :
    stringStep ((utf16 c).flatMap unicodeEscape ++ bs) = .add (String.utf8EncodeChar c) bs := by
  have hcode := codepointBytes_char c
  have hvalid : c.toNat < 0xD800 ∨ (0xDFFF < c.toNat ∧ c.toNat < 0x110000) := c.valid
  rw [← hcode, utf16]
  split_ifs with hsmall
  · have hcons : [c.toNat].flatMap unicodeEscape ++ bs = unicodeEscape c.toNat ++ bs := by simp
    rw [hcons, unicodeEscape_eq, stringStep_backslash, escapeStep_unicode, unicodeStep,
      getCodepoint_unicodeEscape hsmall]
    have hhigh : ¬ (0xD800 ≤ c.toNat ∧ c.toNat ≤ 0xDBFF) := by omega
    have hlow : ¬ (0xDC00 ≤ c.toNat ∧ c.toNat ≤ 0xDFFF) := by omega
    simp only [hhigh, hlow, if_false]
  · have hcons (high low : ℕ) : [high, low].flatMap unicodeEscape ++ bs =
        unicodeEscape high ++ (unicodeEscape low ++ bs) := by simp
    have hhigh : 0xD800 ≤ 0xD800 + (c.toNat - 0x10000) / 0x400 ∧
        0xD800 + (c.toNat - 0x10000) / 0x400 ≤ 0xDBFF := by omega
    have hlow : 0xDC00 ≤ 0xDC00 + (c.toNat - 0x10000) % 0x400 ∧
        0xDC00 + (c.toNat - 0x10000) % 0x400 ≤ 0xDFFF := by omega
    have hpair : (0xD800 + (c.toNat - 0x10000) / 0x400) * 1024 +
        (0xDC00 + (c.toNat - 0x10000) % 0x400) - 0x35FDC00 = c.toNat := by omega
    rw [hcons, unicodeEscape_eq, stringStep_backslash, escapeStep_unicode, unicodeStep,
      getCodepoint_unicodeEscape (by omega)]
    simp only [hhigh, and_self, if_true]
    rw [unicodeEscape_eq, lowSurrogate, if_pos ⟨rfl, rfl⟩, getCodepoint_unicodeEscape (by omega)]
    simp only [hlow, and_self, if_true, hpair]

end Characters

section Tokens

variable {buffer bs rest : Bytes} {token : Token}

theorem scanString_add {piece : Bytes} (h : stringStep bs = .add piece rest) :
    scanString buffer bs = scanString (buffer ++ piece) rest := by
  rw [scanString]
  split <;> simp_all

theorem scanString_closed (h : stringStep bs = .closed rest) :
    scanString buffer bs = (.string buffer, rest) := by
  rw [scanString]
  split <;> simp_all

def utf8Of (cs : List Char) : Bytes := cs.flatMap String.utf8EncodeChar

theorem writeChar_step (encoder : Encoder) (c : Char) (bs : Bytes) :
    stringStep (writeChar encoder c ++ bs) = .add (String.utf8EncodeChar c) bs := by
  rw [writeChar]
  split_ifs with hplain
  · exact plain_step hplain bs
  · cases hshort : shortEscape c.toNat with
    | some b => exact shortEscape_step hshort bs
    | none => exact unicode_step bs

theorem scanString_writeChars (encoder : Encoder) (cs : List Char) (buffer rest : Bytes) :
    scanString buffer (writeChars encoder cs ++ quote :: rest) =
      (.string (buffer ++ utf8Of cs), rest) := by
  induction cs generalizing buffer with
  | nil =>
    have hclosed : stringStep (quote :: rest) = .closed rest := rfl
    have hend := @scanString_closed buffer _ rest hclosed
    simpa [writeChars, utf8Of] using hend
  | cons c cs ih =>
    have hcons : writeChars encoder (c :: cs) ++ quote :: rest =
        writeChar encoder c ++ (writeChars encoder cs ++ quote :: rest) := by
      simp [writeChars]
    rw [hcons, scanString_add (writeChar_step encoder c _), ih]
    simp [utf8Of]

theorem textOf_utf8Of (s : String) : textOf (utf8Of s.toList) = s := by
  have hbytes : (utf8Of s.toList).toByteArray = s.toByteArray := String.utf8Encode_toList
  have hvalid : (utf8Of s.toList).toByteArray.IsValidUTF8 := by
    rw [hbytes]
    exact s.isValidUTF8
  rw [textOf, String.fromUTF8?, dif_pos hvalid, Option.getD_some, ← String.toByteArray_inj]
  exact hbytes

theorem natOf_append (ds : Bytes) (b : UInt8) :
    natOf (ds ++ [b]) = 10 * natOf ds + (b.toNat - 0x30) := by
  simp [natOf]

theorem digitByte_toNat {d : ℕ} (h : d < 10) : (digitByte d).toNat = 0x30 + d := by
  rw [digitByte, UInt8.toNat_ofNat']
  omega

theorem natOf_digits {ds : List ℕ} (h : ∀ d ∈ ds, d < 10) :
    natOf (ds.reverse.map digitByte) = Nat.ofDigits 10 ds := by
  induction ds with
  | nil => rfl
  | cons d ds ih =>
    obtain ⟨hd, hds⟩ := List.forall_mem_cons.mp h
    rw [List.reverse_cons, List.map_append, List.map_singleton, natOf_append, ih hds,
      digitByte_toNat hd, Nat.ofDigits_cons]
    omega

theorem natOf_writeNat (n : ℕ) : natOf (writeNat n) = n := by
  unfold writeNat
  split_ifs with hn
  · rw [hn]
    rfl
  · rw [natOf_digits fun d hd => Nat.digits_lt_base (by omega) hd, Nat.ofDigits_digits]

/-- The number ends before these bytes. -/
def EndsNumber (rest : Bytes) : Prop :=
  ∀ b ∈ rest.head?, isDigit b = false ∧ NumberState.afterInteger b = none

/-- The written text of `v` ends before these bytes: only a number could go on in them. -/
def EndsValue (v : Value) (rest : Bytes) : Prop := ∀ n, v = .integer n → EndsNumber rest

theorem EndsNumber.endsValue {v : Value} {rest : Bytes} (h : EndsNumber rest) :
    EndsValue v rest := fun _ _ => h

theorem endsValue_object {ms : List (String × Value)} {rest : Bytes} :
    EndsValue (.object ms) rest := by
  intro n hn
  cases hn

theorem scanNumber_digits {ds : Bytes} (h : ∀ b ∈ ds, IsDigit b) (type : NumberType)
    (buffer rest : Bytes) : scanNumber .any1 type buffer (ds ++ rest) =
      scanNumber .any1 type (buffer ++ ds) rest := by
  induction ds generalizing buffer with
  | nil => simp
  | cons b ds ih =>
    obtain ⟨hb, hds⟩ := List.forall_mem_cons.mp h
    have hnext : NumberState.any1.next b = some .any1 := by
      rw [NumberState.next, if_pos (isDigit_iff.mpr hb)]
    rw [List.cons_append, scanNumber, hnext]
    simpa [NumberType.enter] using ih hds (buffer ++ [b])

theorem scanNumber_ends {state : NumberState} (hstate : state = .zero ∨ state = .any1)
    (hrest : EndsNumber rest) (type : NumberType) :
    scanNumber state type buffer rest = (numberToken buffer type, rest) := by
  have hfailure : state.failure = none := by
    rcases hstate with rfl | rfl <;> rfl
  cases rest with
  | nil => rw [scanNumber, hfailure]
  | cons b rest =>
    obtain ⟨hdigit, hafter⟩ := hrest b rfl
    have hnext : state.next b = none := by
      rcases hstate with rfl | rfl
      · exact hafter
      · rw [NumberState.next, hdigit]
        exact hafter
    rw [scanNumber, hnext, hfailure]

/-- Behind its sign, or at its start, a written number is read up to its last digit. -/
theorem scanNumber_writeNat {state : NumberState} {n : ℕ} (hrest : EndsNumber rest)
    (type : NumberType) (hzero : ∀ b, b = 0x30 → state.next b = some .zero)
    (hdigit : ∀ b, b ≠ 0x30 → isDigit b = true → state.next b = some .any1) :
    scanNumber state type buffer (writeNat n ++ rest) =
      (numberToken (buffer ++ writeNat n) type, rest) := by
  have hdigits := (writeNat_isDigits n).2
  rcases writeNat_isInt n with hn | ⟨hn, hhead⟩
  · rw [hn, List.singleton_append, scanNumber, hzero _ rfl]
    exact scanNumber_ends (.inl rfl) hrest _
  · obtain ⟨b, ds, hcons⟩ := List.exists_cons_of_ne_nil hn.1
    rw [hcons] at hhead hdigits ⊢
    obtain ⟨hb, hds⟩ := List.forall_mem_cons.mp hdigits
    have hnext : state.next b = some .any1 := by
      apply hdigit b _ (isDigit_iff.mpr hb)
      simpa using hhead
    rw [List.cons_append, scanNumber, hnext]
    have hmore := scanNumber_digits hds (type.enter .any1) (buffer ++ [b]) rest
    simp only [hmore, List.append_assoc, List.singleton_append]
    exact scanNumber_ends (.inr rfl) hrest _

theorem scan_cons {b : UInt8} (h : isBlank b = false) : scan (b :: bs) = scanToken b bs := by
  simp [scan, h]

theorem tokens_structural {b : UInt8} (h : structural b = some token) (hblank : isBlank b = false)
    (hlast : token.last = false) : tokens (b :: rest) = token :: tokens rest := by
  apply tokens_of_scan _ hlast
  rw [scan_cons hblank, scanToken, h]

theorem tokens_writeString (encoder : Encoder) (s : String) :
    tokens (writeString encoder s ++ rest) = .string (utf8Of s.toList) :: tokens rest := by
  apply tokens_of_scan _ rfl
  have hcons : writeString encoder s ++ rest =
      quote :: (writeChars encoder s.toList ++ quote :: rest) := by
    simp [writeString]
  have hquote (bs : Bytes) : scanToken quote bs = scanString [] bs := rfl
  rw [hcons, scan_cons rfl, hquote, scanString_writeChars, List.nil_append]

theorem isDigit_cases {b : UInt8} (h : IsDigit b) : ∃ d < 10, b = digitByte d := by
  obtain ⟨hlow, hhigh⟩ := h
  have h30 : (0x30 : UInt8).toNat = 0x30 := rfl
  have h39 : (0x39 : UInt8).toNat = 0x39 := rfl
  rw [UInt8.le_iff_toNat_le] at hlow hhigh
  have hd : b.toNat - 0x30 < 10 := by omega
  refine ⟨b.toNat - 0x30, hd, UInt8.toNat_inj.mp ?_⟩
  rw [digitByte_toNat hd]
  omega

theorem scan_digit {b : UInt8} (h : IsDigit b) : scan (b :: bs) = scanOther b bs := by
  obtain ⟨d, hd, rfl⟩ := isDigit_cases h
  interval_cases d <;> rfl

theorem digit_ne_minus {b : UInt8} (h : IsDigit b) : b ≠ minus := by
  obtain ⟨d, hd, rfl⟩ := isDigit_cases h
  interval_cases d <;> decide

theorem scan_writeNat {n : ℕ} (hrest : EndsNumber rest) :
    scan (writeNat n ++ rest) = (numberToken (writeNat n) .unsigned, rest) := by
  have hdigits := (writeNat_isDigits n).2
  rcases writeNat_isInt n with hn | ⟨hn, hhead⟩
  · rw [hn, List.singleton_append]
    exact scanNumber_ends (.inl rfl) hrest _
  · obtain ⟨b, ds, hcons⟩ := List.exists_cons_of_ne_nil hn.1
    rw [hcons] at hhead hdigits ⊢
    obtain ⟨hb, hds⟩ := List.forall_mem_cons.mp hdigits
    have hzero : b ≠ 0x30 := by simpa using hhead
    rw [List.cons_append, scan_digit hb, scanOther, if_neg (digit_ne_minus hb), if_neg hzero,
      if_pos (isDigit_iff.mpr hb), scanNumber_digits hds]
    exact scanNumber_ends (.inr rfl) hrest _

theorem scan_minus {n : ℕ} (hrest : EndsNumber rest) :
    scan (minus :: (writeNat n ++ rest)) = (numberToken (minus :: writeNat n) .integer, rest) := by
  have hother : scan (minus :: (writeNat n ++ rest)) =
      scanNumber .minus .integer [minus] (writeNat n ++ rest) := rfl
  rw [hother]
  apply scanNumber_writeNat hrest
  · rintro b rfl
    rfl
  · intro b hzero hdigit
    rw [NumberState.next, if_neg hzero, if_pos hdigit]

/-- The token of a written integer. -/
def integerToken (n : Int) : Token := if n < 0 then .integer n else .unsigned n.natAbs

theorem tokens_writeInt {n : Int} (hlow : -2 ^ 63 ≤ n) (hhigh : n < 2 ^ 64)
    (hrest : EndsNumber rest) : tokens (writeInt n ++ rest) = integerToken n :: tokens rest := by
  unfold writeInt integerToken
  split_ifs with hn
  · have hvalue : intOf (minus :: writeNat n.natAbs) = n := by
      have hminus : intOf (minus :: writeNat n.natAbs) = -(natOf (writeNat n.natAbs) : Int) := rfl
      rw [hminus, natOf_writeNat]
      omega
    have htoken : numberToken (minus :: writeNat n.natAbs) .integer = .integer n := by
      rw [numberToken, hvalue, if_pos hlow]
    apply tokens_of_scan _ rfl
    rw [List.cons_append, scan_minus hrest, htoken]
  · have htoken : numberToken (writeNat n.natAbs) .unsigned = .unsigned n.natAbs := by
      rw [numberToken, natOf_writeNat, if_pos (by omega)]
    apply tokens_of_scan _ rfl
    rw [scan_writeNat hrest, htoken]

end Tokens

/-- The values the parser holds exactly: integers of 64 bits, no fractions, and no key twice. -/
inductive Portable : Value → Prop
  | null : Portable .null
  | boolean (b : Bool) : Portable (.boolean b)
  | integer {n : Int} (hlow : -2 ^ 63 ≤ n) (hhigh : n < 2 ^ 64) : Portable (.integer n)
  | string (s : String) : Portable (.string s)
  | array {vs : List Value} (h : ∀ v ∈ vs, Portable v) : Portable (.array vs)
  | object {ms : List (String × Value)} (hkeys : (ms.map Prod.fst).Nodup)
      (h : ∀ m ∈ ms, Portable m.2) : Portable (.object ms)

theorem portable_of_scalar {v : Value} (h : v.IsScalar) : Portable v := by
  cases v with
  | null => exact .null
  | boolean b => exact .boolean b
  | integer n => exact .integer h.1 (lt_trans h.2 (by norm_num))
  | string s => exact .string s
  | float m e => exact h.elim
  | array vs => exact h.elim
  | object ms => exact h.elim

theorem portable_of_flat {ms : List (String × Value)} (h : Flat ms) : Portable (.object ms) :=
  .object h.distinct fun m hm => portable_of_scalar (h.scalar m hm)

theorem portable_of_shallow {v : Value} (h : v.IsShallow) : Portable v := by
  cases v with
  | object ms => exact portable_of_flat h
  | _ => exact portable_of_scalar h

mutual

/-- The tokens of a written value. -/
def valueTokens : Value → List Token
  | .null => [.literalNull]
  | .boolean true => [.literalTrue]
  | .boolean false => [.literalFalse]
  | .integer n => [integerToken n]
  | .float mantissa exponent => [.float (writeInt mantissa ++ letterE :: writeInt exponent)]
  | .string s => [.string (utf8Of s.toList)]
  | .array elements => .beginArray :: (elementTokens elements ++ [.endArray])
  | .object members => .beginObject :: (memberTokens members ++ [.endObject])

def elementTokens : List Value → List Token
  | [] => []
  | [v] => valueTokens v
  | v :: w :: rest => valueTokens v ++ .valueSeparator :: elementTokens (w :: rest)

def memberTokens : List (String × Value) → List Token
  | [] => []
  | [(key, v)] => .string (utf8Of key.toList) :: .nameSeparator :: valueTokens v
  | (key, v) :: m :: rest =>
    .string (utf8Of key.toList) :: .nameSeparator ::
      (valueTokens v ++ .valueSeparator :: memberTokens (m :: rest))

end

section Lexing

variable (encoder : Encoder) {rest : Bytes} {v : Value} {vs : List Value}
  {ms : List (String × Value)}

theorem endsNumber_comma : EndsNumber (comma :: rest) := by
  rintro b ⟨⟩
  exact ⟨rfl, rfl⟩

theorem endsNumber_rightBracket : EndsNumber (rightBracket :: rest) := by
  rintro b ⟨⟩
  exact ⟨rfl, rfl⟩

theorem endsNumber_rightBrace : EndsNumber (rightBrace :: rest) := by
  rintro b ⟨⟩
  exact ⟨rfl, rfl⟩

theorem tokens_writeElements
    (h : ∀ v ∈ vs, ∀ rest, EndsValue v rest →
      tokens (write encoder v ++ rest) = valueTokens v ++ tokens rest) (hrest : EndsNumber rest) :
    tokens (writeElements encoder vs ++ rest) = elementTokens vs ++ tokens rest := by
  induction vs with
  | nil => rfl
  | cons v vs ih =>
    obtain ⟨hv, hvs⟩ := List.forall_mem_cons.mp h
    cases vs with
    | nil => exact hv rest hrest.endsValue
    | cons w vs =>
      have hcomma : tokens (comma :: (writeElements encoder (w :: vs) ++ rest)) =
        .valueSeparator :: tokens (writeElements encoder (w :: vs) ++ rest) :=
        tokens_structural rfl rfl rfl
      rw [writeElements, elementTokens, List.append_assoc, List.cons_append,
        hv _ endsNumber_comma.endsValue, hcomma, ih hvs]
      simp

theorem tokens_writeMembers
    (h : ∀ m ∈ ms, ∀ rest, EndsValue m.2 rest →
      tokens (write encoder m.2 ++ rest) = valueTokens m.2 ++ tokens rest)
    (hrest : EndsNumber rest) :
    tokens (writeMembers encoder ms ++ rest) = memberTokens ms ++ tokens rest := by
  have hcolon (bs : Bytes) : tokens (colon :: bs) = .nameSeparator :: tokens bs :=
    tokens_structural rfl rfl rfl
  induction ms with
  | nil => rfl
  | cons m ms ih =>
    obtain ⟨key, v⟩ := m
    obtain ⟨hv, hms⟩ := List.forall_mem_cons.mp h
    cases ms with
    | nil =>
      rw [writeMembers, memberTokens, List.append_assoc, List.cons_append, tokens_writeString,
        hcolon, hv rest hrest.endsValue]
      rfl
    | cons m ms =>
      have hcomma : tokens (comma :: (writeMembers encoder (m :: ms) ++ rest)) =
        .valueSeparator :: tokens (writeMembers encoder (m :: ms) ++ rest) :=
        tokens_structural rfl rfl rfl
      rw [writeMembers, memberTokens, List.append_assoc, List.cons_append, List.append_assoc,
        List.cons_append, tokens_writeString, hcolon, hv _ endsNumber_comma.endsValue, hcomma,
        ih hms]
      simp

/-- The lexer takes a written value apart into its tokens. -/
theorem tokens_write (h : Portable v) :
    ∀ rest, EndsValue v rest → tokens (write encoder v ++ rest) = valueTokens v ++ tokens rest := by
  induction h with
  | null =>
    intro rest _
    exact tokens_of_scan rfl rfl
  | boolean b =>
    intro rest _
    cases b <;> exact tokens_of_scan rfl rfl
  | integer hlow hhigh =>
    intro rest hrest
    exact tokens_writeInt hlow hhigh (hrest _ rfl)
  | string s =>
    intro rest _
    exact tokens_writeString encoder s
  | @array vs h ih =>
    intro rest _
    have hopen (bs : Bytes) : tokens (leftBracket :: bs) = .beginArray :: tokens bs :=
      tokens_structural rfl rfl rfl
    have hclose : tokens (rightBracket :: rest) = .endArray :: tokens rest :=
      tokens_structural rfl rfl rfl
    have helements := tokens_writeElements encoder ih (@endsNumber_rightBracket rest)
    rw [write, valueTokens, List.cons_append, hopen, List.append_assoc, List.singleton_append,
      helements, hclose]
    simp
  | @object ms hkeys h ih =>
    intro rest _
    have hopen (bs : Bytes) : tokens (leftBrace :: bs) = .beginObject :: tokens bs :=
      tokens_structural rfl rfl rfl
    have hclose : tokens (rightBrace :: rest) = .endObject :: tokens rest :=
      tokens_structural rfl rfl rfl
    have hmembers := tokens_writeMembers encoder ih (@endsNumber_rightBrace rest)
    rw [write, valueTokens, List.cons_append, hopen, List.append_assoc, List.singleton_append,
      hmembers, hclose]
    simp

end Lexing

section Parsing

variable {v : Value} {vs read : List Value} {ms members : List (String × Value)}
  {frames : List ParseFrame} {ts : List Token} {c c' : Config} {token : Token}

@[simp] theorem parseTokens_cons (h : parseStep c token = .ok c') :
    parseTokens c (token :: ts) = parseTokens c' ts := by
  rw [parseTokens, List.foldlM_cons, h]
  rfl

/-- A value may stand where an array may also end. -/
theorem parseTokens_firstValue (v : Value) (ts : List Token) :
    parseTokens ⟨frames, .elementOrEnd⟩ (valueTokens v ++ ts) =
      parseTokens ⟨.array [] :: frames, .value⟩ (valueTokens v ++ ts) := by
  have hstep (token : Token) (rest : List Token) (h : token ≠ .endArray) :
      parseTokens ⟨frames, .elementOrEnd⟩ (token :: rest) =
        parseTokens ⟨.array [] :: frames, .value⟩ (token :: rest) := by
    have hsame : parseStep ⟨frames, .elementOrEnd⟩ token =
        parseStep ⟨.array [] :: frames, .value⟩ token := by
      cases token <;> first | rfl | exact absurd rfl h
    rw [parseTokens, parseTokens, List.foldlM_cons, List.foldlM_cons, hsame]
  cases v with
  | boolean b => cases b <;> exact hstep _ _ (by simp)
  | integer n =>
    apply hstep
    unfold integerToken
    split_ifs <;> simp
  | _ => exact hstep _ _ (by simp)

theorem parseTokens_firstElement (hne : vs ≠ []) :
    parseTokens ⟨frames, .elementOrEnd⟩ (elementTokens vs ++ ts) =
      parseTokens ⟨.array [] :: frames, .value⟩ (elementTokens vs ++ ts) := by
  obtain ⟨v, vs, rfl⟩ := List.exists_cons_of_ne_nil hne
  cases vs with
  | nil => exact parseTokens_firstValue v ts
  | cons w vs =>
    rw [elementTokens, List.append_assoc]
    exact parseTokens_firstValue v _

theorem setMember_new {key : String} (h : key ∉ members.map Prod.fst) :
    setMember key v members = members ++ [(key, v)] := by
  induction members with
  | nil => rfl
  | cons m members ih =>
    obtain ⟨k, w⟩ := m
    have hkey : k ≠ key := fun heq => h (by simp [heq])
    have hrest : key ∉ members.map Prod.fst := fun hmem => h (List.mem_cons_of_mem _ hmem)
    rw [setMember, if_neg hkey, ih hrest]
    rfl

theorem parseTokens_elements
    (h : ∀ v ∈ vs, ∀ frames ts, parseTokens ⟨frames, .value⟩ (valueTokens v ++ ts) =
      parseTokens (complete v frames) ts) (hne : vs ≠ []) :
    parseTokens ⟨.array read :: frames, .value⟩ (elementTokens vs ++ .endArray :: ts) =
      parseTokens (complete (.array (read ++ vs)) frames) ts := by
  induction vs generalizing read with
  | nil => exact absurd rfl hne
  | cons v vs ih =>
    obtain ⟨hv, hvs⟩ := List.forall_mem_cons.mp h
    cases vs with
    | nil =>
      rw [elementTokens, hv]
      exact parseTokens_cons rfl
    | cons w vs =>
      have hcomma : parseTokens (complete v (.array read :: frames))
          (.valueSeparator :: (elementTokens (w :: vs) ++ .endArray :: ts)) =
          parseTokens ⟨.array (read ++ [v]) :: frames, .value⟩
            (elementTokens (w :: vs) ++ .endArray :: ts) := parseTokens_cons rfl
      rw [elementTokens, List.append_assoc, List.cons_append, hv, hcomma, ih hvs (by simp),
        List.append_assoc, List.singleton_append]

theorem parseTokens_members
    (h : ∀ m ∈ ms, ∀ frames ts, parseTokens ⟨frames, .value⟩ (valueTokens m.2 ++ ts) =
      parseTokens (complete m.2 frames) ts)
    (hkeys : ((members ++ ms).map Prod.fst).Nodup) (hne : ms ≠ []) :
    parseTokens ⟨frames, .key members⟩ (memberTokens ms ++ .endObject :: ts) =
      parseTokens (complete (.object (members ++ ms)) frames) ts := by
  induction ms generalizing members with
  | nil => exact absurd rfl hne
  | cons m ms ih =>
    obtain ⟨key, v⟩ := m
    obtain ⟨hv, hms⟩ := List.forall_mem_cons.mp h
    have hnew : key ∉ members.map Prod.fst := by
      rw [List.map_append, List.nodup_append] at hkeys
      intro hmem
      exact hkeys.2.2 key hmem key (by simp) rfl
    have hstep : parseStep ⟨frames, .key members⟩ (.string (utf8Of key.toList)) =
        .ok ⟨frames, .separator members key⟩ := by
      simp [parseStep, readKey, textOf_utf8Of]
    have hkey (rest : List Token) : parseTokens ⟨frames, .key members⟩
        (.string (utf8Of key.toList) :: .nameSeparator :: rest) =
        parseTokens ⟨.object members key :: frames, .value⟩ rest := by
      rw [parseTokens_cons hstep]
      exact parseTokens_cons rfl
    have hcomplete : complete v (.object members key :: frames) =
        ⟨frames, .behindMember (members ++ [(key, v)])⟩ := by
      rw [complete, setMember_new hnew]
    cases ms with
    | nil =>
      rw [memberTokens, List.cons_append, List.cons_append, hkey, hv, hcomplete]
      exact parseTokens_cons rfl
    | cons m ms =>
      have hcomma : parseTokens ⟨frames, .behindMember (members ++ [(key, v)])⟩
          (.valueSeparator :: (memberTokens (m :: ms) ++ .endObject :: ts)) =
          parseTokens ⟨frames, .key (members ++ [(key, v)])⟩
            (memberTokens (m :: ms) ++ .endObject :: ts) := parseTokens_cons rfl
      rw [memberTokens, List.cons_append, List.cons_append, List.append_assoc, hkey,
        List.cons_append, hv, hcomplete, hcomma, ih hms (by simpa using hkeys) (by simp),
        List.append_assoc, List.singleton_append]

/-- An object's first key may stand where the object may also end. -/
theorem parseTokens_firstKey (hne : ms ≠ []) :
    parseTokens ⟨frames, .keyOrEnd⟩ (memberTokens ms ++ ts) =
      parseTokens ⟨frames, .key []⟩ (memberTokens ms ++ ts) := by
  obtain ⟨⟨key, v⟩, ms, rfl⟩ := List.exists_cons_of_ne_nil hne
  cases ms with
  | nil => rfl
  | cons m ms => rfl

/-- The tokens of a value are read as the value, whatever is open around it. -/
theorem parseTokens_value (h : Portable v) : ∀ frames ts,
    parseTokens ⟨frames, .value⟩ (valueTokens v ++ ts) = parseTokens (complete v frames) ts := by
  induction h with
  | null =>
    intro frames ts
    exact parseTokens_cons rfl
  | boolean b =>
    intro frames ts
    cases b <;> exact parseTokens_cons rfl
  | @integer n _ _ =>
    intro frames ts
    have hstep : parseStep ⟨frames, .value⟩ (integerToken n) =
        .ok (complete (.integer n) frames) := by
      unfold integerToken
      split_ifs with hn
      · rfl
      · have habs : (n.natAbs : Int) = n := by omega
        simp [parseStep, startValue, habs]
    exact parseTokens_cons hstep
  | string s =>
    intro frames ts
    have hstep : parseStep ⟨frames, .value⟩ (.string (utf8Of s.toList)) =
        .ok (complete (.string s) frames) := by
      simp [parseStep, startValue, textOf_utf8Of]
    exact parseTokens_cons hstep
  | @array vs h ih =>
    intro frames ts
    have hopen : parseStep ⟨frames, .value⟩ .beginArray = .ok ⟨frames, .elementOrEnd⟩ := rfl
    rw [valueTokens, List.cons_append, List.append_assoc, List.singleton_append,
      parseTokens_cons hopen]
    by_cases hne : vs = []
    · subst hne
      exact parseTokens_cons rfl
    · rw [parseTokens_firstElement hne]
      exact parseTokens_elements ih hne
  | @object ms hkeys h ih =>
    intro frames ts
    have hopen : parseStep ⟨frames, .value⟩ .beginObject = .ok ⟨frames, .keyOrEnd⟩ := rfl
    rw [valueTokens, List.cons_append, List.append_assoc, List.singleton_append,
      parseTokens_cons hopen]
    by_cases hne : ms = []
    · subst hne
      exact parseTokens_cons rfl
    · rw [parseTokens_firstKey hne]
      exact parseTokens_members ih (by simpa using hkeys) hne

theorem tokens_eq (bs : Bytes) : ∃ ts, tokens bs = (scan bs).1 :: ts := by
  rw [tokens]
  split
  rename_i token rest hscan
  rw [hscan]
  split_ifs
  · exact ⟨[], rfl⟩
  · exact ⟨tokens rest, rfl⟩

theorem write_ne_nil (encoder : Encoder) (v : Value) : write encoder v ≠ [] := by
  have hnumber (n : Int) : writeInt n ≠ [] := (writeInt_isNumber n).ne_nil
  cases v with
  | boolean b => cases b <;> simp [write]
  | integer n => exact hnumber n
  | float m e => simp [write]
  | _ => simp [write, writeString]

/-- No written value starts like a byte order mark. -/
theorem parse_eq_parseText (encoder : Encoder) (v : Value) (rest : Bytes) :
    parse (write encoder v ++ rest) = parseText (write encoder v ++ rest) := by
  obtain ⟨b, bs, hcons⟩ := List.exists_cons_of_ne_nil (write_ne_nil encoder v)
  have hascii : b < 0x7F := (write_printable encoder v b (by simp [hcons])).2
  have hmark : b ≠ 0xEF := by
    rintro rfl
    exact absurd hascii (by decide)
  rw [hcons, List.cons_append, parse]
  · simp [hmark]
  · simp [hmark]

/-- A written value is read back when nothing but the end of the input follows; another token
behind it is an error, whatever it is. -/
theorem parseText_write (encoder : Encoder) (h : Portable v) {rest : Bytes}
    (hrest : EndsValue v rest) : parseText (write encoder v ++ rest) =
      if (scan rest).1 = .endOfInput then .ok v
      else .error (syntaxError (scan rest).1 (some "end of input") "value") := by
  obtain ⟨ts, hts⟩ := tokens_eq rest
  rw [parseText, tokens_write encoder h rest hrest, parseTokens_value h]
  split_ifs with hend
  · rw [tokens_end hend]
    rfl
  · have hstep : parseStep (complete v []) (scan rest).1 =
        .error (syntaxError (scan rest).1 (some "end of input") "value") := by
      generalize (scan rest).1 = token at hend
      cases token <;> first | rfl | exact absurd rfl hend
    rw [hts, parseTokens, List.foldlM_cons, hstep]
    rfl

/-- A written value with nothing behind it. -/
theorem parseText_written (encoder : Encoder) (h : Portable v) :
    parseText (write encoder v) = .ok v := by
  have hends : EndsNumber [] := by
    intro b hb
    cases hb
  have hend : (scan []).1 = .endOfInput := rfl
  have hparse := parseText_write encoder h hends.endsValue
  rwa [List.append_nil, if_pos hend] at hparse

/-- Whatever encoder has written a value, it is read back, with a byte order mark or without, when
nothing but blanks or a zero byte follows; any other token behind it is an error. Only a number
needs something behind it that ends it. -/
theorem parse_write (encoder : Encoder) (h : Portable v) {mark rest : Bytes}
    (hmark : mark ∈ ([[], [0xEF, 0xBB, 0xBF]] : List Bytes)) (hrest : EndsValue v rest) :
    parse (mark ++ (write encoder v ++ rest)) =
      if (scan rest).1 = .endOfInput then .ok v
      else .error (syntaxError (scan rest).1 (some "end of input") "value") := by
  rw [← parseText_write encoder h hrest]
  simp only [List.mem_cons, List.not_mem_nil, or_false] at hmark
  rcases hmark with rfl | rfl
  · exact parse_eq_parseText encoder v rest
  · rfl

/-- Every character is escaped. -/
def escapingEncoder : Encoder where
  plain _ := false
  printable _ h := absurd h (by simp)

/-- A member and a blank behind the mark. -/
theorem parse_write_marked :
    parse ([0xEF, 0xBB, 0xBF] ++
      (write escapingEncoder (.object [("a", .integer (-5))]) ++ [0x20])) =
      .ok (.object [("a", .integer (-5))]) := by
  have hportable : Portable (.object [("a", .integer (-5))]) := by
    apply Portable.object (by simp)
    simp only [List.forall_mem_cons, List.not_mem_nil, false_implies, implies_true, and_true]
    exact .integer (by norm_num) (by norm_num)
  have hmark : ([0xEF, 0xBB, 0xBF] : Bytes) ∈ ([[], [0xEF, 0xBB, 0xBF]] : List Bytes) := by simp
  exact (parse_write escapingEncoder hportable hmark endsValue_object).trans (if_pos rfl)

end Parsing

end DriverBus.Nlohmann
