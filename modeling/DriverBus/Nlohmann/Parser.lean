import DriverBus.Foundations.Outcomes
import DriverBus.Nlohmann.Lexer

/-!
# The parser of the driver's JSON library

One token is taken after the other, and a stack keeps the arrays and the
objects that are still open. Of a key that stands twice in an object the last
value counts. The lexer takes a zero byte for the end of the input, so what is
accepted is a text of the grammar up to the first such byte.
-/

namespace DriverBus.Nlohmann

open DriverBus.Foundations DriverBus.Foundations.Json

/-- An exception of the library: its number and what it says, without the place in the input. -/
structure ParseError where
  id : ℕ
  message : String
  deriving DecidableEq, Repr

/-- `token_type_name`. -/
def Token.name : Token → String
  | .literalTrue => "true literal"
  | .literalFalse => "false literal"
  | .literalNull => "null literal"
  | .string _ => "string literal"
  | .unsigned _ | .integer _ | .float _ => "number literal"
  | .beginArray => "'['"
  | .beginObject => "'\x7b'"
  | .endArray => "']'"
  | .endObject => "'\x7d'"
  | .nameSeparator => "':'"
  | .valueSeparator => "','"
  | .parseError _ => "<parse error>"
  | .endOfInput => "end of input"

def literalOrValue : String := "'[', '\x7b', or a literal"

/-- `exception_message`, without what has been read last. -/
def exceptionMessage (token : Token) (expected : Option String) (context : String) : String :=
  let found := match token with
    | .parseError message => message
    | _ => "unexpected " ++ token.name
  let missing := match expected with
    | some name => "; expected " ++ name
    | none => ""
  "syntax error while parsing " ++ context ++ " - " ++ found ++ missing

def syntaxError (token : Token) (expected : Option String) (context : String) : ParseError :=
  ⟨101, exceptionMessage token expected context⟩

/-- The characters of a UTF-8 text. -/
def textOf (bs : Bytes) : String := (String.fromUTF8? bs.toByteArray).getD ""

/-- The mantissa and the exponent of a number text. -/
def floatOf (text : Bytes) : Int × Int :=
  let significand := text.takeWhile fun b => !isE b
  let exponent := (text.dropWhile fun b => !isE b).drop 1
  let whole := significand.takeWhile (· ≠ 0x2E)
  let fraction := (significand.dropWhile (· ≠ 0x2E)).drop 1
  (intOf (whole ++ fraction), intOf exponent - fraction.length)

/-- The number does not round to an infinite `double`. -/
def IsFinite (mantissa exponent : Int) : Prop :=
  mantissa.natAbs * 10 ^ exponent.toNat < (2 ^ 1024 - 2 ^ 970) * 10 ^ (-exponent).toNat

instance (mantissa exponent : Int) : Decidable (IsFinite mantissa exponent) :=
  inferInstanceAs (Decidable (_ < _))

/-- What is still open around the next value. -/
inductive ParseFrame
  | array (elements : List Value)
  | object (members : List (String × Value)) (key : String)

/-- What the next token may be. -/
inductive ParseMode
  | value
  | elementOrEnd
  | behindElement (elements : List Value)
  | keyOrEnd
  | key (members : List (String × Value))
  | separator (members : List (String × Value)) (key : String)
  | behindMember (members : List (String × Value))
  | endOfInput (v : Value)
  | accepted (v : Value)

structure Config where
  frames : List ParseFrame
  mode : ParseMode

/-- `operator[]` of an object: a member with this key is replaced. -/
def setMember (key : String) (v : Value) : List (String × Value) → List (String × Value)
  | [] => [(key, v)]
  | (k, w) :: members =>
    if k = key then (k, v) :: members else (k, w) :: setMember key v members

/-- A value has been read. -/
def complete (v : Value) : List ParseFrame → Config
  | [] => ⟨[], .endOfInput v⟩
  | .array elements :: frames => ⟨frames, .behindElement (elements ++ [v])⟩
  | .object members key :: frames => ⟨frames, .behindMember (setMember key v members)⟩

/-- The first token of a value. -/
def startValue (frames : List ParseFrame) : Token → Except ParseError Config
  | .beginObject => .ok ⟨frames, .keyOrEnd⟩
  | .beginArray => .ok ⟨frames, .elementOrEnd⟩
  | .float text =>
    if IsFinite (floatOf text).1 (floatOf text).2 then
      .ok (complete (.float (floatOf text).1 (floatOf text).2) frames)
    else .error ⟨406, "number overflow parsing '" ++ textOf text ++ "'"⟩
  | .literalFalse => .ok (complete (.boolean false) frames)
  | .literalNull => .ok (complete .null frames)
  | .literalTrue => .ok (complete (.boolean true) frames)
  | .integer n => .ok (complete (.integer n) frames)
  | .string text => .ok (complete (.string (textOf text)) frames)
  | .unsigned n => .ok (complete (.integer n) frames)
  | .parseError message => .error (syntaxError (.parseError message) none "value")
  | token => .error (syntaxError token (some literalOrValue) "value")

def readKey (frames : List ParseFrame) (members : List (String × Value)) :
    Token → Except ParseError Config
  | .string text => .ok ⟨frames, .separator members (textOf text)⟩
  | token => .error (syntaxError token (some "string literal") "object key")

/-- What `sax_parse_internal`, and `parse` behind it, do with the next token. -/
def parseStep (c : Config) (token : Token) : Except ParseError Config :=
  match c.mode with
  | .value => startValue c.frames token
  | .elementOrEnd =>
    match token with
    | .endArray => .ok (complete (.array []) c.frames)
    | token => startValue (.array [] :: c.frames) token
  | .behindElement elements =>
    match token with
    | .valueSeparator => .ok ⟨.array elements :: c.frames, .value⟩
    | .endArray => .ok (complete (.array elements) c.frames)
    | token => .error (syntaxError token (some "']'") "array")
  | .keyOrEnd =>
    match token with
    | .endObject => .ok (complete (.object []) c.frames)
    | token => readKey c.frames [] token
  | .key members => readKey c.frames members token
  | .separator members key =>
    match token with
    | .nameSeparator => .ok ⟨.object members key :: c.frames, .value⟩
    | token => .error (syntaxError token (some "':'") "object separator")
  | .behindMember members =>
    match token with
    | .valueSeparator => .ok ⟨c.frames, .key members⟩
    | .endObject => .ok (complete (.object members) c.frames)
    | token => .error (syntaxError token (some "'\x7d'") "object")
  | .endOfInput v =>
    match token with
    | .endOfInput => .ok ⟨c.frames, .accepted v⟩
    | token => .error (syntaxError token (some "end of input") "value")
  | .accepted _ => .error (syntaxError token (some "end of input") "value")

def parseTokens (c : Config) (ts : List Token) : Except ParseError Config :=
  ts.foldlM parseStep c

/-- `parse` behind the byte order mark, in strict mode. -/
def parseText (bs : Bytes) : Except ParseError Value := do
  match (← parseTokens ⟨[], .value⟩ (tokens bs)).mode with
  | .accepted v => return v
  | _ => throw (syntaxError .endOfInput (some literalOrValue) "value")

def invalidMark : Token := .parseError "invalid BOM; must be 0xEF 0xBB 0xBF if given"

def parse : Bytes → Except ParseError Value
  | 0xEF :: 0xBB :: 0xBF :: bs => parseText bs
  | 0xEF :: _ => .error (syntaxError invalidMark none "value")
  | bs => parseText bs

section Soundness

/-- The lexer takes it for the end of the input. -/
def AtEnd (bs : Bytes) : Prop :=
  ∃ blanks rest, IsBlank blanks ∧ bs = blanks ++ rest ∧ (rest = [] ∨ rest.head? = some 0)

/-- The tokens of an input. -/
inductive Reads : List Token → Bytes → Prop
  | last {token bs} (h : token.last = true) (hend : token = .endOfInput → AtEnd bs) :
      Reads [token] bs
  | next {token ts blanks lexeme rest} (hblanks : IsBlank blanks) (hlex : Lexeme token lexeme)
      (h : Reads ts rest) : Reads (token :: ts) (blanks ++ (lexeme ++ rest))

/-- What follows an element up to the end of its array. -/
def ClosesArray (bs rest : Bytes) : Prop :=
  ∃ blanks, IsBlank blanks ∧ (bs = blanks ++ rightBracket :: rest ∨
    ∃ es, Derives .elements es ∧ bs = blanks ++ comma :: (es ++ rightBracket :: rest))

/-- What follows a member up to the end of its object. -/
def ClosesObject (bs rest : Bytes) : Prop :=
  ∃ blanks, IsBlank blanks ∧ (bs = blanks ++ rightBrace :: rest ∨
    ∃ ms, Derives .members ms ∧ bs = blanks ++ comma :: (ms ++ rightBrace :: rest))

/-- What follows a value when these frames are open around it. -/
def Closes : List ParseFrame → Bytes → Prop
  | [], bs => AtEnd bs
  | .array _ :: frames, bs => ∃ rest, ClosesArray bs rest ∧ Closes frames rest
  | .object _ _ :: frames, bs => ∃ rest, ClosesObject bs rest ∧ Closes frames rest

def StartsValue (bs rest : Bytes) : Prop :=
  ∃ blanks v, IsBlank blanks ∧ Derives .value v ∧ bs = blanks ++ (v ++ rest)

/-- Elements and the bracket behind them. -/
def StartsElements (bs rest : Bytes) : Prop :=
  ∃ es, Derives .elements es ∧ bs = es ++ rightBracket :: rest

def StartsMembers (bs rest : Bytes) : Prop :=
  ∃ ms, Derives .members ms ∧ bs = ms ++ rightBrace :: rest

/-- What the input still has to be for each mode. -/
def Demands (c : Config) (bs : Bytes) : Prop :=
  match c.mode with
  | .value => ∃ rest, StartsValue bs rest ∧ Closes c.frames rest
  | .elementOrEnd => ∃ rest, ((∃ blanks, IsBlank blanks ∧ bs = blanks ++ rightBracket :: rest) ∨
      StartsElements bs rest) ∧ Closes c.frames rest
  | .behindElement _ => ∃ rest, ClosesArray bs rest ∧ Closes c.frames rest
  | .keyOrEnd => ∃ rest, ((∃ blanks, IsBlank blanks ∧ bs = blanks ++ rightBrace :: rest) ∨
      StartsMembers bs rest) ∧ Closes c.frames rest
  | .key _ => ∃ rest, StartsMembers bs rest ∧ Closes c.frames rest
  | .separator _ _ => ∃ rest blanks after tail, IsBlank blanks ∧ bs = blanks ++ colon :: after ∧
      StartsValue after tail ∧ ClosesObject tail rest ∧ Closes c.frames rest
  | .behindMember _ => ∃ rest, ClosesObject bs rest ∧ Closes c.frames rest
  | .endOfInput _ => AtEnd bs
  | .accepted _ => False

variable {bs rest tail after blanks lexeme : Bytes} {token : Token} {ts : List Token} {v : Value}
  {frames : List ParseFrame} {members : List (String × Value)} {c c' : Config}

theorem startsElements_of (hvalue : StartsValue bs tail) (hclose : ClosesArray tail rest) :
    StartsElements bs rest := by
  obtain ⟨w, v, hw, hv, rfl⟩ := hvalue
  obtain ⟨w', hw', rfl | ⟨es, hes, rfl⟩⟩ := hclose
  · exact ⟨w ++ v ++ w', .lastElement (.element hw hv hw'), by simp⟩
  · exact ⟨w ++ v ++ w' ++ comma :: es, .moreElements (.element hw hv hw') hes, by simp⟩

theorem startsMembers_of {key between : Bytes} (hblanks : IsBlank blanks) (hkey : IsString key)
    (hbetween : IsBlank between) (hvalue : StartsValue after tail)
    (hclose : ClosesObject tail rest) :
    StartsMembers (blanks ++ (key ++ (between ++ colon :: after))) rest := by
  obtain ⟨w, v, hw, hv, rfl⟩ := hvalue
  obtain ⟨w', hw', rfl | ⟨ms, hms, rfl⟩⟩ := hclose
  · have hmember := Derives.member hblanks hkey hbetween (.element hw hv hw')
    exact ⟨_, .lastMember hmember, by simp⟩
  · have hmember := Derives.member hblanks hkey hbetween (.element hw hv hw')
    exact ⟨_, .moreMembers hmember hms, by simp⟩

theorem closes_of_complete (h : Demands (complete v frames) bs) : Closes frames bs := by
  cases frames with
  | nil => exact h
  | cons frame frames => cases frame <;> exact h

theorem startsValue_lexeme (hblanks : IsBlank blanks) (hv : Derives .value lexeme) :
    StartsValue (blanks ++ (lexeme ++ rest)) rest :=
  ⟨blanks, lexeme, hblanks, hv, rfl⟩

theorem startValue_sound (h : startValue frames token = .ok c) (hblanks : IsBlank blanks)
    (hlex : Lexeme token lexeme) (hrest : Demands c rest) :
    ∃ tail, StartsValue (blanks ++ (lexeme ++ rest)) tail ∧ Closes frames tail := by
  cases hlex with
  | literalTrue | literalFalse | literalNull =>
    cases h
    exact ⟨rest, startsValue_lexeme hblanks (.literal (by simp [literals])),
      closes_of_complete hrest⟩
  | string hs =>
    cases h
    exact ⟨rest, startsValue_lexeme hblanks (.string hs), closes_of_complete hrest⟩
  | unsigned hn | integer hn =>
    cases h
    exact ⟨rest, startsValue_lexeme hblanks (.number hn), closes_of_complete hrest⟩
  | float hn =>
    rw [startValue] at h
    split_ifs at h
    simp only [Except.ok.injEq] at h
    subst h
    exact ⟨rest, startsValue_lexeme hblanks (.number hn), closes_of_complete hrest⟩
  | beginArray =>
    cases h
    obtain ⟨tail, ⟨w, hw, rfl⟩ | ⟨es, hes, rfl⟩, hclose⟩ := hrest
    · exact ⟨tail, ⟨blanks, _, hblanks, .emptyArray hw, by simp⟩, hclose⟩
    · exact ⟨tail, ⟨blanks, _, hblanks, .array hes, by simp⟩, hclose⟩
  | beginObject =>
    cases h
    obtain ⟨tail, ⟨w, hw, rfl⟩ | ⟨ms, hms, rfl⟩, hclose⟩ := hrest
    · exact ⟨tail, ⟨blanks, _, hblanks, .emptyObject hw, by simp⟩, hclose⟩
    · exact ⟨tail, ⟨blanks, _, hblanks, .object hms, by simp⟩, hclose⟩
  | endArray | endObject | nameSeparator | valueSeparator => cases h

theorem readKey_sound (h : readKey frames members token = .ok c) (hblanks : IsBlank blanks)
    (hlex : Lexeme token lexeme) (hrest : Demands c rest) :
    ∃ tail, StartsMembers (blanks ++ (lexeme ++ rest)) tail ∧ Closes frames tail := by
  cases hlex with
  | string hs =>
    cases h
    obtain ⟨tail, between, after, behind, hbetween, rfl, hvalue, hclose, hframes⟩ := hrest
    exact ⟨tail, startsMembers_of hblanks hs hbetween hvalue hclose, hframes⟩
  | _ => cases h

/-- One token takes the demand from the rest of the input to the input with the token. -/
theorem parseStep_sound (h : parseStep c token = .ok c') (hblanks : IsBlank blanks)
    (hlex : Lexeme token lexeme) (hrest : Demands c' rest) :
    Demands c (blanks ++ (lexeme ++ rest)) := by
  obtain ⟨frames, mode⟩ := c
  cases mode with
  | value => exact startValue_sound h hblanks hlex hrest
  | elementOrEnd =>
    by_cases hend : token = .endArray
    · subst hend
      cases h
      cases hlex
      exact ⟨rest, .inl ⟨blanks, hblanks, rfl⟩, closes_of_complete hrest⟩
    · have hstart : startValue (.array [] :: frames) token = .ok c' := by
        cases token <;> first | exact h | exact absurd rfl hend
      obtain ⟨tail, hvalue, after, hclose, hframes⟩ := startValue_sound hstart hblanks hlex hrest
      exact ⟨after, .inr (startsElements_of hvalue hclose), hframes⟩
  | behindElement elements =>
    cases hlex with
    | valueSeparator =>
      cases h
      obtain ⟨tail, hvalue, after, hclose, hframes⟩ := hrest
      obtain ⟨es, hes, rfl⟩ := startsElements_of hvalue hclose
      exact ⟨after, ⟨blanks, hblanks, .inr ⟨es, hes, rfl⟩⟩, hframes⟩
    | endArray =>
      cases h
      exact ⟨rest, ⟨blanks, hblanks, .inl rfl⟩, closes_of_complete hrest⟩
    | _ => cases h
  | keyOrEnd =>
    by_cases hend : token = .endObject
    · subst hend
      cases h
      cases hlex
      exact ⟨rest, .inl ⟨blanks, hblanks, rfl⟩, closes_of_complete hrest⟩
    · have hkey : readKey frames [] token = .ok c' := by
        cases token <;> first | exact h | exact absurd rfl hend
      obtain ⟨tail, hmembers, hframes⟩ := readKey_sound hkey hblanks hlex hrest
      exact ⟨tail, .inr hmembers, hframes⟩
  | key members => exact readKey_sound h hblanks hlex hrest
  | separator members key =>
    cases hlex with
    | nameSeparator =>
      cases h
      obtain ⟨tail, hvalue, after, hclose, hframes⟩ := hrest
      exact ⟨after, blanks, rest, tail, hblanks, rfl, hvalue, hclose, hframes⟩
    | _ => cases h
  | behindMember members =>
    cases hlex with
    | valueSeparator =>
      cases h
      obtain ⟨tail, ⟨ms, hms, rfl⟩, hframes⟩ := hrest
      exact ⟨tail, ⟨blanks, hblanks, .inr ⟨ms, hms, rfl⟩⟩, hframes⟩
    | endObject =>
      cases h
      exact ⟨rest, ⟨blanks, hblanks, .inl rfl⟩, closes_of_complete hrest⟩
    | _ => cases h
  | endOfInput v =>
    cases hlex <;> cases h
  | accepted v => cases h

/-- Only the end of the input can be the last token that is taken. -/
theorem parseStep_last (h : parseStep c token = .ok c') (hlast : token.last = true) :
    token = .endOfInput ∧ ∃ v, c.mode = .endOfInput v := by
  obtain ⟨frames, mode⟩ := c
  cases token with
  | endOfInput =>
    cases mode with
    | endOfInput v => exact ⟨rfl, v, rfl⟩
    | _ => cases h
  | parseError message => cases mode <;> cases h
  | _ => cases hlast

theorem parseTokens_sound (hreads : Reads ts bs) (h : parseTokens c ts = .ok c') :
    Demands c bs := by
  induction hreads generalizing c with
  | last hlast hend =>
    obtain ⟨c₁, hstep, -⟩ := bind_eq_ok_iff.mp h
    obtain ⟨htoken, v, hmode⟩ := parseStep_last hstep hlast
    rw [Demands, hmode]
    exact hend htoken
  | next hblanks hlex _ ih =>
    obtain ⟨c₁, hstep, hrest⟩ := bind_eq_ok_iff.mp h
    exact parseStep_sound hstep hblanks hlex (ih hrest)

theorem scanNumber_ne_end {state : NumberState} {type : NumberType} {buffer : Bytes} :
    (scanNumber state type buffer bs).1 ≠ .endOfInput := by
  have htoken : ∀ buffer type, numberToken buffer type ≠ .endOfInput := by
    intro buffer type
    cases type <;> unfold numberToken <;> try split_ifs
    all_goals simp
  induction bs generalizing state type buffer with
  | nil =>
    rw [scanNumber]
    cases state.failure with
    | some message => simp
    | none => exact htoken buffer type
  | cons b bs ih =>
    rw [scanNumber]
    cases state.next b with
    | some next => exact ih
    | none =>
      cases state.failure with
      | some message => simp
      | none => exact htoken buffer type

theorem scanLiteral_ne_end {goal : Token} {cs : Bytes} (hgoal : goal ≠ .endOfInput) :
    (scanLiteral goal cs bs).1 ≠ .endOfInput := by
  induction cs generalizing bs with
  | nil => exact hgoal
  | cons c cs ih =>
    cases bs with
    | nil => simp [scanLiteral]
    | cons b bs =>
      rw [scanLiteral]
      split_ifs
      · exact ih
      · simp

theorem scanString_ne_end {buffer : Bytes} : (scanString buffer bs).1 ≠ .endOfInput := by
  fun_induction scanString buffer bs with
  | case1 | case3 => simp
  | case2 _ _ _ _ _ ih => exact ih

/-- Only a zero byte is taken for the end of the input. -/
theorem scanToken_end {b : UInt8} (h : (scanToken b bs).1 = .endOfInput) : b = 0 := by
  unfold scanToken at h
  split at h
  · rename_i token hstructural
    unfold structural at hstructural
    split_ifs at hstructural <;> cases hstructural <;> cases h
  · split_ifs at h
    · exact absurd h (scanLiteral_ne_end (by simp))
    · exact absurd h (scanLiteral_ne_end (by simp))
    · exact absurd h (scanLiteral_ne_end (by simp))
    · exact absurd h scanString_ne_end
    · unfold scanOther at h
      split_ifs at h with hminus hzero hdigit hnul
      · exact absurd h scanNumber_ne_end
      · exact absurd h scanNumber_ne_end
      · exact absurd h scanNumber_ne_end
      · exact hnul

theorem scan_end (h : (scan bs).1 = .endOfInput) : AtEnd bs := by
  have hsplit : bs.takeWhile isBlank ++ bs.dropWhile isBlank = bs := List.takeWhile_append_dropWhile
  unfold scan at h
  split at h
  · rename_i hdrop
    exact ⟨_, _, takeWhile_isBlank bs, hsplit.symm, .inl hdrop⟩
  · rename_i b after hdrop
    refine ⟨_, _, takeWhile_isBlank bs, hsplit.symm, .inr ?_⟩
    rw [hdrop, scanToken_end h]
    rfl

theorem tokens_reads (bs : Bytes) : Reads (tokens bs) bs := by
  fun_induction tokens bs with
  | case1 bs token rest hscan hlast =>
    apply Reads.last hlast
    intro hend
    apply scan_end
    rw [hscan, hend]
  | case2 bs token rest hscan hlast ih =>
    obtain ⟨blanks, lexeme, hblanks, hlex, rfl⟩ := scan_sound hscan (by simpa using hlast)
    exact .next hblanks hlex ih

/-- What the parser accepts is a text of the grammar, up to the first zero byte behind it. -/
theorem parseText_sound (h : parseText bs = .ok v) :
    ∃ text rest, IsText text ∧ bs = text ++ rest ∧ (rest = [] ∨ rest.head? = some 0) := by
  obtain ⟨c', htokens, -⟩ := bind_eq_ok_iff.mp h
  obtain ⟨rest, ⟨blanks, value, hblanks, hvalue, rfl⟩, hend⟩ :=
    parseTokens_sound (tokens_reads bs) htokens
  obtain ⟨blanks', rest, hblanks', rfl, hrest⟩ := hend
  exact ⟨blanks ++ value ++ blanks', rest, .element hblanks hvalue hblanks', by simp, hrest⟩

/-- The same behind a byte order mark, which may be left out. -/
theorem parse_sound (h : parse bs = .ok v) :
    ∃ mark ∈ ([[], [0xEF, 0xBB, 0xBF]] : List Bytes), ∃ text rest, IsText text ∧
      bs = mark ++ (text ++ rest) ∧ (rest = [] ∨ rest.head? = some 0) := by
  unfold parse at h
  split at h
  · rename_i bs
    obtain ⟨text, rest, htext, rfl, hrest⟩ := parseText_sound h
    exact ⟨[0xEF, 0xBB, 0xBF], by simp, text, rest, htext, rfl, hrest⟩
  · cases h
  · obtain ⟨text, rest, htext, rfl, hrest⟩ := parseText_sound h
    exact ⟨[], by simp, text, rest, htext, rfl, hrest⟩

/-- An array in front of a zero byte. -/
theorem parse_sound_array : ∃ mark ∈ ([[], [0xEF, 0xBB, 0xBF]] : List Bytes), ∃ text rest,
    IsText text ∧ ([0x5B, 0x5D, 0, 0x7B] : Bytes) = mark ++ (text ++ rest) ∧
      (rest = [] ∨ rest.head? = some 0) := by
  have htokens : tokens [0x5B, 0x5D, 0, 0x7B] = [.beginArray, .endArray, .endOfInput] := by
    rw [tokens_of_scan rfl rfl, tokens_of_scan rfl rfl, tokens_end rfl]
    rfl
  have hparse : parse [0x5B, 0x5D, 0, 0x7B] = .ok (.array []) := by
    have hmark : parse [0x5B, 0x5D, 0, 0x7B] = parseText [0x5B, 0x5D, 0, 0x7B] := rfl
    rw [hmark, parseText, htokens]
    rfl
  exact parse_sound hparse

end Soundness

end DriverBus.Nlohmann
