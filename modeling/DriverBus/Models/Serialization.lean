import DriverBus.Client.CommandResult
import DriverBus.Foundations.JsonValue
import DriverBus.Foundations.Outcomes
import DriverBus.Nlohmann.RoundTrip

/-!
# Serialized commands and results

What `JsonSerializer` makes of a command or a result with the options of the
bus, and what it reads back: property names are compared without case,
enumerations are written by name, and of a property that stands twice the last
one counts. A property that is missing keeps its default. An unpaired surrogate,
which would be written as U+FFFD, does not occur in the strings of the model.
-/

namespace DriverBus.Models

open DriverBus.Foundations DriverBus.Foundations.Json DriverBus.Client

/-- `JavaScriptEncoder.Default`: printable ASCII without the characters HTML gives a meaning. -/
def defaultEncoder : Encoder where
  plain n :=
    0x20 ≤ n && n < 0x7F && !([0x22, 0x26, 0x27, 0x2B, 0x3C, 0x3E, 0x5C, 0x60].contains n)
  printable n h := by
    simp only [Bool.and_eq_true, decide_eq_true_eq, Bool.not_eq_true', List.contains_eq_mem,
      decide_eq_false_iff_not, List.mem_cons, List.not_mem_nil, not_or] at h
    omega

/-- The texts `JsonSerializer` reads: only those of the grammar, and every shallow value. -/
structure TextReader where
  read : Bytes → Except Exn Value
  texts : ∀ {bs v}, read bs = .ok v → IsText bs
  reads : ∀ encoder {v}, v.IsShallow → read (write encoder v) = .ok v

/-- The parser of the driver's library, without the zero byte as an end of the input. -/
def libraryReader : TextReader where
  read bs :=
    if 0 ∈ bs then .error ⟨-2146233088, "invalid literal"⟩
    else
      match Nlohmann.parseText bs with
      | .ok v => .ok v
      | .error e => .error ⟨-2146233088, e.message⟩
  texts {bs v} h := by
    split_ifs at h with hzero
    split at h
    · rename_i w hparse
      obtain ⟨text, rest, htext, rfl, rfl | hrest⟩ := Nlohmann.parseText_sound hparse
      · simpa using htext
      · exact absurd (List.mem_append_right text (List.mem_of_head? hrest)) hzero
    · cases h
  reads encoder {v} h := by
    have hzero : (0 : UInt8) ∉ Json.write encoder v := by
      intro hmem
      exact absurd (write_printable encoder _ 0 hmem).1 (by decide)
    have hparse := Nlohmann.parseText_written encoder (Nlohmann.portable_of_shallow h)
    rw [if_neg hzero, hparse]

/-- The `JsonException` of a value that has the wrong form, without its place in the text. -/
def conversionError (type path : String) : Exn where
  hResult := -2146233088
  message := "The JSON value could not be converted to " ++ type ++ ". Path: " ++ path

def lowerCase (s : String) : String := .ofList (s.toList.map Char.toLower)

def InInt32 (n : Int) : Prop := -2 ^ 31 ≤ n ∧ n < 2 ^ 31

instance (n : Int) : Decidable (InInt32 n) := inferInstanceAs (Decidable (_ ∧ _))

def hexDigit (c : Char) : Option ℕ :=
  if '0' ≤ c ∧ c ≤ '9' then some (c.toNat - '0'.toNat)
  else if 'a' ≤ c ∧ c ≤ 'f' then some (c.toNat - 'a'.toNat + 10)
  else if 'A' ≤ c ∧ c ≤ 'F' then some (c.toNat - 'A'.toNat + 10)
  else none

/-- The `Guid` of a text in the format `D`. -/
def guidOf (s : String) : Option Guid :=
  let cs := s.toList
  let digits := cs.take 8 ++ (cs.drop 9).take 4 ++ (cs.drop 14).take 4 ++ (cs.drop 19).take 4 ++
    cs.drop 24
  if cs.length = 36 ∧ cs[8]? = some '-' ∧ cs[13]? = some '-' ∧ cs[18]? = some '-' ∧
      cs[23]? = some '-' then
    (digits.mapM hexDigit).map fun ds => ⟨.ofNat 128 (ds.foldl (fun n d => 16 * n + d) 0)⟩
  else none

namespace CommandType

def value : CommandType → Int
  | .default => 0
  | .setParams => 1
  | .setPermissions => 2
  | .getEncryptionKey => 3
  | .sendEventsBatch => 4
  | .other value => value

def ofValue : Int → CommandType
  | 0 => .default
  | 1 => .setParams
  | 2 => .setPermissions
  | 3 => .getEncryptionKey
  | 4 => .sendEventsBatch
  | value => .other value

/-- A value of the enumeration: one with a name is not kept as a number. -/
def IsValue (t : CommandType) : Prop := InInt32 t.value ∧ ofValue t.value = t

/-- The names of the enumeration, in lower case. -/
def names : List (String × ℕ) :=
  [("default", 0), ("setparams", 1), ("setpermissions", 2), ("getencryptionkey", 3),
    ("sendeventsbatch", 4)]

end CommandType

def trimStart (cs : List Char) : List Char := cs.dropWhile Char.isWhitespace

def trim (cs : List Char) : List Char := (trimStart (trimStart cs).reverse).reverse

/-- An integer with an optional sign. -/
def integerOf : List Char → Option Int
  | [] => none
  | '-' :: cs => (decimalOf cs).map fun n => -n
  | '+' :: cs => (decimalOf cs).map fun n => n
  | cs => (decimalOf cs).map fun n => n
where
  decimalOf (cs : List Char) : Option ℕ :=
    if cs ≠ [] ∧ cs.all Char.isDigit then
      some (cs.foldl (fun n c => 10 * n + (c.toNat - '0'.toNat)) 0)
    else none

/-- `Enum.TryParse`, ignoring case: a number, or names separated by commas. -/
def CommandType.parse (s : String) : Option CommandType :=
  match trimStart s.toList with
  | [] => none
  | c :: cs =>
    if c.isDigit ∨ c = '-' ∨ c = '+' then
      (integerOf (c :: cs)).bind fun n => if InInt32 n then some (.ofValue n) else none
    else
      (((c :: cs).splitOn ',').mapM fun name =>
        CommandType.names.lookup (lowerCase (.ofList (trim name)))).map fun values =>
          .ofValue (values.foldl (· ||| ·) 0 : ℕ)

def readGuid (path : String) : Value → Except Exn Guid
  | .string s =>
    match guidOf s with
    | some id => .ok id
    | none => .error (conversionError "System.Guid" path)
  | _ => .error (conversionError "System.Guid" path)

def readCommandType (path : String) : Value → Except Exn CommandType
  | .string s =>
    match CommandType.parse s with
    | some t => .ok t
    | none => .error (conversionError "DriverBusPrototype.Models.CommandType" path)
  | .integer n =>
    if InInt32 n then .ok (.ofValue n)
    else .error (conversionError "DriverBusPrototype.Models.CommandType" path)
  | _ => .error (conversionError "DriverBusPrototype.Models.CommandType" path)

def readBoolean (path : String) : Value → Except Exn Bool
  | .boolean b => .ok b
  | _ => .error (conversionError "System.Boolean" path)

def readString (path : String) : Value → Except Exn (Option String)
  | .string s => .ok (some s)
  | .null => .ok none
  | _ => .error (conversionError "System.String" path)

def readNullableInt32 (path : String) : Value → Except Exn (Option Int)
  | .integer n =>
    if InInt32 n then .ok (some n)
    else .error (conversionError "System.Nullable`1[System.Int32]" path)
  | .null => .ok none
  | _ => .error (conversionError "System.Nullable`1[System.Int32]" path)

/-- A `Command` as the deserializer creates it. -/
def Command.new : Command where
  id := ⟨0⟩
  type := .default
  isEncrypted := false
  parameters := none

def CommandResult.new : CommandResult where
  id := ⟨0⟩
  commandType := .default
  isSuccess := false
  errorCode := none
  errorMessage := none
  result := none

/-- A member of the object, in a property that has its name. -/
def Command.setProperty (c : Command) (m : String × Value) : Except Exn Command :=
  let path := "$." ++ m.1
  match lowerCase m.1 with
  | "id" => (readGuid path m.2).map fun id => { c with id := id }
  | "type" => (readCommandType path m.2).map fun type => { c with type := type }
  | "isencrypted" => (readBoolean path m.2).map fun b => { c with isEncrypted := b }
  | "parameters" => (readString path m.2).map fun s => { c with parameters := s }
  | _ => .ok c

def CommandResult.setProperty (r : CommandResult) (m : String × Value) :
    Except Exn CommandResult :=
  let path := "$." ++ m.1
  match lowerCase m.1 with
  | "id" => (readGuid path m.2).map fun id => { r with id := id }
  | "commandtype" => (readCommandType path m.2).map fun type => { r with commandType := type }
  | "issuccess" => (readBoolean path m.2).map fun b => { r with isSuccess := b }
  | "errorcode" => (readNullableInt32 path m.2).map fun code => { r with errorCode := code }
  | "errormessage" => (readString path m.2).map fun s => { r with errorMessage := s }
  | "result" => (readString path m.2).map fun s => { r with result := s }
  | _ => .ok r

/-- `JsonSerializer.Deserialize`, for a type with this name, defaults and properties. -/
def deserialize {α : Type} (reader : TextReader) (type : String) (new : α)
    (setProperty : α → String × Value → Except Exn α) (text : Bytes) : Except Exn (Option α) := do
  match ← reader.read text with
  | .null => return none
  | .object members => return some (← members.foldlM setProperty new)
  | _ => throw (conversionError type "$")

def Command.deserialize (reader : TextReader) : Bytes → Except Exn (Option Command) :=
  Models.deserialize reader "DriverBusPrototype.Models.Command" .new Command.setProperty

def CommandResult.deserialize (reader : TextReader) : Bytes → Except Exn (Option CommandResult) :=
  Models.deserialize reader "DriverBusPrototype.Models.CommandResult" .new
    CommandResult.setProperty

/-- The name, or the number of a value without one. -/
def CommandType.write : CommandType → Value
  | .default => .string "Default"
  | .setParams => .string "SetParams"
  | .setPermissions => .string "SetPermissions"
  | .getEncryptionKey => .string "GetEncryptionKey"
  | .sendEventsBatch => .string "SendEventsBatch"
  | .other value => .integer value

def orNull {α : Type} (f : α → Value) : Option α → Value
  | none => .null
  | some a => f a

def Command.members (c : Command) : List (String × Value) :=
  [("Id", .string (guidText c.id)), ("Type", c.type.write), ("IsEncrypted", .boolean c.isEncrypted),
    ("Parameters", orNull .string c.parameters)]

def CommandResult.members (r : CommandResult) : List (String × Value) :=
  [("Id", .string (guidText r.id)), ("CommandType", r.commandType.write),
    ("IsSuccess", .boolean r.isSuccess), ("ErrorCode", orNull .integer r.errorCode),
    ("ErrorMessage", orNull .string r.errorMessage), ("Result", orNull .string r.result)]

def Command.serialize (c : Command) : Bytes := write defaultEncoder (.object c.members)

def CommandResult.serialize (r : CommandResult) : Bytes := write defaultEncoder (.object r.members)

section Texts

theorem utf8_append (s t : String) : utf8 (s ++ t) = utf8 s ++ utf8 t := by
  simp [utf8, String.toByteArray_append]

theorem utf8_eq (s : String) : utf8 s = s.toList.flatMap String.utf8EncodeChar := by
  have hbytes : s.toByteArray = s.toList.utf8Encode := String.utf8Encode_toList.symm
  rw [utf8, String.toUTF8_eq_toByteArray, hbytes, List.utf8Encode, List.toList_data_toByteArray]

/-- The string of an ASCII text. -/
def textOf (text : Bytes) : String := .ofList (text.map fun b => .ofNat b.toNat)

theorem utf8_textOf {text : Bytes} (h : ∀ b ∈ text, b < 0x7F) : utf8 (textOf text) = text := by
  rw [utf8_eq, textOf, String.toList_ofList]
  induction text with
  | nil => rfl
  | cons b text ih =>
    obtain ⟨hb, htext⟩ := List.forall_mem_cons.mp h
    have hlt : b.toNat < 0x7F := hb
    have hvalid : b.toNat.isValidChar := by
      left
      omega
    have hchar : (Char.ofNat b.toNat).val.toNat = b.toNat := by
      rw [Char.ofNat, dif_pos hvalid]
      rfl
    have hencoded : String.utf8EncodeChar (Char.ofNat b.toNat) = [b] := by
      rw [String.utf8EncodeChar, hchar, if_pos (by omega)]
      simp
    rw [List.map_cons, List.flatMap_cons, hencoded, ih htext]
    rfl

/-- `JsonSerializer.Serialize` with the options of the bus. -/
def serializeText (v : Value) : String := textOf (Json.write defaultEncoder v)

theorem utf8_serializeText (v : Value) : utf8 (serializeText v) = Json.write defaultEncoder v :=
  utf8_textOf fun b hb => (write_printable defaultEncoder v b hb).2

/-- A shallow value is read back from the text it is serialized to. -/
theorem read_serializeText (reader : TextReader) {v : Value} (h : v.IsShallow) :
    reader.read (utf8 (serializeText v)) = .ok v := by
  rw [utf8_serializeText]
  exact reader.reads defaultEncoder h

end Texts

section Guids

theorem hexDigit_digitChar {d : ℕ} (h : d < 16) : hexDigit (Nat.digitChar d) = some d := by
  interval_cases d <;> rfl

theorem length_hexDigits (bits n : ℕ) : (hexDigits bits n).length = n := by
  induction n with
  | zero => rfl
  | succ n ih => simp [hexDigits, ih]

/-- The values of the digits, the highest first. -/
def digitValues (bits : ℕ) : ℕ → List ℕ
  | 0 => []
  | n + 1 => bits / 16 ^ n % 16 :: digitValues bits n

theorem mapM_hexDigits (bits n : ℕ) :
    (hexDigits bits n).mapM hexDigit = some (digitValues bits n) := by
  induction n with
  | zero => rfl
  | succ n ih =>
    have hdigit := hexDigit_digitChar (Nat.mod_lt (bits / 16 ^ n) (by omega : 16 > 0))
    rw [hexDigits, List.mapM_cons, hdigit, ih]
    rfl

theorem foldl_digitValues (bits n acc : ℕ) :
    (digitValues bits n).foldl (fun n d => 16 * n + d) acc = acc * 16 ^ n + bits % 16 ^ n := by
  induction n generalizing acc with
  | zero => simp [digitValues, Nat.mod_one]
  | succ n ih =>
    rw [digitValues, List.foldl_cons, ih, pow_succ, Nat.mod_mul]
    ring


/-- The groups of a text in the format `D`. -/
theorem guidOf_groups {a b c d e : List Char} (ha : a.length = 8) (hb : b.length = 4)
    (hc : c.length = 4) (hd : d.length = 4) (he : e.length = 12) :
    guidOf (.ofList (a ++ '-' :: b ++ '-' :: c ++ '-' :: d ++ '-' :: e)) =
      ((a ++ b ++ c ++ d ++ e).mapM hexDigit).map fun ds =>
        ⟨.ofNat 128 (ds.foldl (fun n d => 16 * n + d) 0)⟩ := by
  unfold guidOf
  simp [List.drop_append, List.drop_of_length_le, ha, hb, hc, hd, he]

theorem guidOf_guidText (id : Guid) : guidOf (guidText id) = some id := by
  have hlength := length_hexDigits id.bits.toNat 32
  have hdigits := mapM_hexDigits id.bits.toNat 32
  have hvalue := foldl_digitValues id.bits.toNat 32 0
  have hbits : id.bits.toNat % 16 ^ 32 = id.bits.toNat := Nat.mod_eq_of_lt id.bits.isLt
  unfold guidText
  simp only
  generalize hexDigits id.bits.toNat 32 = ds at hlength hdigits
  have hjoin : ds.take 8 ++ (ds.drop 8).take 4 ++ (ds.drop 12).take 4 ++ (ds.drop 16).take 4 ++
      ds.drop 20 = ds := by
    have hgroup (j k : ℕ) : (ds.drop j).take k ++ ds.drop (j + k) = ds.drop j := by
      rw [← List.drop_drop]
      exact List.take_append_drop k _
    rw [List.append_assoc, hgroup 16 4, List.append_assoc, hgroup 12 4, List.append_assoc,
      hgroup 8 4, List.take_append_drop]
  rw [guidOf_groups (by simp [hlength]) (by simp [hlength]) (by simp [hlength]) (by simp [hlength])
    (by simp [hlength]), hjoin, hdigits, Option.map_some, hvalue, hbits, Nat.zero_mul, Nat.zero_add,
    BitVec.ofNat_toNat]
  simp

end Guids

section RoundTrips

variable {c : Command} {r : CommandResult} {t : CommandType} {path : String}

@[simp] theorem readGuid_guidText (id : Guid) : readGuid path (.string (guidText id)) = .ok id := by
  rw [readGuid, guidOf_guidText]

@[simp] theorem readBoolean_boolean (b : Bool) : readBoolean path (.boolean b) = .ok b := rfl

@[simp] theorem readString_orNull (s : Option String) :
    readString path (orNull .string s) = .ok s := by
  cases s <;> rfl

theorem readNullableInt32_orNull {code : Option Int} (h : ∀ n ∈ code, InInt32 n) :
    readNullableInt32 path (orNull .integer code) = .ok code := by
  cases code with
  | none => rfl
  | some n => exact if_pos (h n rfl)

theorem readCommandType_write (h : t.IsValue) : readCommandType path t.write = .ok t := by
  cases t with
  | other value =>
    have hread : readCommandType path (.integer value) = .ok (.ofValue value) := if_pos h.1
    have hvalue : CommandType.ofValue value = .other value := h.2
    rw [CommandType.write, hread, hvalue]
  | _ => rfl

theorem CommandType.write_isScalar (h : t.IsValue) : t.write.IsScalar := by
  cases t with
  | other value =>
    have hrange := h.1
    simp only [CommandType.value, InInt32] at hrange
    constructor <;> omega
  | _ => trivial

theorem orNull_isScalar {α : Type} {f : α → Value} {a : Option α}
    (h : ∀ x ∈ a, (f x).IsScalar) : (orNull f a).IsScalar := by
  cases a with
  | none => trivial
  | some x => exact h x rfl

theorem Command.members_flat (h : c.type.IsValue) : Flat c.members where
  distinct := by
    have hkeys : c.members.map Prod.fst = ["Id", "Type", "IsEncrypted", "Parameters"] := rfl
    rw [hkeys]
    decide
  scalar := by
    simp only [members, List.forall_mem_cons, List.not_mem_nil, false_implies, implies_true,
      and_true]
    exact ⟨trivial, CommandType.write_isScalar h, trivial, orNull_isScalar fun _ _ => trivial⟩

/-- The values of the result's types. -/
structure CommandResult.IsValue (r : CommandResult) : Prop where
  commandType : r.commandType.IsValue
  errorCode : ∀ n ∈ r.errorCode, InInt32 n

theorem CommandResult.members_flat (h : r.IsValue) : Flat r.members where
  distinct := by
    have hkeys : r.members.map Prod.fst =
      ["Id", "CommandType", "IsSuccess", "ErrorCode", "ErrorMessage", "Result"] := rfl
    rw [hkeys]
    decide
  scalar := by
    have hcode : (orNull Value.integer r.errorCode).IsScalar := by
      apply orNull_isScalar
      intro n hn
      obtain ⟨hlow, hhigh⟩ := h.errorCode n hn
      constructor <;> omega
    simp only [members, List.forall_mem_cons, List.not_mem_nil, false_implies, implies_true,
      and_true]
    exact ⟨trivial, CommandType.write_isScalar h.commandType, trivial, hcode,
      orNull_isScalar fun _ _ => trivial, orNull_isScalar fun _ _ => trivial⟩

theorem Command.setProperties (h : c.type.IsValue) :
    c.members.foldlM Command.setProperty .new = .ok c := by
  have hid : lowerCase "Id" = "id" := rfl
  have htype : lowerCase "Type" = "type" := rfl
  have hencrypted : lowerCase "IsEncrypted" = "isencrypted" := rfl
  have hparameters : lowerCase "Parameters" = "parameters" := rfl
  simp [members, setProperty, hid, htype, hencrypted, hparameters, readCommandType_write h,
    Except.map, bind, Except.bind, pure, Except.pure]

theorem CommandResult.setProperties (h : r.IsValue) :
    r.members.foldlM CommandResult.setProperty .new = .ok r := by
  have hid : lowerCase "Id" = "id" := rfl
  have htype : lowerCase "CommandType" = "commandtype" := rfl
  have hsuccess : lowerCase "IsSuccess" = "issuccess" := rfl
  have hcode : lowerCase "ErrorCode" = "errorcode" := rfl
  have hmessage : lowerCase "ErrorMessage" = "errormessage" := rfl
  have hresult : lowerCase "Result" = "result" := rfl
  simp [members, setProperty, hid, htype, hsuccess, hcode, hmessage, hresult,
    readCommandType_write h.commandType, readNullableInt32_orNull h.errorCode, Except.map, bind,
    Except.bind, pure, Except.pure]

theorem deserialize_object {α : Type} {type : String} {new a : α}
    {setProperty : α → String × Value → Except Exn α} {ms : List (String × Value)}
    (reader : TextReader) (encoder : Encoder) (hflat : Flat ms)
    (hset : ms.foldlM setProperty new = .ok a) :
    deserialize reader type new setProperty (Json.write encoder (.object ms)) = .ok (some a) := by
  have hread : reader.read (Json.write encoder (.object ms)) = .ok (.object ms) :=
    reader.reads encoder hflat
  simp [deserialize, hread, hset, bind, Except.bind, pure, Except.pure]

/-- Whatever reads the texts of the grammar, a command and a result are read back as they were,
nulls, escapes and values without a name included. -/
theorem deserialize_serialize (reader : TextReader) :
    (∀ c : Command, c.type.IsValue →
      Command.deserialize reader c.serialize = .ok (some c)) ∧
    ∀ r : CommandResult, r.IsValue →
      CommandResult.deserialize reader r.serialize = .ok (some r) := by
  constructor
  · intro c h
    exact deserialize_object reader defaultEncoder (Command.members_flat h)
      (Command.setProperties h)
  · intro r h
    exact deserialize_object reader defaultEncoder (CommandResult.members_flat h)
      (CommandResult.setProperties h)

/-- A command without a name for its type, and a failed result. -/
theorem deserialize_serialize_unnamed :
    Command.deserialize libraryReader
        (Command.serialize ⟨⟨0xff⟩, .other 9, true, some "a\n\"é\""⟩) =
      .ok (some ⟨⟨0xff⟩, .other 9, true, some "a\n\"é\""⟩) ∧
    CommandResult.deserialize libraryReader
        (CommandResult.serialize ⟨⟨1⟩, .default, false, some (-2146233088), some "<", none⟩) =
      .ok (some ⟨⟨1⟩, .default, false, some (-2146233088), some "<", none⟩) := by
  have htype : (CommandType.other 9).IsValue := ⟨by decide, rfl⟩
  have hdefault : CommandType.default.IsValue := ⟨by decide, rfl⟩
  have hcode : ∀ n ∈ some (-2146233088), InInt32 n := by
    intro n hn
    cases hn
    decide
  exact ⟨(deserialize_serialize libraryReader).1 _ htype,
    (deserialize_serialize libraryReader).2 _ ⟨hdefault, hcode⟩⟩

end RoundTrips

end DriverBus.Models
