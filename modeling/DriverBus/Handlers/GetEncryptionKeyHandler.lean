import DriverBus.Foundations.Outcomes
import DriverBus.Foundations.Sha256
import DriverBus.Handlers.BaseDriverRequestHandler
import Mathlib.Tactic

/-!
# The key of a document

The handler hashes the bytes of the document's Id and answers with the hash in
hexadecimal. Neither the order of the bytes nor the text loses anything, so
two documents share a key only where their hashes collide.
-/

namespace DriverBus.Handlers

open DriverBus.Models DriverBus.Foundations

/-- The `i`-th byte of a `Guid` as its text shows it. -/
def guidByte (id : Guid) (i : ℕ) : UInt8 := .ofBitVec (id.bits.extractLsb' (8 * (15 - i)) 8)

/-- `Guid.ToByteArray`: the first three groups of the text have their last byte first. -/
def toByteArray (id : Guid) : List UInt8 :=
  [3, 2, 1, 0, 5, 4, 7, 6, 8, 9, 10, 11, 12, 13, 14, 15].map (guidByte id)

/-- `b.ToString("x2")`. -/
def x2 (b : UInt8) : List Char := [Nat.digitChar (b.toNat / 16), Nat.digitChar (b.toNat % 16)]

def hashString (hashBytes : List UInt8) : String := .ofList (hashBytes.flatMap x2)

/-- What one execution meets outside. -/
structure KeyOutside where
  log : Guid → Except Exn Unit
  delay : Except Exn Unit

/-- `GetEncryptionKeyHandler.ExecuteRequest`. -/
def GetEncryptionKeyHandler.executeRequest (os : KeyOutside) (documentGuid : Guid) :
    Except Exn String := do
  os.log documentGuid
  os.delay
  let guidBytes := toByteArray documentGuid
  let hashBytes := Sha256.hash guidBytes
  return hashString hashBytes

/-- The key of a document. -/
def encryptionKey (documentGuid : Guid) : String :=
  hashString (Sha256.hash (toByteArray documentGuid))

example : toByteArray ⟨0xebebbb69f9b34246a937f3bfe0f8f816⟩ =
    [0x69, 0xbb, 0xeb, 0xeb, 0xb3, 0xf9, 0x46, 0x42, 0xa9, 0x37, 0xf3, 0xbf, 0xe0, 0xf8, 0xf8,
      0x16] := by decide

variable {os : KeyOutside} {g h : Guid} {key : String}

/-- Whatever is returned is the key of the document. -/
theorem GetEncryptionKeyHandler.executeRequest_ok
    (hok : GetEncryptionKeyHandler.executeRequest os g = .ok key) : key = encryptionKey g := by
  obtain ⟨_, -, hrest⟩ := bind_eq_ok_iff.mp hok
  obtain ⟨_, -, hkey⟩ := bind_eq_ok_iff.mp hrest
  cases hkey
  rfl

/-- The bytes of a `Guid` determine it. -/
theorem guidByte_injective (hbytes : ∀ i < 16, guidByte g i = guidByte h i) : g = h := by
  have hbits : g.bits = h.bits := by
    apply BitVec.eq_of_getLsbD_eq
    intro k hk
    have hbyte := congrArg UInt8.toBitVec (hbytes (15 - k / 8) (by omega))
    have hbit := congrArg (fun b : BitVec 8 => b.getLsbD (k % 8)) hbyte
    have hplace : 8 * (15 - (15 - k / 8)) + k % 8 = k := by omega
    have hlt : k % 8 < 8 := Nat.mod_lt _ (by omega)
    simpa [guidByte, BitVec.getLsbD_extractLsb', hplace, hlt] using hbit
  cases g
  cases h
  exact congrArg Guid.mk hbits

theorem toByteArray_injective : Function.Injective toByteArray := by
  intro g h heq
  apply guidByte_injective
  intro i hi
  apply List.map_inj_left.mp heq
  interval_cases i <;> decide

theorem digitChar_injective {m n : ℕ} (hm : m < 16) (hn : n < 16)
    (heq : Nat.digitChar m = Nat.digitChar n) : m = n := by
  have hall : ∀ m n : Fin 16, Nat.digitChar m = Nat.digitChar n → m = n := by decide
  exact congrArg Fin.val (hall ⟨m, hm⟩ ⟨n, hn⟩ heq)

theorem x2_injective : Function.Injective x2 := by
  intro b c heq
  have hb := b.toNat_lt
  have hc := c.toNat_lt
  simp only [x2, List.cons.injEq, and_true] at heq
  have hhigh := digitChar_injective (by omega) (by omega) heq.1
  have hlow := digitChar_injective (by omega) (by omega) heq.2
  apply UInt8.toNat_inj.mp
  omega

theorem hashString_injective : Function.Injective hashString := by
  intro bs cs heq
  have hchars : bs.flatMap x2 = cs.flatMap x2 := String.ofList_injective heq
  induction bs generalizing cs with
  | nil =>
    cases cs with
    | nil => rfl
    | cons c cs => simp [x2] at hchars
  | cons b bs ih =>
    cases cs with
    | nil => simp [x2] at hchars
    | cons c cs =>
      rw [List.flatMap_cons, List.flatMap_cons] at hchars
      obtain ⟨hfirst, hrest⟩ := List.append_inj hchars rfl
      rw [x2_injective hfirst, ih (congrArg String.ofList hrest) hrest]

theorem digitChar_mem {n : ℕ} (hn : n < 16) : Nat.digitChar n ∈ "0123456789abcdef".toList := by
  interval_cases n <;> decide

/-- A key has 64 digits. -/
theorem encryptionKey_digits (g : Guid) : (encryptionKey g).toList.length = 64 ∧
    ∀ c ∈ (encryptionKey g).toList, c ∈ "0123456789abcdef".toList := by
  rw [encryptionKey, hashString, String.toList_ofList]
  constructor
  · simp [List.length_flatMap, x2]
  · intro c hc
    obtain ⟨b, -, hcb⟩ := List.mem_flatMap.mp hc
    have hb := b.toNat_lt
    simp only [x2, List.mem_cons, List.not_mem_nil, or_false] at hcb
    rcases hcb with rfl | rfl
    · exact digitChar_mem (by omega)
    · exact digitChar_mem (by omega)

/-- Two documents have one key exactly when the hashes of their bytes collide. -/
theorem encryptionKey_eq_iff : encryptionKey g = encryptionKey h ↔
    g = h ∨ (toByteArray g ≠ toByteArray h ∧
      Sha256.hash (toByteArray g) = Sha256.hash (toByteArray h)) := by
  have hkeys : encryptionKey g = encryptionKey h ↔
      Sha256.hash (toByteArray g) = Sha256.hash (toByteArray h) := hashString_injective.eq_iff
  rw [hkeys, toByteArray_injective.ne_iff]
  constructor
  · intro heq
    by_cases hg : g = h
    · exact .inl hg
    · exact .inr ⟨hg, heq⟩
  · rintro (rfl | ⟨-, heq⟩)
    · rfl
    · exact heq

/-- Whenever two requests get a key, each key has 64 digits, and both are the same only for one
document or for two whose different bytes have one hash. -/
theorem keys_of_documents {os' : KeyOutside} {key' : String}
    (hg : GetEncryptionKeyHandler.executeRequest os g = .ok key)
    (hh : GetEncryptionKeyHandler.executeRequest os' h = .ok key') :
    (key.toList.length = 64 ∧ ∀ c ∈ key.toList, c ∈ "0123456789abcdef".toList) ∧
      (key = key' ↔ g = h ∨ (toByteArray g ≠ toByteArray h ∧
        Sha256.hash (toByteArray g) = Sha256.hash (toByteArray h))) := by
  rw [GetEncryptionKeyHandler.executeRequest_ok hg, GetEncryptionKeyHandler.executeRequest_ok hh]
  exact ⟨encryptionKey_digits g, encryptionKey_eq_iff⟩

example (g : Guid) : GetEncryptionKeyHandler.executeRequest ⟨fun _ => .ok (), .ok ()⟩ g =
    .ok (encryptionKey g) := rfl

end DriverBus.Handlers
