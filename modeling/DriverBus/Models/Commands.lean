import Mathlib.Data.List.Basic

/-!
# Commands and their results

The records the service and the driver exchange. Reference-typed properties
of the source may be null, so they are options here; `Guid` is its 128 bits.
Strings are those without unpaired surrogates.
-/

namespace DriverBus.Models

structure Guid where
  bits : BitVec 128
  deriving DecidableEq, Repr

/-- The named values of the enumeration. A JSON number may also produce a value
that has no name, which is kept in `other`. -/
inductive CommandType
  | default
  | setParams
  | setPermissions
  | getEncryptionKey
  | sendEventsBatch
  | other (value : Int)
  deriving DecidableEq, Repr

structure Command where
  id : Guid
  type : CommandType
  isEncrypted : Bool
  parameters : Option String
  deriving DecidableEq, Repr

structure CommandResult where
  id : Guid
  commandType : CommandType
  isSuccess : Bool
  errorCode : Option Int
  errorMessage : Option String
  result : Option String
  deriving DecidableEq, Repr

/-- What the code reads of an exception it has caught. -/
structure Exn where
  hResult : Int
  message : String
  deriving DecidableEq, Repr

end DriverBus.Models
