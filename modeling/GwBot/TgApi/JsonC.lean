import GwBot.Errno
import GwBot.Lib.RefTree
import Mathlib.Algebra.Order.Ring.Int

/-!
# What the parser uses of json-c and of malloc

json-c is not part of the repository: its values are reference-counted trees, the members and elements of a value are looked up here
as json-c does, and what it makes of a value asked for as a number or a string, and its tokener, are parameters. `malloc` hands out
addresses that were never used before, and remembers what was freed.
-/

namespace GwBot

open Lib

/-! ## Values -/

/-- What a `json_object` is, apart from its children: those of an array are its elements, those of an object the members of its keys. -/
inductive JsonType where
  | boolean (b : Bool)
  | double (text : String)
  | int (n : Int)
  | object (keys : List String)
  | array
  | string (s : String)
  deriving DecidableEq, Repr

/-- `json_object *`. JSON's null is the null pointer. -/
abbrev JsonObject := RefTree JsonType

/-- What json-c makes of a value that is asked for as a scalar. -/
structure JsonC where
  getUint64 : JsonObject → UInt64
  getInt64 : JsonObject → Int
  getString : JsonObject → String
  getBoolean : JsonObject → Bool

/-- `json_object_object_get_ex`: false for what is not an object; true for a member that is null. -/
def jsonObjectObjectGetEx : JsonObject → String → Option JsonObject
  | .node _ (.object keys) members, key => (keys.zip members).lookup key
  | _, _ => none

/-- `json_object_array_length` and `json_object_array_get_idx` of every index below it; `none` for what is not an array, where
json-c's assertion fails. -/
def jsonObjectArray : JsonObject → Option (List JsonObject)
  | .node _ .array elems => some elems
  | _ => none

/-- `json_object_get_uint64`. -/
def jsonObjectGetUint64 (J : JsonC) : JsonObject → UInt64
  | .nil => 0
  | res => J.getUint64 res

/-- `json_object_get_int64`. -/
def jsonObjectGetInt64 (J : JsonC) : JsonObject → Int
  | .nil => 0
  | res => J.getInt64 res

/-- `json_object_get_string`; `none` is `NULL`. -/
def jsonObjectGetString (J : JsonC) : JsonObject → Option String
  | .nil => none
  | res => some (J.getString res)

/-- The characters of a C string, up to the NUL. -/
def cString (text : String) : List Char := text.toList.takeWhile (fun c => c ≠ Char.ofNat 0)

/-- `json_object_get_boolean`. -/
def jsonObjectGetBoolean (J : JsonC) : JsonObject → Bool
  | .nil => false
  | res => J.getBoolean res

/-! ## Memory -/

/-- The blocks that `malloc` has handed out, by address, those that were freed, in order, and json-c's values. -/
structure Mem where
  next : Nat
  freed : List Nat
  json : RefHeap

namespace Mem

/-- Nothing is allocated. -/
def empty : Mem := ⟨0, [], ⟨fun _ => 0, []⟩⟩

/-- `malloc` and `calloc`; whether they succeed is given. -/
def malloc (mem : Mem) (ok : Bool) : Mem × Option Nat :=
  if ok then ({ mem with next := mem.next + 1 }, some mem.next) else (mem, none)

/-- `free`. -/
def free (mem : Mem) : Option Nat → Mem
  | none => mem
  | some a => { mem with freed := mem.freed ++ [a] }

/-- `json_object_get`. -/
def jsonObjectGet (mem : Mem) (jobj : JsonObject) : Mem := { mem with json := RefTree.get mem.json jobj }

/-- `json_object_put`: 1 if that freed the value, else 0. -/
def jsonObjectPut (mem : Mem) (jobj : JsonObject) : Mem × Int :=
  ({ mem with json := (RefTree.put mem.json jobj).1 }, if (RefTree.put mem.json jobj).2 then 1 else 0)

@[simp] theorem free_next (mem : Mem) (p : Option Nat) : (mem.free p).next = mem.next := by cases p <;> rfl

@[simp] theorem free_json (mem : Mem) (p : Option Nat) : (mem.free p).json = mem.json := by cases p <;> rfl

end Mem

/-! ## The tokener -/

/-- `enum json_tokener_error`, as far as the code tells its values apart. -/
inductive JsonTokenerError where
  | success
  | continue
  | error (n : Nat)
  deriving DecidableEq, Repr

/-- A `json_tokener`: what `json_tokener_new` returns, and `json_tokener_parse_ex` with the error that it leaves. -/
structure JsonTokener where
  State : Type
  new : State
  parseEx : State → List UInt8 → Int → State × JsonObject × JsonTokenerError

/-- `(int)len`. -/
def intOfSize (len : Nat) : Int := (len : Int).bmod (2 ^ 32)

/-- Below 2^31 a size is an `int` as it is. -/
theorem intOfSize_of_lt {len : Nat} (h : len < 2 ^ 31) : intOfSize len = len := by
  unfold intOfSize
  exact Int.bmod_eq_of_le (by omega) (by omega)

variable (tok : JsonTokener)

/-- The loop of `parse_json`; `none` when it goes on for longer than `fuel`. -/
def parseLoop (json : List UInt8) (len : Int) : Nat → tok.State → Option (JsonObject × JsonTokenerError)
  | 0, _ => none
  | fuel + 1, st =>
    match tok.parseEx st json len with
    | (st', jobj, jerr) => if jerr = .continue then parseLoop json len fuel st' else some (jobj, jerr)

/-- `parse_json`: the value that it stores in `*jobj_p`, or the error. `tokenerNew` is whether `json_tokener_new` succeeds. -/
def parseJson (fuel : Nat) (tokenerNew : Bool) (json : List UInt8) (len : Nat) : Option (Except Int JsonObject) :=
  if tokenerNew = false then some (.error (-ENOMEM))
  else
    match parseLoop tok json (intOfSize len) fuel tok.new with
    | none => none
    | some (jobj, jerr) => if jerr = .success then some (.ok jobj) else some (.error (-EINVAL))

end GwBot
