import Mathlib.Algebra.Group.Int.Defs
import Mathlib.Algebra.Group.Nat.Defs
import Mathlib.Data.Int.DivMod

/-!
# Data of the binding

The C structures of `bridge.h`, the Go structures of `tensor.go`, `runtime.go` and `session.go`,
and the enumerations of the vendored headers they use. A C pointer to a structure is the
structure itself with its address (`addr`); a pointer that may be NULL is an `Option`; a data
pointer is an address, 0 for NULL. Go strings and C strings are their bytes.

A Go `(value, error)` result is an `Except`: the code returns a nil value with every error.
-/

namespace Onnxcraft

/-- What the code leaves to the platform: the bits of `size_t`, `uintptr_t` and Go's `int`, and
the address of the static `empty` of `bridge.c`. -/
class Platform where
  bits : Nat
  bits_eq : bits = 32 ∨ bits = 64
  emptyAddr : Nat
  emptyAddr_ne : emptyAddr ≠ 0

section
variable [Platform]

/-- Arithmetic of `size_t`. -/
def sizeMod (n : Nat) : Nat := n % 2 ^ Platform.bits

/-- `SIZE_MAX`. -/
def sizeMax : Nat := 2 ^ Platform.bits - 1

/-- `math.MaxInt`. -/
def maxInt : Int := 2 ^ (Platform.bits - 1) - 1

/-- Arithmetic of Go's `int`. -/
def wrapInt (n : Int) : Int := n.bmod (2 ^ Platform.bits)

/-- The conversions `C.size_t(n)` and `uintptr(n)` of an `int`. -/
def toSize (n : Int) : Nat := (n % 2 ^ Platform.bits).toNat

/-- The conversion `int(n)` of a `size_t`. -/
def toInt (n : Nat) : Int := wrapInt n

/-- `sizeof` of a pointer. -/
def pointerBytes : Nat := Platform.bits / 8

end

/-- A native object's address. -/
abbrev Handle := Nat

/-- The bytes of a string. -/
abbrev GoString := List UInt8

/-- The bytes of an ASCII literal. -/
def ascii (s : String) : GoString := s.toList.map fun c => UInt8.ofNat c.toNat

/-! ## Enumerations of the vendored headers -/

inductive OrtErrorCode where
  | fail | notImplemented
  deriving DecidableEq, Repr

def OrtErrorCode.code : OrtErrorCode → Int
  | .fail => 1
  | .notImplemented => 9

/-- `ONNXTensorElementDataType`. -/
inductive ElementType where
  | undefined | float | uint8 | int8 | uint16 | int16 | int32 | int64 | string | bool
  | float16 | double | uint32 | uint64 | complex64 | complex128 | bfloat16
  | float8e4m3fn | float8e4m3fnuz | float8e5m2 | float8e5m2fnuz
  | uint4 | int4 | float4e2m1 | uint2 | int2 | float8e8m0
  deriving DecidableEq, Repr

/-- The value of the C enumerator: its place in the enumeration. -/
def ElementType.code (t : ElementType) : Nat := t.ctorIdx

/-- `ONNXType`. -/
inductive OnnxType where
  | unknown | tensor | sequence | map | opaqueType | sparseTensor | optional
  deriving DecidableEq, Repr

/-- `OrtMemoryInfoDeviceType`. -/
inductive DeviceType where
  | cpu | gpu | fpga | npu
  deriving DecidableEq, Repr

/-- `GraphOptimizationLevel`, the four levels `oc_options_new` chooses from. -/
inductive GraphOptimizationLevel where
  | enableAll | disableAll | enableBasic | enableExtended
  deriving DecidableEq, Repr

/-- `ExecutionMode`. -/
inductive ExecutionMode where
  | sequential | parallel
  deriving DecidableEq, Repr

/-! ## bridge.h -/

/-- An `OrtStatus` object: code and message never change. -/
structure OrtStatus where
  addr : Handle
  code : Int
  message : GoString
  deriving DecidableEq, Repr

/-- A heap array: its address and its elements. -/
structure Arr (α : Type) where
  addr : Handle
  slots : List α
  deriving DecidableEq, Repr

/-- A C string: its address and its bytes. -/
structure CStr where
  addr : Handle
  text : GoString
  deriving DecidableEq, Repr

structure OcRuntime where
  addr : Handle
  library : Option Handle
  api : Option Handle
  env : Option Handle
  memory : Option Handle
  allocator : Option Handle
  version : GoString
  deriving DecidableEq, Repr

structure OcPort where
  name : Option CStr
  type : Nat
  shape : Option (Arr Int)
  rank : Nat
  deriving DecidableEq, Repr

/-- A port as `calloc` leaves it. -/
def OcPort.zero : OcPort := ⟨none, 0, none, 0⟩

structure OcSession where
  addr : Handle
  runtime : OcRuntime
  handle : Option Handle
  inputs : Nat
  outputs : Nat
  ports : Option (Arr OcPort)
  names : Option (Arr (Option CStr))
  deriving DecidableEq, Repr

structure OcOptions where
  intraThreads : Int
  interThreads : Int
  parallel : Bool
  optimization : Nat
  deriving DecidableEq, Repr

/-- A descriptor. `shape` is the list of dimensions the C pointer addresses. -/
structure OcTensor where
  data : Nat
  shape : List Int
  bytes : Nat
  rank : Nat
  type : Nat
  value : Option Handle
  deriving DecidableEq, Repr

/-- A descriptor as `make` and `memset` leave it. -/
def OcTensor.zero : OcTensor := ⟨0, [], 0, 0, 0, none⟩

/-! ## tensor.go -/

/-- `type DataType uint8`. -/
structure DataType where
  val : UInt8
  deriving DecidableEq, Repr

namespace DataType

/-- The conversion `DataType(n)` of a C enumerator keeps the low byte. -/
def ofCode (n : Nat) : DataType := ⟨UInt8.ofNat n⟩

/-- The table of `DataType.size`. -/
def sizes : List Int := [0, 4, 1, 1, 2, 2, 4, 8, 0, 1, 2, 8, 4, 8, 0, 0, 2]

def size (d : DataType) : Int := sizes[d.val.toNat]?.getD 0

/-- The table of `DataType.String`. -/
def names : List String :=
  ["", "float32", "uint8", "int8", "uint16", "int16", "int32", "int64", "", "bool", "float16",
    "float64", "uint32", "uint64", "", "", "bfloat16"]

/-- `DataType.String`. -/
def string (d : DataType) : GoString :=
  match names[d.val.toNat]? with
  | some name => if name = "" then ascii s!"DataType({d.val.toNat})" else ascii name
  | none => ascii s!"DataType({d.val.toNat})"

end DataType

structure Tensor where
  data : Nat
  shape : List Int
  length : Int
  dtype : DataType
  deriving DecidableEq, Repr

/-! ## Errors -/

structure NativeError where
  code : Int
  message : GoString
  deriving DecidableEq, Repr

/-- What `ctx.Err()` returns of a context that is done. -/
inductive CtxError where
  | canceled | deadlineExceeded
  deriving DecidableEq, Repr

/-- An argument of a format string. -/
inductive Arg where
  | int (n : Int)
  | ints (l : List Int)
  | str (s : GoString)
  deriving DecidableEq, Repr

/-- A Go error: a sentinel, a native error, or the format string and the arguments it was made
with (`wrap`: with `%w` last). -/
inductive GoError where
  | closed
  | ctx (e : CtxError)
  | native (e : NativeError)
  | text (format : String) (args : List Arg)
  | wrap (format : String) (args : List Arg) (err : GoError)
  deriving DecidableEq, Repr

/-- The `NativeError` an error is or wraps. -/
def GoError.asNative : GoError → Option NativeError
  | .native e => some e
  | .wrap _ _ err => err.asNative
  | _ => none

/-! ## runtime.go and session.go -/

structure Provider where
  name : GoString
  options : List (GoString × GoString)
  deriving DecidableEq, Repr

/-- A map is the list of its entries in the order in which this call's `range` visits them. -/
structure SessionOptions where
  intraOpThreads : Int := 0
  interOpThreads : Int := 0
  parallel : Bool := false
  optimization : UInt8 := 0
  providers : List Provider := []
  config : List (GoString × GoString) := []
  deriving DecidableEq, Repr

structure TensorInfo where
  name : GoString
  type : DataType
  shape : List Int
  deriving DecidableEq, Repr

/-- A `context.Context`: `cancelable` iff `Done()` is not nil. -/
structure Ctx where
  id : Nat
  cancelable : Bool
  deriving DecidableEq, Repr

/-- The fields of a `Session` that never change: its identity, its runtime, whether it has a
gate, and the metadata. -/
structure Session where
  id : Nat
  runtime : Nat
  gated : Bool
  inputs : List TensorInfo
  outputs : List TensorInfo
  deriving DecidableEq, Repr

/-- A buffer of the descriptor pool: the object, and the array it points to, over its whole
capacity. -/
structure Buffer where
  id : Nat
  slots : List OcTensor
  deriving DecidableEq, Repr

end Onnxcraft
