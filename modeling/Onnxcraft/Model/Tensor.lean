import Onnxcraft.Model.Ops

/-!
# tensor.go
-/

namespace Onnxcraft

/-! ## Element types -/

/-- The kinds that `reflect` gives the types of the constraint `Element`. -/
inductive Kind where
  | bool | int8 | int16 | int32 | int64 | uint8 | uint16 | uint32 | uint64 | float32 | float64
  deriving DecidableEq, Repr

/-- A type that satisfies `Element`: one of the two types the package declares, or any other type,
named or not, by its kind. -/
inductive Element where
  | float16
  | bfloat16
  | of (kind : Kind)
  deriving DecidableEq, Repr

/-- `unsafe.Sizeof` of an element. -/
def Element.bytes : Element → Nat
  | .float16 | .bfloat16 => 2
  | .of .bool | .of .int8 | .of .uint8 => 1
  | .of .int16 | .of .uint16 => 2
  | .of .int32 | .of .uint32 | .of .float32 => 4
  | .of .int64 | .of .uint64 | .of .float64 => 8

/-- The table `types` of `elementType`. -/
def Kind.type : Kind → DataType
  | .float32 => ⟨1⟩
  | .uint8 => ⟨2⟩
  | .int8 => ⟨3⟩
  | .uint16 => ⟨4⟩
  | .int16 => ⟨5⟩
  | .int32 => ⟨6⟩
  | .int64 => ⟨7⟩
  | .bool => ⟨9⟩
  | .float64 => ⟨11⟩
  | .uint32 => ⟨12⟩
  | .uint64 => ⟨13⟩

/-- `elementType[T]()`. -/
def elementType : Element → DataType
  | .float16 => ⟨10⟩
  | .bfloat16 => ⟨16⟩
  | .of kind => kind.type

/-- A Go slice by its first element's address and its length. -/
structure Slice where
  data : Nat
  len : Nat
  deriving DecidableEq, Repr

section
variable [Platform]

/-- A slice of elements of `size` bytes as Go's runtime makes it: it fits in the address space, and
its elements, if it has any, are somewhere. -/
structure GoSlice (size : Nat) extends Slice where
  fits : (len * size : Nat) ≤ maxInt
  ends : data + len * size ≤ 2 ^ Platform.bits
  nonnil : 0 < len → data ≠ 0

/-- `unsafe.Slice((*T)(p), n)`, of elements of `size` bytes. -/
def unsafeSlice (p : Nat) (n : Int) (size : Nat) : Act Slice :=
  if n < 0 then fault .outOfRange
  else if p = 0 ∧ n ≠ 0 then fault .nilDereference
  else if 2 ^ Platform.bits < p + n.toNat * size then fault .outOfRange
  else return ⟨p, n.toNat⟩

/-! ## Tensors -/

/-- The first loop of `tensorSize`: whether a dimension is zero. -/
def tensorEmpty (shape : List Int) : Except GoError Bool :=
  shape.foldlM (fun empty d =>
    if d < 0 then .error (.text "onnxcraft: negative tensor dimension %d" [.int d])
    else .ok (empty || d == 0)) false

/-- The second loop of `tensorSize`: the product. -/
def tensorLength (shape : List Int) : Except GoError Int :=
  shape.foldlM (fun n d =>
    if d > maxInt.tdiv n then .error (.text "onnxcraft: tensor shape overflows int" [])
    else .ok (wrapInt (n * wrapInt d))) 1

/-- `tensorSize`: the number of elements of a tensor of this shape and element size. -/
def tensorSize (shape : List Int) (size : Int) : Except GoError Int :=
  match tensorEmpty shape with
  | .error err => .error err
  | .ok empty =>
    if size = 0 then .error (.text "onnxcraft: unsupported tensor element type" [])
    else if empty then .ok 0
    else match tensorLength shape with
      | .error err => .error err
      | .ok n =>
        if n > maxInt.tdiv size then .error (.text "onnxcraft: tensor byte size overflows int" [])
        else .ok n

/-- `NewTensor`. -/
def newTensor (e : Element) (shape : List Int) (data : Slice) : Except GoError Tensor :=
  let dtype := elementType e
  match tensorSize shape dtype.size with
  | .error err => .error err
  | .ok n =>
    if data.len ≠ n then
      .error (.text "onnxcraft: shape %v needs %d elements, got %d"
        [.ints shape, .int n, .int data.len])
    else .ok ⟨data.data, shape, n, dtype⟩

/-- `Tensor.Data[T]()`: a view. -/
def Tensor.dataAs (t : Tensor) (e : Element) : Act (Except GoError Slice) :=
  let want := elementType e
  if t.dtype ≠ want then
    return .error (.text "onnxcraft: tensor contains %s, requested %s"
      [.str t.dtype.string, .str want.string])
  else do return .ok (← unsafeSlice t.data t.length e.bytes)

end

end Onnxcraft
