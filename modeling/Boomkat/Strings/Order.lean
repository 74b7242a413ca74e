import Boomkat.Strings.StringHeap

/-! The order of strings: `hstring_compare` and the relational operators on strings. -/

namespace Boomkat.Strings

/-- A string that `hstring_alloc_cap` accepts. -/
structure StoredString where
  data : List UInt8
  bounded : data.length ≤ maxStringBytes

def StoredString.blen (s : StoredString) : Nat := s.data.length

/-- `byte_compare` of the bytes at two addresses. -/
def byteCompare : List UInt8 → List UInt8 → Int
  | a :: as, b :: bs => if a ≠ b then (if a < b then -1 else 1) else byteCompare as bs
  | _, _ => 0

/-- The cast of a length to `int`, and back to `usz`. -/
def lengthThroughInt (n : Nat) : Nat := ((BitVec.ofNat 32 n).signExtend 64).toNat

def hstringCompare (a b : StoredString) : Int :=
  let minLen := lengthThroughInt (if a.blen < b.blen then a.blen else b.blen)
  let cmp := byteCompare (a.data.take minLen) (b.data.take minLen)
  if cmp ≠ 0 then cmp
  else if a.blen = b.blen then 0
  else if a.blen > b.blen then 1 else -1

/-- `vm_relational_compare` of two strings that are not symbols. -/
def vmRelationalCompare (sx sy : StoredString) : Int :=
  let c := hstringCompare sx sy
  if c < 0 then -1 else if c > 0 then 1 else 0

inductive RelationalOp
  | lt
  | le
  | gt
  | ge

/-- The result of an instruction by the comparison. -/
def RelationalOp.ofCompare : RelationalOp → Int → Bool
  | .lt, cmp => cmp < 0
  | .le, cmp => cmp ≤ 0
  | .gt, cmp => cmp > 0
  | .ge, cmp => cmp ≥ 0

def relational (op : RelationalOp) (sx sy : StoredString) : Bool :=
  op.ofCompare (vmRelationalCompare sx sy)

end Boomkat.Strings
