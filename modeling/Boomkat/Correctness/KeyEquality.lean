import Boomkat.Collections.Key
import Boomkat.Correctness.InternTableRun
import Boomkat.Correctness.IntegerDouble

/-! Keys that are the same stand for one thing, and have one hash. -/

namespace Boomkat.Correctness

open Machine (Double)
open Strings Collections

/-- The flags and hashes of the strings fit their bytes, as in every heap of strings, and no
symbol has the hash that is reserved for strings without one.
-/
structure KeysFit (heap : HeapData) : Prop where
  wellFormed : ∀ s, WellFormed heap.hashSeed (heap.strings s)
  symbol : ∀ s, (heap.strings s).isSymbol = true → (heap.strings s).hash ≠ hashDeferred
  distinct : ∀ s t, (heap.strings s).isInterned = true → (heap.strings t).isInterned = true →
    (heap.strings s).data = (heap.strings t).data →
    (heap.strings s).hash = (heap.strings t).hash → s = t

/-- The strings of any heap fit, where no symbol has got the reserved hash. -/
theorem keysFit_of_replay {strings : StringHeap} {events : List StringEvent}
    (run : Foundation.replay StringHeap.step StringHeap.new events = some strings)
    (hashed : ∀ s str, strings.strings s = some str → str.isSymbol = true → str.hash ≠ hashDeferred)
    (bigints : Addr → BitVec 128) (registered : Addr → Bool)
    : KeysFit (.of strings bigints registered) := by
  have sound := Sound.replay run
  have strings_of : ∀ s, (strings.strings s = none
        ∨ strings.strings s = some ((HeapData.of strings bigints registered).strings s)) := by
    intro s
    cases live : strings.strings s with
    | none => exact .inl rfl
    | some str => exact .inr (by simp only [HeapData.of, live, Option.getD_some])
  have dead : ∀ s, strings.strings s = none →
      (HeapData.of strings bigints registered).strings s
        = ⟨[], hashString strings.hashSeed [], 0, 0, false, false, 0⟩ := by
    intro s none
    simp only [HeapData.of, none, Option.getD_none]
  refine ⟨fun s => ?_, fun s symbol => ?_, fun s t left right same hash => ?_⟩
  · rcases strings_of s with none | live
    · rw [dead s none]
      exact ⟨rfl, fun _ => hashString_ne_deferred _ _, fun _ => .inr rfl⟩
    · exact sound.wellFormed live
  · rcases strings_of s with none | live
    · rw [dead s none] at symbol
      cases symbol
    · exact hashed s _ live symbol
  · rcases strings_of s with none | liveS
    · rw [dead s none] at left
      cases left
    · rcases strings_of t with none | liveT
      · rw [dead t none] at right
        cases right
      · exact sound.distinct liveS liveT left right same hash

/-- What a key stands for. The number of a double is its rank, which NaN has none of. -/
inductive Meaning where
  | undefined
  | null
  | boolean (b : Bool)
  | number (rank : Option Int)
  | string (data : List UInt8) (hash : UInt32)
  | object (addr : Addr)
  | lightfunc (payload : Addr)
  | bigint (value : BitVec 128)

def meaningOfDouble (d : Double) : Meaning := .number (if d.isNan then none else some d.rank)

/-- What a value stands for as a key. Other values are never the same as any. -/
def meaning (heap : HeapData) : TVal → Option Meaning
  | .undefined => some .undefined
  | .null => some .null
  | .boolean b => some (.boolean b)
  | .number d => some (meaningOfDouble d)
  | .fastint n => some (meaningOfDouble (ofFastint n))
  | .string s => some (.string (heap.strings s).data (contentHash heap s))
  | .object addr => some (.object addr)
  | .lightfunc payload => some (.lightfunc payload)
  | .bigint addr => some (.bigint (heap.bigints addr))
  | .buffer _ | .pointer _ | .deleted => none

theorem sameDouble_iff {x y : Double}
    : sameDouble false x y = true ↔ meaningOfDouble x = meaningOfDouble y := by
  simp only [sameDouble, meaningOfDouble, Double.eq]
  cases x.isNan <;> cases y.isNan <;> simp

theorem fastint_small (n : BitVec 48) : n.toInt.natAbs < 2 ^ 53 := by
  have lower := BitVec.le_toInt n
  have upper := BitVec.toInt_lt (x := n)
  omega

theorem meaningOfDouble_fastint {m n : BitVec 48}
    : meaningOfDouble (ofFastint m) = meaningOfDouble (ofFastint n) ↔ m = n := by
  refine ⟨fun same => ?_, fun same => by rw [same]⟩
  have numbers := isNan_ofInt (fastint_small m)
  have numbers' := isNan_ofInt (fastint_small n)
  have equal : Double.eq (Double.ofInt m.toInt) (Double.ofInt n.toInt) = true := by
    simpa [meaningOfDouble, ofFastint, Double.eq, numbers, numbers'] using same
  have bits := eq_of_double_eq equal (ofInt_ne_negZero (fastint_small m))
    (ofInt_ne_negZero (fastint_small n))
  exact BitVec.eq_of_toInt_eq (ofInt_injective (fastint_small m) (fastint_small n) bits)

variable {heap : HeapData} {a b c : TVal}

/-- Strings of one content have one hash, unless they are symbols with different hashes. -/
theorem equalsHstring_iff (fit : KeysFit heap) {s t : Addr}
    : equalsHstring heap s t = true
      ↔ (heap.strings s).data = (heap.strings t).data ∧ contentHash heap s = contentHash heap t := by
  have symbols : (heap.strings s).data = (heap.strings t).data →
      (heap.strings s).isSymbol = (heap.strings t).isSymbol := by
    intro same
    rw [(fit.wellFormed s).symbol, (fit.wellFormed t).symbol, same]
  have ordinary : ∀ s, (heap.strings s).isSymbol = false →
      contentHash heap s = hashString heap.hashSeed (heap.strings s).data := by
    intro s plain
    rcases (fit.wellFormed s).hash plain with deferred | hashed
    · rw [contentHash, if_pos deferred]
    · rw [contentHash, hashed]
      exact if_neg (hashString_ne_deferred _ _)
  have known : ∀ s, (heap.strings s).hash ≠ hashDeferred →
      contentHash heap s = (heap.strings s).hash := fun s hashed => if_neg hashed
  constructor
  · intro equal
    simp only [equalsHstring] at equal
    split at equal
    · rename_i same
      rw [same]
      exact ⟨rfl, rfl⟩
    · split at equal
      · split at equal
        · cases equal
        · split at equal
          · cases equal
          · rename_i fits
            have same : (heap.strings s).data = (heap.strings t).data := by simpa using equal
            refine ⟨same, ?_⟩
            cases symbol : (heap.strings s).isSymbol with
            | false => rw [ordinary s symbol, ordinary t (symbols same ▸ symbol), same]
            | true =>
                have hashed := fit.symbol s symbol
                have hashed' := fit.symbol t (symbols same ▸ symbol)
                rw [known s hashed, known t hashed']
                by_contra differ
                exact fits ⟨differ, hashed, hashed'⟩
      · cases equal
  · rintro ⟨same, hash⟩
    simp only [equalsHstring]
    split
    · rfl
    · rename_i apart
      split
      · rw [if_neg (by simp [same]), if_neg]
        · simp [same]
        · rintro ⟨differ, hashed, hashed'⟩
          rw [known s hashed, known t hashed'] at hash
          exact differ hash
      · rename_i interned
        simp only [not_or, Decidable.not_not] at interned
        obtain ⟨left, right⟩ := interned
        rw [known s ((fit.wellFormed s).interned left), known t ((fit.wellFormed t).interned right)]
          at hash
        exact absurd (fit.distinct s t left right same hash) apart

/-- Keys are the same exactly if they stand for one thing, by cases on the tags. -/
theorem sameValueZero_iff (fit : KeysFit heap)
    : sameValueZero heap a b = true ↔ ∃ m, meaning heap a = some m ∧ meaning heap b = some m := by
  have strings : ∀ {s t}, equalsHstring heap s t = true
      ↔ (heap.strings s).data = (heap.strings t).data
        ∧ contentHash heap s = contentHash heap t := equalsHstring_iff fit
  have exists_same : ∀ x y : Meaning, (∃ m, some x = some m ∧ some y = some m) ↔ x = y := by
    intro x y
    constructor
    · rintro ⟨m, left, right⟩
      exact Option.some.inj (left.trans right.symm)
    · rintro rfl
      exact ⟨x, rfl, rfl⟩
  cases a <;> cases b <;>
    simp only [sameValueZero, sameValueImpl, meaning, exists_same, sameDouble_iff, strings,
      meaningOfDouble_fastint, beq_iff_eq] <;>
    simp [meaningOfDouble]

/-- Equal doubles are hashed alike, as -0 is folded onto +0. -/
theorem collHashDouble_eq {x y : Double} (left : x.isNan = false) (right : y.isNan = false)
    (same : x.rank = y.rank)
    : collHashDouble x = collHashDouble y := by
  have equal : ∀ z : Double, z.isNan = false → isZero z = decide (z.rank = 0) := by
    intro z number
    simp only [isZero, Double.eq, number]
    rfl
  have zeros : isZero x = isZero y := by rw [equal x left, equal y right, same]
  cases zero : isZero x with
  | true => simp [collHashDouble, zero, zeros ▸ zero]
  | false =>
      have signed : ∀ z : Double, isZero z = false → z ≠ 0x8000000000000000 := by
        rintro z nonzero rfl
        exact absurd nonzero (by decide)
      have bits := eq_of_double_eq (x := x) (y := y) (by simp [Double.eq, left, right, same])
        (signed x zero) (signed y (zeros ▸ zero))
      rw [bits]

/-- A number as a double. -/
def asDouble : TVal → Option Double
  | .number d => some d
  | .fastint n => some (ofFastint n)
  | _ => none

/-- Numbers are hashed as doubles. -/
theorem collHashKey_double {d : Double} (number : asDouble a = some d)
    : meaning heap a = some (meaningOfDouble d)
      ∧ collHashKey heap a = if d.isNan then 0x7FF80000 else collHashDouble d := by
  cases a with
  | number d' =>
      obtain rfl : d' = d := Option.some.inj number
      exact ⟨rfl, rfl⟩
  | fastint n =>
      obtain rfl : ofFastint n = d := Option.some.inj number
      have real : (ofFastint n).isNan = false := isNan_ofInt (fastint_small n)
      simp only [real]
      exact ⟨rfl, rfl⟩
  | _ => cases number

/-- The hash of what is not a number. -/
def hashOther : Meaning → UInt32
  | .undefined => 0xC2B2AE35
  | .null => 0x27D4EB2F
  | .boolean b => if b then 0x9E3779B9 else 0x85EBCA6B
  | .number _ => 0
  | .string _ hash => hash
  | .object addr | .lightfunc addr =>
      ((UInt64.ofNat addr) >>> 4).toUInt32 ^^^ ((UInt64.ofNat addr) >>> 32).toUInt32
  | .bigint value =>
      (UInt64.ofBitVec (value.setWidth 64)).toUInt32
        ^^^ ((UInt64.ofBitVec (value.setWidth 64)) >>> 32).toUInt32

theorem collHashKey_other {m : Meaning} (other : asDouble a = none) (known : meaning heap a = some m)
    : collHashKey heap a = hashOther m ∧ ∀ rank, m ≠ .number rank := by
  cases a with
  | number | fastint => cases other
  | buffer | pointer | deleted => cases known
  | _ =>
      obtain rfl := Option.some.inj known
      exact ⟨rfl, nofun⟩

/-- Keys that stand for one thing are hashed alike: numbers by their rank, and the hash of
anything else is computed from what it stands for.
-/
theorem collHashKey_eq {m : Meaning} (left : meaning heap a = some m)
    (right : meaning heap b = some m)
    : collHashKey heap a = collHashKey heap b := by
  cases numberA : asDouble a with
  | none =>
      obtain ⟨hashA, other⟩ := collHashKey_other numberA left
      cases numberB : asDouble b with
      | none => rw [hashA, (collHashKey_other numberB right).1]
      | some y =>
          have same := Option.some.inj (right.symm.trans (collHashKey_double numberB).1)
          exact absurd same (other _)
  | some x =>
      obtain ⟨meansA, hashA⟩ : meaning heap a = some (meaningOfDouble x) ∧ _ :=
        collHashKey_double numberA
      cases numberB : asDouble b with
      | none =>
          have same := Option.some.inj (left.symm.trans meansA)
          exact absurd same ((collHashKey_other numberB right).2 _)
      | some y =>
          obtain ⟨meansB, hashB⟩ : meaning heap b = some (meaningOfDouble y) ∧ _ :=
            collHashKey_double numberB
          have same : meaningOfDouble x = meaningOfDouble y :=
            Option.some.inj (meansA.symm.trans (left.trans (right.symm.trans meansB)))
          rw [hashA, hashB]
          cases nanX : x.isNan <;> cases nanY : y.isNan <;>
            simp [meaningOfDouble, nanX, nanY] at same
          · exact collHashDouble_eq nanX nanY same
          · simp only [if_true]

end Boomkat.Correctness
