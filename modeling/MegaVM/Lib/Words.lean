import Mathlib.Data.BitVec

/-!
# Words in memory

A word of `w` bits as the bytes of memory from some address on, and back.
Which byte of the word stands at which offset is a parameter, the byte
order: an involution of the offsets.

* `byte`, `gather` — the bytes of a word by significance, and the word
  with given bytes;
* `ByteOrder` — `little n` and `big n`, or any other involution;
* `store`, `load` — the word in memory, and the round trips both ways;
* `swap` — byte reversal, which turns the one order into the other.
-/

namespace Words

variable {w n : Nat}

/-- Byte `i` of a word, the least significant first. -/
def byte (x : BitVec w) (i : Nat) : BitVec 8 := x.extractLsb' (8 * i) 8

/-- The word whose bytes are `f 0`, `f 1`, … -/
def gather (w : Nat) (f : Nat → BitVec 8) : BitVec w :=
  (BitVec.iunfoldr (fun i _ => ((), (f (i / 8)).getLsbD (i % 8))) ()).2

theorem getLsbD_byte (x : BitVec w) (i j : Nat) :
    (byte x i).getLsbD j = (decide (j < 8) && x.getLsbD (8 * i + j)) :=
  BitVec.getLsbD_extractLsb' _ _ _ _

theorem getLsbD_gather (f : Nat → BitVec 8) {j : Nat} (h : j < w) :
    (gather w f).getLsbD j = (f (j / 8)).getLsbD (j % 8) :=
  BitVec.iunfoldr_getLsbD (fun _ => ()) ⟨j, h⟩ fun _ => rfl

@[simp] theorem gather_byte (x : BitVec w) : gather w (byte x) = x := by
  apply BitVec.eq_of_getLsbD_eq
  intro j hj
  rw [getLsbD_gather _ hj, getLsbD_byte, Nat.div_add_mod]
  simp [Nat.mod_lt]

@[simp] theorem byte_gather (f : Nat → BitVec 8) {i : Nat} (h : 8 * i + 8 ≤ w) :
    byte (gather w f) i = f i := by
  apply BitVec.eq_of_getLsbD_eq
  intro j hj
  have hdiv : (8 * i + j) / 8 = i := by omega
  have hmod : (8 * i + j) % 8 = j := by omega
  rw [getLsbD_byte, getLsbD_gather f (by omega), hdiv, hmod]
  simp [hj]

theorem gather_congr {f g : Nat → BitVec 8} (h : ∀ i, 8 * i < w → f i = g i) :
    gather w f = gather w g := by
  apply BitVec.eq_of_getLsbD_eq
  intro j hj
  rw [getLsbD_gather f hj, getLsbD_gather g hj, h (j / 8) (by omega)]

/-! ## Byte orders -/

/-- The byte of a word that stands at each of `n` offsets. -/
structure ByteOrder (n : Nat) where
  place : Nat → Nat
  place_lt : ∀ i < n, place i < n
  place_place : ∀ i < n, place (place i) = i

def little (n : Nat) : ByteOrder n := ⟨id, fun _ hi => hi, fun _ _ => rfl⟩

def big (n : Nat) : ByteOrder n :=
  ⟨fun i => n - 1 - i, fun i hi => by omega, fun i hi => by omega⟩

/-- What a store of `x` leaves at offset `i`. -/
def store (o : ByteOrder n) (x : BitVec w) (i : Nat) : BitVec 8 := byte x (o.place i)

/-- The word a load of `n` bytes reads. -/
def load (w : Nat) (o : ByteOrder n) (mem : Nat → BitVec 8) : BitVec w :=
  gather w fun i => mem (o.place i)

/-- A load reads the word whose bytes it finds. -/
theorem load_of_store (o : ByteOrder n) (x : BitVec w) {mem : Nat → BitVec 8} (h : w ≤ 8 * n)
    (hmem : ∀ i < n, mem i = store o x i) : load w o mem = x := by
  calc load w o mem = gather w (byte x) := by
        apply gather_congr
        intro i hi
        have hlt : i < n := by omega
        rw [hmem _ (o.place_lt i hlt), store, o.place_place i hlt]
    _ = x := gather_byte x

theorem store_load (o : ByteOrder n) (mem : Nat → BitVec 8) {i : Nat} (hi : i < n)
    (h : 8 * n ≤ w) : store o (load w o mem) i = mem i := by
  have hlt := o.place_lt i hi
  rw [store, load, byte_gather _ (by omega), o.place_place i hi]

/-! ## Byte reversal -/

/-- The word with its `n` bytes reversed. -/
def swap (n : Nat) (x : BitVec w) : BitVec w := gather w fun i => byte x (n - 1 - i)

theorem byte_swap (x : BitVec w) {i : Nat} (hi : i < n) (h : 8 * n ≤ w) :
    byte (swap n x) i = byte x (n - 1 - i) := by
  rw [swap, byte_gather _ (by omega)]

/-- A store of the reversed word in one order is a store of the word in
the other. -/
theorem store_swap (x : BitVec w) {i : Nat} (hi : i < n) (h : 8 * n ≤ w) :
    store (little n) (swap n x) i = store (big n) x i :=
  byte_swap x hi h

end Words
