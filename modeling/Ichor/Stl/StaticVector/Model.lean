import Mathlib.Algebra.Group.Int.Defs
import Mathlib.Algebra.Group.Nat.Defs
import Mathlib.Data.List.OfFn
import Ichor.Lib.Loops

/-! `StaticVector<T, N>`: raw storage of `N` slots with a size kept in the smallest unsigned type
that holds `N`. All vectors of one type live in one world, whose slots carry the value and, while
an element lives there, the number it was constructed with. A step gives nothing where an assert
fails or a slot outside of the storage is touched. -/
namespace Ichor.StaticVector

/-- What the operations use of `T`: the value a moved-from element is left with, what becomes of
an element that is move-assigned to itself, the value of `T()`, and `is_sufficiently_trivial`.
A type that cannot be moved is copied; it keeps its value in both cases. -/
structure Element (α : Type) where
  movedFrom : α → α
  selfMoved : α → α
  default : α
  trivial : Bool

structure Slot (α : Type) where
  value : α
  elem : Option ℕ

/-- `sound` turns false when an element is assigned, swapped or destroyed in a dead slot or
constructed in a live one. From then on a program is undefined and what the slots hold means nothing,
unless the type is trivial: its slots are objects from the beginning. -/
structure World (α : Type) where
  slot : ℕ → ℕ → Slot α
  size : ℕ → Option ℕ
  next : ℕ
  destroyed : List ℕ
  sound : Bool

variable {α : Type}

namespace World

def value (w : World α) (v i : ℕ) : α := (w.slot v i).value

def live (w : World α) (v i : ℕ) : Bool := (w.slot v i).elem.isSome

def check (w : World α) (b : Bool) : World α := { w with sound := w.sound && b }

def set (w : World α) (v i : ℕ) (s : Slot α) : World α :=
  { w with slot := Function.update w.slot v (Function.update (w.slot v) i s) }

def setValue (w : World α) (v i : ℕ) (x : α) : World α := w.set v i { w.slot v i with value := x }

def setSize (w : World α) (v : ℕ) (n : Option ℕ) : World α :=
  { w with size := Function.update w.size v n }

end World

variable (N : ℕ) (T : Element α)

/-- The bits of `storage_size_type`. -/
def width : ℕ := if N ≤ 255 then 8 else if N ≤ 65535 then 16 else if N ≤ 4294967295 then 32 else 64

def narrow (n : ℕ) : ℕ := n % 2 ^ width N

/-! ## Slots -/

def constructAt (v i : ℕ) (x : α) (w : World α) : Option (World α) :=
  if i < N then
    some { (w.check !w.live v i).set v i ⟨x, some w.next⟩ with next := w.next + 1 }
  else none

/-- Types without an observable destructor are not destroyed at all. -/
def destroyAt (v i : ℕ) (w : World α) : Option (World α) :=
  if i < N then
    some (if T.trivial then w
      else { (w.check (w.live v i)).set v i ⟨w.value v i, none⟩ with
        destroyed := w.destroyed ++ (w.slot v i).elem.toList })
  else none

def assignAt (v i : ℕ) (x : α) (w : World α) : Option (World α) :=
  if i < N then some ((w.check (w.live v i)).setValue v i x) else none

/-- `*target = std::move(*source)` within one vector. -/
def moveAt (v target source : ℕ) (w : World α) : Option (World α) :=
  if target < N ∧ source < N then
    let w' := w.check (w.live v target && w.live v source)
    some (if target = source then w'.setValue v target (T.selfMoved (w.value v target))
      else (w'.setValue v source (T.movedFrom (w.value v source))).setValue v target
        (w.value v source))
  else none

def swapAt (v u i : ℕ) (w : World α) : Option (World α) :=
  if i < N then
    some (((w.check (w.live v i && w.live u i)).setValue v i (w.value u i)).setValue u i
      (w.value v i))
  else none

/-! ## Loops over slots -/

/-- `std::move_backward`, from the last element on. -/
def moveBackward (v first last dlast : ℕ) (w : World α) : Option (World α) :=
  (List.range (last - first)).foldlM
    (fun w k => if k < dlast then moveAt N T v (dlast - k - 1) (last - k - 1) w else none) w

/-- `std::move`, from the first element on. -/
def moveForward (v first last dest : ℕ) (w : World α) : Option (World α) :=
  (List.range (last - first)).foldlM (fun w k => moveAt N T v (dest + k) (first + k) w) w

def destroyRange (v first last : ℕ) (w : World α) : Option (World α) :=
  (List.range (last - first)).foldlM (fun w k => destroyAt N T v (first + k) w) w

def constructAll (v pos : ℕ) (xs : List α) (w : World α) : Option (World α) :=
  (List.range xs.length).foldlM (fun w k => xs[k]?.bind fun x => constructAt N v (pos + k) x w) w

/-! ## Operations on one vector -/

/-- The size of a vector that has been constructed. -/
def sized (v : ℕ) (f : ℕ → World α → Option (World α)) (w : World α) : Option (World α) :=
  (w.size v).bind fun n => f n w

/-- Both overloads, and `emplace_back`. -/
def pushBack (v : ℕ) (x : α) : World α → Option (World α) :=
  sized v fun n w =>
    if n < N then (constructAt N v n x w).map (·.setSize v (some (narrow N (n + 1)))) else none

def pushAll (v : ℕ) (xs : List α) (w : World α) : Option (World α) :=
  xs.foldlM (fun w x => pushBack N v x w) w

def popBack (v : ℕ) : World α → Option (World α) :=
  sized v fun n w =>
    if 0 < n then (destroyAt N T v (n - 1) w).map (·.setSize v (some (narrow N (n - 1)))) else none

def clear (v : ℕ) : World α → Option (World α) :=
  sized v fun n w => (destroyRange N T v 0 n w).map (·.setSize v (some 0))

/-- `static_cast<difference_type>`. -/
def toDifference (n : ℕ) : ℤ := if n < 2 ^ 63 then n else n - 2 ^ 64

/-- The common body of the insertions, with the size after the call and the number `n` of the
elements that it makes room for: the end of the vector has already moved. -/
def insertAll (v pos n newSize : ℕ) (xs : List α) (w : World α) : Option (World α) :=
  (moveBackward N T v pos (newSize - toDifference n).toNat newSize
    (w.setSize v (some newSize))).bind (constructAll N v pos xs)

/-- Both overloads for one element, and `emplace`. -/
def insert (v pos : ℕ) (x : α) : World α → Option (World α) :=
  sized v fun n w => if n < N then insertAll N T v pos 1 (narrow N (n + 1)) [x] w else none

/-- The sum of the assert has 64 bits; a count that is negative as a difference constructs
nothing. -/
def insertN (v pos count : ℕ) (x : α) : World α → Option (World α) :=
  sized v fun n w =>
    if (n + count) % 2 ^ 64 ≤ N then
      insertAll N T v pos count (narrow N (n + narrow N count))
        (List.replicate (toDifference count).toNat x) w
    else none

def insertRange (v pos : ℕ) (xs : List α) : World α → Option (World α) :=
  sized v fun n w =>
    if (n + xs.length) % 2 ^ 64 ≤ N then
      insertAll N T v pos xs.length (narrow N (n + narrow N xs.length)) xs w
    else none

def erase (v pos : ℕ) : World α → Option (World α) :=
  sized v fun n w =>
    (if pos + 1 ≠ n then moveForward N T v (pos + 1) n pos w else some w).bind (popBack N T v)

/-- The subtraction is one of the narrow type. -/
def eraseRange (v first last : ℕ) : World α → Option (World α) :=
  sized v fun n w =>
    if first ≠ last then
      ((moveForward N T v last n first w).bind (destroyRange N T v (first + (n - last)) n)).map
        (·.setSize v (some (narrow N (n + (2 ^ width N - narrow N (last - first))))))
    else some w

/-- `resize(sz, c)`. -/
def resizeWith (v sz : ℕ) (c : α) : World α → Option (World α) :=
  sized v fun n w =>
    if sz < 2 ^ width N ∧ sz ≤ N then
      (if n < sz then pushAll N v (List.replicate (sz - n) c) w
        else destroyRange N T v sz n w).map (·.setSize v (some (narrow N sz)))
    else none

/-- `resize(sz)`. -/
def resize (v sz : ℕ) : World α → Option (World α) :=
  sized v fun n w =>
    if sz ≤ N then
      if n < sz then pushAll N v (List.replicate (sz - n) T.default) w
      else if sz < n then eraseRange N T v sz n w else some w
    else none

/-- One round of `assign(first, last)`: the size never shrinks. -/
def assignRound (v : ℕ) (xs : List α) (w : World α) (i : ℕ) : Option (World α) :=
  sized v (fun n w =>
    if i ≤ N then
      let size := max n (narrow N (i + 1))
      if i < size then xs[i]?.bind fun x => assignAt N v i x (w.setSize v (some size)) else none
    else none) w

def assignRange (v : ℕ) (xs : List α) : World α → Option (World α) :=
  sized v fun _ w => (List.range xs.length).foldlM (assignRound N v xs) w

/-- `assign(n, u)`. -/
def assignN (v count : ℕ) (x : α) : World α → Option (World α) :=
  sized v fun n w =>
    if count ≤ N then
      let size := max n (narrow N count)
      (List.range count).foldlM (fun w i => if i < size then assignAt N v i x w else none)
        (w.setSize v (some size))
    else none

/-! ## Construction, destruction and operations on two vectors -/

/-- The constructors that push the elements of a range or copies of a value; the asserts on the
number are those of `push_back`. -/
def create (v : ℕ) (xs : List α) (w : World α) : Option (World α) :=
  if w.size v = none then pushAll N v xs (w.setSize v (some 0)) else none

/-- The elements of `u` one after the other into `v`, each left as `leave` says. -/
def takeAll (leave : α → α) (v u : ℕ) : World α → Option (World α) :=
  sized u fun n w => (List.range n).foldlM
    (fun w i => (pushBack N v (w.value u i) w).map fun w' => w'.setValue u i (leave (w.value u i))) w

def copyCreate (v u : ℕ) (w : World α) : Option (World α) :=
  if w.size v = none then takeAll N id v u (w.setSize v (some 0)) else none

def moveCreate (v u : ℕ) (w : World α) : Option (World α) :=
  if w.size v = none then
    (takeAll N T.movedFrom v u (w.setSize v (some 0))).bind (clear N T u)
  else none

/-- The assignments clear the vector before they look at the other one. -/
def copyAssign (v u : ℕ) (w : World α) : Option (World α) :=
  (clear N T v w).bind (takeAll N id v u)

def moveAssign (v u : ℕ) (w : World α) : Option (World α) :=
  ((clear N T v w).bind (takeAll N T.movedFrom v u)).bind (clear N T u)

def swap (v u : ℕ) : World α → Option (World α) :=
  sized v fun n => sized u fun m w =>
    ((List.range (max n m)).foldlM (fun w i => swapAt N v u i w) w).map
      fun w => (w.setSize v (some m)).setSize u (some n)

/-- The destructor. -/
def destruct (v : ℕ) (w : World α) : Option (World α) :=
  (clear N T v w).map (·.setSize v none)

end Ichor.StaticVector
