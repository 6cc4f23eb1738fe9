import MediaChain.Text.Utf8

/-!
# Windows

A reader hands out a `Window`, a number of bytes to write to. A read answers it with a `Reply`: how
many bytes at the front of the window count, and what was written there. What is not written stays,
so bytes can count that nobody wrote; `Reply.bytes` are those that count. Written bytes that all
count are those that the reader gets (`bytes_ofBytes`).
-/

namespace MediaChain

structure Window where
  size : Nat
  /-- What the window holds at its front. Behind that it holds zeros. -/
  held : Bytes
deriving DecidableEq, Repr

namespace Window

/-- A window that holds zeros. -/
def blank (size : Nat) : Window := ⟨size, []⟩

/-- The first bytes of a window. -/
def bytes (w : Window) (n : Nat) : Bytes := w.held.take n ++ List.replicate (n - w.held.length) 0

/-- The front of a window. -/
def take (w : Window) (n : Nat) : Window := ⟨min n w.size, w.held.take n⟩

/-- A window without its front. -/
def drop (w : Window) (n : Nat) : Window := ⟨w.size - n, w.held.drop n⟩

/-- Writes bytes to the front of a window, as far as they fit. -/
def write (w : Window) (bs : Bytes) : Window :=
  { w with held := bs.take w.size ++ w.held.drop bs.length }

@[simp]
theorem size_blank (size : Nat) : (blank size).size = size := rfl

@[simp]
theorem size_take (w : Window) (n : Nat) : (w.take n).size = min n w.size := rfl

@[simp]
theorem size_drop (w : Window) (n : Nat) : (w.drop n).size = w.size - n := rfl

@[simp]
theorem size_write (w : Window) (bs : Bytes) : (w.write bs).size = w.size := rfl

@[simp]
theorem length_bytes (w : Window) (n : Nat) : (w.bytes n).length = n := by
  simp only [bytes, List.length_append, List.length_take, List.length_replicate]
  omega

theorem bytes_write (w : Window) {bs : Bytes} (h : bs.length ≤ w.size) :
    (w.write bs).bytes bs.length = bs := by
  have hl : bs.length ≤ (bs ++ w.held.drop bs.length).length := by simp
  rw [bytes, write, List.take_of_length_le h, List.take_left', Nat.sub_eq_zero_of_le hl]
  · simp
  · rfl

end Window

/-- What answers a read. -/
structure Reply where
  /-- How many bytes at the front of the window count. -/
  count : Nat
  /-- What was written to the front of the window. -/
  written : Bytes
deriving DecidableEq, Repr

namespace Reply

/-- The reply that writes bytes, all of which count. -/
def ofBytes (bs : Bytes) : Reply := ⟨bs.length, bs⟩

/-- The bytes of a window that count. -/
def bytes (r : Reply) (w : Window) : Bytes := (w.write r.written).bytes r.count

theorem length_bytes (r : Reply) (w : Window) : (r.bytes w).length = r.count :=
  Window.length_bytes _ _

theorem bytes_ofBytes (w : Window) {bs : Bytes} (h : bs.length ≤ w.size) :
    (ofBytes bs).bytes w = bs :=
  Window.bytes_write w h

end Reply

end MediaChain
