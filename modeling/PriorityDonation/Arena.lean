/-!
# Arenas

An arena keeps records in numbered slots. A released slot goes on a list of free slots, and the
slot released last is the first to be used again; its old record stays in place until then, so
that the new one can build on it. Reading a slot that does not exist gives the default record, and
changing it changes nothing.

`total` sums a weight over all slots. Changing one record changes the total by the change of its
own weight, which is how the walks over the donation graph measure what is left to do.
-/

namespace PriorityDonation

structure Arena (α : Type) where
  slots : Array α := #[]
  /-- The released slots, the last released first. -/
  free : List Nat := []

namespace Arena

variable {α : Type}

def size (arena : Arena α) : Nat := arena.slots.size

/-- The number of slots in use. -/
def occupied (arena : Arena α) : Nat := arena.slots.size - arena.free.length

def get [Inhabited α] (arena : Arena α) (slot : Nat) : α := arena.slots.getD slot default

def modify (arena : Arena α) (slot : Nat) (f : α → α) : Arena α :=
  { arena with slots := arena.slots.modify slot f }

/-- Takes a slot into use, with the record that `make` builds from the one left there, if any. -/
def allocate (make : Option α → α) : StateM (Arena α) Nat := fun arena =>
  match arena.free with
  | [] => (arena.slots.size, { arena with slots := arena.slots.push (make none) })
  | slot :: free => (slot, ⟨arena.slots.modify slot (make ∘ some), free⟩)

def release (arena : Arena α) (slot : Nat) : Arena α :=
  { arena with free := slot :: arena.free }

def total (arena : Arena α) (weight : α → Nat) : Nat :=
  arena.slots.foldr (fun record total => weight record + total) 0

@[simp] theorem size_modify (arena : Arena α) (slot : Nat) (f : α → α) :
    (arena.modify slot f).size = arena.size := by
  simp [modify, size]

@[simp] theorem free_modify (arena : Arena α) (slot : Nat) (f : α → α) :
    (arena.modify slot f).free = arena.free := rfl

theorem get_eq [Inhabited α] (arena : Arena α) (slot : Nat) :
    arena.get slot = arena.slots[slot]?.getD default := by
  simp [get]

theorem get_modify [Inhabited α] (arena : Arena α) (slot other : Nat) (f : α → α) :
    (arena.modify slot f).get other =
      if slot = other ∧ other < arena.size then f (arena.get other) else arena.get other := by
  by_cases hs : slot = other
  · by_cases h : other < arena.slots.size
    · simp [get_eq, modify, size, hs, h, Array.getElem_modify_self]
    · simp [get_eq, modify, size, hs, h]
  · simp [get_eq, modify, hs, Array.getElem?_modify]

theorem get_of_size_le [Inhabited α] {arena : Arena α} {slot : Nat} (h : arena.size ≤ slot) :
    arena.get slot = default := by
  rw [get_eq, Array.getElem?_eq_none h]
  rfl

theorem eq_of_get [Inhabited α] {a b : Arena α} (size : a.size = b.size)
    (free : a.free = b.free) (get : ∀ slot, a.get slot = b.get slot) : a = b := by
  have hslots : a.slots = b.slots := by
    refine Array.ext size fun i ha hb => ?_
    simpa [get_eq, ha, hb] using get i
  cases a
  cases b
  simp_all

private theorem foldr_modify (weight : α → Nat) (f : α → α) (l : List α) (i : Nat)
    (h : i < l.length) :
    (l.modify i f).foldr (fun record total => weight record + total) 0 + weight l[i] =
      l.foldr (fun record total => weight record + total) 0 + weight (f l[i]) := by
  induction l generalizing i with
  | nil => simp at h
  | cons a l ih =>
    cases i with
    | zero => simp; omega
    | succ i =>
      have := ih i (by simpa using h)
      simp only [List.modify_succ_cons, List.foldr_cons, List.getElem_cons_succ]
      omega

theorem total_eq (arena : Arena α) (weight : α → Nat) :
    arena.total weight =
      arena.slots.toList.foldr (fun record total => weight record + total) 0 := by
  rw [total, Array.foldr_toList]

theorem total_modify [Inhabited α] (arena : Arena α) (weight : α → Nat) {slot : Nat} (f : α → α)
    (h : slot < arena.size) :
    (arena.modify slot f).total weight + weight (arena.get slot) =
      arena.total weight + weight (f (arena.get slot)) := by
  have hget : arena.get slot = arena.slots.toList[slot] := by
    rw [get_eq, Array.getElem?_eq_getElem h]
    rfl
  simp only [total_eq, modify, Array.toList_modify, hget]
  exact foldr_modify weight f arena.slots.toList slot h

/-- A record that gets lighter by `k` makes the arena lighter by `k`. -/
theorem total_modify_add_le [Inhabited α] (arena : Arena α) (weight : α → Nat) {slot k : Nat}
    (f : α → α) (h : slot < arena.size)
    (hw : weight (f (arena.get slot)) + k ≤ weight (arena.get slot)) :
    (arena.modify slot f).total weight + k ≤ arena.total weight := by
  have := arena.total_modify weight f h
  omega

theorem total_modify_of_size_le (arena : Arena α) (weight : α → Nat) {slot : Nat} (f : α → α)
    (h : arena.size ≤ slot) : (arena.modify slot f).total weight = arena.total weight := by
  simp [total_eq, modify, Array.toList_modify, List.modify_eq_self (l := arena.slots.toList) h]

end Arena

end PriorityDonation
