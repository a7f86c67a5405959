import Mtasc.Buffer.Queue

/-!
# Buffers that are copied and moved

A population of `readBuffer` objects under every public operation. An object
that has been moved from keeps its pointers: the source moves them as it moves
the vector, and a moved `size_t` stays what it was, while a moved vector is
empty. `retrieveData` takes any length. So each of the two has a condition
under which it keeps the pointers in order (`Meets`), and a run of operations
keeps every object in order exactly if every operation meets its own.
-/

namespace Mtasc.ReadBuffer

open Lib

/-! ## Copies and moves -/

/-- `M_read_pointer ≤ M_write_pointer ≤ M_buffer_.size()`, and no more
readable bytes than the vector has. -/
def InOrder (b : ReadBuffer) : Prop :=
  b.readPointer ≤ b.writePointer ∧ b.writePointer ≤ b.buffer.length ∧
    b.readableBytes ≤ b.buffer.length

instance (b : ReadBuffer) : Decidable b.InOrder :=
  inferInstanceAs (Decidable (_ ∧ _ ∧ _))

/-- The object that is built or assigned from `other` by a move. -/
def moved (other : ReadBuffer) : ReadBuffer where
  buffer := other.buffer
  readPointer := other.readPointer
  writePointer := other.writePointer

/-- What the move leaves of `other`. -/
def movedFrom (other : ReadBuffer) : ReadBuffer where
  buffer := []
  readPointer := other.readPointer
  writePointer := other.writePointer

/-- The lengths that keep the read pointer in front of the write pointer: what
is readable, or so much that the sum wraps. -/
def CanRetrieve (b : ReadBuffer) (n : ℕ) : Prop :=
  n ≤ b.readableBytes ∨ 2 ^ 64 ≤ b.readPointer + n

instance (b : ReadBuffer) (n : ℕ) : Decidable (b.CanRetrieve n) :=
  inferInstanceAs (Decidable (_ ∨ _))

section

variable {b : ReadBuffer}

theorem WellFormed.inOrder (h : b.WellFormed) : b.InOrder := by
  have hreadable := h.readableBytes_eq
  have hwrite := h.write_le
  refine ⟨h.read_le, hwrite, ?_⟩
  omega

theorem InOrder.wellFormed (h : b.InOrder) (hsize : b.buffer.length ≤ maxSize) :
    b.WellFormed :=
  ⟨h.1, h.2.1, hsize⟩

/-- A retrieval keeps the order for these lengths and no others. -/
theorem WellFormed.retrieveData_inOrder_iff (h : b.WellFormed) {n : ℕ}
    (hn : n < 2 ^ 64) : (b.retrieveData n).InOrder ↔ b.CanRetrieve n := by
  have hread := h.read_le
  have hwrite := h.write_le
  have hsize := h.size_le
  have hreadable := h.readableBytes_eq
  unfold maxSize at hsize
  unfold CanRetrieve
  rcases Nat.lt_or_ge (b.readPointer + n) (2 ^ 64) with hlt | hge
  · -- the sum does not wrap
    constructor
    · intro horder
      by_contra hnot
      push Not at hnot
      have hpast : wadd 64 b.readPointer n ≠ b.writePointer := by
        rw [wadd_of_lt hlt]
        omega
      simp only [retrieveData, if_neg hpast] at horder
      have hle : wadd 64 b.readPointer n ≤ b.writePointer := horder.1
      rw [wadd_of_lt hlt] at hle
      omega
    · intro hcan
      have hle := hcan.resolve_right (Nat.not_le.mpr hlt)
      exact (h.retrieveData_spec hle).1.inOrder
  · -- the read pointer goes back
    apply iff_of_true _ (Or.inr hge)
    have hback : wadd 64 b.readPointer n = b.readPointer + n - 2 ^ 64 := by
      rw [wadd, Nat.mod_eq_sub_mod hge]
      apply Nat.mod_eq_of_lt
      omega
    have hne : wadd 64 b.readPointer n ≠ b.writePointer := by
      rw [hback]
      omega
    have hwf : WellFormed { b with
        readPointer := wadd 64 b.readPointer n } := by
      refine ⟨?_, hwrite, h.size_le⟩
      show wadd 64 b.readPointer n ≤ b.writePointer
      rw [hback]
      omega
    simp only [retrieveData, if_neg hne]
    exact hwf.inOrder

/-- What a move leaves is in order only where nothing had been written. -/
theorem movedFrom_inOrder_iff (h : b.WellFormed) :
    b.movedFrom.InOrder ↔ b.writePointer = 0 := by
  constructor
  · rintro ⟨-, hwrite, -⟩
    exact Nat.le_zero.mp hwrite
  · intro hzero
    have hread := h.read_le
    have hwf : b.movedFrom.WellFormed := by
      refine ⟨hread, ?_, Nat.zero_le _⟩
      exact Nat.le_of_eq hzero
    exact hwf.inOrder

/-- An append to any other object that has been moved from writes outside its
vector: the free space wraps, so none is made. -/
theorem movedFrom_append (h : b.WellFormed) (hwrite : 0 < b.writePointer)
    {data : Bytes} (hdata : data.length ≤ maxSize) :
    b.movedFrom.appendTobuffer data = .error .outOfBounds := by
  have hle := h.write_le
  have hsize := h.size_le
  unfold maxSize at hsize hdata
  have hspace : wsub 64 0 b.writePointer = 2 ^ 64 - b.writePointer := by
    rw [wsub, Nat.zero_add]
    apply Nat.mod_eq_of_lt
    omega
  have hroom : b.movedFrom.ensureWriteableBytes data.length =
      .ok b.movedFrom := by
    apply if_pos
    show data.length ≤ wsub 64 0 b.writePointer
    rw [hspace]
    omega
  have hcopy : memcpy b.movedFrom.buffer b.movedFrom.writePointer data =
      .error .outOfBounds := by
    apply if_neg
    show ¬ b.writePointer + data.length ≤ 0
    omega
  unfold appendTobuffer
  rw [hroom]
  show (memcpy b.movedFrom.buffer b.movedFrom.writePointer data >>= _) = _
  rw [hcopy]
  rfl

end

/-! ## Operations on a population -/

abbrev Population : Type := List ReadBuffer

/-- Data of an append: no array is larger than a vector can be. -/
abbrev Chunk : Type := { data : Bytes // data.length ≤ maxSize }

/-- The operations name the objects by their index; a constructed object is
the last one. -/
inductive PopulationOp where
  | append (i : ℕ) (data : Chunk)
  | retrieve (i : ℕ) (dataLen : UInt64)
  | copyConstruct (i : ℕ)
  | copyAssign (i j : ℕ)
  | moveConstruct (i : ℕ)
  | moveAssign (i j : ℕ)

namespace Population

/-- An operation on an object that does not exist does nothing. -/
def withObject (p : Population) (i : ℕ)
    (f : ReadBuffer → Except BufferFault Population) :
    Except BufferFault Population :=
  match p[i]? with
  | none => .ok p
  | some b => f b

def apply (p : Population) : PopulationOp → Except BufferFault Population
  | .append i data =>
      withObject p i fun b =>
        match b.appendTobuffer data with
        | .ok b' => .ok (p.set i b')
        -- the exception of `resize` leaves the object as it was
        | .error .lengthError => .ok p
        | .error .outOfBounds => .error .outOfBounds
  | .retrieve i n =>
      withObject p i fun b => .ok (p.set i (b.retrieveData n.toNat))
  | .copyConstruct i => withObject p i fun b => .ok (p ++ [b])
  | .copyAssign i j => withObject p j fun b => .ok (p.set i b)
  | .moveConstruct i =>
      withObject p i fun b => .ok ((p ++ [b.moved]).set i b.movedFrom)
  | .moveAssign i j =>
      -- `this != &buffer_Other`
      if i = j then .ok p
      else
        withObject p i fun _ => withObject p j fun b =>
          .ok ((p.set i b.moved).set j b.movedFrom)

/-- What an operation must meet to keep every object in order: a retrieval
takes a length that the object can give, a move takes an object in which
nothing is written. -/
def Meets (p : Population) : PopulationOp → Prop
  | .append _ _ => True
  | .retrieve i n => ∀ b ∈ p[i]?, b.CanRetrieve n.toNat
  | .copyConstruct _ => True
  | .copyAssign _ _ => True
  | .moveConstruct i => ∀ b ∈ p[i]?, b.writePointer = 0
  | .moveAssign i j =>
      i ≠ j → i < p.length → ∀ b ∈ p[j]?, b.writePointer = 0

def AllInOrder (p : Population) : Prop := ∀ b ∈ p, b.InOrder

instance (p : Population) : Decidable p.AllInOrder :=
  inferInstanceAs (Decidable (∀ b ∈ p, b.InOrder))

/-- The invariant: the order, and no vector larger than a vector can be. -/
def AllWellFormed (p : Population) : Prop := ∀ b ∈ p, b.WellFormed

section

variable {p : Population} {i : ℕ} {b b' : ReadBuffer}

theorem AllWellFormed.allInOrder (h : p.AllWellFormed) : p.AllInOrder :=
  fun b hb => (h b hb).inOrder

theorem AllWellFormed.set (h : p.AllWellFormed) (hb : b.WellFormed) :
    AllWellFormed (p.set i b) := by
  intro c hc
  rcases List.mem_or_eq_of_mem_set hc with hc | rfl
  · exact h c hc
  · exact hb

theorem AllWellFormed.append (h : p.AllWellFormed) (hb : b.WellFormed) :
    AllWellFormed (p ++ [b]) := by
  intro c hc
  rcases List.mem_append.mp hc with hc | hc
  · exact h c hc
  · rwa [List.mem_singleton.mp hc]

/-- Where one object is replaced, it alone decides on the order. -/
theorem AllWellFormed.set_iff (h : p.AllWellFormed) (hi : p[i]? = some b)
    (hsize : b'.buffer.length ≤ maxSize) :
    AllInOrder (p.set i b') ↔ b'.InOrder := by
  have hlt : i < p.length := (List.getElem?_eq_some_iff.mp hi).1
  constructor
  · intro hall
    exact hall b' (List.mem_set hlt b')
  · intro horder
    exact (h.set (horder.wellFormed hsize)).allInOrder

/-! ## One operation -/

/-- The operation gets through, and its condition is exact. -/
def Exact (p : Population) (o : PopulationOp)
    (r : Except BufferFault Population) : Prop :=
  ∃ p', r = .ok p' ∧ (p'.AllInOrder ↔ p.Meets o) ∧
    (p'.AllInOrder → p'.AllWellFormed)

variable {o : PopulationOp}

theorem Exact.of_wellFormed {p' : Population} (h : p'.AllWellFormed)
    (hmeets : p.Meets o) : Exact p o (.ok p') :=
  ⟨p', rfl, iff_of_true h.allInOrder hmeets, fun _ => h⟩

theorem Exact.set (h : p.AllWellFormed) (hi : p[i]? = some b)
    (hsize : b'.buffer.length ≤ maxSize) {q : Population}
    (hmeets : b'.InOrder ↔ q.Meets o) : Exact q o (.ok (p.set i b')) := by
  have hiff := h.set_iff hi hsize
  refine ⟨_, rfl, hiff.trans hmeets, ?_⟩
  intro hall
  exact h.set ((hiff.mp hall).wellFormed hsize)

/-- Of an object that does not exist nothing is asked. -/
theorem Exact.withObject {f : ReadBuffer → Except BufferFault Population}
    (h : p.AllWellFormed) (hnone : p[i]? = none → p.Meets o)
    (hsome : ∀ b, p[i]? = some b → b.WellFormed → Exact p o (f b)) :
    Exact p o (p.withObject i f) := by
  unfold Population.withObject
  cases hi : p[i]? with
  | none => exact .of_wellFormed h (hnone hi)
  | some b => exact hsome b hi (h b (List.mem_of_getElem? hi))

theorem append_exact (h : p.AllWellFormed) (i : ℕ) (data : Chunk) :
    Exact p (.append i data) (p.apply (.append i data)) := by
  apply Exact.withObject h
  · intro _
    trivial
  · intro b _ hb
    rcases hb.appendTobuffer_spec data.1 data.2 with
      ⟨b', hb', happ⟩ | ⟨herr, -⟩
    · rw [hb']
      exact .of_wellFormed (h.set happ.wellFormed) trivial
    · rw [herr]
      exact .of_wellFormed h trivial

theorem retrieve_exact (h : p.AllWellFormed) (i : ℕ) (n : UInt64) :
    Exact p (.retrieve i n) (p.apply (.retrieve i n)) := by
  apply Exact.withObject h
  · intro hi b hb
    rw [hi] at hb
    cases hb
  · intro b hi hb
    apply Exact.set h hi
    · rw [retrieveData_buffer]
      exact hb.size_le
    · rw [hb.retrieveData_inOrder_iff n.toNat_lt]
      show _ ↔ ∀ c ∈ p[i]?, c.CanRetrieve n.toNat
      rw [hi]
      simp

/-- What is left of the source of a move decides on the condition. -/
theorem movedFrom_exact {j : ℕ} {q : Population} (hq : q.AllWellFormed)
    (hj : q[j]? = some b) (hb : b.WellFormed)
    (hmeets : p.Meets o ↔ b.writePointer = 0) :
    Exact p o (.ok (q.set j b.movedFrom)) := by
  apply Exact.set hq hj (Nat.zero_le _)
  rw [movedFrom_inOrder_iff hb, hmeets]

theorem moveConstruct_exact (h : p.AllWellFormed) (i : ℕ) :
    Exact p (.moveConstruct i) (p.apply (.moveConstruct i)) := by
  apply Exact.withObject h
  · intro hi b hb
    rw [hi] at hb
    cases hb
  · intro b hi hb
    have hlt : i < p.length := (List.getElem?_eq_some_iff.mp hi).1
    have hold : (p ++ [b.moved])[i]? = some b := by
      rw [List.getElem?_append_left hlt, hi]
    apply movedFrom_exact (h.append hb) hold hb
    show (∀ c ∈ p[i]?, c.writePointer = 0) ↔ _
    rw [hi]
    simp

theorem moveAssign_exact (h : p.AllWellFormed) (i j : ℕ) :
    Exact p (.moveAssign i j) (p.apply (.moveAssign i j)) := by
  rw [apply]
  by_cases hij : i = j
  · rw [if_pos hij]
    exact .of_wellFormed h (fun hne => absurd hij hne)
  rw [if_neg hij]
  apply Exact.withObject h
  · intro hi _ hlt
    rw [List.getElem?_eq_none_iff] at hi
    exact absurd hlt (Nat.not_lt.mpr hi)
  intro target hi _
  have hlt : i < p.length := (List.getElem?_eq_some_iff.mp hi).1
  apply Exact.withObject h
  · intro hj _ _ b hb
    rw [hj] at hb
    cases hb
  · intro b hj hb
    have hold : (p.set i b.moved)[j]? = some b := by
      rw [List.getElem?_set_ne hij, hj]
    apply movedFrom_exact (h.set hb) hold hb
    show (i ≠ j → i < p.length → ∀ c ∈ p[j]?, c.writePointer = 0) ↔ _
    rw [hj]
    simp [hij, hlt]

/-- **One operation** on well-formed objects writes inside the vectors, and
leaves all objects in order exactly if its condition is met. -/
theorem apply_exact (h : p.AllWellFormed) (o : PopulationOp) :
    Exact p o (p.apply o) := by
  cases o with
  | append i data => exact append_exact h i data
  | retrieve i n => exact retrieve_exact h i n
  | copyConstruct i =>
      apply Exact.withObject h
      · intro _
        trivial
      · intro b _ hb
        exact .of_wellFormed (h.append hb) trivial
  | copyAssign i j =>
      apply Exact.withObject h
      · intro _
        trivial
      · intro b _ hb
        exact .of_wellFormed (h.set hb) trivial
  | moveConstruct i => exact moveConstruct_exact h i
  | moveAssign i j => exact moveAssign_exact h i j

end

/-! ## Runs -/

/-- `n` value-initialised objects. -/
def fresh (n : ℕ) : Population := List.replicate n valueInit

theorem fresh_wellFormed (n : ℕ) : (fresh n).AllWellFormed := by
  intro b hb
  rw [List.eq_of_mem_replicate hb]
  exact valueInit_wellFormed

/-- **Every object in every state**: a run of operations on value-initialised
objects copies inside the vectors and keeps all objects in order, those that
have been moved from included, exactly if every retrieval of it takes a length
that the object can give and every move an object with nothing written. -/
theorem population_inOrder_iff (n : ℕ) (ops : List PopulationOp) :
    (∀ pre, pre <+: ops →
        ∃ p, runOps apply (fresh n) pre = .ok p ∧ p.AllInOrder) ↔
      LegalRun apply Meets (fresh n) ops :=
  legalRun_iff (fun _ o h => apply_exact h o) ops (fresh n)
    (fresh_wellFormed n) (fresh_wellFormed n).allInOrder

/-- One byte, and a move: the source has a write pointer behind its end. -/
theorem population_not_inOrder :
    ¬ ∀ (n : ℕ) (ops : List PopulationOp) (p : Population),
      runOps apply (fresh n) ops = .ok p → p.AllInOrder := by
  intro h
  have hrun : runOps apply (fresh 1)
      [.append 0 ⟨[1], by decide⟩, .moveConstruct 0] =
        .ok [⟨[], 0, 1⟩, ⟨[1], 0, 1⟩] := by rfl
  exact absurd (h 1 _ _ hrun) (by decide)

end Population

end Mtasc.ReadBuffer
