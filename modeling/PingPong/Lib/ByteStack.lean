import Mathlib.Algebra.Group.Nat.Defs
import Mathlib.Data.List.Basic

/-!
# Byte stacks read back to front

A buffer is used as a stack of bytes: values are appended at its end and taken from its end, so
what is written last is read first.  A writer is a list of single pushes; a reader is a program of
single pops (`Pop`), each of which may depend on the values popped before it.

* `TriviallyCopyable` is a type with a fixed-width byte image that reads back.
* A fixed-width pop needs its whole width and otherwise faults; a container pop takes what there is
  and fills up with zero bytes.
* `Pop.Reads` says that a reader takes a value off the bytes a writer appended and leaves the stack
  below them alone.  It composes in reverse order of writing (`Pop.Reads.bind`).
-/

/-- A type whose object representation is a byte string of fixed width. -/
class TriviallyCopyable (α : Type) where
  width : Nat
  toBytes : α → List UInt8
  ofBytes : List UInt8 → α
  length_toBytes : ∀ a, (toBytes a).length = width
  ofBytes_toBytes : ∀ a, ofBytes (toBytes a) = a

attribute [simp] TriviallyCopyable.length_toBytes TriviallyCopyable.ofBytes_toBytes

/-- Every byte string of the right width is the image of a value. -/
class NoPadding (α : Type) [TriviallyCopyable α] : Prop where
  toBytes_ofBytes : ∀ bs : List UInt8, bs.length = TriviallyCopyable.width α →
    TriviallyCopyable.toBytes (TriviallyCopyable.ofBytes bs : α) = bs

/-- The object representation of a type that is stored as another one. -/
@[reducible] def TriviallyCopyable.via {α β : Type} [TriviallyCopyable β] (f : α → β) (g : β → α)
    (h : ∀ a, g (f a) = a) : TriviallyCopyable α where
  width := TriviallyCopyable.width β
  toBytes a := TriviallyCopyable.toBytes (f a)
  ofBytes bs := g (TriviallyCopyable.ofBytes bs)
  length_toBytes a := TriviallyCopyable.length_toBytes (f a)
  ofBytes_toBytes a := by rw [TriviallyCopyable.ofBytes_toBytes, h]

namespace ByteStack

/-! ## Little-endian words -/

/-- The `w` low bytes of `n`, lowest first. -/
def leBytes : Nat → Nat → List UInt8
  | 0, _ => []
  | w + 1, n => UInt8.ofNat n :: leBytes w (n / 256)

def leValue : List UInt8 → Nat
  | [] => 0
  | b :: bs => b.toNat + 256 * leValue bs

@[simp] theorem length_leBytes (w n : Nat) : (leBytes w n).length = w := by
  induction w generalizing n with
  | zero => rfl
  | succ w ih => rw [leBytes, List.length_cons, ih]

theorem leValue_leBytes (w n : Nat) : leValue (leBytes w n) = n % 256 ^ w := by
  induction w generalizing n with
  | zero => simp [leBytes, leValue, Nat.mod_one]
  | succ w ih =>
      rw [leBytes, leValue, ih, Nat.pow_succ', Nat.mod_mul]
      simp

theorem leValue_lt (bs : List UInt8) : leValue bs < 256 ^ bs.length := by
  induction bs with
  | nil => simp [leValue]
  | cons b bs ih =>
      rw [leValue, List.length_cons, Nat.pow_succ']
      have := b.toNat_lt
      omega

theorem leBytes_leValue (bs : List UInt8) : leBytes bs.length (leValue bs) = bs := by
  induction bs with
  | nil => rfl
  | cons b bs ih =>
      have low : UInt8.ofNat (leValue (b :: bs)) = b := by
        apply UInt8.toNat_inj.mp
        have := b.toNat_lt
        simp only [leValue, UInt8.toNat_ofNat']
        omega
      have high : leValue (b :: bs) / 256 = leValue bs := by
        have := b.toNat_lt
        simp only [leValue]
        omega
      rw [List.length_cons, leBytes, low, high, ih]

instance : TriviallyCopyable UInt8 where
  width := 1
  toBytes a := [a]
  ofBytes bs := bs.headD 0
  length_toBytes _ := rfl
  ofBytes_toBytes _ := rfl

theorem ofBytes_drop_uint8 (b : List UInt8) (n : Nat) :
    (TriviallyCopyable.ofBytes (b.drop n) : UInt8) = b.getD n 0 := by
  change (b.drop n).headD 0 = b.getD n 0
  rw [List.headD_eq_head?_getD, List.head?_drop, List.getD_eq_getElem?_getD]

instance : TriviallyCopyable UInt32 where
  width := 4
  toBytes a := leBytes 4 a.toNat
  ofBytes bs := UInt32.ofNat (leValue bs)
  length_toBytes _ := length_leBytes _ _
  ofBytes_toBytes a := by
    have bound : a.toNat < 256 ^ 4 := a.toNat_lt
    rw [leValue_leBytes, Nat.mod_eq_of_lt bound]
    exact UInt32.ofNat_toNat

instance : TriviallyCopyable UInt64 where
  width := 8
  toBytes a := leBytes 8 a.toNat
  ofBytes bs := UInt64.ofNat (leValue bs)
  length_toBytes _ := length_leBytes _ _
  ofBytes_toBytes a := by
    have bound : a.toNat < 256 ^ 8 := a.toNat_lt
    rw [leValue_leBytes, Nat.mod_eq_of_lt bound]
    exact UInt64.ofNat_toNat

instance (n : Nat) : TriviallyCopyable (Vector UInt8 n) where
  width := n
  toBytes a := a.toList
  ofBytes bs := Vector.ofFn fun i : Fin n => bs.getD i 0
  length_toBytes a := a.length_toList
  ofBytes_toBytes a := by
    ext i hi
    simp

instance : NoPadding UInt8 where
  toBytes_ofBytes bs h := by
    obtain ⟨b, rfl⟩ := List.length_eq_one_iff.mp h
    rfl

instance : NoPadding UInt32 where
  toBytes_ofBytes bs h := by
    change bs.length = 4 at h
    change leBytes 4 (UInt32.ofNat (leValue bs)).toNat = bs
    have bound : leValue bs < 2 ^ 32 := by simpa [h] using leValue_lt bs
    rw [UInt32.toNat_ofNat_of_lt' bound, ← h, leBytes_leValue]

instance : NoPadding UInt64 where
  toBytes_ofBytes bs h := by
    change bs.length = 8 at h
    change leBytes 8 (UInt64.ofNat (leValue bs)).toNat = bs
    have bound : leValue bs < 2 ^ 64 := by simpa [h] using leValue_lt bs
    rw [UInt64.toNat_ofNat_of_lt' bound, ← h, leBytes_leValue]

/-! ## Writers and readers -/

/-- A single write at the end of the buffer: a fixed-width value, or the elements of a container
(which, when empty, does not touch the buffer at all). -/
inductive Push where
  | data (bytes : List UInt8)
  | container (bytes : List UInt8)

def Push.bytes : Push → List UInt8
  | data bytes => bytes
  | container bytes => bytes

/-- The bytes a writer appends. -/
def written (ws : List Push) : List UInt8 := ws.flatMap Push.bytes

@[simp] theorem written_nil : written [] = [] := rfl

@[simp] theorem written_cons (w : Push) (ws : List Push) :
    written (w :: ws) = w.bytes ++ written ws := rfl

/-- A program of single pops.  `size` looks at the number of bytes left without taking any. -/
inductive Pop (α : Type) : Type where
  | done (a : α)
  | fixed (width : Nat) (k : List UInt8 → Pop α)
  | clamped (count : Nat) (k : List UInt8 → Pop α)
  | size (k : Nat → Pop α)

namespace Pop

variable {α β : Type}

def bind : Pop α → (α → Pop β) → Pop β
  | done a, f => f a
  | fixed width k, f => fixed width fun bs => (k bs).bind f
  | clamped count k, f => clamped count fun bs => (k bs).bind f
  | size k, f => size fun n => (k n).bind f

instance : Monad Pop where
  pure := done
  bind := bind

@[simp] theorem pure_eq (a : α) : (pure a : Pop α) = done a := rfl

@[simp] theorem bind_eq (p : Pop α) (f : α → Pop β) : p >>= f = p.bind f := rfl

/-- The bytes a container of `count` zero bytes holds after what is left has been copied to its
front. -/
def zeroFilled (count : Nat) (bs : List UInt8) : List UInt8 :=
  bs ++ List.replicate (count - bs.length) 0

theorem length_zeroFilled {count : Nat} {bs : List UInt8} (h : bs.length ≤ count) :
    (zeroFilled count bs).length = count := by
  simp only [zeroFilled, List.length_append, List.length_replicate]
  omega

theorem zeroFilled_full (bs : List UInt8) : zeroFilled bs.length bs = bs := by
  simp [zeroFilled]

/-- Run a reader on a buffer: the value and the bytes left, or a fault. -/
def run : Pop α → List UInt8 → Option (α × List UInt8)
  | done a, b => some (a, b)
  | fixed width k, b =>
      if width ≤ b.length then
        (k (b.drop (b.length - width))).run (b.take (b.length - width))
      else none
  | clamped count k, b =>
      let kept := b.length - min count b.length
      (k (zeroFilled count (b.drop kept))).run (b.take kept)
  | size k, b => (k b.length).run b

theorem run_bind (p : Pop α) (f : α → Pop β) (b : List UInt8) :
    (p.bind f).run b = (p.run b).bind fun r => (f r.1).run r.2 := by
  induction p generalizing b with
  | done a => rfl
  | fixed width k ih =>
      simp only [bind, run]
      split
      · exact ih _ _
      · rfl
  | clamped count k ih => exact ih _ _
  | size k ih => exact ih _ _

/-- Pop one value of fixed width. -/
def data (D : Type) [TriviallyCopyable D] : Pop D :=
  fixed (TriviallyCopyable.width D) fun bs => done (TriviallyCopyable.ofBytes bs)

/-- Pop the elements of a container of `count` bytes. -/
def container (count : Nat) : Pop (List UInt8) := clamped count done

theorem run_data (D : Type) [TriviallyCopyable D] (b : List UInt8) :
    (Pop.data D).run b =
      if TriviallyCopyable.width D ≤ b.length then
        some (TriviallyCopyable.ofBytes (b.drop (b.length - TriviallyCopyable.width D)),
          b.take (b.length - TriviallyCopyable.width D))
      else none := rfl

theorem run_container (count : Nat) (b : List UInt8) :
    (Pop.container count).run b =
      some (zeroFilled count (b.drop (b.length - min count b.length)),
        b.take (b.length - min count b.length)) := rfl

theorem bind_assoc {γ : Type} (p : Pop α) (f : α → Pop β) (g : β → Pop γ) :
    (p.bind f).bind g = p.bind fun a => (f a).bind g := by
  induction p with
  | done a => rfl
  | fixed width k ih => exact congrArg (fixed width) (funext ih)
  | clamped count k ih => exact congrArg (clamped count) (funext ih)
  | size k ih => exact congrArg size (funext ih)

/-! ## Where a reader faults -/

theorem isSome_done (a : α) (b : List UInt8) : ((done a).run b).isSome := rfl

/-- A fixed-width pop needs its width, and what follows it has to fit in the rest. -/
theorem isSome_data_bind {D : Type} [TriviallyCopyable D] {f : D → Pop β} {b : List UInt8} :
    (((Pop.data D).bind f).run b).isSome ↔
      TriviallyCopyable.width D ≤ b.length ∧
        ((f (TriviallyCopyable.ofBytes (b.drop (b.length - TriviallyCopyable.width D)))).run
          (b.take (b.length - TriviallyCopyable.width D))).isSome := by
  rw [run_bind, run_data]
  split
  · rename_i h
    exact (and_iff_right h).symm
  · rename_i h
    simp [h]

/-- A container pop never faults by itself. -/
theorem isSome_container_bind {count : Nat} {f : List UInt8 → Pop β} {b : List UInt8} :
    (((Pop.container count).bind f).run b).isSome ↔
      ((f (zeroFilled count (b.drop (b.length - min count b.length)))).run
        (b.take (b.length - min count b.length))).isSome := by
  rw [run_bind, run_container]
  rfl

/-! ## What a reader takes off -/

/-- On the stack `b` under the bytes `w`, the reader takes `w` off and yields `a`. -/
def Reads (p : Pop α) (b w : List UInt8) (a : α) : Prop := p.run (b ++ w) = some (a, b)

/-- What is popped first was pushed last. -/
theorem Reads.bind {p : Pop α} {f : α → Pop β} {b v w : List UInt8} {a : α} {c : β}
    (hp : p.Reads (b ++ v) w a) (hf : (f a).Reads b v c) : (p.bind f).Reads b (v ++ w) c := by
  unfold Reads at *
  rw [run_bind, ← List.append_assoc, hp]
  exact hf

theorem Reads.map {p : Pop α} {f : α → Pop β} {b w : List UInt8} {a : α} {c : β}
    (hp : p.Reads b w a) (hf : f a = Pop.done c) : (p.bind f).Reads b w c := by
  unfold Reads at *
  rw [run_bind, hp, Option.bind_some, hf]
  rfl

theorem Reads.data {D : Type} [TriviallyCopyable D] (b : List UInt8) (d : D) :
    (Pop.data D).Reads b (TriviallyCopyable.toBytes d) d := by
  unfold Reads Pop.data
  simp [run]

theorem Reads.container (b bs : List UInt8) : (Pop.container bs.length).Reads b bs bs := by
  unfold Reads Pop.container
  simp [run, zeroFilled_full]

/-! ## What a buffer was, given what came off it -/

/-- Of a bound reader that did not fault, neither part faulted. -/
theorem run_bind_eq_some {p : Pop α} {f : α → Pop β} {b : List UInt8} {r : β × List UInt8}
    (run : (p.bind f).run b = some r) :
    ∃ a left, p.run b = some (a, left) ∧ (f a).run left = some r := by
  rw [run_bind] at run
  obtain ⟨⟨a, left⟩, first, second⟩ := Option.bind_eq_some_iff.mp run
  exact ⟨a, left, first, second⟩

/-- A type without padding gives back the bytes it was read from. -/
theorem data_consumed {D : Type} [TriviallyCopyable D] [NoPadding D] {b rest : List UInt8} {d : D}
    (run : (Pop.data D).run b = some (d, rest)) : b = rest ++ TriviallyCopyable.toBytes d := by
  rw [run_data] at run
  split at run
  · rename_i fits
    cases run
    rw [NoPadding.toBytes_ofBytes _ (by rw [List.length_drop]; omega), List.take_append_drop]
  · cases run

/-- A container gives back its front, as far as the buffer went; only a buffer that is used up
leaves it short. -/
theorem container_consumed {count : Nat} {b bs rest : List UInt8}
    (run : (Pop.container count).run b = some (bs, rest)) :
    b = rest ++ bs.take b.length ∧ bs = zeroFilled count (bs.take b.length) ∧
      (b.length < count → rest = []) := by
  rw [run_container] at run
  cases run
  have front : (zeroFilled count (b.drop (b.length - min count b.length))).take b.length =
      b.drop (b.length - min count b.length) := by
    unfold zeroFilled
    rcases Nat.le_total count b.length with fits | short
    · have full : count - (b.drop (b.length - min count b.length)).length = 0 := by
        rw [List.length_drop]
        omega
      rw [full, List.replicate_zero, List.append_nil]
      exact List.take_of_length_le (by rw [List.length_drop]; omega)
    · rw [Nat.min_eq_right short, Nat.sub_self, List.drop_zero]
      exact List.take_left
  refine ⟨?_, ?_, ?_⟩
  · rw [front, List.take_append_drop]
  · rw [front]
  · intro short
    rw [Nat.min_eq_right (Nat.le_of_lt short), Nat.sub_self, List.take_zero]

/-! ## What a reader can yield -/

/-- Whatever the buffer, a value the reader yields has `P`. -/
def Yields (p : Pop α) (P : α → Prop) : Prop := ∀ b r, p.run b = some r → P r.1

theorem Yields.done {P : α → Prop} {a : α} (h : P a) : (Pop.done a).Yields P := by
  intro b r run
  cases run
  exact h

theorem Yields.bind {P : α → Prop} {Q : β → Prop} {p : Pop α} {f : α → Pop β}
    (hp : p.Yields P) (hf : ∀ a, P a → (f a).Yields Q) : (p.bind f).Yields Q := by
  intro b r run
  rw [run_bind] at run
  obtain ⟨q, hq, rest⟩ := Option.bind_eq_some_iff.mp run
  exact hf q.1 (hp b q hq) q.2 r rest

theorem Yields.any (p : Pop α) : p.Yields fun _ => True := fun _ _ _ => trivial

theorem Yields.container (count : Nat) :
    (Pop.container count).Yields fun bs => bs.length = count := by
  intro b r run
  cases run
  exact length_zeroFilled (by simp only [List.length_drop]; omega)

end Pop

end ByteStack
