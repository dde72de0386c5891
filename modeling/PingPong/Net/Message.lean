import PingPong.Lib.ByteStack

/-!
# Messages

`Net::Message`: a header with an id and a 32-bit body size, and a body used as a byte stack by the
stream operators.  `push` and `pop` run a sequence of single `operator<<` or `operator>>` calls;
`pushed` and `popped` list the message after each single call of such a sequence.

`msg.body.size() - sizeof(DataType)` underflows on a short body, after which the source reads out of
bounds; `pop` has no outcome there.
-/

namespace PingPong.Net

open ByteStack

structure MessageHeader (T : Type) where
  id : T
  size : UInt32 := 0
deriving DecidableEq

structure Message (T : Type) where
  header : MessageHeader T
  body : List UInt8 := []
deriving DecidableEq

namespace Message

variable {T : Type}

def size (msg : Message T) : Nat := msg.body.length

/-- Replace the body and store its size in the header, as every operator that moves bytes does; the
assignment narrows `size_t` to `uint32_t`. -/
def resized (msg : Message T) (body : List UInt8) : Message T :=
  ⟨⟨msg.header.id, UInt32.ofNat body.length⟩, body⟩

/-- The header size is the body size modulo `2 ^ 32`. -/
def Synced (msg : Message T) : Prop := msg.header.size = UInt32.ofNat msg.size

/-- A message whose header announces exactly its body, which is therefore shorter than `2 ^ 32`. -/
def Framed (msg : Message T) : Prop := msg.header.size.toNat = msg.size

instance (msg : Message T) : Decidable msg.Synced := inferInstanceAs (Decidable (_ = _))

instance (msg : Message T) : Decidable msg.Framed := inferInstanceAs (Decidable (_ = _))

@[simp] theorem resized_id (msg : Message T) (body : List UInt8) :
    (msg.resized body).header.id = msg.header.id := rfl

theorem resized_synced (msg : Message T) (body : List UInt8) : (msg.resized body).Synced := rfl

/-- The header of a message in step with its body is determined by the id and the body. -/
theorem Synced.eq {msg : Message T} (h : msg.Synced) : msg = msg.resized msg.body := by
  unfold resized
  rw [← size, ← h]

theorem Framed.size_lt {msg : Message T} (h : msg.Framed) : msg.size < 2 ^ 32 := by
  rw [← h]
  exact msg.header.size.toNat_lt

/-! ## `operator<<` -/

def push1 (msg : Message T) : Push → Message T
  | .data bytes => msg.resized (msg.body ++ bytes)
  | .container bytes =>
      if bytes.length = 0 then msg else msg.resized (msg.body ++ bytes)

theorem push1_container (msg : Message T) (bytes : List UInt8) :
    msg.push1 (.container bytes) =
      if bytes.length = 0 then msg else msg.resized (msg.body ++ bytes) := rfl

def push (msg : Message T) (ws : List Push) : Message T := ws.foldl push1 msg

/-- The message after each single push. -/
def pushed (msg : Message T) : List Push → List (Message T)
  | [] => []
  | w :: ws => msg.push1 w :: (msg.push1 w).pushed ws

theorem push_cons (msg : Message T) (w : Push) (ws : List Push) :
    msg.push (w :: ws) = (msg.push1 w).push ws := rfl

theorem push_append (msg : Message T) (vs ws : List Push) :
    msg.push (vs ++ ws) = (msg.push vs).push ws := List.foldl_append

@[simp] theorem push1_body (msg : Message T) (w : Push) :
    (msg.push1 w).body = msg.body ++ w.bytes := by
  cases w with
  | data bytes => rfl
  | container bytes =>
      rw [push1_container]
      split
      · rename_i h
        rw [Push.bytes, List.eq_nil_of_length_eq_zero h, List.append_nil]
      · rfl

@[simp] theorem push1_id (msg : Message T) (w : Push) :
    (msg.push1 w).header.id = msg.header.id := by
  cases w with
  | data bytes => rfl
  | container bytes =>
      rw [push1_container]
      split <;> rfl

theorem Synced.push1 {msg : Message T} (h : msg.Synced) (w : Push) : (msg.push1 w).Synced := by
  cases w with
  | data bytes => exact resized_synced _ _
  | container bytes =>
      rw [push1_container]
      split
      · exact h
      · exact resized_synced _ _

@[simp] theorem push_body (msg : Message T) (ws : List Push) :
    (msg.push ws).body = msg.body ++ written ws := by
  induction ws generalizing msg with
  | nil => exact (List.append_nil _).symm
  | cons w ws ih => rw [push_cons, ih, push1_body, written_cons, List.append_assoc]

@[simp] theorem push_id (msg : Message T) (ws : List Push) :
    (msg.push ws).header.id = msg.header.id := by
  induction ws generalizing msg with
  | nil => rfl
  | cons w ws ih => rw [push_cons, ih, push1_id]

theorem Synced.pushed {msg : Message T} (h : msg.Synced) (ws : List Push) :
    ∀ m ∈ msg.pushed ws, m.Synced := by
  induction ws generalizing msg with
  | nil =>
      intro m hm
      cases hm
  | cons w ws ih =>
      intro m hm
      rcases List.mem_cons.mp hm with rfl | later
      · exact h.push1 w
      · exact ih (h.push1 w) m later

/-- A sequence that ends in a fixed-width push leaves the header in step with the body, whatever
it was before. -/
theorem push_data_synced (msg : Message T) (ws : List Push) (bytes : List UInt8) :
    (msg.push (ws ++ [.data bytes])).Synced := by
  rw [push_append]
  exact resized_synced _ _

/-! ## `operator>>` -/

variable {α : Type}

def pop : Pop α → Message T → Option (α × Message T)
  | .done a, msg => some (a, msg)
  | .fixed width k, msg =>
      if width ≤ msg.size then
        let offset := msg.size - width
        pop (k (msg.body.drop offset)) (msg.resized (msg.body.take offset))
      else none
  | .clamped count k, msg =>
      if count = 0 then pop (k []) msg
      else
        let offset := msg.size - min count msg.size
        pop (k (Pop.zeroFilled count (msg.body.drop offset))) (msg.resized (msg.body.take offset))
  | .size k, msg => pop (k msg.size) msg

/-- The message after each single pop, up to the first that faults. -/
def popped : Pop α → Message T → List (Message T)
  | .done _, _ => []
  | .fixed width k, msg =>
      if width ≤ msg.size then
        let offset := msg.size - width
        let rest := msg.resized (msg.body.take offset)
        rest :: popped (k (msg.body.drop offset)) rest
      else []
  | .clamped count k, msg =>
      if count = 0 then msg :: popped (k []) msg
      else
        let offset := msg.size - min count msg.size
        let rest := msg.resized (msg.body.take offset)
        rest :: popped (k (Pop.zeroFilled count (msg.body.drop offset))) rest
  | .size k, msg => popped (k msg.size) msg

theorem pop_fixed_of_le {width : Nat} {k : List UInt8 → Pop α} {msg : Message T}
    (h : width ≤ msg.size) :
    pop (.fixed width k) msg =
      pop (k (msg.body.drop (msg.size - width)))
        (msg.resized (msg.body.take (msg.size - width))) := if_pos h

theorem pop_fixed_of_lt {width : Nat} {k : List UInt8 → Pop α} {msg : Message T}
    (h : ¬ width ≤ msg.size) : pop (.fixed width k) msg = none := if_neg h

theorem pop_clamped_zero (k : List UInt8 → Pop α) (msg : Message T) :
    pop (.clamped 0 k) msg = pop (k []) msg := rfl

theorem pop_clamped_of_ne {count : Nat} {k : List UInt8 → Pop α} {msg : Message T}
    (h : count ≠ 0) :
    pop (.clamped count k) msg =
      pop (k (Pop.zeroFilled count (msg.body.drop (msg.size - min count msg.size))))
        (msg.resized (msg.body.take (msg.size - min count msg.size))) := if_neg h

/-- On the body, `pop` is the reader of the byte stack. -/
theorem pop_run (p : Pop α) (msg : Message T) :
    (pop p msg).map (fun r => (r.1, r.2.body)) = p.run msg.body := by
  induction p generalizing msg with
  | done a => rfl
  | fixed width k ih =>
      by_cases h : width ≤ msg.size
      · rw [pop_fixed_of_le h, ih, Pop.run, if_pos (by exact h)]
        rfl
      · rw [pop_fixed_of_lt h, Pop.run, if_neg (by exact h)]
        rfl
  | clamped count k ih =>
      by_cases h : count = 0
      · subst h
        rw [pop_clamped_zero, ih]
        simp [Pop.run, Pop.zeroFilled]
      · rw [pop_clamped_of_ne h, ih]
        rfl
  | size k ih => exact ih _ _

theorem pop_eq_none_iff (p : Pop α) (msg : Message T) :
    pop p msg = none ↔ p.run msg.body = none := by
  rw [← pop_run]
  exact Option.map_eq_none_iff.symm

theorem pop_yields {p : Pop α} {P : α → Prop} (h : p.Yields P) {msg : Message T}
    {r : α × Message T} (hr : pop p msg = some r) : P r.1 := by
  have run := pop_run p msg
  rw [hr] at run
  exact h _ _ run.symm

theorem pop_id {p : Pop α} {msg : Message T} {r : α × Message T}
    (hr : pop p msg = some r) : r.2.header.id = msg.header.id := by
  induction p generalizing msg with
  | done a =>
      cases hr
      rfl
  | fixed width k ih =>
      simp only [pop] at hr
      split at hr
      · rw [ih _ hr, resized_id]
      · cases hr
  | clamped count k ih =>
      simp only [pop] at hr
      split at hr
      · exact ih _ hr
      · rw [ih _ hr, resized_id]
  | size k ih => exact ih _ hr

theorem Synced.pop {p : Pop α} {msg : Message T} (h : msg.Synced) {r : α × Message T}
    (hr : Message.pop p msg = some r) : r.2.Synced := by
  induction p generalizing msg with
  | done a =>
      cases hr
      exact h
  | fixed width k ih =>
      simp only [Message.pop] at hr
      split at hr
      · exact ih _ (resized_synced _ _) hr
      · cases hr
  | clamped count k ih =>
      simp only [Message.pop] at hr
      split at hr
      · exact ih _ h hr
      · exact ih _ (resized_synced _ _) hr
  | size k ih => exact ih _ h hr

theorem Synced.popped {msg : Message T} (h : msg.Synced) (p : Pop α) :
    ∀ m ∈ Message.popped p msg, m.Synced := by
  induction p generalizing msg with
  | done a =>
      intro m hm
      cases hm
  | fixed width k ih =>
      intro m hm
      simp only [Message.popped] at hm
      split at hm
      · rcases List.mem_cons.mp hm with rfl | later
        · exact resized_synced _ _
        · exact ih _ (resized_synced _ _) m later
      · cases hm
  | clamped count k ih =>
      intro m hm
      simp only [Message.popped] at hm
      split at hm <;> rcases List.mem_cons.mp hm with rfl | later
      · exact h
      · exact ih _ h m later
      · exact resized_synced _ _
      · exact ih _ (resized_synced _ _) m later
  | size k ih => exact ih _ h

/-- A reader takes off a message what was written to it, and the header follows the body. -/
theorem pop_of_reads {p : Pop α} {b w : List UInt8} {a : α} (h : p.Reads b w a) {msg : Message T}
    (body : msg.body = b ++ w) (synced : msg.Synced) :
    pop p msg = some (a, msg.resized b) := by
  have run := pop_run p msg
  rw [body, h] at run
  obtain ⟨⟨a', rest⟩, hr, heq⟩ := Option.map_eq_some_iff.mp run
  have hsync : rest.Synced := synced.pop hr
  have hid : rest.header.id = msg.header.id := pop_id hr
  obtain ⟨rfl, rfl⟩ := Prod.mk.inj heq
  have same : rest = msg.resized rest.body := by
    rw [hsync.eq, resized, resized, hid]
  rw [hr, ← same]

end Message

end PingPong.Net
