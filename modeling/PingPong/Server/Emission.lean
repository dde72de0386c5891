import PingPong.Server.Invariant

/-!
# What the server sends can be decoded

* `exceedsChunkSize_eq_false_iff`: the one size test on a chunk bounds it from both sides, because
  the subtraction wraps for a body shorter than a hash.
* `Announced.decodes`: what was stored for an announcement encodes to an `Accept` that decodes back.
* `emits_decodable`: in every reachable state, every `Chunk` and every `Accept` sent on any
  connection can be taken apart by the client without reading out of its body.
-/

namespace PingPong

open Common Net

namespace FileServer

variable {κ : Type} [DecidableEq κ]

/-- What the clients rely on when they take a message apart: the receiver pops a hash off a chunk,
and both sides decode an `Accept`. -/
structure Decodable (msg : Message) : Prop where
  chunk : msg.header.id = .Chunk →
    SHA256_DIGEST_LENGTH ≤ msg.size ∧ msg.size ≤ SHA256_DIGEST_LENGTH + m_max_chunk_size.toNat ∧
      (msg.pop (ByteStack.Pop.data Hash)).isSome
  accept : msg.header.id = .Accept →
    ∃ post rest, decode .Accept msg = some (post, rest) ∧ rest.body = [] ∧
      post.max_chunk_size = m_max_chunk_size ∧ post.Sized

theorem Decodable.of_other {msg : Message} (chunk : msg.header.id ≠ .Chunk)
    (accept : msg.header.id ≠ .Accept) : Decodable msg :=
  ⟨fun h => (chunk h).elim, fun h => (accept h).elim⟩

/-- A hash comes off a message just when there are enough bytes for it. -/
theorem pop_hash_isSome_iff (msg : Message) :
    (msg.pop (ByteStack.Pop.data Hash)).isSome ↔ SHA256_DIGEST_LENGTH ≤ msg.size := by
  have width : TriviallyCopyable.width Hash = SHA256_DIGEST_LENGTH := rfl
  have fault : msg.pop (ByteStack.Pop.data Hash) = none ↔ msg.size < SHA256_DIGEST_LENGTH := by
    rw [Message.pop_eq_none_iff, ByteStack.Pop.run_data, width, ite_eq_right_iff, ← Nat.not_le]
    exact ⟨fun refuses fits => Option.some_ne_none _ (refuses fits),
      fun short fits => (short fits).elim⟩
  rw [Option.isSome_iff_ne_none, ne_eq, fault, Nat.not_lt]

/-- For a message off the wire, the size test of `onSessionedMessage` is a bound from both sides. -/
theorem exceedsChunkSize_eq_false_iff {msg : Message} (framed : msg.Framed) :
    exceedsChunkSize msg = false ↔
      SHA256_DIGEST_LENGTH ≤ msg.size ∧
        msg.size ≤ SHA256_DIGEST_LENGTH + m_max_chunk_size.toNat := by
  have bound : msg.size < 2 ^ 32 := framed.size_lt
  have size : (UInt64.ofNat msg.size).toNat = msg.size :=
    UInt64.toNat_ofNat_of_lt (by rw [UInt64.size]; omega)
  have digest : SHA256_DIGEST_LENGTH = 32 := rfl
  have offset : (UInt64.ofNat 32).toNat = 32 := rfl
  have limit : m_max_chunk_size.toNat = 512 := rfl
  unfold exceedsChunkSize
  rw [decide_eq_false_iff_not, UInt64.lt_iff_toNat_lt, UInt64.toNat_sub, digest, size, offset,
    limit]
  rcases Nat.lt_or_ge msg.size 32 with short | long
  · have wrapped : (2 ^ 64 - 32 + msg.size) % 2 ^ 64 = 2 ^ 64 - 32 + msg.size :=
      Nat.mod_eq_of_lt (by omega)
    rw [wrapped]
    omega
  · have plain : (2 ^ 64 - 32 + msg.size) % 2 ^ 64 = msg.size - 32 := by omega
    rw [plain]
    omega

theorem Decodable.of_fits {msg : Message} (framed : msg.Framed)
    (fits : exceedsChunkSize msg = false) (chunk : msg.header.id = .Chunk) : Decodable msg := by
  obtain ⟨lower, upper⟩ := (exceedsChunkSize_eq_false_iff framed).mp fits
  refine ⟨fun _ => ⟨lower, upper, (pop_hash_isSome_iff msg).mpr lower⟩, fun accept => ?_⟩
  rw [chunk] at accept
  cases accept

/-- Whatever bytes an announcement was decoded from, its strings were stored with their sizes, so
the `Accept` made from it reads back in full. -/
theorem Announced.decodes {context : TransmissionContext} (h : Announced context) :
    decode .Accept (encode .Accept context.post_metadata) =
        some (context.post_metadata, ⟨⟨.Accept, 0⟩, []⟩) ∧
      context.post_metadata.max_chunk_size = m_max_chunk_size ∧ context.post_metadata.Sized := by
  obtain ⟨sized, stored⟩ := h
  have post : context.post_metadata.Sized := by
    rw [stored]
    exact sized
  refine ⟨decode_encode fun msg _ => PostMetadata.roundTrips msg post, ?_, post⟩
  rw [stored]
  rfl

theorem Decodable.of_announced {context : TransmissionContext} (h : Announced context) :
    Decodable (encode .Accept context.post_metadata) := by
  obtain ⟨decodes, size, sized⟩ := h.decodes
  refine ⟨fun chunk => ?_, fun _ => ⟨_, _, decodes, rfl, size, sized⟩⟩
  rw [encode_id] at chunk
  cases chunk

/-- What a handled message adds to a connection is decodable. -/
theorem Handled.emits {srv srv' : FileServer κ} (inv : srv.Inv) {c : κ} {msg : Message}
    (framed : msg.Framed) (h : Handled srv c msg srv') {d : κ} {m : Message}
    (sent : m ∈ srv'.sentTo d) : m ∈ srv.sentTo d ∨ Decodable m := by
  have posted : ∀ {target : κ} {answer : Message}, Decodable answer →
      m ∈ (srv.post target answer).sentTo d → m ∈ srv.sentTo d ∨ Decodable m := by
    intro target answer ok member
    rw [post_sentTo] at member
    split at member
    · rcases List.mem_append.mp member with before | new
      · exact Or.inl before
      · rw [List.mem_singleton.mp new]
        exact Or.inr ok
    · exact Or.inl member
  have aborted : ∀ s, m ∈ (srv.removeSessionAbruptly s).sentTo d →
      m ∈ srv.sentTo d ∨ Decodable m := by
    intro s member
    rw [removeSessionAbruptly_eq, dropSender_sentTo] at member
    unfold abortSink at member
    split at member
    · exact posted (.of_other (by decide) (by decide)) member
    · exact Or.inl member
  cases h with
  | relayed session found relays =>
      rcases relays with final | ⟨chunk, fits, -⟩
      · refine posted (.of_other ?_ ?_) sent <;> rw [final] <;> decide
      · exact posted (.of_fits framed fits chunk) sent
  | aborted session found ends => exact aborted c sent
  | registered pre rest free kind decoded => exact Or.inl sent
  | refused request rest free kind decoded unknown =>
      exact posted (.of_other (by decide) (by decide)) sent
  | offered request rest s context free kind decoded known found =>
      exact posted (.of_announced ((inv s).announced context found)) sent
  | turnedAway request rest free kind decoded unknown =>
      exact posted (.of_other (by decide) (by decide)) sent
  | stranded request rest s free kind decoded known none => exact aborted s sent
  | opened request rest s context free kind decoded known found =>
      exact posted (.of_announced ((inv s).announced context found)) sent
  | finished s free kind paired =>
      rw [dropSender_sentTo] at sent
      exact posted (.of_other (by decide) (by decide)) sent
  | failed s free kind paired => exact aborted s sent
  | ignored => exact Or.inl sent

/-- **The server only emits what its clients can decode.** -/
theorem emits_decodable {srv : FileServer κ} (reachable : Reachable srv) :
    ∀ (c : κ), ∀ msg ∈ srv.sentTo c, Decodable msg := by
  refine Lts.Reachable.induct (M := lts κ)
    (P := fun srv => ∀ (c : κ), ∀ msg ∈ srv.sentTo c, Decodable msg) ?_ ?_ reachable
  · intro c msg member
    cases member
  · intro srv e srv' before ih step c m member
    rcases step_handled step with ⟨only, -⟩ | ⟨d, msg, -, handled⟩
    · rw [only.sent] at member
      exact ih c m member
    · rcases handled.emits (Reachable.inv before) msg.2 member with old | new
      · exact ih c m old
      · exact new

/-- The `Accept` that opens a session reaches its sender in one piece. -/
theorem emits_decodable_onePair :
    ∃ msg ∈ onePair.sentTo 0, msg.header.id = .Accept ∧ Decodable msg := by
  have sent : onePair.sentTo 0 = [encode .Accept ⟨.File, 512, ⟨1, [7]⟩, ⟨3, 1, [8]⟩⟩] := by decide
  have member : encode .Accept ⟨.File, 512, ⟨1, [7]⟩, ⟨3, 1, [8]⟩⟩ ∈ onePair.sentTo 0 := by
    rw [sent]
    exact List.mem_singleton_self _
  exact ⟨_, member, by decide, emits_decodable onePair_reachable 0 _ member⟩

end FileServer

end PingPong
