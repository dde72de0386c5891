import PingPong.Net.Endpoint
import PingPong.Net.Validation

/-!
# What a server makes of the bytes it is sent

The peer of a server connection may be any program, and what it writes may be cut into reads
anywhere, while the connection is writing, closing or failing in between.  `deframe` says what a
string of bytes means: the messages at its front that are complete.

* `Intakes` lists what a step of a server connection can do to its reads.
* `Serving` is the invariant: nothing has been parsed, or the right reply has been read and the
  chain of frame reads is where the bytes after it have brought it.
* `messages_of_bytes`: the messages put in the incoming queue are those of the bytes read after the
  reply, and the only one that may still be missing is the one whose last read has to complete.
-/

namespace PingPong.Net

open TriviallyCopyable (width toBytes ofBytes)

/-! ## The meaning of a string of bytes -/

section Deframing

variable {T : Type} [TriviallyCopyable T]

/-- The first `fuel` messages at the front of a string, as long as they are complete. -/
def parse : Nat → List UInt8 → List (Message T)
  | 0, _ => []
  | fuel + 1, bytes =>
      let header : MessageHeader T := ofBytes (bytes.take (width (MessageHeader T)))
      let rest := bytes.drop (width (MessageHeader T))
      if width (MessageHeader T) ≤ bytes.length ∧ header.size.toNat ≤ rest.length then
        ⟨header, rest.take header.size.toNat⟩ :: parse fuel (rest.drop header.size.toNat)
      else []

/-- The messages at the front of a string; each takes at least one byte. -/
def deframe (bytes : List UInt8) : List (Message T) := parse bytes.length bytes

theorem width_header_pos : 0 < width (MessageHeader T) := by
  have four : width (MessageHeader T) = width T + 4 := rfl
  omega

/-- A string that begins with a frame. -/
theorem parse_frame {msg : Message T} (framed : msg.Framed) (fuel : Nat) (rest : List UInt8) :
    parse (fuel + 1) (msg.frame ++ rest) = msg :: parse fuel rest := by
  have eight : (toBytes msg.header).length = width (MessageHeader T) :=
    TriviallyCopyable.length_toBytes msg.header
  have header : (ofBytes ((msg.frame ++ rest).take (width (MessageHeader T))) : MessageHeader T) =
      msg.header := by
    rw [Message.frame, List.append_assoc, List.take_left' eight, TriviallyCopyable.ofBytes_toBytes]
  have body : (msg.frame ++ rest).drop (width (MessageHeader T)) = msg.body ++ rest := by
    rw [Message.frame, List.append_assoc, List.drop_left' eight]
  have size : msg.header.size.toNat = msg.body.length := framed
  have long : width (MessageHeader T) ≤ (msg.frame ++ rest).length := by
    rw [Message.frame, List.append_assoc, List.length_append, eight]
    exact Nat.le_add_right _ _
  have short : msg.body.length ≤ (msg.body ++ rest).length := by
    rw [List.length_append]
    exact Nat.le_add_right _ _
  rw [parse, header, body, size, if_pos ⟨long, short⟩, List.take_left, List.drop_left]

theorem parse_incomplete {bytes : List UInt8} (fuel : Nat)
    (short : bytes.length < width (MessageHeader T)) :
    (parse fuel bytes : List (Message T)) = [] := by
  cases fuel with
  | zero => rfl
  | succ fuel => exact if_neg fun both => absurd both.1 (Nat.not_le_of_lt short)

/-- More fuel than bytes does not matter. -/
theorem parse_fuel {fuel fuel' : Nat} {bytes : List UInt8} (enough : bytes.length ≤ fuel)
    (enough' : bytes.length ≤ fuel') :
    (parse fuel bytes : List (Message T)) = parse fuel' bytes := by
  have positive : 0 < width (MessageHeader T) := width_header_pos
  induction fuel generalizing fuel' bytes with
  | zero =>
      have short : bytes.length < width (MessageHeader T) := by omega
      rw [parse_incomplete 0 short, parse_incomplete fuel' short]
  | succ fuel ih =>
      cases fuel' with
      | zero =>
          have short : bytes.length < width (MessageHeader T) := by omega
          rw [parse_incomplete (fuel + 1) short, parse_incomplete 0 short]
      | succ fuel' =>
          unfold parse
          dsimp only
          split
          · rename_i complete
            have shorter : ∀ n, ((bytes.drop (width (MessageHeader T))).drop n).length <
                bytes.length := by
              intro n
              have long := complete.1
              simp only [List.length_drop]
              omega
            have tail :=
              shorter (ofBytes (bytes.take (width (MessageHeader T))) : MessageHeader T).size.toNat
            have enough := Nat.le_of_lt_succ (Nat.lt_of_lt_of_le tail enough)
            have enough' := Nat.le_of_lt_succ (Nat.lt_of_lt_of_le tail enough')
            rw [ih enough enough']
          · rfl

theorem deframe_frame {msg : Message T} (framed : msg.Framed) (rest : List UInt8) :
    deframe (msg.frame ++ rest) = msg :: deframe rest := by
  have positive : 0 < width (MessageHeader T) := width_header_pos
  have header : (toBytes msg.header).length = width (MessageHeader T) :=
    TriviallyCopyable.length_toBytes msg.header
  have length : (msg.frame ++ rest).length =
      (width (MessageHeader T) + msg.body.length + rest.length - 1) + 1 := by
    rw [Message.frame, List.length_append, List.length_append, header]
    omega
  unfold deframe
  rw [length, parse_frame framed, parse_fuel (by omega) (Nat.le_refl _)]

/-- **Frames are recovered**, whatever follows them. -/
theorem deframe_frames {msgs : List (Message T)} (framed : ∀ msg ∈ msgs, msg.Framed)
    (rest : List UInt8) : deframe (frames msgs ++ rest) = msgs ++ deframe rest := by
  induction msgs with
  | nil => rfl
  | cons msg msgs ih =>
      have first : msg.Framed := framed msg List.mem_cons_self
      have later := ih fun m member => framed m (List.mem_cons_of_mem msg member)
      have split : frames (msg :: msgs) = msg.frame ++ frames msgs := List.flatMap_cons
      rw [split, List.append_assoc, deframe_frame first, later]
      rfl

/-- A header without its whole body is no message. -/
theorem deframe_partial {header : MessageHeader T} {got : List UInt8}
    (short : got.length < header.size.toNat) :
    (deframe (toBytes header ++ got) : List (Message T)) = [] := by
  have positive : 0 < width (MessageHeader T) := width_header_pos
  have eight : (toBytes header).length = width (MessageHeader T) :=
    TriviallyCopyable.length_toBytes header
  have length : (toBytes header ++ got).length =
      (width (MessageHeader T) + got.length - 1) + 1 := by
    rw [List.length_append, eight]
    omega
  have front : (ofBytes ((toBytes header ++ got).take (width (MessageHeader T))) :
      MessageHeader T) = header := by
    rw [List.take_left' eight, TriviallyCopyable.ofBytes_toBytes]
  have rest : (toBytes header ++ got).drop (width (MessageHeader T)) = got :=
    List.drop_left' eight
  unfold deframe
  rw [length, parse, front, rest]
  exact if_neg fun both => absurd both.2 (Nat.not_le_of_lt short)

theorem deframe_incomplete {bytes : List UInt8} (short : bytes.length < width (MessageHeader T)) :
    (deframe bytes : List (Message T)) = [] := parse_incomplete bytes.length short

end Deframing

namespace Connection

variable {T : Type} [Inhabited T] [TriviallyCopyable T]

/-! ## What a step does to the reads of a server -/

/-- One step of a server connection, as far as its reads and its queue of incoming messages go. -/
inductive Intakes (c : Connection T) : Connection T → Prop
  | aside (c' : Connection T) : c'.checking = c.checking → c'.incoming = c.incoming → Intakes c c'
  | takes (part : Part) (i : Nat) (bytes : List UInt8) (op : Read) :
    (c.reads part)[i]? = some op → bytes.length ≤ op.missing →
    Intakes c (c.takeBytes part i op bytes)
  | reads (part : Part) (i : Nat) (buffer : List UInt8) :
    (c.reads part)[i]? = some ⟨buffer, 0⟩ →
    Intakes c ((c.setReads part ((c.reads part).eraseIdx i)).read buffer part)
  | readFails (part : Part) (i : Nat) (op : Read) : (c.reads part)[i]? = some op →
    Intakes c (c.setReads part ((c.reads part).eraseIdx i)).close

theorem step_intakes {c c' : Connection T} (server : c.m_owner_type = .Server) {a : Act T}
    (step : c.step a = some c') : Intakes c c' := by
  cases step_steps step with
  | refused | accepted | disconnects | disconnected | disconnectsAfterFlush | puts | writeFails =>
      exact .aside _ rfl rfl
  | runs handler later next =>
      have only := runHandler_onlyWrites { c with posted := later } handler
      exact .aside _ (runHandler_checking _ handler) only.incoming
  | writes part i found =>
      have server' : (c.setWrites part ((c.writes part).eraseIdx i)).m_owner_type = .Server :=
        server
      refine .aside _ (wrote_checking server' part) ?_
      cases part with
      | validation =>
          simp only [wrote, validationWritten, server']
          rfl
      | header =>
          exact (headerWritten_onlyWrites
            (c.setWrites .header ((c.writes .header).eraseIdx i))).incoming
      | body =>
          exact (finishMessage_onlyWrites
            (c.setWrites .body ((c.writes .body).eraseIdx i))).incoming
  | takes part i bytes op found isOpen fits => exact .takes part i bytes op found fits
  | reads part i buffer found => exact .reads part i buffer found
  | readFails part i op found => exact .readFails part i op found
  | pops msg rest front =>
      refine .aside _ rfl ?_
      simp [incoming, parsed, front]

/-- A header or a body that has been read leaves the handshake alone. -/
theorem frameRead_control (c : Connection T) {part : Part} (frame : part ≠ .validation) (i : Nat)
    (buffer : List UInt8) :
    ((c.setReads part ((c.reads part).eraseIdx i)).read buffer part).control = c.control := by
  cases part with
  | validation => exact (frame rfl).elim
  | header =>
      exact (headerRead_onlyReads (c.setReads .header ((c.reads .header).eraseIdx i))
        buffer).control
  | body => rfl

/-! ## The invariant -/

/-- A server connection reads the reply and nothing else, or has read it and reads frames. -/
inductive Serving (challenge : UInt64) (c : Connection T) : Prop
  | waiting : Unchecked challenge c.checking → c.parsed = [] →
    c.m_forming_in_message.body = [] → Serving challenge c
  | reading : c.m_owner_type = .Server → c.m_validated = true → c.reads .validation = [] →
    Parsing (toBytes (obfuscate challenge)) c → Serving challenge c

theorem Serving.start (challenge : UInt64) :
    Serving challenge (Connection.start challenge .Server : Connection T) :=
  .waiting (.start challenge) rfl rfl

omit [TriviallyCopyable T] in
theorem Unchecked.congr {challenge : UInt64} {c c' : Connection T}
    (h : Unchecked challenge c.checking) (same : c'.checking = c.checking) :
    Unchecked challenge c'.checking := by
  rw [same]
  exact h

/-- The whole reply has been read: it is wrong, or the first frame comes next. -/
theorem Serving.validationRead {challenge : UInt64} {c : Connection T}
    (h : Unchecked challenge c.checking) (none : c.parsed = [])
    (fresh : c.m_forming_in_message.body = []) {buffer : List UInt8}
    (consumed : c.consumed = buffer) (whole : buffer.length = 8) :
    Serving challenge ((c.setReads .validation []).validationRead buffer) := by
  have server : (c.setReads .validation []).m_owner_type = .Server := h.owner
  have crypted : c.m_handshake_crypted = obfuscate challenge := h.crypted
  have header : c.reads .header = [] := h.header_reads
  have body : c.reads .body = [] := h.body_reads
  rw [validationRead_server server]
  split
  · rename_i matched
    have matched : ofBytes buffer = c.m_handshake_crypted := matched
    have reply : c.consumed = toBytes (obfuscate challenge) := by
      rw [← crypted, ← matched, NoPadding.toBytes_ofBytes buffer whole, consumed]
    refine .reading server rfl ?_ (.readHeader ?_ ?_ ?_ fresh ?_)
    · simp [Connection.readHeader, asyncRead, setReads]
    · intro msg member
      have member : msg ∈ c.parsed := member
      rw [none] at member
      cases member
    · simp [setReads, header]
    · simp [setReads, body]
    · change c.consumed = toBytes (obfuscate challenge) ++ frames c.parsed
      rw [none, frames_nil, List.append_nil, reply]
  · exact .waiting (h.setReads rfl (Or.inl rfl)) none fresh

theorem Serving.step [NoPadding T] {challenge : UInt64} {c c' : Connection T}
    (h : Serving challenge c) (moves : Intakes c c') : Serving challenge c' := by
  cases h with
  | waiting unchecked none fresh =>
      cases moves with
      | aside _ checking incoming =>
          refine .waiting (unchecked.congr checking) ?_ ?_
          · exact (congrArg Incoming.parsed incoming).trans none
          · exact (congrArg (fun r => r.forming.body) incoming).trans fresh
      | takes part i bytes op found fits =>
          obtain ⟨rfl, rfl, reads, consumed, size⟩ := unchecked.read_part found
          refine .waiting (unchecked.setReads rfl
            (Or.inr ⟨⟨op.got ++ bytes, op.missing - bytes.length⟩, ?_, ?_, ?_⟩)) none fresh
          · rw [reads]
            rfl
          · change c.consumed ++ bytes = op.got ++ bytes
            rw [consumed]
          · change (op.got ++ bytes).length + (op.missing - bytes.length) = 8
            rw [List.length_append]
            omega
      | reads part i buffer found =>
          obtain ⟨rfl, rfl, reads, consumed, size⟩ := unchecked.read_part found
          rw [reads]
          exact .validationRead unchecked none fresh consumed size
      | readFails part i op found =>
          obtain ⟨rfl, rfl, reads, consumed, size⟩ := unchecked.read_part found
          rw [reads]
          exact .waiting (unchecked.setReads rfl (Or.inl rfl)) none fresh
  | reading server validated replied parsing =>
      have frame : ∀ {part : Part} {i : Nat} {op : Read}, (c.reads part)[i]? = some op →
          part ≠ .validation := by
        intro part i op found same
        rw [same, replied] at found
        cases found
      cases moves with
      | aside _ checking incoming =>
          refine .reading ?_ ?_ ?_ (parsing.congr incoming)
          · exact (congrArg Checking.owner checking).trans server
          · exact (congrArg Checking.validated checking).trans validated
          · exact (congrArg (fun k => k.reads .validation) checking).trans replied
      | takes part i bytes op found fits =>
          refine .reading server validated ?_ (parsing.take (frame found) found fits)
          exact (Function.update_of_ne (frame found).symm _ _).trans replied
      | reads part i buffer found =>
          obtain ⟨owner, checked, -, -, reads⟩ :=
            Control.mk.inj (frameRead_control c (frame found) i buffer)
          exact .reading (owner.trans server) (checked.trans validated) (reads.trans replied)
            (parsing.read (frame found) found)
      | readFails part i op found =>
          refine .reading server validated ?_ ((parsing.readFailed (frame found) found).congr rfl)
          exact (Function.update_of_ne (frame found).symm _ _).trans replied

theorem run_serving [NoPadding T] {challenge : UInt64} {acts : List (Act T)} {c : Connection T}
    (run : (lts T challenge .Server).run acts = some c) : Serving challenge c := by
  refine Lts.run_induct
    (P := fun _ c => c.m_owner_type = .Server ∧ Serving challenge c) ⟨rfl, .start challenge⟩ ?_
    run |>.2
  intro acts c a c' run ih step
  exact ⟨(step_effect step).owner.trans ih.1, ih.2.step (step_intakes ih.1 step)⟩

/-! ## The messages of the bytes -/

/-- Some frame read is still short of bytes. -/
def Hungry (c : Connection T) : Prop :=
  ∃ part op, part ≠ .validation ∧ op ∈ c.reads part ∧ 0 < op.missing

/-- What has been parsed is at the front of what the bytes mean, and all of it while more is
needed. -/
theorem Parsing.deframed {hs : List UInt8} {c : Connection T} (h : Parsing hs c) :
    ∃ bytes, c.consumed = hs ++ bytes ∧ c.parsed <+: deframe bytes ∧
      (c.Hungry → c.parsed = deframe bytes) := by
  obtain ⟨rest, whole⟩ := h.chain.parsed_isPrefix
  have whole : c.consumed = hs ++ (frames c.parsed ++ rest) := by
    rw [← List.append_assoc]
    exact whole.symm
  have meaning : deframe (frames c.parsed ++ rest) = c.parsed ++ deframe rest :=
    deframe_frames h.framed rest
  refine ⟨frames c.parsed ++ rest, whole, ⟨deframe rest, meaning.symm⟩, fun hungry => ?_⟩
  obtain ⟨part, op, frame, member, missing⟩ := hungry
  have same : ∀ {got : List UInt8}, c.consumed = hs ++ frames c.parsed ++ got → rest = got := by
    intro got consumed
    rw [whole, List.append_assoc] at consumed
    exact List.append_cancel_left (List.append_cancel_left consumed)
  obtain ⟨i, found⟩ := List.getElem?_of_mem member
  have nothing : (deframe rest : List (Message T)) = [] := by
    cases part with
    | validation => exact (frame rfl).elim
    | header =>
        obtain ⟨-, -, -, -, consumed, size⟩ := h.chain.header_found found
        rw [same consumed]
        exact deframe_incomplete (by omega)
    | body =>
        obtain ⟨-, -, -, consumed, size⟩ := h.chain.body_found found
        rw [List.append_assoc _ (toBytes _)] at consumed
        rw [same consumed]
        exact deframe_partial (by omega)
  rw [meaning, nothing, List.append_nil]

/-- **Whatever the peer of a server sends, and however it is cut into reads**, nothing is put in the
incoming queue before the right reply, and after it the messages that the bytes mean are, in order:
all of them, unless the connection has failed or has still to run the handler of a full buffer. -/
theorem messages_of_bytes [NoPadding T] {challenge : UInt64} {acts : List (Act T)}
    {c : Connection T} (run : (lts T challenge .Server).run acts = some c) :
    (c.m_validated = false → c.parsed = []) ∧
      (c.m_validated = true → ∃ bytes, c.consumed = toBytes (obfuscate challenge) ++ bytes ∧
        (∀ msg ∈ c.parsed, msg.Framed) ∧ c.parsed <+: deframe bytes ∧
        (c.Hungry → c.parsed = deframe bytes)) := by
  cases run_serving run with
  | waiting unchecked none fresh =>
      refine ⟨fun _ => none, fun validated => ?_⟩
      cases unchecked.not_validated.symm.trans validated
  | reading server validated replied parsing =>
      refine ⟨fun notValidated => ?_, fun _ => ?_⟩
      · cases notValidated.symm.trans validated
      · obtain ⟨bytes, consumed, front, all⟩ := parsing.deframed
        exact ⟨bytes, consumed, parsing.framed, front, all⟩

/-- The reply in two pieces, then a message of two bytes and the header of another. -/
def intakeActs : List (Act UInt32) :=
  let reply := toBytes (obfuscate 5)
  [.take .validation 0 (reply.take 3), .take .validation 0 (reply.drop 3), .readDone .validation 0,
    .take .header 0 [9, 0, 0, 0, 2], .take .header 0 [0, 0, 0], .readDone .header 0,
    .take .body 0 [7, 8], .readDone .body 0, .take .header 0 [9, 0, 0]]

def intake : Connection UInt32 :=
  ((lts UInt32 5 .Server).run intakeActs).get (by decide +kernel)

theorem messages_of_bytes_intake :
    intake.m_validated = true ∧ intake.parsed = [⟨⟨9, 2⟩, [7, 8]⟩] ∧
      ∃ bytes, intake.consumed = toBytes (obfuscate 5) ++ bytes ∧
        intake.parsed = deframe bytes := by
  have run : (lts UInt32 5 .Server).run intakeActs = some intake := (Option.some_get _).symm
  have validated : intake.m_validated = true := by decide +kernel
  obtain ⟨bytes, consumed, -, -, all⟩ := (messages_of_bytes run).2 validated
  have hungry : intake.Hungry :=
    ⟨.header, ⟨[9, 0, 0], 5⟩, Part.header_ne_validation, by decide +kernel, by decide⟩
  exact ⟨validated, by decide +kernel, bytes, consumed, all hungry⟩

end Connection

end PingPong.Net
