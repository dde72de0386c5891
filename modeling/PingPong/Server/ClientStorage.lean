import PingPong.Lib.Bimap
import PingPong.Common.Payload

/-!
# The server's store

`ClientStorage` of `server.cpp`, over an arbitrary type `κ` of connections, and the relay session.
`entriesOf s` collects what the four maps hold under the sender `s`; each operation is described by
what it does to the entries of every sender.
-/

namespace PingPong

open Common

/-- The only `ServerSession` the server creates. -/
structure ServerOneToOneRetranslatorSession (κ : Type) where
  file_size : UInt64
  max_chunk_size : UInt32
  m_sink : κ
deriving DecidableEq

structure TransmissionContext where
  pre_metadata : PreMetadata
  post_metadata : PostMetadata
deriving DecidableEq

structure ClientStorage (κ : Type) where
  m_pending_phrase_senders : Bimap κ (List UInt8) := .empty
  m_pending_transmissions : Dict κ TransmissionContext := fun _ => none
  m_senders_receivers : Bimap κ κ := .empty
  m_sessions : Dict κ (ServerOneToOneRetranslatorSession κ) := fun _ => none

/-- What the four maps hold under one sender. -/
structure Entries (κ : Type) where
  phrase : Option (List UInt8)
  context : Option TransmissionContext
  pairing : Option κ
  session : Option (ServerOneToOneRetranslatorSession κ)
deriving DecidableEq

/-- A sender that is a key of none of the four maps. -/
def Entries.absent {κ : Type} : Entries κ := ⟨none, none, none, none⟩

/-- Every entry of `e` is still there, unchanged, in `f`. -/
structure Entries.Kept {κ : Type} (e f : Entries κ) : Prop where
  phrase : ∀ p, e.phrase = some p → f.phrase = some p
  context : ∀ x, e.context = some x → f.context = some x
  pairing : ∀ r, e.pairing = some r → f.pairing = some r
  session : ∀ x, e.session = some x → f.session = some x

theorem Entries.Kept.of_eq {κ : Type} {e f : Entries κ} (h : f = e) : e.Kept f := by
  subst h
  exact ⟨fun _ => id, fun _ => id, fun _ => id, fun _ => id⟩

namespace ClientStorage

variable {κ : Type}

def entriesOf (st : ClientStorage κ) (s : κ) : Entries κ :=
  ⟨st.m_pending_phrase_senders.left s, st.m_pending_transmissions s,
    st.m_senders_receivers.left s, st.m_sessions s⟩

abbrev getSenderByCode (st : ClientStorage κ) (code : List UInt8) : Option κ :=
  st.m_pending_phrase_senders.right code

abbrev getSenderByReceiver (st : ClientStorage κ) (receiver : κ) : Option κ :=
  st.m_senders_receivers.right receiver

abbrev getContextBySender (st : ClientStorage κ) (sender : κ) : Option TransmissionContext :=
  st.m_pending_transmissions sender

abbrev getSessionBySender (st : ClientStorage κ) (sender : κ) :
    Option (ServerOneToOneRetranslatorSession κ) :=
  st.m_sessions sender

theorem getSenderByCode_iff {st : ClientStorage κ} {code : List UInt8} {s : κ} :
    st.getSenderByCode code = some s ↔ (st.entriesOf s).phrase = some code :=
  (st.m_pending_phrase_senders.mirror s code).symm

theorem getSenderByReceiver_iff {st : ClientStorage κ} {r s : κ} :
    st.getSenderByReceiver r = some s ↔ (st.entriesOf s).pairing = some r :=
  (st.m_senders_receivers.mirror s r).symm

variable [DecidableEq κ]

def removePendingSender (st : ClientStorage κ) (sender : κ) : ClientStorage κ :=
  { st with
    m_pending_phrase_senders := st.m_pending_phrase_senders.eraseLeft sender
    m_pending_transmissions := st.m_pending_transmissions.erase sender }

def addPendingSender (st : ClientStorage κ) (sender : κ) (max_chunk_size : UInt64)
    (pre_metadata : PreMetadata) : ClientStorage κ :=
  { st with
    m_pending_phrase_senders :=
      st.m_pending_phrase_senders.insert sender pre_metadata.code_phrase.code
    m_pending_transmissions :=
      st.m_pending_transmissions.insert sender
        { pre_metadata
          post_metadata :=
            { payload_type := pre_metadata.payload_type
              max_chunk_size
              code_phrase := pre_metadata.code_phrase
              file_data := pre_metadata.file_data } } }

/-- The two erasures of `removeSession`; it goes on to disconnect the sender. -/
def eraseSession (st : ClientStorage κ) (sender : κ) : ClientStorage κ :=
  { st with
    m_sessions := st.m_sessions.erase sender
    m_senders_receivers := st.m_senders_receivers.eraseLeft sender }

def addSession (st : ClientStorage κ) (sender receiver : κ)
    (session : ServerOneToOneRetranslatorSession κ) : ClientStorage κ :=
  { st with
    m_senders_receivers := st.m_senders_receivers.insert sender receiver
    m_sessions := st.m_sessions.insert sender session }

/-! ## What each operation does to the entries of a sender -/

@[simp] theorem entriesOf_removePendingSender_self (st : ClientStorage κ) (a : κ) :
    (st.removePendingSender a).entriesOf a =
      { st.entriesOf a with phrase := none, context := none } := by
  simp [entriesOf, removePendingSender]

@[simp] theorem entriesOf_removePendingSender_of_ne {st : ClientStorage κ} {a s : κ}
    (h : s ≠ a) : (st.removePendingSender a).entriesOf s = st.entriesOf s := by
  simp [entriesOf, removePendingSender, h]

@[simp] theorem entriesOf_addPendingSender_of_ne {st : ClientStorage κ} {a s : κ}
    {m : UInt64} {pre : PreMetadata} (h : s ≠ a) :
    (st.addPendingSender a m pre).entriesOf s = st.entriesOf s := by
  simp [entriesOf, addPendingSender, h]

@[simp] theorem entriesOf_eraseSession_self (st : ClientStorage κ) (a : κ) :
    (st.eraseSession a).entriesOf a =
      { st.entriesOf a with pairing := none, session := none } := by
  simp [entriesOf, eraseSession]

@[simp] theorem entriesOf_eraseSession_of_ne {st : ClientStorage κ} {a s : κ} (h : s ≠ a) :
    (st.eraseSession a).entriesOf s = st.entriesOf s := by
  simp [entriesOf, eraseSession, h]

@[simp] theorem entriesOf_addSession_of_ne {st : ClientStorage κ} {a r s : κ}
    {x : ServerOneToOneRetranslatorSession κ} (h : s ≠ a) :
    (st.addSession a r x).entriesOf s = st.entriesOf s := by
  simp [entriesOf, addSession, h]

/-- What `addPendingSender` stores beside the phrase. -/
def announce (max_chunk_size : UInt64) (pre_metadata : PreMetadata) : TransmissionContext :=
  { pre_metadata
    post_metadata :=
      { payload_type := pre_metadata.payload_type
        max_chunk_size
        code_phrase := pre_metadata.code_phrase
        file_data := pre_metadata.file_data } }

/-- The code belongs to nobody else. -/
def FreeFor (st : ClientStorage κ) (a : κ) (code : List UInt8) : Prop :=
  ∀ s, st.getSenderByCode code = some s → s = a

theorem freeFor_iff_removed {st : ClientStorage κ} {a : κ} {code : List UInt8} :
    st.FreeFor a code ↔ (st.removePendingSender a).getSenderByCode code = none := by
  have lookup : (st.removePendingSender a).getSenderByCode code =
      if st.getSenderByCode code = some a then none else st.getSenderByCode code :=
    st.m_pending_phrase_senders.right_eraseLeft a code
  rw [lookup]
  unfold FreeFor
  split
  · rename_i own
    simp [own]
  · rename_i notOwn
    constructor
    · intro free
      refine Option.eq_none_iff_forall_ne_some.mpr fun s known => ?_
      rw [free s known] at known
      exact notOwn known
    · intro unknown s known
      rw [unknown] at known
      cases known

/-- Removing a pending sender and adding it again: its context is always stored, its phrase only
where nobody else holds it. -/
theorem entriesOf_register_self {st : ClientStorage κ} {a : κ} {m : UInt64} {pre : PreMetadata}
    {phrase : Option (List UInt8)}
    (h : (st.FreeFor a pre.code_phrase.code ∧ phrase = some pre.code_phrase.code) ∨
      (¬ st.FreeFor a pre.code_phrase.code ∧ phrase = none)) :
    ((st.removePendingSender a).addPendingSender a m pre).entriesOf a =
      { st.entriesOf a with phrase := phrase, context := some (announce m pre) } := by
  have left : (((st.removePendingSender a).addPendingSender a m pre).entriesOf a).phrase =
      phrase := by
    change ((st.removePendingSender a).m_pending_phrase_senders.insert a _).left a = phrase
    have erased : (st.removePendingSender a).m_pending_phrase_senders.left a = none :=
      Bimap.left_eraseLeft_self _ a
    rw [Bimap.left_insert_self, erased]
    rcases h with ⟨free, rfl⟩ | ⟨taken, rfl⟩
    · rw [if_pos ⟨rfl, freeFor_iff_removed.mp free⟩]
    · rw [if_neg fun both => taken (freeFor_iff_removed.mpr both.2)]
  have context : (((st.removePendingSender a).addPendingSender a m pre).entriesOf a).context =
      some (announce m pre) := Dict.insert_erase_self _ a _
  rw [← left, ← context]
  rfl

theorem entriesOf_register_of_ne {st : ClientStorage κ} {a s : κ} {m : UInt64}
    {pre : PreMetadata} (h : s ≠ a) :
    ((st.removePendingSender a).addPendingSender a m pre).entriesOf s = st.entriesOf s := by
  rw [entriesOf_addPendingSender_of_ne h, entriesOf_removePendingSender_of_ne h]

/-- The two insertions of `addSession` are refused independently of each other. -/
theorem entriesOf_addSession_self (st : ClientStorage κ) (a r : κ)
    (x : ServerOneToOneRetranslatorSession κ) :
    (st.addSession a r x).entriesOf a =
      { st.entriesOf a with
        pairing :=
          if (st.entriesOf a).pairing = none ∧ st.getSenderByReceiver r = none then some r
          else (st.entriesOf a).pairing
        session :=
          if (st.entriesOf a).session = none then some x else (st.entriesOf a).session } := by
  have pairing : ((st.addSession a r x).entriesOf a).pairing =
      if (st.entriesOf a).pairing = none ∧ st.getSenderByReceiver r = none then some r
      else (st.entriesOf a).pairing := Bimap.left_insert_self _ a r
  have session : ((st.addSession a r x).entriesOf a).session =
      if (st.entriesOf a).session = none then some x else (st.entriesOf a).session := by
    change (st.m_sessions.insert a x) a = if st.m_sessions a = none then some x else _
    split
    · rename_i free
      exact Dict.insert_self_of_free free
    · rename_i taken
      rw [Dict.insert_of_taken taken]
      rfl
  rw [← pairing, ← session]
  rfl

end ClientStorage

end PingPong
