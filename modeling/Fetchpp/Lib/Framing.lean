import Mathlib.Data.List.Basic

/-!
# Messages in a stream of bytes

A framing finds the end of the first message among the bytes that have arrived
so far.  A reader keeps the bytes the framing has taken apart from the buffer
they came from; feeding it never loses or reorders a byte, and once the end of
a message is found nothing that arrives later changes it.
-/

namespace Fetchpp.Lib

variable {Byte Value Error : Type}

/-- The outcome of parsing; `used` counts the bytes taken out of the buffer. -/
inductive Progress (Value Error : Type) where
  | more (used : Nat)
  | done (used : Nat) (value : Value)
  | failed (used : Nat) (error : Error)
  deriving DecidableEq, Repr

/-- `parse` is given all bytes that arrived since the message began, `finish`
the same bytes when no others will come. -/
structure Framing (Byte Value Error : Type) where
  parse : List Byte → Progress Value Error
  finish : List Byte → Except Error Value

/-- What a reader has to know about a parser. -/
structure Framing.Lawful (framing : Framing Byte Value Error) : Prop where
  parse_nil : framing.parse [] = .more 0
  done_le : ∀ {bytes used value},
    framing.parse bytes = .done used value → used ≤ bytes.length
  done_append : ∀ {bytes used value} (later : List Byte),
    framing.parse bytes = .done used value →
    framing.parse (bytes ++ later) = .done used value
  finish_nil : ∀ value, framing.finish [] ≠ .ok value
  /-- a message that the end of the stream completes has taken every byte -/
  finish_used : ∀ {bytes used value}, framing.parse bytes = .more used →
    framing.finish bytes = .ok value → used = bytes.length
  /-- and has no end of its own -/
  finish_open : ∀ {bytes used value} (later : List Byte),
    framing.parse bytes = .more used → framing.finish bytes = .ok value →
    ∀ used' value', framing.parse (bytes ++ later) ≠ .done used' value'

/-- The state of a reader after it was fed. -/
inductive Fed (Byte Value Error : Type) where
  | more (parsed : List Byte)
  | ended (result : Except Error Value)

namespace Framing

/-- Parses what is in the buffer behind the bytes already parsed; the first
component is what stays in the buffer. -/
def feed (framing : Framing Byte Value Error) (parsed buffer : List Byte) :
    List Byte × Fed Byte Value Error :=
  let data := parsed ++ buffer
  match framing.parse data with
  | .more used => (data.drop used, .more (data.take used))
  | .done used value => (data.drop used, .ended (.ok value))
  | .failed used error => (data.drop used, .ended (.error error))

variable {framing : Framing Byte Value Error} {parsed buffer rest : List Byte}

theorem feed_more {parsed' : List Byte}
    (fed : framing.feed parsed buffer = (rest, .more parsed')) :
    ∃ used, framing.parse (parsed ++ buffer) = .more used ∧
      parsed' = (parsed ++ buffer).take used ∧
      rest = (parsed ++ buffer).drop used := by
  unfold feed at fed
  dsimp only at fed
  cases parse : framing.parse (parsed ++ buffer) with
  | more used =>
      simp only [parse, Prod.mk.injEq, Fed.more.injEq] at fed
      exact ⟨used, rfl, fed.2.symm, fed.1.symm⟩
  | done used value => simp [parse] at fed
  | failed used error => simp [parse] at fed

theorem feed_done {value : Value}
    (fed : framing.feed parsed buffer = (rest, .ended (.ok value))) :
    ∃ used, framing.parse (parsed ++ buffer) = .done used value ∧
      rest = (parsed ++ buffer).drop used := by
  unfold feed at fed
  dsimp only at fed
  cases parse : framing.parse (parsed ++ buffer) with
  | more used => simp [parse] at fed
  | done used value' =>
      simp only [parse, Prod.mk.injEq, Fed.ended.injEq, Except.ok.injEq] at fed
      exact ⟨used, by rw [fed.2], fed.1.symm⟩
  | failed used error => simp [parse] at fed

theorem feed_failed {error : Error}
    (fed : framing.feed parsed buffer = (rest, .ended (.error error))) :
    ∃ used, framing.parse (parsed ++ buffer) = .failed used error := by
  unfold feed at fed
  dsimp only at fed
  cases parse : framing.parse (parsed ++ buffer) with
  | more used => simp [parse] at fed
  | done used value => simp [parse] at fed
  | failed used error' =>
      simp only [parse, Prod.mk.injEq, Fed.ended.injEq,
        Except.error.injEq] at fed
      exact ⟨used, by rw [fed.2]⟩

/-- No byte is lost while a message is incomplete. -/
theorem feed_append {parsed' : List Byte}
    (fed : framing.feed parsed buffer = (rest, .more parsed')) :
    parsed' ++ rest = parsed ++ buffer := by
  obtain ⟨used, _, rfl, rfl⟩ := feed_more fed
  exact List.take_append_drop used _

@[simp] theorem Lawful.feed_nil (lawful : framing.Lawful) :
    framing.feed [] [] = ([], .more []) := by
  simp [feed, lawful.parse_nil]

/-- The framing finds the end of no message inside `message`; a message that
ends with the stream has no end at all. -/
def OneMessage (framing : Framing Byte Value Error) (message : List Byte) :
    Prop :=
  ∀ arrived used value, arrived <+: message →
    framing.parse arrived = .done used value → used = message.length

theorem Lawful.oneMessage_of_done (lawful : framing.Lawful)
    {message : List Byte} {value : Value}
    (parse : framing.parse message = .done message.length value) :
    framing.OneMessage message := by
  rintro arrived used value' ⟨later, rfl⟩ arrivedParse
  have whole := lawful.done_append later arrivedParse
  rw [parse] at whole
  exact (Progress.done.inj whole).1.symm

theorem Lawful.oneMessage_done (lawful : framing.Lawful)
    {message arrived : List Byte} (one : framing.OneMessage message)
    (arriving : arrived <+: message) {used : Nat} {value : Value}
    (parse : framing.parse arrived = .done used value) :
    arrived = message ∧ used = message.length := by
  have whole := one arrived used value arriving parse
  have bounded := lawful.done_le parse
  exact ⟨arriving.eq_of_length
    (Nat.le_antisymm arriving.length_le (whole ▸ bounded)), whole⟩

/-- Feeds one chunk after the other until a message ends; the last component
are the chunks that were not read. -/
def read (framing : Framing Byte Value Error) (parsed buffer : List Byte) :
    List (List Byte) →
      List Byte × Fed Byte Value Error × List (List Byte)
  | [] => (buffer, .more parsed, [])
  | chunk :: chunks =>
      match framing.feed parsed (buffer ++ chunk) with
      | (rest, .more parsed') => framing.read parsed' rest chunks
      | (rest, .ended result) => (rest, .ended result, chunks)

/-- A message that is complete in itself, and that is not refused while it
arrives. -/
structure Message (framing : Framing Byte Value Error) (bytes : List Byte)
    (value : Value) : Prop where
  parse : framing.parse bytes = .done bytes.length value
  accepted : ∀ arrived used error, arrived <+: bytes →
    framing.parse arrived ≠ .failed used error

/-- A message that ends with the stream. -/
structure OpenMessage (framing : Framing Byte Value Error) (bytes : List Byte)
    (value : Value) : Prop where
  parse : framing.parse bytes = .more bytes.length
  finish : framing.finish bytes = .ok value
  accepted : ∀ arrived used error, arrived <+: bytes →
    framing.parse arrived ≠ .failed used error

variable {bytes later : List Byte} {value : Value}

theorem Message.parse_part (lawful : framing.Lawful)
    (message : framing.Message bytes value) {arrived : List Byte}
    (arriving : arrived <+: bytes) (part : arrived.length < bytes.length) :
    ∃ used, framing.parse arrived = .more used := by
  cases parse : framing.parse arrived with
  | more used => exact ⟨used, rfl⟩
  | failed used error =>
      exact (message.accepted arrived used error arriving parse).elim
  | done used other =>
      obtain ⟨_, whole⟩ := lawful.oneMessage_done
        (lawful.oneMessage_of_done message.parse) arriving parse
      have bounded := lawful.done_le parse
      omega

theorem OpenMessage.parse_part (lawful : framing.Lawful)
    (message : framing.OpenMessage bytes value) {arrived : List Byte}
    (arriving : arrived <+: bytes) :
    ∃ used, framing.parse arrived = .more used := by
  cases parse : framing.parse arrived with
  | more used => exact ⟨used, rfl⟩
  | failed used error =>
      exact (message.accepted arrived used error arriving parse).elim
  | done used other =>
      obtain ⟨later, rfl⟩ := arriving
      have done := lawful.done_append later parse
      rw [message.parse] at done
      cases done

theorem feed_of_more {used : Nat}
    (parse : framing.parse (parsed ++ buffer) = .more used) :
    framing.feed parsed buffer = ((parsed ++ buffer).drop used,
      .more ((parsed ++ buffer).take used)) := by
  simp only [feed, parse]

theorem Message.feed_whole (lawful : framing.Lawful)
    (message : framing.Message bytes value)
    (whole : parsed ++ buffer = bytes ++ later) :
    framing.feed parsed buffer = (later, .ended (.ok value)) := by
  have parse := lawful.done_append later message.parse
  simp only [feed, whole, parse, List.drop_left]

/-- However a message is cut into chunks, it is read, and what comes behind it
is left. -/
theorem Message.read_eq (lawful : framing.Lawful)
    (message : framing.Message bytes value) {chunks : List (List Byte)}
    (arrives : parsed ++ buffer ++ chunks.flatten = bytes ++ later)
    (part : (parsed ++ buffer).length < bytes.length) :
    ∃ done rest unread, chunks = done ++ unread ∧
      framing.read parsed buffer chunks = (rest, .ended (.ok value), unread) ∧
      parsed ++ buffer ++ done.flatten = bytes ++ rest := by
  induction chunks generalizing parsed buffer with
  | nil =>
      have lengths := congrArg List.length arrives
      simp only [List.flatten_nil, List.append_nil, List.length_append]
        at lengths part
      omega
  | cons chunk chunks induction =>
      rw [List.flatten_cons, ← List.append_assoc] at arrives
      by_cases more : (parsed ++ (buffer ++ chunk)).length < bytes.length
      · have arriving : parsed ++ (buffer ++ chunk) <+: bytes := by
          refine List.prefix_of_prefix_length_le ?_
            (List.prefix_append bytes later) (Nat.le_of_lt more)
          rw [← arrives, ← List.append_assoc]
          exact List.prefix_append _ _
        obtain ⟨used, parse⟩ := message.parse_part lawful arriving more
        have fed := feed_of_more parse
        have kept := feed_append fed
        rw [← kept] at more
        rw [List.append_assoc parsed, ← kept] at arrives
        obtain ⟨done, rest, unread, rfl, reads, split⟩ :=
          induction arrives more
        refine ⟨chunk :: done, rest, unread, rfl, ?_, ?_⟩
        · simp only [read, fed, reads]
        · rw [List.flatten_cons, ← List.append_assoc, List.append_assoc parsed,
            ← kept]
          exact split
      · have whole : bytes <+: parsed ++ (buffer ++ chunk) := by
          refine List.prefix_of_prefix_length_le
            (List.prefix_append bytes later) ?_ (Nat.le_of_not_lt more)
          rw [← arrives, ← List.append_assoc]
          exact List.prefix_append _ _
        obtain ⟨rest, whole⟩ := whole
        have fed := message.feed_whole lawful whole.symm
        refine ⟨[chunk], rest, chunks, rfl, ?_, ?_⟩
        · simp only [read, fed]
        · rw [List.flatten_singleton, List.append_assoc]
          exact whole.symm

/-- However a message that ends with the stream is cut, all of it is taken. -/
theorem OpenMessage.read_eq (lawful : framing.Lawful)
    (message : framing.OpenMessage bytes value) {chunks : List (List Byte)}
    {rest parsed' : List Byte}
    (fed : framing.feed parsed buffer = (rest, .more parsed'))
    (arrives : parsed ++ buffer ++ chunks.flatten = bytes) :
    framing.read parsed' rest chunks = ([], .more bytes, []) := by
  induction chunks generalizing parsed buffer parsed' rest with
  | nil =>
      rw [List.flatten_nil, List.append_nil] at arrives
      obtain ⟨used, parse, rfl, rfl⟩ := feed_more fed
      rw [arrives, message.parse] at parse
      obtain rfl := Progress.more.inj parse
      rw [arrives, List.take_length, List.drop_length]
      rfl
  | cons chunk chunks induction =>
      have kept := feed_append fed
      have all : parsed' ++ (rest ++ chunk) ++ chunks.flatten = bytes := by
        rw [← arrives, ← kept, List.flatten_cons]
        simp only [List.append_assoc]
      have arriving : parsed' ++ (rest ++ chunk) <+: bytes := by
        rw [← all]
        exact List.prefix_append _ _
      obtain ⟨used, parse⟩ := message.parse_part lawful arriving
      have next := feed_of_more parse
      simp only [read, next]
      exact induction next all

end Framing

end Fetchpp.Lib
