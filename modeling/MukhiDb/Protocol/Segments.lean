import MukhiDb.Protocol.Decoding

/-!
Contract: reading messages from a stream that arrives in pieces.

Owns: what is read does not depend on the bytes behind it, and neither does a refusal, so that a reader
that waits for more bytes reads the same messages however the stream is cut; and reading one message
more.

Does not own: who waits, and for whom.
-/

namespace MukhiDb.Model.Protocol

open MukhiDb.Foundation

/-- A reader that decides from the bytes it reads, and waits for more when there are too few. -/
structure Decides {α : Type} (reader : StreamReader α) : Prop where
  ok : ∀ {stream rest : Bytes} {value : α}, reader stream = .ok (value, rest) →
    ∀ more, reader (stream ++ more) = .ok (value, rest ++ more)
  error : ∀ {stream : Bytes} {error : IoError}, reader stream = .error error → error.kind = .invalidData →
    ∀ more, reader (stream ++ more) = .error error
  suffix : ∀ {stream rest : Bytes} {value : α}, reader stream = .ok (value, rest) → rest <:+ stream

namespace Decides

variable {α β : Type}

theorem pure (value : α) : Decides (pure value) where
  ok := by
    intro stream rest other read more
    cases read
    rfl
  error := fun read => by cases read
  suffix := by
    intro stream rest other read
    cases read
    exact List.suffix_refl _

theorem lift (value : Except IoError α) : Decides (StateT.lift value) where
  ok := by
    intro stream rest other read more
    cases value with
    | error => cases read
    | ok value =>
        cases read
        rfl
  error := by
    intro stream error read _ more
    cases value with
    | error => exact read
    | ok value => cases read
  suffix := by
    intro stream rest other read
    cases value with
    | error => cases read
    | ok value =>
        cases read
        exact List.suffix_refl _

theorem throw (error : IoError) : Decides (throw error : StreamReader α) where
  ok := fun read => by cases read
  error := fun read _ _ => read
  suffix := fun read => by cases read

theorem bind {first : StreamReader α} {next : α → StreamReader β} (one : Decides first)
    (others : ∀ value, Decides (next value)) : Decides (first >>= next) where
  ok := by
    intro stream rest value read more
    cases ran : first stream with
    | error error =>
        rw [reader_bind_error ran] at read
        cases read
    | ok pair =>
        rw [reader_bind ran] at read
        rw [reader_bind (one.ok ran more)]
        exact (others _).ok read more
  error := by
    intro stream error read invalid more
    cases ran : first stream with
    | error other =>
        rw [reader_bind_error ran] at read
        obtain rfl := Except.error.inj read
        exact reader_bind_error (one.error ran invalid more)
    | ok pair =>
        rw [reader_bind ran] at read
        rw [reader_bind (one.ok ran more)]
        exact (others _).error read invalid more
  suffix := by
    intro stream rest value read
    cases ran : first stream with
    | error error =>
        rw [reader_bind_error ran] at read
        cases read
    | ok pair =>
        rw [reader_bind ran] at read
        exact ((others _).suffix read).trans (one.suffix ran)

end Decides

theorem decides_readExactBytes (count : Nat) : Decides (readExactBytes count) where
  ok := by
    intro stream rest value read more
    unfold readExactBytes at read ⊢
    split at read
    · next enough =>
        cases read
        rw [if_pos (by simp; omega), List.take_append_of_le_length enough,
          List.drop_append_of_le_length enough]
    · cases read
  error := by
    intro stream error read invalid more
    unfold readExactBytes at read
    split at read
    · cases read
    · cases read
      cases invalid
  suffix := by
    intro stream rest value read
    unfold readExactBytes at read
    split at read
    · cases read
      exact List.drop_suffix _ _
    · cases read

theorem decides_readMessage : Decides readMessage := by
  refine (decides_readExactBytes 4).bind fun length => ?_
  by_cases short : leValue length < 1
  · simp only [short, if_true]
    exact .throw _
  · simp only [short, if_false]
    exact (decides_readExactBytes 1).bind fun type => (decides_readExactBytes _).bind fun payload => .lift _

theorem decides_readAll (count : Nat) : Decides (readAll count) := by
  induction count with
  | zero => exact .pure _
  | succ count inductionHypothesis =>
      exact decides_readMessage.bind fun message => inductionHypothesis.bind fun rest => .pure _

/-- The first message, and then the others. -/
theorem readAll_succ {count : Nat} {stream rest : Bytes} {messages : List Message} :
    readAll (count + 1) stream = .ok (messages, rest) ↔
      ∃ message unread later, readMessage stream = .ok (message, unread) ∧
        readAll count unread = .ok (later, rest) ∧ messages = message :: later := by
  rw [readAll]
  cases ran : readMessage stream with
  | error error =>
      rw [reader_bind_error ran]
      simp
  | ok pair =>
      rw [reader_bind ran]
      cases others : readAll count pair.2 with
      | error error =>
          rw [reader_bind_error others]
          constructor
          · intro read
            cases read
          · rintro ⟨message, unread, later, same, read, -⟩
            cases same
            rw [others] at read
            cases read
      | ok later =>
          rw [reader_bind others]
          constructor
          · intro read
            cases read
            exact ⟨_, _, _, rfl, others, rfl⟩
          · rintro ⟨message, unread, rest, same, read, rfl⟩
            cases same
            rw [others] at read
            cases read
            rfl

/-- One message more. -/
theorem readAll_snoc {count : Nat} {stream unread rest : Bytes} {messages : List Message}
    {message : Message} (read : readAll count stream = .ok (messages, unread))
    (last : readMessage unread = .ok (message, rest)) :
    readAll (count + 1) stream = .ok (messages ++ [message], rest) := by
  induction count generalizing stream messages with
  | zero =>
      cases read
      exact readAll_succ.mpr ⟨_, _, _, last, rfl, rfl⟩
  | succ count inductionHypothesis =>
      obtain ⟨first, behind, later, head, others, rfl⟩ := readAll_succ.mp read
      exact readAll_succ.mpr ⟨_, _, _, head, inductionHypothesis others, rfl⟩

/-- Without the last message. -/
theorem readAll_init {count : Nat} {stream rest : Bytes} {messages : List Message} {message : Message}
    (read : readAll (count + 1) stream = .ok (messages ++ [message], rest)) :
    ∃ unread, readAll count stream = .ok (messages, unread) := by
  induction count generalizing stream messages with
  | zero =>
      obtain ⟨first, unread, later, -, none, same⟩ := readAll_succ.mp read
      cases none
      have lengths := congrArg List.length same
      rw [List.length_append] at lengths
      obtain rfl : messages = [] := List.eq_nil_of_length_eq_zero (by simpa using lengths)
      exact ⟨stream, rfl⟩
  | succ count inductionHypothesis =>
      obtain ⟨first, unread, later, head, others, same⟩ := readAll_succ.mp read
      cases messages with
      | nil =>
          obtain ⟨_, _, _, _, _, rfl⟩ := readAll_succ.mp others
          cases same
      | cons other messages =>
          obtain ⟨rfl, rfl⟩ := List.cons.inj same
          obtain ⟨left, read⟩ := inductionHypothesis others
          exact ⟨left, readAll_succ.mpr ⟨_, _, _, head, read, rfl⟩⟩

end MukhiDb.Model.Protocol
