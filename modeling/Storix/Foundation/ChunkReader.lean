import Mathlib.Data.List.Basic

/-! # Reading exact lengths from chunks

A source hands out its items in chunks, cut anywhere. The reader buffers what it got and
has not passed on, so that a caller can ask for an exact length or for whatever is there.
What a caller gets from exact reads depends only on the items, not on where they were cut. -/

namespace Storix.Foundation

structure ChunkReader (α : Type) where
  /-- Received and not passed on. -/
  buffered : List α
  /-- Not received yet. The source has ended when none is left. -/
  chunks : List (List α)
  /-- How many items were passed on. -/
  position : Nat
  /-- A source hands out no empty chunk. -/
  nonempty : [] ∉ chunks

namespace ChunkReader

variable {α : Type}

def content (reader : ChunkReader α) : List α := reader.buffered ++ reader.chunks.flatten

def fill (reader : ChunkReader α) : ChunkReader α :=
  match reader with
  | ⟨_, [], _, _⟩ => reader
  | ⟨buffered, chunk :: rest, position, nonempty⟩ =>
      ⟨buffered ++ chunk, rest, position, fun member => nonempty (List.mem_cons_of_mem _ member)⟩

/-- Take chunks until `length` items are buffered or the source ends. -/
def fillTo (length : Nat) (buffered : List α) (position : Nat) :
    (chunks : List (List α)) → [] ∉ chunks → ChunkReader α
  | [], nonempty => ⟨buffered, [], position, nonempty⟩
  | chunk :: rest, nonempty =>
      if buffered.length < length then
        fillTo length (buffered ++ chunk) position rest fun member =>
          nonempty (List.mem_cons_of_mem _ member)
      else ⟨buffered, chunk :: rest, position, nonempty⟩

/-- Pass on the first `length` buffered items. -/
def advance (length : Nat) (reader : ChunkReader α) : ChunkReader α where
  buffered := reader.buffered.drop length
  chunks := reader.chunks
  position := reader.position + min length reader.buffered.length
  nonempty := reader.nonempty

/-- Exactly `length` items. If there are fewer, nothing is passed on and all of them are
buffered. -/
def read (length : Nat) (reader : ChunkReader α) : Option (List α) × ChunkReader α :=
  let filled := fillTo length reader.buffered reader.position reader.chunks reader.nonempty
  if filled.buffered.length < length then (none, filled)
  else (some (filled.buffered.take length), filled.advance length)

def ready (reader : ChunkReader α) : ChunkReader α :=
  if reader.buffered.isEmpty then reader.fill else reader

/-- At most `length` items, and none only if the source has ended. -/
def readUpTo (length : Nat) (reader : ChunkReader α) : List α × ChunkReader α :=
  let filled := reader.ready
  (filled.buffered.take length, filled.advance length)

/-! ## What the operations do to the content -/

@[simp] theorem content_fill (reader : ChunkReader α) : reader.fill.content = reader.content := by
  rcases reader with ⟨buffered, chunks, position, nonempty⟩
  cases chunks with
  | nil => rfl
  | cons chunk rest => simp [fill, content]

@[simp] theorem position_fill (reader : ChunkReader α) :
    reader.fill.position = reader.position := by
  rcases reader with ⟨buffered, chunks, position, nonempty⟩
  cases chunks <;> rfl

@[simp] theorem content_fillTo (length : Nat) (buffered : List α) (position : Nat)
    (chunks : List (List α)) (nonempty : [] ∉ chunks) :
    (fillTo length buffered position chunks nonempty).content = buffered ++ chunks.flatten := by
  induction chunks generalizing buffered with
  | nil => rfl
  | cons chunk rest induction =>
      rw [fillTo]
      split
      · simp [induction]
      · rfl

@[simp] theorem position_fillTo (length : Nat) (buffered : List α) (position : Nat)
    (chunks : List (List α)) (nonempty : [] ∉ chunks) :
    (fillTo length buffered position chunks nonempty).position = position := by
  induction chunks generalizing buffered with
  | nil => rfl
  | cons chunk rest induction =>
      rw [fillTo]
      split
      · exact induction ..
      · rfl

theorem fillTo_short {length : Nat} {buffered : List α} {position : Nat}
    {chunks : List (List α)} {nonempty : [] ∉ chunks}
    (short : (fillTo length buffered position chunks nonempty).buffered.length < length) :
    (fillTo length buffered position chunks nonempty).chunks = [] := by
  induction chunks generalizing buffered with
  | nil => rfl
  | cons chunk rest induction =>
      rw [fillTo] at short ⊢
      split at short
      case isTrue less =>
        rw [if_pos less]
        exact induction short
      case isFalse enough => exact absurd short enough

theorem content_advance {length : Nat} {reader : ChunkReader α}
    (buffered : length ≤ reader.buffered.length) :
    (reader.advance length).content = reader.content.drop length := by
  simp [advance, content, List.drop_append_of_le_length buffered]

/-- An exact read fails when the content is too short, with all of it buffered. -/
theorem read_short {length : Nat} {reader : ChunkReader α}
    (short : reader.content.length < length) :
    ∃ last, reader.read length = (none, last) ∧ last.buffered = reader.content ∧
      last.position = reader.position := by
  let filled := fillTo length reader.buffered reader.position reader.chunks reader.nonempty
  have same : filled.content = reader.content := content_fillTo ..
  have less : filled.buffered.length < length := by
    have atMost : filled.buffered.length ≤ filled.content.length := by simp [content]
    rw [same] at atMost
    omega
  have ended : filled.chunks = [] := fillTo_short less
  refine ⟨filled, if_pos less, ?_, position_fillTo ..⟩
  rw [← same, content, ended, List.flatten_nil, List.append_nil]

theorem read_enough {length : Nat} {reader : ChunkReader α}
    (enough : length ≤ reader.content.length) :
    ∃ later, reader.read length = (some (reader.content.take length), later) ∧
      later.content = reader.content.drop length ∧
      later.position = reader.position + length := by
  let filled := fillTo length reader.buffered reader.position reader.chunks reader.nonempty
  have same : filled.content = reader.content := content_fillTo ..
  have buffered : length ≤ filled.buffered.length := by
    apply Nat.le_of_not_lt
    intro less
    have ended : filled.chunks = [] := fillTo_short less
    rw [← same, content, ended, List.flatten_nil, List.append_nil] at enough
    omega
  refine ⟨filled.advance length, ?_, ?_, ?_⟩
  · rw [← same, content, List.take_append_of_le_length buffered]
    exact if_neg (Nat.not_lt.mpr buffered)
  · rw [content_advance buffered, same]
  · show filled.position + min length filled.buffered.length = _
    rw [Nat.min_eq_left buffered]
    exact congrArg (· + length) (position_fillTo ..)

theorem content_ready (reader : ChunkReader α) : reader.ready.content = reader.content := by
  rw [ready]
  split
  · exact content_fill reader
  · rfl

theorem position_ready (reader : ChunkReader α) : reader.ready.position = reader.position := by
  rw [ready]
  split
  · exact position_fill reader
  · rfl

theorem content_of_ready {reader : ChunkReader α} (nothing : reader.ready.buffered = []) :
    reader.content = [] := by
  rcases reader with ⟨buffered, chunks, position, nonempty⟩
  cases buffered with
  | nil =>
      cases chunks with
      | nil => rfl
      | cons chunk rest =>
          have empty : chunk = [] := nothing
          exact absurd (by simp [empty]) nonempty
  | cons first rest => cases nothing

/-- A bounded read takes some of the front of the content, and nothing only when nothing is
left. -/
theorem readUpTo_spec (reader : ChunkReader α) (length : Nat) (positive : 0 < length) :
    ∃ count later, reader.readUpTo length = (reader.content.take count, later) ∧
      count ≤ length ∧ count ≤ reader.content.length ∧
      (count = 0 → reader.content = []) ∧
      later.content = reader.content.drop count ∧
      later.position = reader.position + count := by
  have front : min length reader.ready.buffered.length ≤ reader.ready.buffered.length :=
    Nat.min_le_right ..
  have atMost : reader.ready.buffered.length ≤ reader.content.length := by
    rw [← content_ready]
    simp [content]
  refine ⟨min length reader.ready.buffered.length, reader.ready.advance length, ?_,
    Nat.min_le_left .., Nat.le_trans front atMost, ?_, ?_, ?_⟩
  · rw [← content_ready, content, List.take_append_of_le_length front, ← List.take_eq_take_min]
    rfl
  · intro isZero
    apply content_of_ready
    exact List.eq_nil_of_length_eq_zero (by omega)
  · rw [← content_ready reader, content, content, List.drop_append_of_le_length front,
      ← List.drop_eq_drop_min]
    rfl
  · rw [← position_ready reader]
    rfl

end ChunkReader

end Storix.Foundation
