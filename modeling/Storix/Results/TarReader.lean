import Storix.Vfs.TarReader
import Mathlib.Data.List.Chain

/-! # The tar reader reads bytes, not chunks

Where the source cuts its bytes into chunks, and how much of each body the consumer reads,
changes neither the entries nor the end. One turn of the loop is compared with one turn over
the same bytes; a run follows by induction on the turns. -/

namespace Storix

open Foundation

/-! ## Bodies -/

/-- What is known of a body stream, however often it was read from: the bytes of the body
come first in the reader's content. -/
inductive BodyStream.Drawn (start : ChunkReader UInt8) (size : Nat) (name : JsString) :
    BodyStream → Prop
  | reading {body : BodyStream} (count : Nat) (isReading : body.status = .reading)
      (inBody : count ≤ size) (inContent : count ≤ start.content.length)
      (remaining : body.remaining = size - count)
      (pushed : body.pushed = start.content.take count)
      (content : body.reader.content = start.content.drop count)
      (position : body.reader.position = start.position + count) : Drawn start size name body
  | finished {body : BodyStream} (isFinished : body.status = .finished)
      (whole : size + tarPadding size ≤ start.content.length)
      (pushed : body.pushed = start.content.take size)
      (content : body.reader.content = start.content.drop (size + tarPadding size))
      (position : body.reader.position = start.position + (size + tarPadding size)) :
      Drawn start size name body
  | truncated {body : BodyStream}
      (isFailed : body.status = .failed (entryError .bodyTruncated name))
      (short : start.content.length < size)
      (pushed : body.pushed = start.content.take size) : Drawn start size name body
  | unpadded {body : BodyStream} (isFailed : body.status = .failed (entryError .bodyPadding name))
      (whole : size ≤ start.content.length)
      (short : start.content.length < size + tarPadding size)
      (pushed : body.pushed = start.content.take size) : Drawn start size name body

namespace BodyStream

variable {start : ChunkReader UInt8} {size : Nat} {name : JsString}

theorem drawn_create (reader : ChunkReader UInt8) :
    Drawn reader size name (create reader size) :=
  .reading 0 rfl (Nat.zero_le _) (Nat.zero_le _) rfl rfl rfl rfl

theorem pull_of_not_reading {body : BodyStream} (notReading : body.status ≠ .reading) :
    body.pull size name = body := if_pos notReading

theorem pull_remaining (size : Nat) (name : JsString) {body : BodyStream}
    (isReading : body.status = .reading) (remains : body.remaining ≠ 0) :
    (body.reader.content = [] ∧
        (body.pull size name).status = .failed (entryError .bodyTruncated name) ∧
        (body.pull size name).pushed = body.pushed) ∨
      ∃ count, 0 < count ∧ count ≤ body.remaining ∧ count ≤ body.reader.content.length ∧
        (body.pull size name).status = .reading ∧
        (body.pull size name).remaining = body.remaining - count ∧
        (body.pull size name).pushed = body.pushed ++ body.reader.content.take count ∧
        (body.pull size name).reader.content = body.reader.content.drop count ∧
        (body.pull size name).reader.position = body.reader.position + count := by
  rcases body.reader.readUpTo_spec (min body.remaining 65536) (by omega) with
    ⟨count, later, isRead, few, inside, nothing, content, position⟩
  have length : (body.reader.content.take count).length = count := by
    rw [List.length_take]
    omega
  unfold pull
  rw [if_neg (by simp [isReading]), if_neg remains, isRead]
  dsimp only
  by_cases isZero : count = 0
  · have empty := nothing isZero
    rw [if_pos (by simp [isZero])]
    exact .inl ⟨empty, rfl, rfl⟩
  · have notEmpty : (body.reader.content.take count).isEmpty = false := by
      cases taken : body.reader.content.take count with
      | nil =>
          rw [taken] at length
          exact absurd length.symm isZero
      | cons first rest => rfl
    rw [if_neg (by simp [notEmpty]), length]
    exact .inr ⟨count, Nat.pos_of_ne_zero isZero, by omega, inside, isReading, rfl, rfl, content,
      position⟩

theorem pull_padding (size : Nat) (name : JsString) {body : BodyStream}
    (isReading : body.status = .reading) (nothing : body.remaining = 0) :
    (body.pull size name).pushed = body.pushed ∧
      (body.reader.content.length < tarPadding size ∧
          (body.pull size name).status = .failed (entryError .bodyPadding name) ∨
        tarPadding size ≤ body.reader.content.length ∧ (body.pull size name).status = .finished ∧
          (body.pull size name).reader.content = body.reader.content.drop (tarPadding size) ∧
          (body.pull size name).reader.position = body.reader.position + tarPadding size) := by
  unfold pull
  rw [if_neg (by simp [isReading]), if_pos nothing]
  by_cases short : body.reader.content.length < tarPadding size
  · rcases ChunkReader.read_short short with ⟨last, isRead, -, -⟩
    rw [isRead]
    exact ⟨rfl, .inl ⟨short, rfl⟩⟩
  · rcases ChunkReader.read_enough (Nat.le_of_not_lt short) with ⟨later, isRead, content, position⟩
    rw [isRead]
    exact ⟨rfl, .inr ⟨Nat.le_of_not_lt short, rfl, content, position⟩⟩

theorem Drawn.pull {body : BodyStream} (drawn : Drawn start size name body) :
    Drawn start size name (body.pull size name) := by
  cases drawn with
  | reading count isReading inBody inContent remaining pushed content position =>
      by_cases nothing : body.remaining = 0
      · have all : count = size := by omega
        subst count
        rcases pull_padding size name isReading nothing with
          ⟨samePushed, ⟨short, failed⟩ | ⟨enough, finished, later, moved⟩⟩
        · rw [content, List.length_drop] at short
          exact .unpadded failed inContent (by omega) (samePushed.trans pushed)
        · rw [content, List.length_drop] at enough
          refine .finished finished (by omega) (samePushed.trans pushed) ?_ ?_
          · rw [later, content, List.drop_drop]
          · rw [moved, position, Nat.add_assoc]
      · rcases pull_remaining size name isReading nothing with
          ⟨empty, failed, samePushed⟩ |
          ⟨more, positive, few, inside, still, left, extended, later, moved⟩
        · rw [content, List.drop_eq_nil_iff] at empty
          refine .truncated failed (by omega) ?_
          rw [samePushed, pushed, List.take_of_length_le empty, List.take_of_length_le (by omega)]
        · rw [content, List.length_drop] at inside
          refine .reading (count + more) still (by omega) (by omega) (by omega) ?_ ?_ ?_
          · rw [extended, pushed, content, List.take_add]
          · rw [later, content, List.drop_drop]
          · rw [moved, position, Nat.add_assoc]
  | finished isFinished whole pushed content position =>
      rw [pull_of_not_reading (by simp [isFinished])]
      exact .finished isFinished whole pushed content position
  | truncated isFailed short pushed =>
      rw [pull_of_not_reading (by simp [isFailed])]
      exact .truncated isFailed short pushed
  | unpadded isFailed whole short pushed =>
      rw [pull_of_not_reading (by simp [isFailed])]
      exact .unpadded isFailed whole short pushed

theorem Drawn.pulls {body : BodyStream} (drawn : Drawn start size name body) (count : Nat) :
    Drawn start size name (body.pulls size name count) := by
  induction count generalizing body with
  | zero => exact drawn
  | succ count induction => exact induction drawn.pull

theorem pulls_of_not_reading {body : BodyStream} (notReading : body.status ≠ .reading)
    (count : Nat) : body.pulls size name count = body := by
  induction count with
  | zero => rfl
  | succ count induction =>
      rw [BodyStream.pulls, pull_of_not_reading notReading]
      exact induction

theorem pulls_ends {body : BodyStream} {count : Nat}
    (often : body.reader.content.length < count) :
    (body.pulls size name count).status ≠ .reading := by
  induction count generalizing body with
  | zero => omega
  | succ count induction =>
      by_cases isReading : body.status = .reading
      · rw [BodyStream.pulls]
        by_cases nothing : body.remaining = 0
        · rcases pull_padding size name isReading nothing with
            ⟨-, ⟨-, failed⟩ | ⟨-, finished, -, -⟩⟩
          · rw [pulls_of_not_reading (by simp [failed]), failed]
            simp
          · rw [pulls_of_not_reading (by simp [finished]), finished]
            simp
        · rcases pull_remaining size name isReading nothing with
            ⟨-, failed, -⟩ | ⟨more, positive, -, inside, -, -, -, later, -⟩
          · rw [pulls_of_not_reading (by simp [failed]), failed]
            simp
          · apply induction
            rw [later, List.length_drop]
            omega
      · rw [pulls_of_not_reading isReading]
        exact isReading

/-- However often the consumer read from the body, draining it ends as its bytes decide. -/
theorem drain_cases (reader : ChunkReader UInt8) (size : Nat) (name : JsString) (pulled : Nat) :
    let drained := ((create reader size).pulls size name pulled).drain size name
    (reader.content.length < size ∧
        drained.status = .failed (entryError .bodyTruncated name)) ∨
      (size ≤ reader.content.length ∧ reader.content.length < size + tarPadding size ∧
        drained.status = .failed (entryError .bodyPadding name)) ∨
      (size + tarPadding size ≤ reader.content.length ∧ drained.status = .finished ∧
        drained.reader.content = reader.content.drop (size + tarPadding size) ∧
        drained.reader.position = reader.position + (size + tarPadding size)) := by
  intro drained
  have ended : drained.status ≠ .reading := pulls_ends (Nat.lt_succ_self _)
  have drawn : Drawn reader size name drained := ((drawn_create reader).pulls pulled).pulls _
  cases drawn with
  | reading count isReading => exact absurd isReading ended
  | finished isFinished whole pushed content position =>
      exact .inr (.inr ⟨whole, isFinished, content, position⟩)
  | truncated isFailed short pushed => exact .inl ⟨short, isFailed⟩
  | unpadded isFailed whole short pushed => exact .inr (.inl ⟨whole, short, isFailed⟩)

/-- What the consumer got is a front of the body, and all of it if it read to the end. -/
theorem delivered_front (reader : ChunkReader UInt8) (size : Nat) (name : JsString)
    (pulled : Nat) :
    let seen := (create reader size).pulls size name pulled
    seen.pushed <+: reader.content.take size ∧
      (seen.status = .finished →
        seen.pushed = reader.content.take size ∧ size ≤ reader.content.length) := by
  intro seen
  have drawn : Drawn reader size name seen := (drawn_create reader).pulls pulled
  cases drawn with
  | reading count isReading inBody inContent remaining pushed content position =>
      refine ⟨?_, fun isFinished => absurd (isReading.symm.trans isFinished) (by simp)⟩
      rw [pushed]
      exact List.take_prefix_take_left inBody
  | finished isFinished whole pushed content position =>
      exact ⟨by rw [pushed], fun _ => ⟨pushed, by omega⟩⟩
  | truncated isFailed short pushed =>
      exact ⟨by rw [pushed], fun isFinished => absurd (isFailed.symm.trans isFinished) (by simp)⟩
  | unpadded isFailed whole short pushed =>
      exact ⟨by rw [pushed], fun isFinished => absurd (isFailed.symm.trans isFinished) (by simp)⟩

end BodyStream

/-! ## One turn -/

structure SameBytes (left right : ChunkReader UInt8) : Prop where
  content : left.content = right.content
  position : left.position = right.position

def TarEntry.outline (entry : TarEntry) : TarEntry :=
  { entry with delivered := [], complete := false }

def TarVisit.outline (visit : TarVisit) : TarVisit :=
  { visit with entry := visit.entry.map TarEntry.outline }

inductive SameTurn : TarTurn → TarTurn → Prop
  | ends (ending : Except TarError Unit) : SameTurn (.ends ending) (.ends ending)
  | goes (state : TarState) {left right : ChunkReader UInt8} (same : SameBytes left right) :
      SameTurn (.goes state left) (.goes state right)

theorem readTrailer_eq (lastName : JsString) {turns : Nat} {reader : ChunkReader UInt8}
    (enough : reader.content.length < turns) :
    readTrailer lastName turns reader =
      if isZeroBlock reader.content then .ok ()
      else .error (entryError .dataAfterEnd lastName) := by
  induction turns generalizing reader with
  | zero => omega
  | succ turns induction =>
      rcases reader.readUpTo_spec 65536 (by decide) with
        ⟨count, later, isRead, -, inside, nothing, content, -⟩
      rw [readTrailer, isRead]
      dsimp only
      by_cases isZero : count = 0
      · simp [isZero, nothing isZero, isZeroBlock]
      · have length : (reader.content.take count).length = count := by
          rw [List.length_take]
          omega
        have notEmpty : (reader.content.take count).isEmpty = false := by
          cases taken : reader.content.take count with
          | nil =>
              rw [taken] at length
              exact absurd length.symm isZero
          | cons first rest => rfl
        have parts : isZeroBlock reader.content =
            (isZeroBlock (reader.content.take count) &&
              isZeroBlock (reader.content.drop count)) := by
          unfold isZeroBlock
          rw [← List.all_append, List.take_append_drop]
        rw [if_neg (by simp [notEmpty]), parts]
        cases zeros : isZeroBlock (reader.content.take count) with
        | false => rfl
        | true =>
            rw [induction (by rw [content, List.length_drop]; omega), content]
            simp

/-- A turn depends on the bytes that follow the header, not on the chunks they come in nor on
how much of a body was pulled. -/
theorem takeTurn_same (maxHeaderBytes : Nat) (state : TarState) (position : Nat)
    (block : List UInt8) {left right : ChunkReader UInt8} (same : SameBytes left right)
    (leftPulled rightPulled : Nat) :
    (takeTurn maxHeaderBytes state position block left leftPulled).1.outline =
        (takeTurn maxHeaderBytes state position block right rightPulled).1.outline ∧
      SameTurn (takeTurn maxHeaderBytes state position block left leftPulled).2
        (takeTurn maxHeaderBytes state position block right rightPulled).2 := by
  unfold takeTurn
  cases interpretHeader maxHeaderBytes state block with
  | error error => exact ⟨rfl, .ends _⟩
  | ok action =>
      cases action with
      | again next => exact ⟨rfl, .goes next same⟩
      | trailer =>
          refine ⟨rfl, ?_⟩
          rw [readTrailer_eq _ (Nat.lt_succ_self _), readTrailer_eq _ (Nat.lt_succ_self _),
            same.content]
          exact .ends _
      | directory next name => exact ⟨rfl, .goes next same⟩
      | extension next type name length =>
          refine ⟨rfl, ?_⟩
          by_cases short : left.content.length < length + tarPadding length
          · rcases ChunkReader.read_short short with ⟨leftLast, leftRead, -, -⟩
            rcases ChunkReader.read_short (same.content ▸ short) with ⟨rightLast, rightRead, -, -⟩
            simp only [leftRead, rightRead]
            exact .ends _
          · have enough := Nat.le_of_not_lt short
            rcases ChunkReader.read_enough enough with
              ⟨leftLater, leftRead, leftContent, leftPosition⟩
            rcases ChunkReader.read_enough (same.content ▸ enough) with
              ⟨rightLater, rightRead, rightContent, rightPosition⟩
            simp only [leftRead, rightRead, same.content]
            cases interpretExtension next type name _ length with
            | error error => exact .ends _
            | ok next =>
                refine .goes next ⟨?_, ?_⟩
                · rw [leftContent, rightContent, same.content]
                · rw [leftPosition, rightPosition, same.position]
      | file next name size =>
          refine ⟨rfl, ?_⟩
          dsimp only
          rcases BodyStream.drain_cases left size name leftPulled with
            ⟨short, leftStatus⟩ | ⟨whole, short, leftStatus⟩ |
            ⟨whole, leftStatus, leftContent, leftPosition⟩
          · rcases BodyStream.drain_cases right size name rightPulled with
              ⟨-, rightStatus⟩ | ⟨long, -, -⟩ | ⟨long, -, -, -⟩
            · simp only [leftStatus, rightStatus]
              exact .ends _
            · rw [← same.content] at long
              omega
            · rw [← same.content] at long
              omega
          · rcases BodyStream.drain_cases right size name rightPulled with
              ⟨less, -⟩ | ⟨-, -, rightStatus⟩ | ⟨long, -, -, -⟩
            · rw [← same.content] at less
              omega
            · simp only [leftStatus, rightStatus]
              exact .ends _
            · rw [← same.content] at long
              omega
          · rcases BodyStream.drain_cases right size name rightPulled with
              ⟨less, -⟩ | ⟨-, less, -⟩ | ⟨-, rightStatus, rightContent, rightPosition⟩
            · rw [← same.content] at less
              omega
            · rw [← same.content] at less
              omega
            · simp only [leftStatus, rightStatus]
              refine .goes next ⟨?_, ?_⟩
              · rw [leftContent, rightContent, same.content]
              · rw [leftPosition, rightPosition, same.position]

@[simp] theorem tarPadding_zero : tarPadding 0 = 0 := by decide

theorem tarPadding_spec (length : Nat) :
    tarBlock ∣ length + tarPadding length ∧ tarPadding length < tarBlock := by
  unfold tarPadding tarBlock
  omega

theorem interpretHeader_extension {maxHeaderBytes : Nat} {state next : TarState}
    {block : List UInt8} {type : TarExtension} {name : JsString} {length : Nat}
    (result : interpretHeader maxHeaderBytes state block = .ok (.extension next type name length)) :
    length ≤ maxHeaderBytes := by
  unfold interpretHeader at result
  split at result
  · split at result
    · cases result
    · split at result <;> cases result
  · split at result
    · cases result
    · split at result
      · cases result
      · cases checked : verifyChecksum block with
        | error error => simp [checked, bind, Except.bind] at result
        | ok _ =>
            cases sized : parseNumeric block 124 12 with
            | error error => simp [checked, sized, bind, Except.bind] at result
            | ok headerSize =>
                cases named : headerName block with
                | error error => simp [checked, sized, named, bind, Except.bind] at result
                | ok header =>
                    simp only [checked, sized, named, bind, Except.bind] at result
                    split at result
                    · split at result
                      · cases result
                      · cases result
                        omega
                    · unfold entryAction at result
                      dsimp only at result
                      split at result
                      · split at result <;> cases result
                      · split at result <;> cases result

/-- A consumer that reads often enough has the whole body, if all of it is there. -/
theorem takeTurn_complete (maxHeaderBytes : Nat) (state : TarState) (position : Nat)
    (block : List UInt8) {reader : ChunkReader UInt8} {pulled : Nat}
    (often : reader.content.length < pulled) {entry : TarEntry}
    (isEntry : (takeTurn maxHeaderBytes state position block reader pulled).1.entry = some entry)
    (isFile : entry.type = .file)
    (whole : entry.size + tarPadding entry.size ≤ reader.content.length) :
    entry.complete = true := by
  unfold takeTurn at isEntry
  cases header : interpretHeader maxHeaderBytes state block with
  | error error =>
      rw [header] at isEntry
      cases isEntry
  | ok action =>
      rw [header] at isEntry
      cases action with
      | again next => cases isEntry
      | trailer => cases isEntry
      | extension next type name length => cases isEntry
      | directory next name =>
          cases isEntry
          cases isFile
      | file next name size =>
          cases isEntry
          apply decide_eq_true
          have ended : ((BodyStream.create reader size).pulls size name pulled).status ≠ .reading :=
            BodyStream.pulls_ends often
          have drawn : BodyStream.Drawn reader size name
              ((BodyStream.create reader size).pulls size name pulled) :=
            (BodyStream.drawn_create reader).pulls pulled
          dsimp only at whole
          cases drawn with
          | reading count isReading => exact absurd isReading ended
          | finished isFinished => exact isFinished
          | truncated isFailed short => omega
          | unpadded isFailed inside short => omega

/-- What a visit says is true of the bytes after its header. The consumer calls `read` that
often. -/
structure TarVisit.TrueOf (maxHeaderBytes : Nat) (content : List UInt8) (pulled : Nat)
    (visit : TarVisit) : Prop where
  bounded : visit.extension = true → visit.length ≤ maxHeaderBytes
  size : ∀ entry, visit.entry = some entry → entry.size = visit.length
  front : ∀ entry, visit.entry = some entry → entry.delivered <+: content.take entry.size
  whole : ∀ entry, visit.entry = some entry → entry.complete = true →
    entry.delivered = content.take entry.size ∧ entry.delivered.length = entry.size
  complete : content.length < pulled → ∀ entry, visit.entry = some entry → entry.type = .file →
    entry.size + tarPadding entry.size ≤ content.length → entry.complete = true

theorem takeTurn_visit (maxHeaderBytes : Nat) (state : TarState) (position : Nat)
    (block : List UInt8) (reader : ChunkReader UInt8) (pulled : Nat) :
    (takeTurn maxHeaderBytes state position block reader pulled).1.position = position ∧
      (takeTurn maxHeaderBytes state position block reader pulled).1.TrueOf maxHeaderBytes
        reader.content pulled := by
  have plain : ∀ place,
      TarVisit.TrueOf maxHeaderBytes reader.content pulled ⟨place, 0, false, none⟩ := by
    intro place
    constructor <;> simp
  have complete := fun often entry =>
    @takeTurn_complete maxHeaderBytes state position block reader pulled often entry
  unfold takeTurn at complete ⊢
  cases header : interpretHeader maxHeaderBytes state block with
  | error error => exact ⟨rfl, plain position⟩
  | ok action =>
      cases action with
      | again next => exact ⟨rfl, plain position⟩
      | trailer => exact ⟨rfl, plain position⟩
      | directory next name =>
          refine ⟨rfl, ?_⟩
          constructor <;> simp
      | extension next type name length =>
          refine ⟨rfl, ?_⟩
          constructor
          case bounded => exact fun _ => interpretHeader_extension header
          all_goals simp
      | file next name size =>
          refine ⟨rfl, ?_⟩
          rcases BodyStream.delivered_front reader size name pulled with ⟨front, whole⟩
          constructor
          case bounded => simp
          case size =>
            intro entry isEntry
            cases isEntry
            rfl
          case front =>
            intro entry isEntry
            cases isEntry
            exact front
          case whole =>
            intro entry isEntry isComplete
            cases isEntry
            rcases whole (of_decide_eq_true isComplete) with ⟨all, inside⟩
            refine ⟨all, ?_⟩
            rw [all, List.length_take]
            exact Nat.min_eq_left inside
          case complete =>
            rw [header] at complete
            exact complete

theorem takeTurn_goes {maxHeaderBytes : Nat} {state next : TarState} {position : Nat}
    {block : List UInt8} {reader later : ChunkReader UInt8} {pulled : Nat} {visit : TarVisit}
    (result : takeTurn maxHeaderBytes state position block reader pulled =
      (visit, .goes next later)) :
    visit.length + tarPadding visit.length ≤ reader.content.length ∧
      later.content = reader.content.drop (visit.length + tarPadding visit.length) ∧
      later.position = reader.position + (visit.length + tarPadding visit.length) := by
  unfold takeTurn at result
  cases header : interpretHeader maxHeaderBytes state block with
  | error error =>
      rw [header] at result
      cases result
  | ok action =>
      rw [header] at result
      cases action with
      | again =>
          cases result
          simp
      | trailer => cases result
      | directory =>
          cases result
          simp
      | extension following type name length =>
          dsimp only at result
          by_cases short : reader.content.length < length + tarPadding length
          · rcases ChunkReader.read_short short with ⟨last, isRead, -, -⟩
            rw [isRead] at result
            cases result
          · rcases ChunkReader.read_enough (Nat.le_of_not_lt short) with
              ⟨after, isRead, content, moved⟩
            rw [isRead] at result
            dsimp only at result
            split at result
            · cases result
            · cases result
              exact ⟨Nat.le_of_not_lt short, content, moved⟩
      | file following name size =>
          dsimp only at result
          rcases BodyStream.drain_cases reader size name pulled with
            ⟨-, status⟩ | ⟨-, -, status⟩ | ⟨whole, status, content, moved⟩
          · rw [status] at result
            cases result
          · rw [status] at result
            cases result
          · rw [status] at result
            cases result
            exact ⟨whole, content, moved⟩

/-! ## What the bytes say -/

def headerAt (bytes : List UInt8) (position : Nat) : List UInt8 :=
  (bytes.drop position).take tarBlock

/-- What the bytes from a position on are read as, with the state of the loop there. A header
is read wherever a whole block is left; what it says decides whether the reader ends there, or
goes on behind the padded body. -/
inductive TarReads (maxHeaderBytes : Nat) (bytes : List UInt8) :
    TarState → Nat → List TarVisit → Except TarError Unit → Prop
  | endOfInput {state : TarState} {position : Nat}
      (short : bytes.length < position + tarBlock) :
      TarReads maxHeaderBytes bytes state position []
        (.error (state.endOfInput (bytes.drop position)))
  | refused {state : TarState} {position : Nat} {error : TarError}
      (inside : position + tarBlock ≤ bytes.length)
      (header : interpretHeader maxHeaderBytes state (headerAt bytes position) = .error error) :
      TarReads maxHeaderBytes bytes state position [⟨position, 0, false, none⟩] (.error error)
  | trailer {state : TarState} {position : Nat} (inside : position + tarBlock ≤ bytes.length)
      (header : interpretHeader maxHeaderBytes state (headerAt bytes position) = .ok .trailer) :
      TarReads maxHeaderBytes bytes state position [⟨position, 0, false, none⟩]
        (if isZeroBlock (bytes.drop (position + tarBlock)) then .ok ()
        else .error (entryError .dataAfterEnd state.lastName))
  | again {state next : TarState} {position : Nat} {visits : List TarVisit}
      {ending : Except TarError Unit} (inside : position + tarBlock ≤ bytes.length)
      (header : interpretHeader maxHeaderBytes state (headerAt bytes position) = .ok (.again next))
      (rest : TarReads maxHeaderBytes bytes next (position + tarBlock) visits ending) :
      TarReads maxHeaderBytes bytes state position (⟨position, 0, false, none⟩ :: visits) ending
  | directory {state next : TarState} {position : Nat} {name : JsString}
      {visits : List TarVisit} {ending : Except TarError Unit}
      (inside : position + tarBlock ≤ bytes.length)
      (header : interpretHeader maxHeaderBytes state (headerAt bytes position) =
        .ok (.directory next name))
      (rest : TarReads maxHeaderBytes bytes next (position + tarBlock) visits ending) :
      TarReads maxHeaderBytes bytes state position
        (⟨position, 0, false, some ⟨name, .directory, 0, [], false⟩⟩ :: visits) ending
  | extensionTruncated {state next : TarState} {position : Nat} {type : TarExtension}
      {name : JsString} {length : Nat} (inside : position + tarBlock ≤ bytes.length)
      (header : interpretHeader maxHeaderBytes state (headerAt bytes position) =
        .ok (.extension next type name length))
      (short : bytes.length < position + tarBlock + (length + tarPadding length)) :
      TarReads maxHeaderBytes bytes state position [⟨position, length, true, none⟩]
        (.error (entryError .extensionTruncated name))
  | extensionRefused {state next : TarState} {position : Nat} {type : TarExtension}
      {name : JsString} {length : Nat} {error : TarError}
      (whole : position + tarBlock + (length + tarPadding length) ≤ bytes.length)
      (header : interpretHeader maxHeaderBytes state (headerAt bytes position) =
        .ok (.extension next type name length))
      (body : interpretExtension next type name
        ((bytes.drop (position + tarBlock)).take (length + tarPadding length)) length =
          .error error) :
      TarReads maxHeaderBytes bytes state position [⟨position, length, true, none⟩]
        (.error error)
  | extension {state next later : TarState} {position : Nat} {type : TarExtension}
      {name : JsString} {length : Nat} {visits : List TarVisit} {ending : Except TarError Unit}
      (whole : position + tarBlock + (length + tarPadding length) ≤ bytes.length)
      (header : interpretHeader maxHeaderBytes state (headerAt bytes position) =
        .ok (.extension next type name length))
      (body : interpretExtension next type name
        ((bytes.drop (position + tarBlock)).take (length + tarPadding length)) length = .ok later)
      (rest : TarReads maxHeaderBytes bytes later
        (position + tarBlock + (length + tarPadding length)) visits ending) :
      TarReads maxHeaderBytes bytes state position
        (⟨position, length, true, none⟩ :: visits) ending
  | bodyTruncated {state next : TarState} {position : Nat} {name : JsString} {size : Nat}
      (inside : position + tarBlock ≤ bytes.length)
      (header : interpretHeader maxHeaderBytes state (headerAt bytes position) =
        .ok (.file next name size))
      (short : bytes.length < position + tarBlock + size) :
      TarReads maxHeaderBytes bytes state position
        [⟨position, size, false, some ⟨name, .file, size, [], false⟩⟩]
        (.error (entryError .bodyTruncated name))
  | bodyUnpadded {state next : TarState} {position : Nat} {name : JsString} {size : Nat}
      (inside : position + tarBlock + size ≤ bytes.length)
      (header : interpretHeader maxHeaderBytes state (headerAt bytes position) =
        .ok (.file next name size))
      (short : bytes.length < position + tarBlock + (size + tarPadding size)) :
      TarReads maxHeaderBytes bytes state position
        [⟨position, size, false, some ⟨name, .file, size, [], false⟩⟩]
        (.error (entryError .bodyPadding name))
  | file {state next : TarState} {position : Nat} {name : JsString} {size : Nat}
      {visits : List TarVisit} {ending : Except TarError Unit}
      (whole : position + tarBlock + (size + tarPadding size) ≤ bytes.length)
      (header : interpretHeader maxHeaderBytes state (headerAt bytes position) =
        .ok (.file next name size))
      (rest : TarReads maxHeaderBytes bytes next
        (position + tarBlock + (size + tarPadding size)) visits ending) :
      TarReads maxHeaderBytes bytes state position
        (⟨position, size, false, some ⟨name, .file, size, [], false⟩⟩ :: visits) ending

theorem takeTurn_reads (maxHeaderBytes : Nat) {bytes : List UInt8} (state : TarState)
    {position : Nat} (inside : position + tarBlock ≤ bytes.length)
    {reader : ChunkReader UInt8} (content : reader.content = bytes.drop (position + tarBlock))
    (here : reader.position = position + tarBlock) (pulled : Nat) :
    let turned := takeTurn maxHeaderBytes state position (headerAt bytes position) reader pulled
    (∀ ending, turned.2 = .ends ending →
      TarReads maxHeaderBytes bytes state position [turned.1.outline] ending) ∧
    ∀ next later, turned.2 = .goes next later → ∀ visits ending,
      TarReads maxHeaderBytes bytes next later.position visits ending →
        TarReads maxHeaderBytes bytes state position (turned.1.outline :: visits) ending := by
  have left : reader.content.length = bytes.length - (position + tarBlock) := by
    rw [content, List.length_drop]
  intro turned
  cases header : interpretHeader maxHeaderBytes state (headerAt bytes position) with
  | error error =>
      have isTurn : turned = (⟨position, 0, false, none⟩, .ends (.error error)) := by
        simp only [turned, takeTurn, header]
      rw [isTurn]
      constructor
      · intro ending isEnding
        cases isEnding
        exact .refused inside header
      · intro next later isGoes
        cases isGoes
  | ok action =>
      cases action with
      | again next =>
          have isTurn : turned = (⟨position, 0, false, none⟩, .goes next reader) := by
            simp only [turned, takeTurn, header]
          rw [isTurn]
          constructor
          · intro ending isEnding
            cases isEnding
          · intro following later isGoes visits ending rest
            cases isGoes
            rw [here] at rest
            exact .again inside header rest
      | trailer =>
          have isTurn : turned = (⟨position, 0, false, none⟩,
              .ends (if isZeroBlock (bytes.drop (position + tarBlock)) then .ok ()
                else .error (entryError .dataAfterEnd state.lastName))) := by
            simp only [turned, takeTurn, header]
            rw [readTrailer_eq _ (Nat.lt_succ_self _), content]
          rw [isTurn]
          constructor
          · intro ending isEnding
            cases isEnding
            exact .trailer inside header
          · intro next later isGoes
            cases isGoes
      | directory next name =>
          have isTurn : turned =
              (⟨position, 0, false, some ⟨name, .directory, 0, [], false⟩⟩, .goes next reader) := by
            simp only [turned, takeTurn, header]
          rw [isTurn]
          constructor
          · intro ending isEnding
            cases isEnding
          · intro following later isGoes visits ending rest
            cases isGoes
            rw [here] at rest
            exact .directory inside header rest
      | extension next type name length =>
          by_cases short : reader.content.length < length + tarPadding length
          · have missing : bytes.length < position + tarBlock + (length + tarPadding length) := by
              omega
            rcases ChunkReader.read_short short with ⟨last, isRead, -, -⟩
            have isTurn : turned = (⟨position, length, true, none⟩,
                .ends (.error (entryError .extensionTruncated name))) := by
              simp only [turned, takeTurn, header, isRead]
            rw [isTurn]
            constructor
            · intro ending isEnding
              cases isEnding
              exact .extensionTruncated inside header missing
            · intro next later isGoes
              cases isGoes
          · have whole : position + tarBlock + (length + tarPadding length) ≤ bytes.length := by
              omega
            rcases ChunkReader.read_enough (Nat.le_of_not_lt short) with
              ⟨after, isRead, -, moved⟩
            cases body : interpretExtension next type name
                (reader.content.take (length + tarPadding length)) length with
            | error error =>
                have isTurn : turned = (⟨position, length, true, none⟩, .ends (.error error)) := by
                  simp only [turned, takeTurn, header, isRead, body]
                rw [isTurn]
                rw [content] at body
                constructor
                · intro ending isEnding
                  cases isEnding
                  exact .extensionRefused whole header body
                · intro next later isGoes
                  cases isGoes
            | ok later =>
                have isTurn : turned = (⟨position, length, true, none⟩, .goes later after) := by
                  simp only [turned, takeTurn, header, isRead, body]
                rw [isTurn]
                rw [content] at body
                constructor
                · intro ending isEnding
                  cases isEnding
                · intro following reached isGoes visits ending rest
                  cases isGoes
                  rw [moved, here] at rest
                  exact .extension whole header body rest
      | file next name size =>
          have isVisit : turned.1.outline =
              ⟨position, size, false, some ⟨name, .file, size, [], false⟩⟩ := by
            simp only [turned, takeTurn, header, TarVisit.outline, TarEntry.outline,
              Option.map_some]
          rw [isVisit]
          rcases BodyStream.drain_cases reader size name pulled with
            ⟨short, status⟩ | ⟨enough, short, status⟩ | ⟨enough, status, -, moved⟩
          · have isTurn : turned.2 = .ends (.error (entryError .bodyTruncated name)) := by
              simp only [turned, takeTurn, header, status]
            rw [isTurn]
            constructor
            · intro ending isEnding
              cases isEnding
              exact .bodyTruncated inside header (by omega)
            · intro following later isGoes
              cases isGoes
          · have isTurn : turned.2 = .ends (.error (entryError .bodyPadding name)) := by
              simp only [turned, takeTurn, header, status]
            rw [isTurn]
            constructor
            · intro ending isEnding
              cases isEnding
              exact .bodyUnpadded (by omega) header (by omega)
            · intro following later isGoes
              cases isGoes
          · constructor
            · intro ending isEnding
              simp only [turned, takeTurn, header, status] at isEnding
              cases isEnding
            · intro following later isGoes visits ending rest
              simp only [turned, takeTurn, header, status] at isGoes
              cases isGoes
              rw [moved, here] at rest
              exact .file (by omega) header rest

/-! ## Runs -/

theorem readLoop_same (maxHeaderBytes turns : Nat) (state : TarState)
    {left right : ChunkReader UInt8} (same : SameBytes left right)
    (leftPulled rightPulled : Nat → Nat) :
    (readLoop maxHeaderBytes turns state left leftPulled).visits.map TarVisit.outline =
        (readLoop maxHeaderBytes turns state right rightPulled).visits.map TarVisit.outline ∧
      (readLoop maxHeaderBytes turns state left leftPulled).ending =
        (readLoop maxHeaderBytes turns state right rightPulled).ending := by
  induction turns generalizing state left right leftPulled rightPulled with
  | zero => exact ⟨rfl, rfl⟩
  | succ turns induction =>
      by_cases short : left.content.length < tarBlock
      · rcases ChunkReader.read_short short with ⟨leftLast, leftRead, leftBuffered, -⟩
        rcases ChunkReader.read_short (same.content ▸ short) with
          ⟨rightLast, rightRead, rightBuffered, -⟩
        simp only [readLoop, leftRead, rightRead, leftBuffered, rightBuffered, same.content,
          and_self]
      · have enough := Nat.le_of_not_lt short
        rcases ChunkReader.read_enough enough with
          ⟨leftAfter, leftRead, leftContent, leftPosition⟩
        rcases ChunkReader.read_enough (same.content ▸ enough) with
          ⟨rightAfter, rightRead, rightContent, rightPosition⟩
        have sameAfter : SameBytes leftAfter rightAfter := by
          constructor
          · rw [leftContent, rightContent, same.content]
          · rw [leftPosition, rightPosition, same.position]
        simp only [readLoop, leftRead, rightRead, same.content, same.position]
        rcases takeTurn_same maxHeaderBytes state right.position
          (right.content.take tarBlock) sameAfter (leftPulled 0) (rightPulled 0) with
          ⟨sameVisit, sameTurn⟩
        revert sameVisit sameTurn
        rcases takeTurn maxHeaderBytes state right.position _ leftAfter _ with
          ⟨leftVisit, leftTurn⟩
        rcases takeTurn maxHeaderBytes state right.position _ rightAfter _ with
          ⟨rightVisit, rightTurn⟩
        intro sameVisit sameTurn
        cases sameTurn with
        | ends ending => exact ⟨by simpa using sameVisit, rfl⟩
        | goes next sameLater =>
            rcases induction next sameLater _ _ with ⟨sameVisits, sameEnding⟩
            exact ⟨by simpa using ⟨sameVisit, sameVisits⟩, sameEnding⟩

/-- The second header is read at the first block boundary after the body of the first. -/
def TarVisit.FollowedBy (first second : TarVisit) : Prop :=
  tarBlock ∣ second.position ∧ first.position + tarBlock + first.length ≤ second.position ∧
    second.position < first.position + tarBlock + first.length + tarBlock

structure AtBlock (bytes : List UInt8) (reader : ChunkReader UInt8) : Prop where
  content : reader.content = bytes.drop reader.position
  aligned : tarBlock ∣ reader.position

/-- A run ends before the turns run out, as a turn takes a block, and it reads what the bytes
say. -/
theorem readLoop_reads (maxHeaderBytes : Nat) {bytes : List UInt8} {turns : Nat}
    (state : TarState) {reader : ChunkReader UInt8} (pulled : Nat → Nat)
    (atBlock : AtBlock bytes reader) (enough : reader.content.length < turns) :
    ∃ ending, (readLoop maxHeaderBytes turns state reader pulled).ending = some ending ∧
      TarReads maxHeaderBytes bytes state reader.position
        ((readLoop maxHeaderBytes turns state reader pulled).visits.map TarVisit.outline)
        ending := by
  have left : reader.content.length = bytes.length - reader.position := by
    rw [atBlock.content, List.length_drop]
  have positive : 0 < tarBlock := by decide
  induction turns generalizing state reader pulled with
  | zero => omega
  | succ turns induction =>
      by_cases short : reader.content.length < tarBlock
      · rcases ChunkReader.read_short short with ⟨last, isRead, isBuffered, -⟩
        have missing : bytes.length < reader.position + tarBlock := by omega
        have isLoop : readLoop maxHeaderBytes (turns + 1) state reader pulled =
            ⟨[], some (.error (state.endOfInput (bytes.drop reader.position)))⟩ := by
          rw [readLoop, isRead]
          dsimp only
          rw [isBuffered, atBlock.content]
        rw [isLoop]
        exact ⟨_, rfl, .endOfInput missing⟩
      · have inside : reader.position + tarBlock ≤ bytes.length := by omega
        rcases ChunkReader.read_enough (Nat.le_of_not_lt short) with
          ⟨after, isRead, content, position⟩
        rw [atBlock.content, List.drop_drop] at content
        rw [atBlock.content] at isRead
        rcases takeTurn_reads maxHeaderBytes state inside content position (pulled 0) with
          ⟨ends, goes⟩
        simp only [readLoop, isRead]
        unfold headerAt at ends goes
        cases turned : takeTurn maxHeaderBytes state reader.position
          ((bytes.drop reader.position).take tarBlock) after (pulled 0) with
        | mk visit turn =>
            rw [turned] at ends goes
            cases turn with
            | ends ending => exact ⟨ending, rfl, ends ending rfl⟩
            | goes next later =>
                rcases takeTurn_goes turned with ⟨-, laterContent, laterPosition⟩
                rcases tarPadding_spec visit.length with ⟨wholeBlocks, -⟩
                have nextBlock : AtBlock bytes later := by
                  constructor
                  · rw [laterContent, content, List.drop_drop, laterPosition, position]
                  · rw [laterPosition, position]
                    exact Nat.dvd_add (Nat.dvd_add atBlock.aligned (Nat.dvd_refl _)) wholeBlocks
                have laterLeft : later.content.length = bytes.length - later.position := by
                  rw [nextBlock.content, List.length_drop]
                have fewer : later.content.length < turns := by omega
                rcases induction next
                  (if (visit.entry.any fun entry => entry.type == .file) = true then
                    fun index => pulled (index + 1) else pulled) nextBlock fewer laterLeft with
                  ⟨ending, isEnding, rest⟩
                exact ⟨ending, isEnding, goes next later rfl _ ending rest⟩

/-- The headers that a run visits are where they should be, and say what is there. -/
structure TarResult.TrueOf (maxHeaderBytes : Nat) (bytes : List UInt8) (position : Nat)
    (pulled : Nat → Nat) (result : TarResult) : Prop where
  first : ∀ visit ∈ result.visits.head?, visit.position = position
  chain : result.visits.IsChain TarVisit.FollowedBy
  visits : ∀ visit ∈ result.visits, ∃ index,
    visit.TrueOf maxHeaderBytes (bytes.drop (visit.position + tarBlock)) (pulled index)

theorem readLoop_trueOf (maxHeaderBytes : Nat) {bytes : List UInt8} (turns : Nat)
    (state : TarState) {reader : ChunkReader UInt8} (pulled : Nat → Nat)
    (atBlock : AtBlock bytes reader) :
    (readLoop maxHeaderBytes turns state reader pulled).TrueOf maxHeaderBytes bytes
      reader.position pulled := by
  induction turns generalizing state reader pulled with
  | zero => exact ⟨by simp [readLoop], by simp [readLoop], by simp [readLoop]⟩
  | succ turns induction =>
      by_cases short : reader.content.length < tarBlock
      · rcases ChunkReader.read_short short with ⟨last, isRead, -, -⟩
        simp only [readLoop, isRead]
        exact ⟨by simp, by simp, by simp⟩
      · rcases ChunkReader.read_enough (Nat.le_of_not_lt short) with
          ⟨after, isRead, content, position⟩
        have after_eq : after.content = bytes.drop (reader.position + tarBlock) := by
          rw [content, atBlock.content, List.drop_drop]
        simp only [readLoop, isRead]
        rcases takeTurn_visit maxHeaderBytes state reader.position (reader.content.take tarBlock)
          after (pulled 0) with ⟨isPosition, isTrue⟩
        cases turned : takeTurn maxHeaderBytes state reader.position
          (reader.content.take tarBlock) after (pulled 0) with
        | mk visit turn =>
            rw [turned] at isPosition isTrue
            rw [after_eq, ← isPosition] at isTrue
            cases turn with
            | ends ending =>
                refine ⟨?_, by simp, ?_⟩
                · simpa using isPosition
                · intro other member
                  cases List.mem_singleton.mp member
                  exact ⟨0, isTrue⟩
            | goes next later =>
                rcases takeTurn_goes turned with ⟨-, laterContent, laterPosition⟩
                rcases tarPadding_spec visit.length with ⟨wholeBlocks, lessThanBlock⟩
                have nextBlock : AtBlock bytes later := by
                  constructor
                  · rw [laterContent, after_eq, List.drop_drop, laterPosition, position]
                  · rw [laterPosition, position]
                    exact Nat.dvd_add (Nat.dvd_add atBlock.aligned (Nat.dvd_refl _)) wholeBlocks
                have rest := induction next
                  (if (visit.entry.any fun entry => entry.type == .file) = true then
                    fun index => pulled (index + 1) else pulled) nextBlock
                refine ⟨by simpa using isPosition, ?_, ?_⟩
                · apply rest.chain.cons
                  intro second isSecond
                  have secondAt := rest.first second isSecond
                  refine ⟨secondAt ▸ nextBlock.aligned, ?_, ?_⟩
                  · rw [secondAt, laterPosition, position, isPosition]
                    omega
                  · rw [secondAt, laterPosition, position, isPosition]
                    omega
                · intro other member
                  rcases List.mem_cons.mp member with same | later
                  · rw [same]
                    exact ⟨0, isTrue⟩
                  · rcases rest.visits other later with ⟨index, ofOther⟩
                    split at ofOther
                    · exact ⟨index + 1, ofOther⟩
                    · exact ⟨index, ofOther⟩

/-! ## Archives -/

def TarResult.entries (result : TarResult) : List (JsString × VfsNodeType × Nat) :=
  (result.visits.filterMap TarVisit.entry).map fun entry => (entry.name, entry.type, entry.size)

theorem TarResult.entries_of_outline {left right : TarResult}
    (same : left.visits.map TarVisit.outline = right.visits.map TarVisit.outline) :
    left.entries = right.entries := by
  have outlined : ∀ result : TarResult, result.entries =
      ((result.visits.map TarVisit.outline).filterMap TarVisit.entry).map
        fun entry => (entry.name, entry.type, entry.size) := by
    intro result
    rw [TarResult.entries, List.filterMap_map, List.map_filterMap, List.map_filterMap]
    congr 1
    funext visit
    cases isEntry : visit.entry <;> simp [TarVisit.outline, TarEntry.outline, isEntry]
  rw [outlined, outlined, same]

/-- The tar reader depends only on the bytes: two ways of cutting them into chunks and two ways
of reading the bodies give the same entries and the same end, which are those that the bytes are
read as. The reader ends on every input. A body read to its end is the bytes after its header, as
many as the entry's size, and what was read of another body is a front of them; a consumer that
goes on reading gets to the end of each body that is all there. The first header is the first
block, each later one is at the next block boundary after the body before it, and no extension is
longer than the limit. -/
theorem tar_reader_reads_bytes (maxHeaderBytes : Nat) (bytes : List UInt8) :
    (∀ (left right : Cutting bytes) (leftPulled rightPulled : Nat → Nat),
      (readTarEntries maxHeaderBytes left leftPulled).entries =
          (readTarEntries maxHeaderBytes right rightPulled).entries ∧
        (readTarEntries maxHeaderBytes left leftPulled).ending =
          (readTarEntries maxHeaderBytes right rightPulled).ending) ∧
      ∀ (source : Cutting bytes) (pulled : Nat → Nat),
        let result := readTarEntries maxHeaderBytes source pulled
        (∃ ending, result.ending = some ending ∧ TarReads maxHeaderBytes bytes .initial 0
          (result.visits.map TarVisit.outline) ending) ∧
          (∀ visit ∈ result.visits.head?, visit.position = 0) ∧
          result.visits.IsChain TarVisit.FollowedBy ∧
          ∀ visit ∈ result.visits,
            (visit.extension = true → visit.length ≤ maxHeaderBytes) ∧
              ∀ entry, visit.entry = some entry →
                let body := (bytes.drop (visit.position + tarBlock)).take entry.size
                entry.size = visit.length ∧ entry.delivered <+: body ∧
                  (entry.complete = true →
                    entry.delivered = body ∧ entry.delivered.length = entry.size) ∧
                  ((∀ index, bytes.length < pulled index) → entry.type = .file →
                    visit.position + tarBlock + (entry.size + tarPadding entry.size) ≤
                      bytes.length → entry.complete = true) := by
  have whole : ∀ source : Cutting bytes, source.reader.content = bytes := fun source => source.whole
  constructor
  · intro left right leftPulled rightPulled
    have same : SameBytes left.reader right.reader :=
      ⟨(whole left).trans (whole right).symm, rfl⟩
    rcases readLoop_same maxHeaderBytes (bytes.length + 1) .initial same leftPulled rightPulled with
      ⟨sameVisits, sameEnding⟩
    exact ⟨TarResult.entries_of_outline sameVisits, sameEnding⟩
  · intro source pulled result
    have atStart : AtBlock bytes source.reader := ⟨whole source, Nat.dvd_zero _⟩
    have isTrue := readLoop_trueOf maxHeaderBytes (bytes.length + 1) .initial pulled atStart
    refine ⟨?_, isTrue.first, isTrue.chain, ?_⟩
    · apply readLoop_reads maxHeaderBytes .initial pulled atStart
      rw [whole source]
      exact Nat.lt_succ_self _
    · intro visit member
      rcases isTrue.visits visit member with ⟨index, ofVisit⟩
      have left := List.length_drop (i := visit.position + tarBlock) (l := bytes)
      refine ⟨ofVisit.bounded, fun entry isEntry => ⟨ofVisit.size entry isEntry,
        ofVisit.front entry isEntry, ofVisit.whole entry isEntry, ?_⟩⟩
      intro often isFile inside
      have oftenHere := often index
      exact ofVisit.complete (by omega) entry isEntry isFile (by omega)

namespace Small

/-- The header of a file `a` of one byte. -/
def fileBlock : List UInt8 :=
  [0x61] ++ List.replicate 123 0 ++ (List.replicate 10 0x30 ++ [0x31, 0]) ++
    List.replicate 12 0 ++ [0x30, 0x30, 0x33, 0x30, 0x36, 0x31, 0, 0x20, 0x30] ++
    List.replicate 100 0 ++ [0x75, 0x73, 0x74, 0x61, 0x72, 0, 0x30, 0x30] ++ List.replicate 247 0

def archive : List UInt8 := fileBlock ++ 7 :: List.replicate 511 0

def cutArchive : Cutting archive where
  chunks := [fileBlock.take 300, fileBlock.drop 300 ++ [7, 0], List.replicate 510 0]
  nonempty := by decide +kernel
  whole := by decide +kernel

theorem archive_length : archive.length = 1024 := by
  simp only [archive, fileBlock, List.length_append, List.length_cons, List.length_replicate,
    List.length_nil]

theorem cutArchive_read : readTarEntries 1024 cutArchive (fun _ => 0) =
    ⟨[⟨0, 1, false, some ⟨[0x61], .file, 1, [], false⟩⟩],
      some (.error (entryError .noEndBlocks [0x61]))⟩ := by decide +kernel

theorem cutArchive_first (pulled : Nat → Nat) :
    ∃ entry, (readTarEntries 1024 cutArchive pulled).visits.head? =
      some ⟨0, 1, false, some entry⟩ ∧ entry.outline = ⟨[0x61], .file, 1, [], false⟩ := by
  have same := (@readLoop_same 1024 (archive.length + 1) .initial cutArchive.reader
    cutArchive.reader ⟨rfl, rfl⟩ pulled fun _ => 0).1
  change (readTarEntries 1024 cutArchive pulled).visits.map TarVisit.outline =
    (readTarEntries 1024 cutArchive fun _ => 0).visits.map TarVisit.outline at same
  rw [cutArchive_read] at same
  cases visits : (readTarEntries 1024 cutArchive pulled).visits with
  | nil =>
      rw [visits] at same
      cases same
  | cons visit rest =>
      rw [visits] at same
      have isFirst := (List.cons.inj same).1
      rcases visit with ⟨position, length, extension, entry⟩
      cases entry with
      | none => cases isFirst
      | some entry =>
          rcases entry with ⟨name, type, size, delivered, complete⟩
          cases isFirst
          exact ⟨_, rfl, rfl⟩

end Small

/-- A consumer that goes on reading gets the one byte of the file and the end of its body, and
the reader misses the end blocks behind the padding. -/
theorem tar_reader_reads_bytes_small :
    (∃ entry, (readTarEntries 1024 Small.cutArchive fun _ => 1025).visits.head? =
        some ⟨0, 1, false, some entry⟩ ∧ entry.complete = true ∧ entry.delivered = [7]) ∧
      TarReads 1024 Small.archive .initial 0
        [⟨0, 1, false, some ⟨[0x61], .file, 1, [], false⟩⟩]
        (.error (entryError .noEndBlocks [0x61])) := by
  rcases tar_reader_reads_bytes 1024 Small.archive with ⟨-, reads⟩
  have body : (Small.archive.drop (0 + tarBlock)).take 1 = [7] := by decide +kernel
  constructor
  · rcases Small.cutArchive_first fun _ => 1025 with ⟨entry, isFirst, isOutline⟩
    rcases reads Small.cutArchive fun _ => 1025 with ⟨-, -, -, visits⟩
    rcases (visits _ (List.mem_of_mem_head? isFirst)).2 entry rfl with ⟨size, -, whole, complete⟩
    have isFile : entry.type = .file := congrArg TarEntry.type isOutline
    have often : ∀ index : Nat, Small.archive.length < 1025 := fun _ => by
      rw [Small.archive_length]
      decide
    have inside : 0 + tarBlock + (entry.size + tarPadding entry.size) ≤ Small.archive.length := by
      rw [size, Small.archive_length]
      change 0 + tarBlock + (1 + tarPadding 1) ≤ 1024
      decide
    have isComplete := complete often isFile inside
    rw [size] at whole
    exact ⟨entry, isFirst, isComplete, (whole isComplete).1.trans body⟩
  · rcases reads Small.cutArchive fun _ => 0 with ⟨⟨ending, isEnding, isRead⟩, -⟩
    rw [Small.cutArchive_read] at isEnding isRead
    cases isEnding
    exact isRead

end Storix
