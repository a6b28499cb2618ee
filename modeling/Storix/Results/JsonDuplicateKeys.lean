import Mathlib.Data.Bool.AllAny
import Storix.Common.JsonDuplicateKeys

/-! # Duplicate keys are found exactly

On every JSON text the scan ends, and it throws exactly when some object of the text has
two members whose keys stand for the same string. -/

namespace Storix

open Foundation Foundation.Json

variable {text : JsString} {frames : List JsonFrame}

/-! ## What a piece of text does to the stack -/

/-- A scan that comes to `text` either leaves it on a stack that `after` allows, or stops at a
duplicate key in it; `clean` says which. -/
structure Passes (frames : List JsonFrame) (text : JsString) (clean : Prop)
    (after : List JsonFrame → Prop) : Prop where
  goes : clean → ∃ next, after next ∧ ∀ rest, scanKeys frames (text ++ rest) = scanKeys next rest
  stops : ¬clean → ∀ rest, ∃ key path,
    scanKeys frames (text ++ rest) = some (.error (.duplicate key path))

theorem Passes.append {middle after : List JsonFrame → Prop} {more : JsString}
    {clean moreClean : Prop} (first : Passes frames text clean middle)
    (second : ∀ next, middle next → Passes next more moreClean after) :
    Passes frames (text ++ more) (clean ∧ moreClean) after where
  goes holds := by
    rcases first.goes holds.1 with ⟨next, isMiddle, front⟩
    rcases (second next isMiddle).goes holds.2 with ⟨last, isAfter, back⟩
    refine ⟨last, isAfter, fun rest => ?_⟩
    rw [List.append_assoc, front, back]
  stops fails rest := by
    by_cases isClean : clean
    · rcases first.goes isClean with ⟨next, isMiddle, front⟩
      rw [List.append_assoc, front]
      exact (second next isMiddle).stops (fun holds => fails ⟨isClean, holds⟩) rest
    · rw [List.append_assoc]
      exact first.stops isClean (more ++ rest)

theorem Passes.congr {after wider : List JsonFrame → Prop} {clean other : Prop}
    (passes : Passes frames text clean after) (same : clean ↔ other)
    (widens : ∀ next, after next → wider next) : Passes frames text other wider where
  goes holds := by
    rcases passes.goes (same.mpr holds) with ⟨next, isAfter, front⟩
    exact ⟨next, widens next isAfter, front⟩
  stops fails := passes.stops fun holds => fails (same.mp holds)

theorem Passes.lead {middle : List JsonFrame} {after : List JsonFrame → Prop} {more : JsString}
    {clean : Prop} (first : Passes frames text True (· = middle))
    (second : Passes middle more clean after) : Passes frames (text ++ more) clean after :=
  (first.append fun _ isMiddle => isMiddle ▸ second).congr (iff_of_eq (true_and clean)) fun _ => id

theorem Passes.trail {middle after : List JsonFrame → Prop} {more : JsString} {clean : Prop}
    (first : Passes frames text clean middle)
    (second : ∀ next, middle next → Passes next more True after) :
    Passes frames (text ++ more) clean after :=
  (first.append second).congr (iff_of_eq (and_true clean)) fun _ => id

theorem Passes.of_eq {next : List JsonFrame}
    (front : ∀ rest, scanKeys frames (text ++ rest) = scanKeys next rest) :
    Passes frames text True (· = next) where
  goes _ := ⟨next, rfl, front⟩
  stops fails := absurd trivial fails

/-! ## Single units -/

def punctuation : List UInt16 :=
  [openBrace, openBracket, closeBrace, closeBracket, comma, quote]

theorem scanKeys_open (rest : JsString) :
    scanKeys frames (openBrace :: rest) = scanKeys (.object [] none true :: frames) rest := by
  rw [scanKeys, if_pos rfl]

theorem scanKeys_openBracket (rest : JsString) :
    scanKeys frames (openBracket :: rest) = scanKeys (.array 0 :: frames) rest := by
  rw [scanKeys, if_neg (by decide), if_pos rfl]

theorem scanKeys_close {unit : UInt16} (closes : unit = closeBrace ∨ unit = closeBracket)
    (rest : JsString) : scanKeys frames (unit :: rest) = scanKeys frames.tail rest := by
  rcases closes with rfl | rfl
  · rw [scanKeys, if_neg (by decide), if_neg (by decide), if_pos (.inl rfl)]
  · rw [scanKeys, if_neg (by decide), if_neg (by decide), if_pos (.inr rfl)]

theorem scanKeys_comma (rest : JsString) :
    scanKeys frames (comma :: rest) = scanKeys (afterComma frames) rest := by
  rw [scanKeys, if_neg (by decide), if_neg (by decide), if_neg (by decide), if_pos rfl]

theorem scanKeys_plain (plain : ∀ unit ∈ text, unit ∉ punctuation) (rest : JsString) :
    scanKeys frames (text ++ rest) = scanKeys frames rest := by
  induction text with
  | nil => rfl
  | cons unit text induction =>
      have known := plain unit (List.mem_cons_self ..)
      simp only [punctuation, List.mem_cons, List.not_mem_nil, or_false, not_or] at known
      rcases known with ⟨notBrace, notBracket, notClose, notCloseBracket, notComma, notQuote⟩
      rw [List.cons_append, scanKeys, if_neg notBrace, if_neg notBracket,
        if_neg (not_or.mpr ⟨notClose, notCloseBracket⟩), if_neg notComma, if_neg notQuote]
      exact induction fun other member => plain other (List.mem_cons_of_mem _ member)

/-! ## String literals -/

theorem closeString_quote (rest : JsString) : closeString (quote :: rest) = some ([], rest) := by
  rw [closeString.eq_def]
  exact if_pos rfl

theorem closeString_escape (escaped : UInt16) (rest : JsString) :
    closeString (backslash :: escaped :: rest) =
      (closeString rest).map fun (raw, after) => (backslash :: escaped :: raw, after) := by
  rw [closeString.eq_def]
  exact (if_neg (by decide)).trans (if_pos rfl)

theorem closeString_plain {unit : UInt16} (notQuote : unit ≠ quote) (notEscape : unit ≠ backslash)
    (rest : JsString) :
    closeString (unit :: rest) =
      (closeString rest).map fun (raw, after) => (unit :: raw, after) := by
  rw [closeString.eq_def]
  exact (if_neg notQuote).trans (if_neg notEscape)

theorem hexDigit_plain {unit : UInt16} (isDigit : hexDigit unit ≠ none) :
    unit ≠ quote ∧ unit ≠ backslash := by
  constructor
  · rintro rfl
    exact isDigit rfl
  · rintro rfl
    exact isDigit rfl

theorem hexUnit_plain {first second third fourth code : UInt16}
    (isCode : hexUnit first second third fourth = some code) :
    ∀ unit ∈ [first, second, third, fourth], unit ≠ quote ∧ unit ≠ backslash := by
  unfold hexUnit at isCode
  simp only [bind, Option.bind_eq_some_iff] at isCode
  rcases isCode with ⟨_, isFirst, _, isSecond, _, isThird, _, isFourth, _⟩
  intro unit member
  simp only [List.mem_cons, List.not_mem_nil, or_false] at member
  rcases member with rfl | rfl | rfl | rfl
  · exact hexDigit_plain (isFirst ▸ nofun)
  · exact hexDigit_plain (isSecond ▸ nofun)
  · exact hexDigit_plain (isThird ▸ nofun)
  · exact hexDigit_plain (isFourth ▸ nofun)

theorem closeString_of_unescape {raw value : JsString} (spelled : unescape raw = some value)
    (rest : JsString) : closeString (raw ++ quote :: rest) = some (raw, rest) := by
  fun_induction unescape raw generalizing value with
  | case1 => exact closeString_quote rest
  | case2 => cases spelled
  | case3 => cases spelled
  | case4 first second third fourth more _ induction =>
      simp only [bind, Option.bind_eq_some_iff] at spelled
      rcases spelled with ⟨code, isCode, inner, isInner, _⟩
      have plain := hexUnit_plain isCode
      simp only [List.forall_mem_cons] at plain
      rcases plain with ⟨first, second, third, fourth, _⟩
      simp only [List.cons_append]
      rw [closeString_escape, closeString_plain first.1 first.2,
        closeString_plain second.1 second.2,
        closeString_plain third.1 third.2, closeString_plain fourth.1 fourth.2, induction isInner]
      rfl
  | case5 => cases spelled
  | case6 letter more _ _ induction =>
      simp only [bind, Option.bind_eq_some_iff] at spelled
      rcases spelled with ⟨code, isCode, inner, isInner, _⟩
      simp only [List.cons_append]
      rw [closeString_escape, induction isInner]
      rfl
  | case7 unit more legal notEscape induction =>
      simp only [bind, Option.bind_eq_some_iff] at spelled
      rcases spelled with ⟨inner, isInner, _⟩
      rw [List.cons_append, closeString_plain (fun isQuote => legal (.inl isQuote)) notEscape,
        induction isInner]
      rfl

theorem scanKeys_string {raw value : JsString} (spelled : unescape raw = some value)
    (rest : JsString) :
    scanKeys frames (quote :: raw ++ quote :: rest) =
      match takeString raw frames with
      | .error error => some (.error error)
      | .ok frames => scanKeys frames rest := by
  rw [List.cons_append, scanKeys, if_neg (by decide), if_neg (by decide), if_neg (by decide),
    if_neg (by decide), if_pos rfl]
  split
  · rename_i endless
    rw [closeString_of_unescape spelled] at endless
    cases endless
  · rename_i closes
    rw [closeString_of_unescape spelled] at closes
    cases closes
    rfl

/-! ## Parts of a text -/

def expectsKey : List JsonFrame → Bool
  | .object _ _ expectKey :: _ => expectKey
  | _ => false

theorem takeString_of_not_expected {raw : JsString} (notKey : expectsKey frames = false) :
    takeString raw frames = .ok frames := by
  unfold takeString
  split
  · cases notKey
  · rfl

def Distinct (objects : List (List JsString)) : Prop := ∀ keys ∈ objects, keys.Nodup

def Reads : Part → JsString → List JsString → List (List JsString) → Prop
  | .value, text, _, objects | .element, text, _, objects =>
      ∀ frames, expectsKey frames = false → Passes frames text (Distinct objects) (· = frames)
  | .elements, text, _, objects =>
      ∀ index frames, Passes (.array index :: frames) text (Distinct objects)
        fun next => ∃ later, next = .array later :: frames
  | .member, text, keys, objects | .members, text, keys, objects =>
      ∀ seen current frames, Passes (.object seen current true :: frames) text
        ((∀ key ∈ keys, key ∉ seen) ∧ keys.Nodup ∧ Distinct objects)
        fun next => ∃ last, next = .object (keys.reverse ++ seen) last false :: frames

theorem isBlank_plain {blank : JsString} (isBlank : IsBlank blank) :
    ∀ unit ∈ blank, unit ∉ punctuation := by
  intro unit member
  rcases isBlank unit member with rfl | rfl | rfl | rfl
  all_goals decide

theorem isDigits_plain {digits : JsString} (isDigits : IsDigits digits) :
    ∀ unit ∈ digits, unit ∉ punctuation := by
  intro unit member isMark
  have range := isDigits.2 unit member
  simp only [punctuation, List.mem_cons, List.not_mem_nil, or_false] at isMark
  rcases isMark with rfl | rfl | rfl | rfl | rfl | rfl
  all_goals exact absurd range (by decide)

theorem isNumber_plain {number : JsString} (isNumber : IsNumber number) :
    ∀ unit ∈ number, unit ∉ punctuation := by
  rcases isNumber.parts with
    ⟨sign, whole, fraction, exponent, rfl, isSign, ⟨isWhole, _⟩, isFraction, isExponent⟩
  have plainSign : ∀ unit ∈ sign, unit ∉ punctuation := by
    rcases isSign with rfl | rfl
    all_goals exact List.all_iff_forall_prop.mp (by decide)
  have plainFraction : ∀ unit ∈ fraction, unit ∉ punctuation := by
    rcases isFraction with rfl | ⟨digits, rfl, isDigits⟩
    · exact nofun
    · exact List.forall_mem_cons.mpr ⟨by decide, isDigits_plain isDigits⟩
  have plainExponent : ∀ unit ∈ exponent, unit ∉ punctuation := by
    rcases isExponent with rfl | ⟨letter, sign, digits, rfl, isLetter, isSign, isDigits⟩
    · exact nofun
    · refine List.forall_mem_cons.mpr ⟨?_, List.forall_mem_append.mpr ⟨?_, isDigits_plain isDigits⟩⟩
      · rcases isLetter with rfl | rfl
        all_goals decide
      · rcases isSign with rfl | rfl | rfl
        all_goals exact List.all_iff_forall_prop.mp (by decide)
  simp only [List.forall_mem_append]
  exact ⟨⟨⟨plainSign, isDigits_plain isWhole⟩, plainFraction⟩, plainExponent⟩

theorem Passes.plain (plain : ∀ unit ∈ text, unit ∉ punctuation) :
    Passes frames text True (· = frames) :=
  .of_eq (scanKeys_plain plain)

theorem passes_open : Passes frames [openBrace] True (· = .object [] none true :: frames) :=
  .of_eq scanKeys_open

theorem passes_openBracket : Passes frames [openBracket] True (· = .array 0 :: frames) :=
  .of_eq scanKeys_openBracket

theorem passes_close {unit : UInt16} (closes : unit = closeBrace ∨ unit = closeBracket) :
    Passes frames [unit] True (· = frames.tail) :=
  .of_eq (scanKeys_close closes)

theorem passes_comma : Passes frames [comma] True (· = afterComma frames) :=
  .of_eq scanKeys_comma

theorem passes_key {raw key : JsString} (spelled : unescape raw = some key) (seen : List JsString)
    (current : Option JsString) :
    Passes (.object seen current true :: frames) (quote :: raw ++ [quote]) (key ∉ seen)
      (· = .object (key :: seen) (some key) false :: frames) where
  goes new := by
    refine ⟨_, rfl, fun rest => ?_⟩
    have taken : takeString raw (.object seen current true :: frames) =
        .ok (.object (key :: seen) (some key) false :: frames) := by
      rw [takeString, spelled]
      exact if_neg new
    rw [List.append_assoc, List.singleton_append, scanKeys_string spelled, taken]
  stops old rest := by
    have taken : takeString raw (.object seen current true :: frames) =
        .error (.duplicate key (pathOf frames)) := by
      rw [takeString, spelled]
      exact if_pos (not_not.mp old)
    refine ⟨key, pathOf frames, ?_⟩
    rw [List.append_assoc, List.singleton_append, scanKeys_string spelled, taken]

theorem Distinct.nil : Distinct [] := nofun

theorem distinct_append {first rest : List (List JsString)} :
    Distinct (first ++ rest) ↔ Distinct first ∧ Distinct rest :=
  List.forall_mem_append

theorem newKeys_append {seen first rest : List JsString} :
    (∀ key ∈ first, key ∉ seen) ∧ first.Nodup ∧
        (∀ key ∈ rest, key ∉ first.reverse ++ seen) ∧ rest.Nodup ↔
      (∀ key ∈ first ++ rest, key ∉ seen) ∧ (first ++ rest).Nodup := by
  rw [List.nodup_append, List.forall_mem_append]
  constructor
  · rintro ⟨newFirst, firstNodup, newRest, restNodup⟩
    refine ⟨⟨newFirst, fun key member old => ?_⟩, firstNodup, restNodup, ?_⟩
    · exact newRest key member (List.mem_append_right _ old)
    · rintro key inFirst _ inRest rfl
      exact newRest key inRest (List.mem_append_left _ (List.mem_reverse.mpr inFirst))
  · rintro ⟨⟨newFirst, newRest⟩, firstNodup, restNodup, disjoint⟩
    refine ⟨newFirst, firstNodup, fun key member old => ?_, restNodup⟩
    rcases List.mem_append.mp old with inFirst | inSeen
    · exact disjoint key (List.mem_reverse.mp inFirst) key member rfl
    · exact newRest key member inSeen

theorem spells_reads {part : Part} {keys : List JsString} {objects : List (List JsString)}
    (spelled : Spells part text keys objects) : Reads part text keys objects := by
  induction spelled with
  | literal known =>
      intro frames _
      refine (Passes.plain ?_).congr (iff_of_true trivial Distinct.nil) fun _ => id
      simp only [literals, List.mem_cons, List.not_mem_nil, or_false] at known
      rcases known with rfl | rfl | rfl
      all_goals exact List.all_iff_forall_prop.mp (by decide)
  | number isNumber =>
      intro frames _
      exact (Passes.plain (isNumber_plain isNumber)).congr (iff_of_true trivial Distinct.nil)
        fun _ => id
  | string spelled =>
      intro frames notKey
      refine (Passes.of_eq fun rest => ?_).congr (iff_of_true trivial Distinct.nil) fun _ => id
      rw [List.append_assoc, List.singleton_append, scanKeys_string spelled,
        takeString_of_not_expected notKey]
  | @emptyArray blank isBlank =>
      intro frames _
      change Passes frames ([openBracket] ++ blank ++ [closeBracket]) _ _
      rw [List.append_assoc]
      refine passes_openBracket.lead ((Passes.plain (isBlank_plain isBlank)).lead ?_)
      exact (passes_close (.inr rfl)).congr (iff_of_true trivial Distinct.nil) fun _ => id
  | @array text objects elements induction =>
      intro frames _
      change Passes frames ([openBracket] ++ text ++ [closeBracket]) _ _
      rw [List.append_assoc]
      refine passes_openBracket.lead ((induction 0 frames).trail ?_)
      rintro _ ⟨later, rfl⟩
      exact passes_close (.inr rfl)
  | @emptyObject blank isBlank =>
      intro frames _
      change Passes frames ([openBrace] ++ blank ++ [closeBrace]) _ _
      rw [List.append_assoc]
      refine passes_open.lead ((Passes.plain (isBlank_plain isBlank)).lead ?_)
      refine (passes_close (.inl rfl)).congr (iff_of_true trivial ?_) fun _ => id
      exact List.forall_mem_singleton.mpr List.nodup_nil
  | @object text keys objects members induction =>
      intro frames _
      change Passes frames ([openBrace] ++ text ++ [closeBrace]) _ _
      rw [List.append_assoc]
      refine passes_open.lead (((induction [] none frames).trail ?_).congr ?_ fun _ => id)
      · rintro _ ⟨last, rfl⟩
        exact passes_close (.inl rfl)
      · simp [Distinct]
  | element isBefore value isAfter induction =>
      intro frames notKey
      rw [List.append_assoc]
      refine (Passes.plain (isBlank_plain isBefore)).lead ((induction frames notKey).trail ?_)
      rintro _ rfl
      exact Passes.plain (isBlank_plain isAfter)
  | lastElement element induction =>
      intro index frames
      exact (induction _ rfl).congr Iff.rfl fun next isNext => ⟨index, isNext⟩
  | @elements firstText restText _ _ element elements first rest =>
      intro index frames
      change Passes _ (firstText ++ ([comma] ++ restText)) _ _
      refine ((first _ rfl).append ?_).congr distinct_append.symm fun _ => id
      rintro _ rfl
      exact passes_comma.lead (rest (index + 1) frames)
  | @member before raw key middle text objects isBefore spelled isMiddle element induction =>
      intro seen current frames
      have pieces : before ++ quote :: raw ++ quote :: middle ++ colon :: text =
          before ++ ((quote :: raw ++ [quote]) ++ (middle ++ ([colon] ++ text))) := by simp
      rw [pieces]
      have plainColon : ∀ unit ∈ [colon], unit ∉ punctuation :=
        List.forall_mem_singleton.mpr (by decide)
      let after := JsonFrame.object (key :: seen) (some key) false :: frames
      have value : Passes after (middle ++ ([colon] ++ text)) (Distinct objects) (· = after) :=
        (Passes.plain (isBlank_plain isMiddle)).lead
          ((Passes.plain plainColon).lead (induction after rfl))
      refine (Passes.plain (isBlank_plain isBefore)).lead ?_
      have later : ∀ next, next = after →
          Passes next (middle ++ ([colon] ++ text)) (Distinct objects) (· = after) := by
        rintro _ rfl
        exact value
      refine ((passes_key spelled seen current).append later).congr ?_
        fun next isNext => ⟨some key, isNext⟩
      simp
  | lastMember member induction =>
      intro seen current frames
      exact induction seen current frames
  | @members firstText restText firstKeys restKeys _ restObjects member members first rest =>
      intro seen current frames
      change Passes _ (firstText ++ ([comma] ++ restText)) _ _
      have later :
          ∀ next, (∃ last, next = .object (firstKeys.reverse ++ seen) last false :: frames) →
          Passes next ([comma] ++ restText)
            ((∀ key ∈ restKeys, key ∉ firstKeys.reverse ++ seen) ∧ restKeys.Nodup ∧
              Distinct restObjects)
            fun next => ∃ last,
              next = .object (restKeys.reverse ++ (firstKeys.reverse ++ seen)) last false ::
                frames := by
        rintro _ ⟨last, rfl⟩
        exact passes_comma.lead (rest (firstKeys.reverse ++ seen) last frames)
      refine ((first seen current frames).append later).congr ?_ ?_
      · have both : _ ↔ (∀ key ∈ firstKeys ++ restKeys, key ∉ seen) ∧
            (firstKeys ++ restKeys).Nodup :=
          newKeys_append
        rw [distinct_append, ← and_assoc (b := (firstKeys ++ restKeys).Nodup), ← both]
        tauto
      · rintro next ⟨last, rfl⟩
        exact ⟨last, by simp⟩

/-! ## The whole text -/

/-- On every JSON text the scan ends, and it throws exactly if an object has a key twice. -/
theorem assertNoDuplicateJsonKeys_exact {objects : List (List JsString)}
    (valid : IsText text objects) :
    (assertNoDuplicateJsonKeys text = some (.ok ()) ↔ ∀ keys ∈ objects, keys.Nodup) ∧
    ((∃ key path, assertNoDuplicateJsonKeys text = some (.error (.duplicate key path))) ↔
      ∃ keys ∈ objects, ¬keys.Nodup) := by
  have passes : Passes [] text (Distinct objects) (· = []) := spells_reads valid [] rfl
  have accepts : Distinct objects → assertNoDuplicateJsonKeys text = some (.ok ()) := by
    intro distinct
    rcases passes.goes distinct with ⟨_, rfl, front⟩
    have whole := front []
    rw [List.append_nil] at whole
    rw [assertNoDuplicateJsonKeys, whole, scanKeys]
  have throws : ¬Distinct objects →
      ∃ key path, assertNoDuplicateJsonKeys text = some (.error (.duplicate key path)) := by
    intro repeated
    have whole := passes.stops repeated []
    rwa [List.append_nil] at whole
  have negated : (∃ keys ∈ objects, ¬keys.Nodup) ↔ ¬Distinct objects := by
    simp [Distinct]
  refine ⟨⟨fun accepted => ?_, accepts⟩, ?_⟩
  · by_contra repeated
    rcases throws repeated with ⟨key, path, thrown⟩
    rw [accepted] at thrown
    cases thrown
  · rw [negated]
    refine ⟨fun thrown distinct => ?_, throws⟩
    rcases thrown with ⟨key, path, thrown⟩
    rw [accepts distinct] at thrown
    cases thrown

/-- `{"a":1, "\u0061":[]}` has the key `a` twice. -/
theorem assertNoDuplicateJsonKeys_exact_escaped :
    ∃ key path, assertNoDuplicateJsonKeys
      [0x7b, 0x22, 0x61, 0x22, 0x3a, 0x31, 0x2c, 0x20, 0x22, 0x5c, 0x75, 0x30, 0x30, 0x36, 0x31,
        0x22, 0x3a, 0x5b, 0x5d, 0x7d] = some (.error (.duplicate key path)) := by
  have noBlank : IsBlank [] := nofun
  have isOne : ∀ unit ∈ [(0x31 : UInt16)], 0x30 ≤ unit ∧ unit ≤ 0x39 :=
    List.forall_mem_singleton.mpr (by decide)
  have one : IsNumber [0x31] :=
    ⟨[], [0x31], [], [], rfl, .inl rfl, ⟨⟨nofun, isOne⟩, .inr (by decide)⟩, .inl rfl, .inl rfl⟩
  have first :
      Spells .member ([] ++ quote :: [0x61] ++ quote :: [] ++ colon :: ([] ++ [0x31] ++ []))
      [[0x61]] [] :=
    .member noBlank rfl noBlank (.element noBlank (.number one) noBlank)
  have second : Spells .member ([0x20] ++ quote :: [0x5c, 0x75, 0x30, 0x30, 0x36, 0x31] ++
      quote :: [] ++ colon :: ([] ++ (openBracket :: [] ++ [closeBracket]) ++ [])) [[0x61]] [] :=
    .member (List.forall_mem_singleton.mpr (.inl rfl)) rfl noBlank
      (.element noBlank (.emptyArray noBlank) noBlank)
  have text := Spells.element noBlank (.object (.members first (.lastMember second))) noBlank
  exact (assertNoDuplicateJsonKeys_exact text).2.mpr ⟨_, List.mem_cons_self .., by decide⟩

end Storix
