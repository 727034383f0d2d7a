import RecordWasm.Cli.Arguments
import RecordWasm.Proofs.Decimal.Integers
import RecordWasm.Proofs.Success
import RecordWasm.Text.Basic
import Mathlib.Data.List.Forall2
import Mathlib.Tactic.Common

/-!
# Integers as arguments and results

The text of a list of results is taken apart at its commas, and the pieces, without the blanks
around them, are read as arguments.  Integers come back: their decimal forms hold no comma and no
blank.  As an argument, exactly the decimal forms of the integers that a type can hold are taken,
and the names of the truth values where the type is narrow.
-/

namespace RecordWasm

namespace Text

/-- A blank in front of a text is cut off. -/
theorem trim_space (text : String) : trim (" " ++ text) = trim text := by
  rw [trim, trim, String.toList_append, show " ".toList = [' '] from rfl, List.singleton_append,
    List.dropWhile_cons_of_pos (by decide)]

/-- A text without blanks is left as it is. -/
theorem trim_eq {text : String} (hText : ∀ character ∈ text.toList, isBlank character = false) :
    trim text = text := by
  have hFront : ∀ characters : List Char, (∀ character ∈ characters, isBlank character = false) →
      characters.dropWhile isBlank = characters := by
    intro characters hCharacters
    cases characters with
    | nil => rfl
    | cons first rest => exact List.dropWhile_cons_of_neg (by simp [hCharacters first])
  rw [trim, hFront _ hText, hFront _ (by simpa using hText), List.reverse_reverse,
    String.ofList_toList]

theorem splitChars_eq (mark : Char) (text : List Char) :
    splitChars mark text = text.splitOn mark := by
  induction text with
  | nil => rw [splitChars, List.splitOn_nil]
  | cons character text ih =>
      rw [splitChars, ih, List.splitOn_cons_eq_if_modifyHead]
      cases hPieces : text.splitOn mark with
      | nil => exact absurd hPieces (List.splitOn_ne_nil _ _)
      | cons piece pieces =>
          by_cases hMark : character = mark
          · simp [hMark]
          · simp [hMark]

/-- A mark with a blank behind it is a mark in front of pieces that begin with the blank. -/
theorem intercalate_spaced (first : List Char) (rest : List (List Char)) :
    [',', ' '].intercalate (first :: rest) = [','].intercalate (first :: rest.map (' ' :: ·)) := by
  induction rest generalizing first with
  | nil => rfl
  | cons second rest ih =>
      rw [List.intercalate_cons_cons, ih, List.map_cons, List.intercalate_cons_cons]
      cases rest with
      | nil => simp
      | cons third rest => simp [List.intercalate_cons_cons]

/-- The pieces that were written behind one another come back, up to the blanks around them. -/
theorem split_listed {pieces : List String} (hSome : pieces ≠ [])
    (hPieces : ∀ piece ∈ pieces, ',' ∉ piece.toList) :
    (split ',' (", ".intercalate pieces)).map trim = pieces.map trim := by
  cases pieces with
  | nil => exact absurd rfl hSome
  | cons first rest =>
      have hUnmarked : ∀ piece ∈ first.toList :: (rest.map String.toList).map (' ' :: ·),
          ',' ∉ piece := by
        intro piece hPiece
        rw [List.map_map, List.mem_cons, List.mem_map] at hPiece
        rcases hPiece with rfl | ⟨text, hText, rfl⟩
        · exact hPieces first List.mem_cons_self
        · simpa using hPieces text (List.mem_cons_of_mem _ hText)
      rw [split, splitChars_eq, String.toList_intercalate]
      rw [show ", ".toList = [',', ' '] from rfl, List.map_cons, intercalate_spaced]
      rw [List.splitOn_intercalate ',' hUnmarked (by simp)]
      simp [Function.comp_def, trim_space]

end Text

namespace Cli

open Wasm Machine Decimal

/-- An integer that is read and made a word. -/
theorem readInt_map_ok {bits : Nat} {text : String} {encode : Int → UInt64} {word : UInt64} :
    (readInt bits text).map encode = .ok word ↔
      ∃ value, IsDecimal text.toList value ∧ -2 ^ (bits - 1) ≤ value ∧ value < 2 ^ (bits - 1) ∧
        word = encode value := by
  rw [map_ok]
  constructor
  · intro hRead
    obtain ⟨value, hRead, hWord⟩ := hRead
    have hForm := readInt_ok.1 hRead
    exact ⟨value, hForm.1, hForm.2.1, hForm.2.2, hWord.symm⟩
  · intro hForm
    obtain ⟨value, hForm, hLow, hHigh, hWord⟩ := hForm
    exact ⟨value, readInt_ok.2 ⟨hForm, hLow, hHigh⟩, hWord.symm⟩

/-- The names of the truth values are no numbers. -/
theorem ne_truth_of_isDecimal {text : String} {value : Int} (hForm : IsDecimal text.toList value) :
    text ≠ "true" ∧ text ≠ "false" := by
  constructor
  · intro hText
    have hLetter := hForm.characters 't' (by simp [hText])
    exact absurd hLetter (by decide)
  · intro hText
    have hLetter := hForm.characters 'f' (by simp [hText])
    exact absurd hLetter (by decide)

/-- A narrow integer argument is a truth value or an integer of 32 bits. -/
theorem readArgument_i32 {index : Nat} {text : String} {word : UInt64} :
    readArgument index .i32 text = .ok word ↔
      Text.trim text = "true" ∧ word = 1 ∨ Text.trim text = "false" ∧ word = 0 ∨
        ∃ value, IsDecimal (Text.trim text).toList value ∧ -2 ^ 31 ≤ value ∧ value < 2 ^ 31 ∧
          word = (Int32.ofInt value).toUInt32.toUInt64 := by
  rw [readArgument, show ValType.i32.numType? = some .i32 from rfl, mapError_ok, readWord]
  constructor
  · intro hRead
    split at hRead
    · rename_i hTrue
      exact .inl ⟨hTrue, (Except.ok.inj hRead).symm⟩
    · split at hRead
      · rename_i hFalse
        exact .inr (.inl ⟨hFalse, (Except.ok.inj hRead).symm⟩)
      · exact .inr (.inr (readInt_map_ok.1 hRead))
  · intro hForm
    rcases hForm with ⟨hTrue, hWord⟩ | ⟨hFalse, hWord⟩ | hForm
    · rw [if_pos hTrue, hWord]
    · rw [hFalse, hWord]
      rfl
    · obtain ⟨value, hText, hRange⟩ := hForm
      have hNeither := ne_truth_of_isDecimal hText
      rw [if_neg hNeither.1, if_neg hNeither.2]
      exact readInt_map_ok.2 ⟨value, hText, hRange⟩

/-- A wide integer argument is an integer of 64 bits. -/
theorem readArgument_i64 {index : Nat} {text : String} {word : UInt64} :
    readArgument index .i64 text = .ok word ↔
      ∃ value, IsDecimal (Text.trim text).toList value ∧ -2 ^ 63 ≤ value ∧ value < 2 ^ 63 ∧
        word = (Int64.ofInt value).toUInt64 := by
  rw [readArgument, show ValType.i64.numType? = some .i64 from rfl, mapError_ok, readWord]
  exact readInt_map_ok

theorem readArgumentsFrom_cons {index : Nat} {type : ValType} {types : List ValType}
    {text : String} {texts : List String} {words : List UInt64} :
    readArgumentsFrom index (type :: types) (text :: texts) = .ok words ↔
      ∃ word, readArgument index type text = .ok word ∧
        ∃ rest, readArgumentsFrom (index + 1) types texts = .ok rest ∧ word :: rest = words := by
  simp only [readArgumentsFrom, bind_ok, pure_ok]

/-- Every argument is read at the type and from the text with its number. -/
theorem readArgumentsFrom_ok {index : Nat} {types : List ValType} {texts : List String}
    {words : List UInt64} (hLengths : texts.length = types.length) :
    readArgumentsFrom index types texts = .ok words ↔
      words.length = types.length ∧ ∀ place type text word, types[place]? = some type →
        texts[place]? = some text → words[place]? = some word →
        readArgument (index + place) type text = .ok word := by
  induction types generalizing index texts words with
  | nil =>
      cases texts with
      | nil => simp [readArgumentsFrom, eq_comm]
      | cons text texts => cases hLengths
  | cons type types ih =>
      cases texts with
      | nil => cases hLengths
      | cons text texts =>
          rw [readArgumentsFrom_cons]
          constructor
          · rintro ⟨word, hWord, words, hWords, rfl⟩
            have hRest := (ih (Nat.succ.inj hLengths)).1 hWords
            refine ⟨congrArg Nat.succ hRest.1, fun place => ?_⟩
            cases place with
            | zero =>
                intro _ _ _ hType hText hFirst
                cases hType
                cases hText
                cases hFirst
                exact hWord
            | succ place =>
                have hPlace := hRest.2 place
                rw [Nat.add_right_comm] at hPlace
                exact hPlace
          · rintro ⟨hCount, hRead⟩
            cases words with
            | nil => cases hCount
            | cons word words =>
                refine ⟨word, hRead 0 type text word rfl rfl rfl, words, ?_, rfl⟩
                refine (ih (Nat.succ.inj hLengths)).2 ⟨Nat.succ.inj hCount, fun place => ?_⟩
                rw [Nat.add_right_comm]
                exact hRead (place + 1)

/-- Arguments are read if there are as many texts as types and each of the arguments is read. -/
theorem readArguments_ok {types : List ValType} {texts : List String} {words : List UInt64} :
    readArguments types texts = .ok words ↔
      texts.length = types.length ∧ words.length = types.length ∧
        ∀ place type text word, types[place]? = some type → texts[place]? = some text →
          words[place]? = some word → readArgument place type text = .ok word := by
  rw [readArguments]
  split
  · rename_i hLengths
    have hRead := @readArgumentsFrom_ok 0 types texts words hLengths
    simpa [hLengths] using hRead
  · rename_i hLengths
    simp [hLengths]

/-! ## Integers -/

/-- The words of an integer type: all those of 64 bits, or the ones that 32 bits fill up with
zeros. -/
inductive IsInteger : ValType → UInt64 → Prop
  | narrow (word : UInt32) : IsInteger .i32 word.toUInt64
  | wide (word : UInt64) : IsInteger .i64 word

/-- An integer is written in decimal form. -/
theorem IsInteger.decimal {type : ValType} {word : UInt64} (hInteger : IsInteger type word) :
    ∃ value, IsDecimal (resultText type word).toList value := by
  cases hInteger with
  | narrow word => exact ⟨_, isDecimal_toString _⟩
  | wide word => exact ⟨_, isDecimal_toString _⟩

/-- The text of an integer has no blanks and no comma in it. -/
theorem IsInteger.character {type : ValType} {word : UInt64} (hInteger : IsInteger type word) :
    ∀ character ∈ (resultText type word).toList,
      Text.isBlank character = false ∧ character ≠ ',' := by
  intro character hCharacter
  obtain ⟨value, hForm⟩ := hInteger.decimal
  rcases hForm.characters character hCharacter with hDigit | rfl | rfl
  · have hCode : 48 ≤ character.toNat ∧ character.toNat ≤ 57 := by
      simpa [Char.isDigit, Char.le_def, UInt32.le_iff_toNat_le] using hDigit
    constructor
    · simp only [Text.isBlank]
      grind
    · rintro rfl
      exact absurd hDigit (by decide)
  · decide
  · decide

/-- The text of an integer is read as that integer. -/
theorem IsInteger.readArgument {index : Nat} {type : ValType} {word : UInt64}
    (hInteger : IsInteger type word) :
    readArgument index type (resultText type word) = .ok word := by
  have hTrim : Text.trim (resultText type word) = resultText type word :=
    Text.trim_eq fun character hCharacter => (hInteger.character character hCharacter).1
  cases hInteger with
  | narrow word =>
      rw [readArgument_i32, hTrim]
      have hWord : word.toUInt64.toUInt32 = word := UInt32.toUInt32_toUInt64 word
      refine .inr (.inr ⟨word.toInt32.toInt, ?_, word.toInt32.le_toInt, word.toInt32.toInt_lt, ?_⟩)
      · change IsDecimal (toString word.toUInt64.toUInt32.toInt32.toInt).toList _
        rw [hWord]
        exact isDecimal_toString _
      · rw [Int32.ofInt_toInt, UInt32.toUInt32_toInt32]
  | wide word =>
      rw [readArgument_i64, hTrim]
      refine ⟨word.toInt64.toInt, isDecimal_toString _, word.toInt64.le_toInt,
        word.toInt64.toInt_lt, ?_⟩
      rw [Int64.ofInt_toInt, UInt64.toUInt64_toInt64]

/-- The blanks around an argument do not matter. -/
theorem readArgument_congr {index : Nat} {type : ValType} {text other : String}
    (hTrim : Text.trim text = Text.trim other) :
    readArgument index type text = readArgument index type other := by
  rw [readArgument, readArgument, hTrim]

/-- Integers are read from their texts, with blanks around them or without. -/
theorem readArgumentsFrom_texts {index : Nat} {types : List ValType} {words : List UInt64}
    {texts : List String} (hIntegers : List.Forall₂ IsInteger types words)
    (hTexts : texts.map Text.trim =
      ((types.zip words).map fun (type, word) => resultText type word).map Text.trim) :
    readArgumentsFrom index types texts = .ok words := by
  induction hIntegers generalizing index texts with
  | nil => rfl
  | cons hInteger hIntegers ih =>
      cases texts with
      | nil => cases hTexts
      | cons text texts =>
          rw [List.zip_cons_cons, List.map_cons, List.map_cons, List.map_cons,
            List.cons.injEq] at hTexts
          rw [readArgumentsFrom_cons, readArgument_congr hTexts.1]
          exact ⟨_, hInteger.readArgument, _, ih hTexts.2, rfl⟩

/-- Integers that are written as results are read back as arguments of the same types. -/
theorem readArguments_resultsText {types : List ValType} {words : List UInt64} (hSome : words ≠ [])
    (hIntegers : List.Forall₂ IsInteger types words) :
    readArguments types (Text.split ',' (resultsText types words)) = .ok words := by
  have hCount : types.length = words.length := hIntegers.length_eq
  have hTexts := @Text.split_listed
    ((types.zip words).map fun (type, word) => resultText type word) ?_ ?_
  · rw [resultsText, if_neg (by simpa using hSome), readArguments, if_pos]
    · exact readArgumentsFrom_texts hIntegers hTexts
    · have hLengths := congrArg List.length hTexts
      simpa [← hCount] using hLengths
  · have hPositive := List.length_pos_of_ne_nil hSome
    apply List.ne_nil_of_length_pos
    simpa [hCount] using hPositive
  · intro piece hPiece hComma
    obtain ⟨⟨type, word⟩, hField, rfl⟩ := List.mem_map.1 hPiece
    exact ((List.forall₂_zip hIntegers hField).character ',' hComma).2 rfl

/-- Integers that are written as results are read back as arguments.  As an argument of a narrow
type are read, up to the blanks around them, the decimal forms of the integers of 32 bits and the
names of the truth values, of a wide type the decimal forms of the integers of 64 bits. -/
theorem integers_read_back :
    (∀ (types : List ValType) (words : List UInt64), words ≠ [] →
      List.Forall₂ IsInteger types words →
      readArguments types (Text.split ',' (resultsText types words)) = .ok words) ∧
    (∀ (types : List ValType) (texts : List String) (words : List UInt64),
      readArguments types texts = .ok words ↔
        texts.length = types.length ∧ words.length = types.length ∧
          ∀ place type text word, types[place]? = some type → texts[place]? = some text →
            words[place]? = some word → readArgument place type text = .ok word) ∧
    (∀ (place : Nat) (text : String) (word : UInt64),
      readArgument place .i32 text = .ok word ↔
        Text.trim text = "true" ∧ word = 1 ∨ Text.trim text = "false" ∧ word = 0 ∨
          ∃ value, IsDecimal (Text.trim text).toList value ∧ -2 ^ 31 ≤ value ∧ value < 2 ^ 31 ∧
            word = (Int32.ofInt value).toUInt32.toUInt64) ∧
    (∀ (place : Nat) (text : String) (word : UInt64),
      readArgument place .i64 text = .ok word ↔
        ∃ value, IsDecimal (Text.trim text).toList value ∧ -2 ^ 63 ≤ value ∧ value < 2 ^ 63 ∧
          word = (Int64.ofInt value).toUInt64) :=
  ⟨fun _ _ => readArguments_resultsText, fun _ _ _ => readArguments_ok,
    fun _ _ _ => readArgument_i32, fun _ _ _ => readArgument_i64⟩

theorem integers_read_back_least :
    List.Forall₂ IsInteger [.i32, .i64] [0x80000000, 0x8000000000000000] ∧
      resultsText [.i32, .i64] [0x80000000, 0x8000000000000000] =
        "-2147483648, -9223372036854775808" ∧
      readArguments [.i32, .i64]
        (Text.split ',' (resultsText [.i32, .i64] [0x80000000, 0x8000000000000000])) =
        .ok [0x80000000, 0x8000000000000000] := by
  have hIntegers : List.Forall₂ IsInteger [.i32, .i64] [0x80000000, 0x8000000000000000] :=
    .cons (.narrow 0x80000000) (.cons (.wide 0x8000000000000000) .nil)
  exact ⟨hIntegers, by decide +kernel, integers_read_back.1 _ _ (by simp) hIntegers⟩

end Cli

end RecordWasm
