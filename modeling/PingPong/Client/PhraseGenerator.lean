import Mathlib.Data.List.Nodup
import PingPong.Client.Sender
import PingPong.Lib.Decimal
import PingPong.Lib.Words

/-!
# Code phrases

`phrase_generator.cpp`: words of a dictionary with a dash behind each of them, and three hexadecimal
numbers without anything between them.  What the two distributions draw is a parameter, as `Draws`.

`phrases_do_not_collapse`: different draws make different phrases.  The words are free of dashes and
all different, and each number is one digit.
-/

namespace PingPong

open Common Decimal

/-! ## The generator -/

def c_dictionary : List (List UInt8) :=
  [ascii "accismus",
    ascii "acumen",
    ascii "aglet",
    ascii "anachronism",
    ascii "aphotic",
    ascii "aplomb",
    ascii "behove",
    ascii "cacophony",
    ascii "cryptic",
    ascii "doppelganger",
    ascii "draconian",
    ascii "ephemeral",
    ascii "fecund",
    ascii "frivol",
    ascii "gambit",
    ascii "garrulous",
    ascii "iconoclast",
    ascii "impetus",
    ascii "intrepid",
    ascii "juggernaut",
    ascii "juxtaposition",
    ascii "kismet",
    ascii "makebate",
    ascii "mendacious",
    ascii "mettle",
    ascii "murmuration",
    ascii "nastify",
    ascii "nefarious",
    ascii "overmorrow",
    ascii "paragon",
    ascii "pessimum",
    ascii "petrichor",
    ascii "platitude",
    ascii "puerile",
    ascii "redame",
    ascii "riposte",
    ascii "sanguine",
    ascii "sarcast",
    ascii "serendipity",
    ascii "solivagant",
    ascii "sonder",
    ascii "syzygy",
    ascii "tidbit",
    ascii "vagabond",
    ascii "yaffle",
    ascii "zephyr"]

/-- What is drawn in a call: an index in each turn of the loop, and three numbers behind it. -/
structure Draws where
  idx_dist : Nat → Fin c_dictionary.length
  rand_num1 : Fin 16
  rand_num2 : Fin 16
  rand_num3 : Fin 16

/-- A number put out behind `std::hex`. -/
def hex (n : Nat) : List UInt8 := (Nat.toDigits 16 n).map byte

/-- The counter of the loop is an `int`, and has no value for more turns than that. -/
def getRandomPhrase (draws : Draws) (word_cnt : UInt64 := 2) : Option (List UInt8) :=
  if word_cnt.toNat < 2 ^ 31 then
    let ss := (List.range word_cnt.toNat).foldl
      (fun ss i => ss ++ c_dictionary.get (draws.idx_dist i) ++ [byte '-']) []
    some (ss ++ (hex draws.rand_num1 ++ hex draws.rand_num2 ++ hex draws.rand_num3))
  else none

/-! ## The dictionary and the digits -/

theorem dictionary_nodup : c_dictionary.Nodup := by decide +kernel

theorem dictionary_free : ∀ w ∈ c_dictionary, byte '-' ∉ w := by decide +kernel

theorem dictionary_short : ∀ w ∈ c_dictionary, w.length ≤ 13 := by decide +kernel

theorem length_hex : ∀ n : Fin 16, (hex n).length = 1 := by decide

theorem hex_free : ∀ n : Fin 16, byte '-' ∉ hex n := by decide

theorem hex_inj : ∀ m n : Fin 16, hex m = hex n → m = n := by decide

/-! ## A phrase is a row of words -/

def Draws.words (draws : Draws) (cnt : Nat) : List (List UInt8) :=
  (List.range cnt).map (fun i => c_dictionary.get (draws.idx_dist i))

def Draws.digits (draws : Draws) : List UInt8 :=
  hex draws.rand_num1 ++ hex draws.rand_num2 ++ hex draws.rand_num3

theorem getRandomPhrase_eq {word_cnt : UInt64} (draws : Draws) (small : word_cnt.toNat < 2 ^ 31) :
    getRandomPhrase draws word_cnt =
      some (Words.row (byte '-') (draws.words word_cnt.toNat) draws.digits) := by
  rw [getRandomPhrase, if_pos small, Words.row, Draws.words, List.foldl_map]
  rfl

theorem Draws.length_words (draws : Draws) (cnt : Nat) : (draws.words cnt).length = cnt := by
  rw [Draws.words, List.length_map, List.length_range]

theorem Draws.length_digits (draws : Draws) : draws.digits.length = 3 := by
  rw [Draws.digits, List.length_append, List.length_append, length_hex, length_hex, length_hex]

theorem Draws.word_mem {draws : Draws} {cnt : Nat} {w : List UInt8}
    (member : w ∈ draws.words cnt) : w ∈ c_dictionary := by
  obtain ⟨i, _, rfl⟩ := List.mem_map.mp member
  exact List.get_mem c_dictionary (draws.idx_dist i)

theorem Draws.separates (draws : Draws) (cnt : Nat) :
    Words.Separates (byte '-') (draws.words cnt) draws.digits where
  words := fun w member => dictionary_free w (Draws.word_mem member)
  tail := by
    rw [Draws.digits, List.mem_append, List.mem_append]
    intro inside
    rcases inside with (first | second) | third
    · exact hex_free _ first
    · exact hex_free _ second
    · exact hex_free _ third

/-! ## What a phrase tells -/

/-- Two runs with the same count, indices and numbers.  Indices behind the count are not drawn. -/
structure SameDraw (word_cnt word_cnt' : UInt64) (draws draws' : Draws) : Prop where
  count : word_cnt = word_cnt'
  indices : ∀ i < word_cnt.toNat, draws.idx_dist i = draws'.idx_dist i
  first : draws.rand_num1 = draws'.rand_num1
  second : draws.rand_num2 = draws'.rand_num2
  third : draws.rand_num3 = draws'.rand_num3

theorem Draws.words_inj {draws draws' : Draws} {cnt cnt' : Nat} :
    draws.words cnt = draws'.words cnt' ↔
      cnt = cnt' ∧ ∀ i < cnt, draws.idx_dist i = draws'.idx_dist i := by
  constructor
  · intro same
    have counts : cnt = cnt' := by
      rw [← draws.length_words cnt, ← draws'.length_words cnt', same]
    subst counts
    refine ⟨rfl, fun i below => ?_⟩
    have word := List.map_inj_left.mp same i (List.mem_range.mpr below)
    exact List.nodup_iff_injective_get.mp dictionary_nodup word
  · intro same
    obtain ⟨rfl, indices⟩ := same
    apply List.map_congr_left
    intro i member
    rw [indices i (List.mem_range.mp member)]

theorem Draws.digits_inj {draws draws' : Draws} :
    draws.digits = draws'.digits ↔
      draws.rand_num1 = draws'.rand_num1 ∧ draws.rand_num2 = draws'.rand_num2 ∧
        draws.rand_num3 = draws'.rand_num3 := by
  constructor
  · intro same
    have split : ∀ (m n : Fin 16) (l l' : List UInt8),
        l ++ hex m = l' ++ hex n → l = l' ∧ m = n := by
      intro m n l l' equal
      obtain ⟨fronts, ends⟩ := List.append_inj' equal (by rw [length_hex, length_hex])
      exact ⟨fronts, hex_inj m n ends⟩
    obtain ⟨front, third⟩ := split _ _ _ _ same
    obtain ⟨start, second⟩ := split _ _ _ _ front
    exact ⟨hex_inj _ _ start, second, third⟩
  · intro same
    obtain ⟨first, second, third⟩ := same
    rw [Draws.digits, Draws.digits, first, second, third]

theorem row_inj_iff_sameDraw {word_cnt word_cnt' : UInt64} {draws draws' : Draws} :
    Words.row (byte '-') (draws.words word_cnt.toNat) draws.digits =
        Words.row (byte '-') (draws'.words word_cnt'.toNat) draws'.digits ↔
      SameDraw word_cnt word_cnt' draws draws' := by
  rw [Words.row_inj (draws.separates _) (draws'.separates _), Draws.words_inj, Draws.digits_inj]
  constructor
  · intro same
    obtain ⟨⟨counts, indices⟩, first, second, third⟩ := same
    exact ⟨UInt64.toNat_inj.mp counts, indices, first, second, third⟩
  · intro same
    exact ⟨⟨UInt64.toNat_inj.mpr same.count, same.indices⟩, same.first, same.second, same.third⟩

theorem length_phrase_le (draws : Draws) (cnt : Nat) :
    (Words.row (byte '-') (draws.words cnt) draws.digits).length ≤ 14 * cnt + 3 := by
  have short : ∀ w ∈ draws.words cnt, w.length ≤ 13 :=
    fun w member => dictionary_short w (Draws.word_mem member)
  have bound : (Words.row (byte '-') (draws.words cnt) draws.digits).length ≤
      (13 + 1) * (draws.words cnt).length + draws.digits.length := Words.length_row_le short
  rw [draws.length_words, draws.length_digits] at bound
  exact bound

/-- **Code phrases do not collapse**, and up to eighteen words their lengths fit `code_size`. -/
theorem phrases_do_not_collapse {word_cnt word_cnt' : UInt64} (draws draws' : Draws)
    (small : word_cnt.toNat < 2 ^ 31) (small' : word_cnt'.toNat < 2 ^ 31) :
    ∃ phrase phrase',
      getRandomPhrase draws word_cnt = some phrase ∧
      getRandomPhrase draws' word_cnt' = some phrase' ∧
      (phrase = phrase' ↔ SameDraw word_cnt word_cnt' draws draws') ∧
      phrase.length ≤ 14 * word_cnt.toNat + 3 ∧
      (word_cnt.toNat ≤ 18 →
        ∀ op, (Sender.announcement op phrase).code_phrase.Sized) := by
  refine ⟨_, _, getRandomPhrase_eq draws small, getRandomPhrase_eq draws' small',
    row_inj_iff_sameDraw, length_phrase_le draws word_cnt.toNat, ?_⟩
  intro few op
  have bound := length_phrase_le draws word_cnt.toNat
  exact codePhrase_sized (by omega)

/-- The same draws, as two words and as three. -/
theorem phrases_do_not_collapse_two :
    ∃ phrase phrase',
      getRandomPhrase ⟨fun _ => ⟨0, by decide⟩, 0, 0, 0⟩ 2 = some phrase ∧
      getRandomPhrase ⟨fun _ => ⟨0, by decide⟩, 0, 0, 0⟩ 3 = some phrase' ∧
      phrase ≠ phrase' ∧ phrase.length ≤ 31 ∧
      ∀ op, (Sender.announcement op phrase).code_phrase.Sized := by
  obtain ⟨phrase, phrase', made, made', same, bound, sized⟩ :=
    @phrases_do_not_collapse 2 3 ⟨fun _ => ⟨0, by decide⟩, 0, 0, 0⟩
      ⟨fun _ => ⟨0, by decide⟩, 0, 0, 0⟩ (by decide) (by decide)
  refine ⟨phrase, phrase', made, made', ?_, bound, sized (by decide)⟩
  intro equal
  exact absurd (same.mp equal).count (by decide)

end PingPong
