import CliSignature.Digest
import Mathlib.Logic.Function.Basic

/-!
Mixing loses nothing. A step of a digest can be undone, both for the word that was mixed in and for the state
before it. So sequences of words that differ in one place alone lead to different digests.
-/

namespace CliSignature.Digest

/-- Folding twice gives the word back, since no bit is moved twice within the word. -/
theorem fold_fold (word : UInt64) : fold (fold word) = word := by
  unfold fold
  apply UInt64.toBitVec_inj.mp
  simp only [UInt64.toBitVec_xor, UInt64.toBitVec_shiftRight]
  apply BitVec.eq_of_getLsbD_eq
  intro i hi
  have hHigh : word.toBitVec.getLsbD (33 + (33 + i)) = false := BitVec.getLsbD_of_ge _ _ (by omega)
  simp [BitVec.getLsbD_ushiftRight, hHigh]

/-- What a step does to the word that holds both the state and what is mixed in. -/
def scramble (word : UInt64) : UInt64 :=
  fold (fold (word * 0x100000001B3) * 0xFF51AFD7ED558CCD)

theorem mix_eq_scramble (state word : UInt64) : mix state word = scramble (state ^^^ word) := rfl

/-- Undoes `scramble`: the factors are the inverses of those that are odd, modulo the size of a word. -/
def unscramble (word : UInt64) : UInt64 :=
  fold (fold word * 0x4F74430C22A54005) * 0xCE965057AFF6957B

theorem mul_mul_of_inverse {factor inverse : UInt64} (hInverse : factor * inverse = 1) (word : UInt64) :
    word * factor * inverse = word := by
  rw [UInt64.mul_assoc, hInverse, UInt64.mul_one]

theorem unscramble_scramble (word : UInt64) : unscramble (scramble word) = word := by
  rw [unscramble, scramble, fold_fold, mul_mul_of_inverse (by decide), fold_fold,
    mul_mul_of_inverse (by decide)]

theorem scramble_unscramble (word : UInt64) : scramble (unscramble word) = word := by
  rw [unscramble, scramble, mul_mul_of_inverse (by decide), fold_fold, mul_mul_of_inverse (by decide),
    fold_fold]

theorem scramble_bijective : Function.Bijective scramble :=
  Function.bijective_iff_has_inverse.mpr ⟨unscramble, unscramble_scramble, scramble_unscramble⟩

theorem xor_bijective (word : UInt64) : Function.Bijective (word ^^^ ·) :=
  Function.Involutive.bijective fun other => by
    rw [← UInt64.xor_assoc, UInt64.xor_self, UInt64.zero_xor]

/-- Every state can be reached from every other one, by exactly one word. -/
theorem mix_bijective (state : UInt64) : Function.Bijective (mix state) :=
  scramble_bijective.comp (xor_bijective state)

/-- Every state is left behind by each word, from exactly one state. -/
theorem mix_bijective_state (word : UInt64) : Function.Bijective fun state => mix state word := by
  have hCommuted : (fun state => mix state word) = scramble ∘ (word ^^^ ·) := by
    funext state
    rw [mix_eq_scramble, UInt64.xor_comm]
    rfl
  rw [hCommuted]
  exact scramble_bijective.comp (xor_bijective word)

/-- Different words leave different states behind. -/
theorem mix_injective (state : UInt64) : Function.Injective (mix state) :=
  (mix_bijective state).injective

/-- Words that follow do not make different digests the same. -/
theorem foldl_add_injective (words : List UInt64) : Function.Injective fun digest => words.foldl add digest := by
  induction words with
  | nil => exact fun _ _ hEqual => hEqual
  | cons word words ih =>
      intro first second hEqual
      have hStates : mix first.state word = mix second.state word := congrArg state (ih hEqual)
      exact congrArg Digest.mk ((mix_bijective_state word).injective hStates)

/-- Sequences of words that differ in one place lead to different digests, whatever stands before and
after it. -/
theorem foldl_add_ne {first second : UInt64} (hDiffer : first ≠ second) (before after : List UInt64)
    (digest : Digest) :
    ((before ++ first :: after).foldl add digest).state ≠ ((before ++ second :: after).foldl add digest).state := by
  intro hEqual
  simp only [List.foldl_append, List.foldl_cons] at hEqual
  have hAdded := foldl_add_injective after (congrArg Digest.mk hEqual)
  exact hDiffer (mix_injective _ (congrArg state hAdded))

end CliSignature.Digest
