import CliSignature.Proofs.Text.Cutting
import CliSignature.Text.Digits
import Mathlib.Algebra.Ring.Nat

/-!
Numbers written as digits and read again, in decimal without leading zeros and in pairs of hexadecimal
digits. What is written consists of digits, so it holds neither a sign nor a separator nor white space.
-/

namespace CliSignature.Text

section Figures

/-- A digit in some base up to sixteen, as it is written. -/
def Figure (c : Char) : Prop :=
  ∃ d < 16, c = Nat.digitChar d

theorem figure_digitChar {d : Nat} (hDigit : d < 16) : Figure (Nat.digitChar d) :=
  ⟨d, hDigit, rfl⟩

theorem Figure.not_blank {c : Char} (hFigure : Figure c) : isBlank c = false := by
  obtain ⟨d, hDigit, rfl⟩ := hFigure
  revert d
  decide

theorem not_figure_plus : ¬ Figure '+' := by
  unfold Figure
  decide

theorem not_figure_dot : ¬ Figure '.' := by
  unfold Figure
  decide

theorem not_figure_comma : ¬ Figure ',' := by
  unfold Figure
  decide

/-- The last digit comes off the end. -/
theorem figure_of_mem_toDigits {base : Nat} (hTwo : 1 < base) (hBase : base ≤ 16) (n : Nat) :
    ∀ c ∈ Nat.toDigits base n, Figure c := by
  induction n using Nat.strongRecOn with
  | _ n ih =>
      rw [Nat.toDigits_eq_if hTwo]
      split
      case isTrue hSmall =>
        exact List.forall_mem_singleton.mpr (figure_digitChar (by omega))
      case isFalse hLarge =>
        have hLast : n % base < 16 := Nat.lt_of_lt_of_le (Nat.mod_lt n (by omega)) hBase
        have hRest := ih (n / base) (Nat.div_lt_self (by omega) hTwo)
        exact List.forall_mem_append.mpr ⟨hRest, List.forall_mem_singleton.mpr (figure_digitChar hLast)⟩

theorem figure_of_mem_decimal (n : Nat) : ∀ c ∈ (decimal n).toList, Figure c := by
  rw [decimal, String.toList_ofList]
  exact figure_of_mem_toDigits (by decide) (by decide) n

theorem figure_of_mem_hexDigits (width n : Nat) : ∀ c ∈ hexDigits width n, Figure c := by
  induction width generalizing n with
  | zero => exact List.forall_mem_nil _
  | succ width ih =>
      have hLast : Figure (Nat.digitChar (n % 16)) := figure_digitChar (Nat.mod_lt n (by decide))
      exact List.forall_mem_append.mpr ⟨ih (n / 16), List.forall_mem_singleton.mpr hLast⟩

end Figures

section Reading

theorem digitInBase?_digitChar {base d : Nat} (hDigit : d < base) (hBase : base ≤ 16) :
    digitInBase? base (Nat.digitChar d) = some d := by
  have hValue : ∀ d < 16, digitValue? (Nat.digitChar d) = some d := by decide
  rw [digitInBase?, hValue d (by omega)]
  simp [hDigit]

theorem readDigits?_append (base : Nat) (start rest : List Char) (value : Nat) :
    readDigits? base value (start ++ rest) =
      (readDigits? base value start).bind fun read => readDigits? base read rest := by
  induction start generalizing value with
  | nil => rfl
  | cons c start ih =>
      simp only [List.cons_append, readDigits?]
      cases digitInBase? base c with
      | none => rfl
      | some digit => exact ih _

theorem readDigits?_singleton {base d : Nat} (hDigit : d < base) (hBase : base ≤ 16) (value : Nat) :
    readDigits? base value [Nat.digitChar d] = some (value * base + d) := by
  simp [readDigits?, digitInBase?_digitChar hDigit hBase]

theorem readDigits?_toDigits {base : Nat} (hTwo : 1 < base) (hBase : base ≤ 16) (n : Nat) :
    readDigits? base 0 (Nat.toDigits base n) = some n := by
  induction n using Nat.strongRecOn with
  | _ n ih =>
      rw [Nat.toDigits_eq_if hTwo]
      split
      case isTrue hSmall =>
        rw [readDigits?_singleton hSmall hBase, Nat.zero_mul, Nat.zero_add]
      case isFalse hLarge =>
        have hLast : n % base < base := Nat.mod_lt n (by omega)
        rw [readDigits?_append, ih (n / base) (Nat.div_lt_self (by omega) hTwo), Option.bind_some,
          readDigits?_singleton hLast hBase, Nat.div_add_mod']

theorem readNumber?_of_ne_nil {base : Nat} {digits : List Char} (hSome : digits ≠ []) :
    readNumber? base digits = readDigits? base 0 digits := by
  cases digits with
  | nil => exact absurd rfl hSome
  | cons => rfl

/-- Without a sign, the digits are read as they stand. -/
theorem readUnsigned?_of_figures {base : Nat} {digits : List Char} (hSome : digits ≠ [])
    (hFigures : ∀ c ∈ digits, Figure c) : readUnsigned? base digits = readDigits? base 0 digits := by
  have hNoSign : readUnsigned? base digits = readNumber? base digits := by
    unfold readUnsigned?
    split
    case h_1 => exact absurd (hFigures '+' List.mem_cons_self) not_figure_plus
    case h_2 => rfl
  rw [hNoSign, readNumber?_of_ne_nil hSome]

theorem readUInt16?_decimal (n : UInt16) : readUInt16? (decimal n.toNat).toList = some n := by
  have hSome : (decimal n.toNat).toList ≠ [] := by simp [decimal, Nat.toDigits_ne_nil]
  rw [readUInt16?, readUnsigned?_of_figures hSome (figure_of_mem_decimal _), decimal, String.toList_ofList,
    readDigits?_toDigits (by decide) (by decide), Option.bind_some, if_pos n.toNat_lt_size, UInt16.ofNat_toNat]

end Reading

section Bytes

theorem readHexByte?_digitChar {high low : Nat} (hHigh : high < 16) (hLow : low < 16) :
    readHexByte? (Nat.digitChar high) (Nat.digitChar low) = some (UInt8.ofNat (high * 16 + low)) := by
  have hFigures : ∀ c ∈ [Nat.digitChar high, Nat.digitChar low], Figure c :=
    List.forall_mem_cons.mpr
      ⟨figure_digitChar hHigh, List.forall_mem_singleton.mpr (figure_digitChar hLow)⟩
  have hRead : readDigits? 16 0 ([Nat.digitChar high] ++ [Nat.digitChar low]) = some (high * 16 + low) := by
    rw [readDigits?_append, readDigits?_singleton hHigh (by decide), Option.bind_some,
      readDigits?_singleton hLow (by decide), Nat.zero_mul, Nat.zero_add]
  rw [readHexByte?, readUnsigned?_of_figures (List.cons_ne_nil _ _) hFigures]
  exact congrArg (Option.map UInt8.ofNat) hRead

theorem readHexBytes?_append {first : List Char} {bytes : List UInt8}
    (hFirst : readHexBytes? first = some bytes) (rest : List Char) :
    readHexBytes? (first ++ rest) = (readHexBytes? rest).map (bytes ++ ·) := by
  induction first using readHexBytes?.induct generalizing bytes with
  | case1 =>
      cases hFirst
      simp
  | case2 => cases hFirst
  | case3 high low tail ih =>
      simp only [readHexBytes?, Option.bind_eq_bind, Option.bind_eq_some_iff] at hFirst
      obtain ⟨byte, hByte, others, hOthers, hBytes⟩ := hFirst
      cases hBytes
      simp only [List.cons_append, readHexBytes?, hByte, ih hOthers]
      cases readHexBytes? rest <;> rfl

/-- The number whose bytes are given, the most significant first. -/
def valueOfBytes (bytes : List UInt8) : Nat :=
  bytes.foldl (fun value byte => value * 256 + byte.toNat) 0

theorem valueOfBytes_append_singleton (bytes : List UInt8) (byte : UInt8) :
    valueOfBytes (bytes ++ [byte]) = valueOfBytes bytes * 256 + byte.toNat := by
  rw [valueOfBytes, List.foldl_append]
  rfl

/-- An even number of hexadecimal digits is read as the last bytes of the number. By induction on the bytes,
the last of which is the last two digits. -/
theorem readHexBytes?_hexDigits (count n : Nat) :
    ∃ bytes, readHexBytes? (hexDigits (2 * count) n) = some bytes ∧ valueOfBytes bytes = n % 256 ^ count := by
  induction count generalizing n with
  | zero =>
      refine ⟨[], rfl, ?_⟩
      rw [Nat.pow_zero, Nat.mod_one]
      rfl
  | succ count ih =>
      obtain ⟨bytes, hRead, hValue⟩ := ih (n / 256)
      have hDigits : hexDigits (2 * (count + 1)) n =
          hexDigits (2 * count) (n / 256) ++ [Nat.digitChar (n / 16 % 16), Nat.digitChar (n % 16)] := by
        simp [Nat.mul_succ, hexDigits, Nat.div_div_eq_div_mul]
      have hByte : (UInt8.ofNat (n / 16 % 16 * 16 + n % 16)).toNat = n % 256 := by
        rw [UInt8.toNat_ofNat']
        omega
      refine ⟨bytes ++ [UInt8.ofNat (n / 16 % 16 * 16 + n % 16)], ?_, ?_⟩
      · rw [hDigits, readHexBytes?_append hRead, readHexBytes?,
          readHexByte?_digitChar (Nat.mod_lt _ (by decide)) (Nat.mod_lt _ (by decide))]
        rfl
      · rw [valueOfBytes_append_singleton, hValue, hByte, Nat.pow_succ', Nat.mod_mul, Nat.mul_comm, Nat.add_comm]

end Bytes

end CliSignature.Text
