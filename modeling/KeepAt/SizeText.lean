import KeepAt.ResolvedConfig
import Mathlib.Data.List.TakeWhile
import Mathlib.Tactic.IntervalCases

namespace KeepAt

/-- Position in the unit list of the largest unit a count reaches. -/
def sizeUnit (n : Nat) : Nat := min 5 (Nat.log 1024 n)

/-- A count that some one-decimal multiple of its own unit stands for in binary64. -/
def OneDecimal (n : Nat) : Prop :=
  n < 1024 ∨ n < 2 ^ 63 ∧ ∃ k : Nat, n = ⌊round64 (k / 10) * 1024 ^ sizeUnit n⌋₊

theorem trim_eq_self {t : List Char} (h : ∀ c ∈ t, isWhiteSpace c = false) : trim t = t := by
  have hdrop : ∀ s : List Char, (∀ c ∈ s, isWhiteSpace c = false) → s.dropWhile isWhiteSpace = s := by
    intro s hs
    cases s with
    | nil => rfl
    | cons c s => rw [List.dropWhile_cons_of_neg (by simp [hs c])]
  rw [trim, hdrop t h, hdrop t.reverse (fun c hc => h c (List.mem_reverse.mp hc)), List.reverse_reverse]

theorem isDigit_of_mem_toDigits {n : Nat} {c : Char} (h : c ∈ Nat.toDigits 10 n) : c.isDigit = true :=
  Nat.isDigit_of_mem_toDigits (by norm_num) (by norm_num) h

theorem not_isWhiteSpace_of_isNumberChar {c : Char} (h : isNumberChar c = true) :
    isWhiteSpace c = false := by
  rcases Bool.or_eq_true_iff.mp h with h | h
  · have hr := Char.isDigit_iff_toNat.mp h
    have h0 : '0'.toNat = 48 := rfl
    have h9 : '9'.toNat = 57 := rfl
    simp only [isWhiteSpace, Bool.or_eq_false_iff, decide_eq_false_iff_not, beq_eq_false_iff_ne]
    omega
  · rw [beq_iff_eq.mp h]
    rfl

theorem isNumberChar_of_mem_toDigits {n : Nat} {c : Char} (h : c ∈ Nat.toDigits 10 n) :
    isNumberChar c = true :=
  Bool.or_eq_true_iff.mpr (Or.inl (isDigit_of_mem_toDigits h))

theorem isNumberChar_of_mem_tenths (t : Nat) :
    ∀ c ∈ Nat.toDigits 10 (t / 10) ++ '.' :: Nat.toDigits 10 (t % 10), isNumberChar c = true := by
  intro c hc
  rcases List.mem_append.mp hc with hc | hc
  · exact isNumberChar_of_mem_toDigits hc
  · rcases List.mem_cons.mp hc with rfl | hc
    · rfl
    · exact isNumberChar_of_mem_toDigits hc

theorem trim_cons {c : Char} (h : isWhiteSpace c = false) (l : List Char) : ∃ l', trim (c :: l) = c :: l' := by
  rw [trim, List.dropWhile_cons_of_neg (by simp [h]), List.reverse_cons, List.dropWhile_append]
  split
  · exact ⟨[], by rw [List.dropWhile_cons_of_neg (by simp [h])]; rfl⟩
  · exact ⟨_, List.reverse_append⟩

theorem parseByteSize_sign (fmt : Formatters) (l : List Char) :
    ∃ message, parseByteSize fmt (String.ofList ('-' :: l)) = .error message := by
  obtain ⟨l', hl⟩ := trim_cons (c := '-') (by decide) l
  have htake : ('-' :: l').takeWhile isNumberChar = [] := List.takeWhile_cons_of_neg (by decide)
  have hnone : parseDecimal [] = none := rfl
  simp only [parseByteSize, String.toList_ofList, hl, List.cons_ne_nil, if_false, htake, hnone]
  exact ⟨_, rfl⟩

structure UnitText (u : Nat) (suffix : List Char) : Prop where
  plain : ∀ c ∈ suffix, isWhiteSpace c = false
  stops : suffix.takeWhile isNumberChar = [] ∧ suffix.dropWhile isNumberChar = suffix
  power : suffixPower suffix = some u

theorem forall_not_isWhiteSpace {l : List Char} (h : l.all (fun c => !isWhiteSpace c) = true) :
    ∀ c ∈ l, isWhiteSpace c = false := by
  simpa using h

theorem unitText {u : Nat} (h : u < 6) : UnitText u (unitNames.getD u "").toList := by
  interval_cases u <;> exact ⟨forall_not_isWhiteSpace (by decide), by decide, by decide⟩

theorem parseByteSize_number {fmt : Formatters} {num suffix : List Char} {q : ℚ} {u : Nat}
    (hnum : ∀ c ∈ num, isNumberChar c = true) (hq : parseDecimal num = some q)
    (hu : UnitText u suffix) (h : ¬((u64Max : Nat) : F64) ≤ F64.ofRat q * ((1024 ^ u : Nat) : F64)) :
    parseByteSize fmt (String.ofList (num ++ suffix)) =
      .ok (F64.ofRat q * ((1024 ^ u : Nat) : F64)).toU64 := by
  have htrim : trim (num ++ suffix) = num ++ suffix := by
    refine trim_eq_self fun c hc => ?_
    rcases List.mem_append.mp hc with hc | hc
    · exact not_isWhiteSpace_of_isNumberChar (hnum c hc)
    · exact hu.plain c hc
  have hne : num ++ suffix ≠ [] := by
    rintro he
    rw [List.append_eq_nil_iff.mp he |>.1] at hq
    cases hq
  have htake : (num ++ suffix).takeWhile isNumberChar = num := by
    rw [List.takeWhile_append_of_pos hnum, hu.stops.1, List.append_nil]
  have hdrop : (num ++ suffix).dropWhile isNumberChar = suffix := by
    rw [List.dropWhile_append_of_pos hnum, hu.stops.2]
  simp only [parseByteSize, String.toList_ofList, htrim, if_neg hne, htake, hdrop, hq, hu.power, if_neg h]

theorem parseDecimal_toDigits (n : Nat) : parseDecimal (Nat.toDigits 10 n) = some (n : ℚ) := by
  have hdigit : ∀ c ∈ Nat.toDigits 10 n, c.isDigit = true := fun c hc => isDigit_of_mem_toDigits hc
  have hpoint : ∀ c ∈ Nat.toDigits 10 n, decide (c ≠ '.') = true := by
    intro c hc
    refine decide_eq_true ?_
    rintro rfl
    exact absurd (hdigit _ hc) (by decide)
  have htake : (Nat.toDigits 10 n).takeWhile (fun c => c ≠ '.') = Nat.toDigits 10 n :=
    List.takeWhile_eq_self_iff.mpr hpoint
  have hdrop : (Nat.toDigits 10 n).dropWhile (fun c => c ≠ '.') = [] :=
    List.dropWhile_eq_nil_iff.mpr hpoint
  simp only [parseDecimal, htake, hdrop, List.drop_nil, List.append_nil, Nat.toDigits_ne_nil, if_false,
    List.all_eq_true.mpr hdigit, if_true, Nat.ofDigitChars_ten_toDigits, List.length_nil, pow_zero, div_one]

theorem parseDecimal_tenths (t : Nat) :
    parseDecimal (Nat.toDigits 10 (t / 10) ++ '.' :: Nat.toDigits 10 (t % 10)) = some ((t : ℚ) / 10) := by
  have hdigit : ∀ n, ∀ c ∈ Nat.toDigits 10 n, c.isDigit = true := fun n c hc => isDigit_of_mem_toDigits hc
  have hpoint : ∀ c ∈ Nat.toDigits 10 (t / 10), decide (c ≠ '.') = true := by
    intro c hc
    refine decide_eq_true ?_
    rintro rfl
    exact absurd (hdigit _ _ hc) (by decide)
  have htake : (Nat.toDigits 10 (t / 10) ++ '.' :: Nat.toDigits 10 (t % 10)).takeWhile
      (fun c => c ≠ '.') = Nat.toDigits 10 (t / 10) := by
    rw [List.takeWhile_append_of_pos hpoint, List.takeWhile_cons_of_neg (by decide), List.append_nil]
  have hdrop : (Nat.toDigits 10 (t / 10) ++ '.' :: Nat.toDigits 10 (t % 10)).dropWhile
      (fun c => c ≠ '.') = '.' :: Nat.toDigits 10 (t % 10) := by
    rw [List.dropWhile_append_of_pos hpoint, List.dropWhile_cons_of_neg (by decide)]
  have hall : (Nat.toDigits 10 (t / 10) ++ Nat.toDigits 10 (t % 10)).all Char.isDigit = true := by
    rw [List.all_append, List.all_eq_true.mpr (hdigit _), List.all_eq_true.mpr (hdigit _), Bool.and_self]
  have hlen : (Nat.toDigits 10 (t % 10)).length = 1 := by
    rw [Nat.toDigits_of_lt_base (by omega), List.length_singleton]
  have hvalue : Nat.ofDigitChars 10 (Nat.toDigits 10 (t / 10) ++ Nat.toDigits 10 (t % 10)) 0 = t := by
    rw [Nat.ofDigitChars_append, Nat.ofDigitChars_ten_toDigits, Nat.ofDigitChars_eq_ofDigitChars_zero, hlen,
      Nat.ofDigitChars_ten_toDigits]
    omega
  simp only [parseDecimal, htake, hdrop, List.drop_succ_cons, List.drop_zero, List.append_eq_nil_iff,
    Nat.toDigits_ne_nil, false_and, if_false, hall, if_true, hvalue, hlen, pow_one]

end KeepAt
