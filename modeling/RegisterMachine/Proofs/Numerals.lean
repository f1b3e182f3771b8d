import RegisterMachine.Text.Basic
import RegisterMachine.Text.Integer

namespace RegisterMachine.Text

/-- The number that digits stand for; there has to be at least one. -/
def digits? (cs : List Char) : Option Nat :=
  if cs ≠ [] ∧ cs.all Char.isDigit = true then some (Nat.ofDigitChars 10 cs 0) else none

def signed (negative : Bool) (n : Nat) : Int :=
  if negative then -(n : Int) else n

/-- The integer of which characters are the text: a sign, if there is one, and digits. The integer
may be of any size. -/
def numeral? : List Char → Option Int
  | '+' :: cs => (digits? cs).map (signed false)
  | '-' :: cs => (digits? cs).map (signed true)
  | cs => (digits? cs).map (signed false)

/-- The 64-bit integer of which a token is the text; blanks around it do not count. -/
def tokenValue? (token : String) : Option Int :=
  (numeral? (trimBlanks token.toList)).filter fun n =>
    IntegerRange.signed64.low ≤ n ∧ n ≤ IntegerRange.signed64.high

theorem le_ofDigitChars (cs : List Char) (value : Nat) :
    value ≤ Nat.ofDigitChars 10 cs value := by
  rw [Nat.ofDigitChars_eq_ofDigitChars_zero]
  have hp : 0 < 10 ^ cs.length := Nat.pow_pos (by decide)
  exact Nat.le_trans (Nat.le_mul_of_pos_left value hp) (Nat.le_add_right _ _)

theorem signed_digit (negative : Bool) (value d : Nat) :
    (if negative then signed negative value * 10 - d else signed negative value * 10 + d) =
      signed negative (10 * value + d) := by
  cases negative <;> simp only [signed, Bool.false_eq_true, if_true, if_false] <;> omega

/-- The range is checked at every digit, yet only the whole number counts: digits added behind a
number take it away from zero. -/
theorem readDigits_eq_ok_iff {r : IntegerRange} {negative : Bool} {cs : List Char}
    {value : Nat} {n : Int}
    (hlv : r.low ≤ signed negative value) (hvh : signed negative value ≤ r.high) :
    r.readDigits negative (signed negative value) cs = .ok n ↔
      cs.all Char.isDigit = true ∧ n = signed negative (Nat.ofDigitChars 10 cs value) ∧
        r.low ≤ n ∧ n ≤ r.high := by
  induction cs generalizing value with
  | nil =>
    simp only [IntegerRange.readDigits, Except.ok.injEq, List.all_nil, Nat.ofDigitChars_nil,
      true_and]
    constructor
    · rintro rfl
      exact ⟨rfl, hlv, hvh⟩
    · rintro ⟨rfl, -, -⟩
      rfl
  | cons c cs ih =>
    by_cases hc : c.isDigit = true
    · simp only [IntegerRange.readDigits, digit?, hc, if_true, signed_digit, List.all_cons,
        Bool.true_and, Nat.ofDigitChars_cons]
      have hle := le_ofDigitChars cs (10 * value + (c.toNat - '0'.toNat))
      split
      · rename_i hbig
        simp only [reduceCtorEq, false_iff]
        rintro ⟨-, rfl, -, hn⟩
        cases negative <;> simp only [signed, Bool.false_eq_true, if_true, if_false] at * <;> omega
      · split
        · rename_i hsmall
          simp only [reduceCtorEq, false_iff]
          rintro ⟨-, rfl, hn, -⟩
          cases negative <;> simp only [signed, Bool.false_eq_true, if_true, if_false] at * <;> omega
        · rename_i hnb hns
          exact ih (by omega) (by omega)
    · simp [IntegerRange.readDigits, digit?, hc]

theorem readDigits_zero_eq_ok_iff {negative : Bool} {cs : List Char} {n : Int} (hcs : cs ≠ []) :
    IntegerRange.signed64.readDigits negative 0 cs = .ok n ↔
      (digits? cs).map (signed negative) = some n ∧
        IntegerRange.signed64.low ≤ n ∧ n ≤ IntegerRange.signed64.high := by
  have hz : signed negative 0 = 0 := by cases negative <;> rfl
  have hr : IntegerRange.signed64.readDigits negative (signed negative 0) cs = .ok n ↔ _ :=
    readDigits_eq_ok_iff (by rw [hz]; decide) (by rw [hz]; decide)
  rw [hz] at hr
  rw [hr]
  by_cases ha : cs.all Char.isDigit = true
  · simp only [digits?, ne_eq, hcs, not_false_eq_true, ha, and_self, if_true, Option.map_some,
      Option.some.injEq, true_and]
    constructor
    · rintro ⟨rfl, hn⟩
      exact ⟨rfl, hn⟩
    · rintro ⟨rfl, hn⟩
      exact ⟨rfl, hn⟩
  · simp [digits?, ha]

/-- Reading accepts the texts of the integers in range and no others. -/
theorem read_eq_ok_iff {cs : List Char} {n : Int} :
    IntegerRange.signed64.read cs = .ok n ↔
      numeral? cs = some n ∧
        IntegerRange.signed64.low ≤ n ∧ n ≤ IntegerRange.signed64.high := by
  unfold IntegerRange.read
  split
  · simp [numeral?, digits?]
  · simp [numeral?, digits?]
  · simp [numeral?, digits?]
  · rename_i cs _ hne
    exact readDigits_zero_eq_ok_iff (by rintro rfl; exact hne rfl)
  · rename_i cs _ hne
    rw [if_pos (by decide)]
    exact readDigits_zero_eq_ok_iff (by rintro rfl; exact hne rfl)
  · rename_i hplus hminus
    have hn : numeral? cs = (digits? cs).map (signed false) := by
      unfold numeral?
      split
      · exact absurd rfl (hplus _)
      · exact absurd rfl (hminus _)
      · rfl
    rw [hn]
    exact readDigits_zero_eq_ok_iff (by rintro rfl; contradiction)

theorem readInt64_eq_ok_iff {s : String} {v : Int64} :
    readInt64 s = .ok v ↔ numeral? s.toList = some v.toInt := by
  have hl : IntegerRange.signed64.low ≤ v.toInt := v.le_toInt
  have hh : v.toInt ≤ IntegerRange.signed64.high := Int.le_of_lt_add_one v.toInt_lt
  constructor
  · intro h
    unfold readInt64 at h
    cases hr : IntegerRange.signed64.read s.toList with
    | error fault => simp [hr, Except.map] at h
    | ok n =>
      simp only [hr, Except.map, Except.ok.injEq] at h
      subst h
      obtain ⟨hn, hlow, hhigh⟩ := read_eq_ok_iff.mp hr
      simp only [IntegerRange.signed64] at hlow hhigh
      rw [hn, Int64.toInt_ofInt_of_le (by omega) (by omega)]
  · intro h
    rw [readInt64, read_eq_ok_iff.mpr ⟨h, hl, hh⟩]
    simp [Except.map]

/-- A token is accepted exactly when it is the text of a 64-bit integer, and stands for it. -/
theorem readInt64_trim_eq_ok_iff {token : String} {v : Int64} :
    readInt64 (trim token) = .ok v ↔ tokenValue? token = some v.toInt := by
  have hl : IntegerRange.signed64.low ≤ v.toInt := v.le_toInt
  have hh : v.toInt ≤ IntegerRange.signed64.high := Int.le_of_lt_add_one v.toInt_lt
  rw [readInt64_eq_ok_iff, tokenValue?, Option.filter_eq_some_iff, trim, String.toList_ofList]
  simp [hl, hh]

/-- A value that a token stands for is a word. -/
theorem exists_word_of_tokenValue? {token : String} {n : Int} (h : tokenValue? token = some n) :
    ∃ v : Int64, readInt64 (trim token) = .ok v ∧ v.toInt = n := by
  have hr : IntegerRange.signed64.low ≤ n ∧ n ≤ IntegerRange.signed64.high :=
    of_decide_eq_true (Option.filter_eq_some_iff.mp h).2
  simp only [IntegerRange.signed64] at hr
  have hn : (Int64.ofInt n).toInt = n := Int64.toInt_ofInt_of_le (by omega) (by omega)
  exact ⟨Int64.ofInt n, readInt64_trim_eq_ok_iff.mpr (by rw [h, hn]), hn⟩

theorem natural_eq_repr (n : Nat) : natural n = n.repr :=
  Nat.repr_eq_ofList_toDigits.symm

/-- The decimal text of an integer is the usual one. -/
theorem decimal_eq_repr (n : Int) : decimal n = n.repr := by
  cases n with
  | ofNat m => simp [decimal, natural_eq_repr, Int.repr]
  | negSucc m => simp [decimal, natural_eq_repr, Int.repr, Int.negSucc_lt_zero]

theorem isDigit_of_mem_natural {n : Nat} {c : Char} (h : c ∈ (natural n).toList) :
    c.isDigit = true := by
  rw [natural, String.toList_ofList] at h
  exact Nat.isDigit_of_mem_toDigits (by decide) (by decide) h

/-- Digits that are written are read as the number they were written for. -/
theorem digits?_natural (n : Nat) : digits? (natural n).toList = some n := by
  have hdigits : (natural n).toList.all Char.isDigit = true :=
    List.all_eq_true.mpr fun _ => isDigit_of_mem_natural
  have hne : (natural n).toList ≠ [] := by
    rw [natural, String.toList_ofList]
    exact Nat.toDigits_ne_nil
  rw [digits?, if_pos ⟨hne, hdigits⟩, natural, String.toList_ofList,
    Nat.ofDigitChars_toDigits (by decide) (by decide)]

theorem ofDigitChars_lt_pow {cs : List Char} (h : ∀ c ∈ cs, c.isDigit = true) :
    Nat.ofDigitChars 10 cs 0 < Nat.pow 10 cs.length := by
  induction cs with
  | nil => decide
  | cons c cs ih =>
    have hrest := ih fun d hd => h d (List.mem_cons_of_mem c hd)
    have hdigit : c.toNat - '0'.toNat ≤ 9 := by
      have hc := Char.isDigit_iff_toNat.mp (h c List.mem_cons_self)
      simp at hc ⊢
      omega
    have hfirst := Nat.mul_le_mul_left (Nat.pow 10 cs.length) hdigit
    rw [Nat.ofDigitChars_cons, Nat.ofDigitChars_eq_ofDigitChars_zero, List.length_cons,
      Nat.pow_eq, Nat.pow_succ, Nat.mul_zero, Nat.zero_add]
    rw [Nat.pow_eq] at hrest hfirst
    omega

/-- No other digits for a number are fewer than those that are written. -/
theorem length_natural_le {cs : List Char} {n : Nat} (h : digits? cs = some n) :
    (natural n).length ≤ cs.length := by
  unfold digits? at h
  split at h
  · rename_i hdigits
    obtain rfl := Option.some.inj h
    have hlt := ofDigitChars_lt_pow (List.all_eq_true.mp hdigits.2)
    have hpos : 0 < cs.length := List.length_pos_iff.mpr hdigits.1
    rw [natural, String.length_ofList]
    exact (Nat.length_toDigits_le_iff (by decide) hpos).mpr hlt
  · cases h

/-- The decimal text of an integer of any size is a numeral for it. -/
theorem numeral?_decimal (n : Int) : numeral? (decimal n).toList = some n := by
  by_cases hn : n < 0
  · have htext : (decimal n).toList = '-' :: (natural n.natAbs).toList := by
      simp [decimal, hn]
    rw [htext, numeral?, digits?_natural]
    simp only [Option.map_some, signed, if_true, Option.some.injEq]
    omega
  · have htext : decimal n = natural n.natAbs := by simp [decimal, hn]
    have hplain : numeral? (natural n.natAbs).toList =
        (digits? (natural n.natAbs).toList).map (signed false) := by
      unfold numeral?
      split
      · rename_i heq
        have hsign : '+' ∈ (natural n.natAbs).toList := heq ▸ List.mem_cons_self
        exact absurd (isDigit_of_mem_natural hsign) (by decide)
      · rename_i heq
        have hsign : '-' ∈ (natural n.natAbs).toList := heq ▸ List.mem_cons_self
        exact absurd (isDigit_of_mem_natural hsign) (by decide)
      · rfl
    rw [htext, hplain, digits?_natural]
    simp only [Option.map_some, signed, Bool.false_eq_true, if_false, Option.some.injEq]
    omega

theorem length_decimal_signed (negative : Bool) (n : Nat) :
    (decimal (signed negative n)).length ≤ (natural n).length + negative.toNat := by
  have habs : (signed negative n).natAbs = n := by cases negative <;> simp [signed]
  unfold decimal
  rw [habs]
  split
  · rename_i hneg
    cases negative with
    | false => exact absurd hneg (by simp [signed])
    | true => rw [String.length_append, Nat.add_comm]; exact Nat.le_refl _
  · omega

/-- No numeral for an integer is shorter than its decimal text. -/
theorem length_decimal_le {cs : List Char} {n : Int} (h : numeral? cs = some n) :
    (decimal n).length ≤ cs.length := by
  unfold numeral? at h
  split at h
  all_goals
    obtain ⟨m, hm, rfl⟩ := Option.map_eq_some_iff.mp h
    have hdigits := length_natural_le hm
  · have hsigned := length_decimal_signed false m
    simp at hsigned ⊢
    omega
  · have hsigned := length_decimal_signed true m
    simp at hsigned ⊢
    omega
  · have hsigned := length_decimal_signed false m
    simp at hsigned ⊢
    omega

end RegisterMachine.Text
