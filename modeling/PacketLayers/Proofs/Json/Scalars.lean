import PacketLayers.Json.Codec

namespace PacketLayers.Json

def Blank (t : Text) : Prop := ∀ c ∈ t, isBlank c = true

/-- What may stand behind a value that was written. -/
def Ends (t : Text) : Prop := ∀ c ∈ t.head?, c ∈ [',', ']', '\x7d', '\n']

theorem Ends.head {t : Text} (ends : Ends t) {c : Char} (head : c ∈ t.head?) :
    isDigit c = false ∧ c ≠ '.' ∧ c ≠ 'e' ∧ c ≠ 'E' := by
  have separates := ends c head
  simp only [List.mem_cons, List.not_mem_nil, or_false] at separates
  rcases separates with rfl | rfl | rfl | rfl
  all_goals exact ⟨rfl, by decide, by decide, by decide⟩

/-- A reader gives a value for its text, at any place that the text may stand at. -/
def Reads {α : Type} (read : Reader α) (text : Text) (a : α) : Prop :=
  ∀ blanks rest, Blank blanks → Ends rest → read (blanks ++ (text ++ rest)) = .ok (a, rest)

theorem Reads.here {α : Type} {read : Reader α} {text : Text} {a : α} (reads : Reads read text a)
    {rest : Text} (ends : Ends rest) : read (text ++ rest) = .ok (a, rest) :=
  reads [] rest (by simp [Blank]) ends

theorem skipBlanks_cons {c : Char} (visible : isBlank c = false) (t : Text) :
    skipBlanks (c :: t) = c :: t := by
  simp [skipBlanks, visible]

theorem skipBlanks_append {blanks : Text} (blank : Blank blanks) {c : Char}
    (visible : isBlank c = false) (t : Text) : skipBlanks (blanks ++ c :: t) = c :: t :=
  (List.dropWhile_append_of_pos blank).trans (skipBlanks_cons visible t)

/-! ### Numbers -/

theorem isDigit_eq (c : Char) : isDigit c = c.isDigit := by
  simp [isDigit, Char.isDigit, Char.le_def, ge_iff_le]

theorem isDigit_of_mem_toDigits {n : Nat} {c : Char} (mem : c ∈ Nat.toDigits 10 n) :
    isDigit c = true :=
  (isDigit_eq c).trans (Nat.isDigit_of_mem_toDigits (by decide) (by decide) mem)

theorem head?_toDigits {n : Nat} (pos : 0 < n) : (Nat.toDigits 10 n).head? ≠ some '0' := by
  induction n using Nat.base_induction 10 (by decide) with
  | single m small =>
    rw [Nat.toDigits_of_lt_base small]
    simp only [List.head?_cons, ne_eq, Option.some.injEq, Nat.digitChar_eq_zero]
    omega
  | digit m k small pos' ih =>
    obtain ⟨c, more, digits⟩ :=
      List.exists_cons_of_ne_nil (Nat.toDigits_ne_nil (n := m) (b := 10))
    rw [← Nat.toDigits_append_toDigits (by decide) pos' small, digits]
    rw [digits] at ih
    exact ih pos'

theorem pushWhole_digitChar {n d : Nat} (small : d < 10) (fits : 10 * n + d < UInt64.size) :
    Scaled.pushWhole { significand := n } d.digitChar = { significand := 10 * n + d } := by
  simp [Scaled.pushWhole, Scaled.fits, digitValue, Nat.toNat_digitChar_of_lt_ten small, fits]

theorem foldl_pushWhole {n : Nat} (fits : n < UInt64.size) :
    (Nat.toDigits 10 n).foldl Scaled.pushWhole {} = { significand := n } := by
  induction n using Nat.base_induction 10 (by decide) with
  | single m small =>
    rw [Nat.toDigits_of_lt_base small]
    have first := @pushWhole_digitChar 0 m small (by omega)
    rw [Nat.mul_zero, Nat.zero_add] at first
    exact first
  | digit m k small pos ih =>
    rw [← Nat.toDigits_append_toDigits (by decide) pos small, List.foldl_append, ih (by omega),
      Nat.toDigits_of_lt_base small]
    exact pushWhole_digitChar small fits

theorem fraction_of_ends (n : Nat) {rest : Text} (ends : Ends rest) :
    fraction { significand := n } rest = .ok rest := by
  have finite : Scaled.overflows { significand := n } = false := by simp [Scaled.overflows]
  cases rest with
  | nil => simp [fraction, finite]
  | cons c more =>
    obtain ⟨-, point, small, large⟩ := ends.head rfl
    simp [fraction, finite, small, large]

theorem isFractional_of_ends {rest : Text} (ends : Ends rest) : isFractional rest = false := by
  cases rest with
  | nil => rfl
  | cons c more =>
    obtain ⟨-, point, small, large⟩ := ends.head rfl
    simp [isFractional, point, small, large]

theorem number_toDigits {n : Nat} (fits : n < UInt64.size) {rest : Text} (ends : Ends rest) :
    number (Nat.toDigits 10 n ++ rest) = .ok (some n, rest) := by
  have digits : ∀ c ∈ Nat.toDigits 10 n, isDigit c = true := fun _ => isDigit_of_mem_toDigits
  have none : rest.takeWhile isDigit = [] ∧ rest.dropWhile isDigit = rest := by
    cases rest with
    | nil => exact ⟨rfl, rfl⟩
    | cons c more => simp [(ends.head rfl).1]
  have taken : (Nat.toDigits 10 n ++ rest).takeWhile isDigit = Nat.toDigits 10 n := by
    rw [List.takeWhile_append_of_pos digits, none.1, List.append_nil]
  have dropped : (Nat.toDigits 10 n ++ rest).dropWhile isDigit = rest := by
    rw [List.dropWhile_append_of_pos digits, none.2]
  have value := foldl_pushWhole fits
  obtain ⟨c, more, written⟩ := List.exists_cons_of_ne_nil (Nat.toDigits_ne_nil (n := n) (b := 10))
  have digit : isDigit c = true := digits c (written ▸ List.mem_cons_self)
  have unsigned : c ≠ '-' := by
    rintro rfl
    cases digit
  -- Zero is a digit alone, and what follows it is none.
  have leading : ¬ (c = '0' ∧ ((more ++ rest).head?.map isDigit).getD false = true) := by
    rintro ⟨rfl, again⟩
    have zero : ¬ 0 < n := fun pos => head?_toDigits pos (by rw [written]; rfl)
    obtain rfl : n = 0 := by omega
    obtain ⟨-, rfl⟩ := List.cons.inj written
    cases rest with
    | nil => cases again
    | cons d others => exact absurd again (by simp [(ends.head rfl).1])
  rw [written] at taken dropped value ⊢
  rw [List.cons_append] at taken dropped ⊢
  unfold number
  split
  rename_i negative t sign
  split at sign
  · rename_i minus
    exact absurd (List.cons.inj minus).1 unsigned
  · cases sign
    simp only [digit, leading, taken, dropped, value, fraction_of_ends n ends,
      isFractional_of_ends ends]
    rfl

/-! ### Strings -/

theorem hexValue?_lowerHex (n : Nat) : hexValue? (lowerHex n) = some (n % 16) := by
  have all : ∀ d < 16, hexValue? (Nat.digitChar d) = some d := by decide
  exact all (n % 16) (Nat.mod_lt n (by decide))

theorem fourHex_escape {c : Char} (control : c < ' ') (rest : Text) :
    ∃ shorter, fourHex ('0' :: '0' :: lowerHex (c.toNat / 16) :: lowerHex c.toNat :: rest) =
      .ok (c.toNat, ⟨rest, shorter⟩) := by
  have low : c.toNat < 32 := control
  have zero : hexValue? '0' = some 0 := rfl
  refine ⟨by simp only [List.length_cons]; omega, ?_⟩
  simp only [fourHex, zero, hexValue?_lowerHex]
  congr
  omega

theorem unicodeEscape_escape {c : Char} (control : c < ' ') (rest : Text) :
    ∃ shorter, unicodeEscape
      ('0' :: '0' :: lowerHex (c.toNat / 16) :: lowerHex c.toNat :: rest) =
        .ok (c, ⟨rest, shorter⟩) := by
  have low : c.toNat < 32 := control
  obtain ⟨shorter, digits⟩ := fourHex_escape control rest
  have second : ¬ isLowSurrogate c.toNat = true := by
    simp only [isLowSurrogate, Bool.and_eq_true, decide_eq_true_eq]
    omega
  have first : ¬ isHighSurrogate c.toNat = true := by
    simp only [isHighSurrogate, Bool.and_eq_true, decide_eq_true_eq]
    omega
  refine ⟨shorter, ?_⟩
  unfold unicodeEscape
  rw [digits]
  dsimp only
  rw [if_neg second, if_neg first, Char.ofNat_toNat]

theorem escape_cases (c : Char) :
    (∃ letter, letter ≠ 'u' ∧ simpleEscape? letter = some c ∧ escape c = ['\\', letter]) ∨
      (c < ' ' ∧
        escape c = ['\\', 'u', '0', '0', lowerHex (c.toNat / 16), lowerHex c.toNat]) ∨
      (c ≠ '"' ∧ c ≠ '\\' ∧ ¬ c < ' ' ∧ escape c = [c]) := by
  unfold escape
  repeat' split
  case isFalse.isFalse.isFalse.isFalse.isFalse.isFalse.isFalse.isTrue control =>
    exact .inr (.inl ⟨control, rfl⟩)
  case isFalse.isFalse.isFalse.isFalse.isFalse.isFalse.isFalse.isFalse =>
    exact .inr (.inr ⟨‹_›, ‹_›, ‹_›, rfl⟩)
  all_goals
    subst c
    exact .inl ⟨_, by decide, rfl, rfl⟩

theorem stringRest_simple {letter c : Char} (other : letter ≠ 'u')
    (known : simpleEscape? letter = some c) (rest : Text) :
    stringRest ('\\' :: letter :: rest) = (stringRest rest).map fun p => (c :: p.1, p.2) := by
  rw [stringRest, known]
  cases stringRest rest <;> rfl
  simpa using other

theorem stringRest_unicode {t after : Text} {c : Char} {shorter : after.length < t.length}
    (known : unicodeEscape t = .ok (c, ⟨after, shorter⟩)) :
    stringRest ('\\' :: 'u' :: t) = (stringRest after).map fun p => (c :: p.1, p.2) := by
  rw [stringRest, known]
  dsimp only
  cases stringRest after <;> rfl

theorem stringRest_plain {c : Char} (quote : c ≠ '"') (backslash : c ≠ '\\') (plain : ¬ c < ' ')
    (rest : Text) : stringRest (c :: rest) = (stringRest rest).map fun p => (c :: p.1, p.2) := by
  rw [stringRest, if_neg plain]
  cases stringRest rest <;> rfl
  all_goals simp_all

theorem stringRest_escape (c : Char) (rest : Text) :
    stringRest (escape c ++ rest) = (stringRest rest).map fun p => (c :: p.1, p.2) := by
  rcases escape_cases c with ⟨letter, other, known, written⟩ | ⟨control, written⟩ |
    ⟨quote, backslash, plain, written⟩
  · rw [written]
    exact stringRest_simple other known rest
  · obtain ⟨shorter, known⟩ := unicodeEscape_escape control rest
    rw [written]
    exact stringRest_unicode known
  · rw [written]
    exact stringRest_plain quote backslash plain rest

theorem stringRest_written (cs rest : Text) :
    stringRest (cs.flatMap escape ++ '"' :: rest) = .ok (cs, rest) := by
  induction cs with
  | nil => rw [List.flatMap_nil, List.nil_append, stringRest]
  | cons c cs ih =>
    rw [List.flatMap_cons, List.append_assoc, stringRest_escape, ih]
    rfl

/-! ### Codecs -/

/-- A codec reads back what it writes. No text of it is blank, `null` or a closing bracket. -/
structure Codec.Lawful {α : Type} (c : Codec α) : Prop where
  opens : ∀ layout a, ∃ first more, c.write layout a = first :: more ∧
    isBlank first = false ∧ first ≠ 'n' ∧ first ≠ ']'
  reads : ∀ layout a, Reads c.read (c.write layout a) a

namespace Codec

theorem opens_of_isDigit {c : Char} (digit : isDigit c = true) :
    isBlank c = false ∧ c ≠ 'n' ∧ c ≠ ']' := by
  refine ⟨?_, ?_, ?_⟩
  · refine Bool.eq_false_iff.mpr fun blank => ?_
    simp only [isBlank, Bool.or_eq_true, beq_iff_eq] at blank
    rcases blank with ((rfl | rfl) | rfl) | rfl
    all_goals cases digit
  all_goals
    rintro rfl
    cases digit

theorem lawful_natural {α : Type} {limit : Nat} {ofNat : Nat → α} {toNat : α → Nat}
    (below : ∀ a, toNat a < limit) (small : limit ≤ UInt64.size)
    (inverse : ∀ a, ofNat (toNat a) = a) : (natural limit ofNat toNat).Lawful := by
  have written (layout : Layout) (a : α) :
      ∃ c more, (natural limit ofNat toNat).write layout a = c :: more ∧
        Nat.toDigits 10 (toNat a) = c :: more ∧ isDigit c = true := by
    obtain ⟨c, more, digits⟩ :=
      List.exists_cons_of_ne_nil (Nat.toDigits_ne_nil (n := toNat a) (b := 10))
    exact ⟨c, more, Nat.toList_repr.trans digits, digits,
      isDigit_of_mem_toDigits (digits ▸ List.mem_cons_self)⟩
  constructor
  case opens =>
    intro layout a
    obtain ⟨c, more, text, -, digit⟩ := written layout a
    exact ⟨c, more, text, opens_of_isDigit digit⟩
  case reads =>
    intro layout a blanks rest blank ends
    obtain ⟨c, more, text, digits, digit⟩ := written layout a
    have fits : toNat a < UInt64.size := Nat.lt_of_lt_of_le (below a) small
    have value := number_toDigits fits ends
    rw [digits, List.cons_append] at value
    rw [text, List.cons_append]
    simp only [natural, skipBlanks_append blank (opens_of_isDigit digit).1, digit, or_true,
      if_true, value, if_pos (below a), inverse]

theorem lawful_word16 : word16.Lawful :=
  lawful_natural UInt16.toNat_lt (by decide) fun _ => UInt16.ofNat_toNat

theorem lawful_word32 : word32.Lawful :=
  lawful_natural UInt32.toNat_lt (by decide) fun _ => UInt32.ofNat_toNat

theorem lawful_word64 : word64.Lawful :=
  lawful_natural UInt64.toNat_lt (Nat.le_refl _) fun _ => UInt64.ofNat_toNat

theorem lawful_string : string.Lawful where
  opens layout s := ⟨'"', _, rfl, rfl, by decide, by decide⟩
  reads layout s blanks rest blank ends := by
    have text : string.write layout s ++ rest =
        '"' :: (s.toList.flatMap escape ++ '"' :: rest) := by
      simp only [string, quote, List.cons_append, List.append_assoc, List.nil_append]
    rw [text]
    unfold string
    dsimp only
    rw [skipBlanks_append blank rfl]
    split
    · rename_i empty
      cases empty
    · rename_i chars quoted
      cases quoted
      simp only [stringRest_written, String.ofList_toList]
    · rename_i unquoted
      exact absurd rfl (unquoted _)

end Codec

end PacketLayers.Json
