import ClientForge.Decimal.Reader
import ClientForge.Proofs.Basics
import ClientForge.Proofs.Decimal.Rounding
import ClientForge.Proofs.Text.Letters
import Mathlib.Data.List.TakeWhile
import Mathlib.Data.Nat.Digits.Defs
/-!
# The grammar of number texts

`FloatText` says which texts are numbers and which decimal number each is: digits of any script,
grouped by single underscores, with a point, an exponent and signs.  A text is read as a finite
number exactly if it is in the grammar, and as the number of the format nearest to what it says
(`read?_eq_finite_iff`).
-/

namespace ClientForge

/-! ## The grammar -/

/-- Decimal digits of any script, single underscores between them, and their values. -/
inductive DigitText : List Char → List Nat → Prop
  | nil : DigitText [] []
  | cons {c : Char} {cs : List Char} {v : Nat} {vs : List Nat}
      (hc : Text.decimalValue? c = some v) (h : DigitText cs vs) : DigitText (c :: cs) (v :: vs)
  | underscore {c : Char} {cs : List Char} {v w : Nat} {vs : List Nat}
      (hc : Text.decimalValue? c = some v) (h : DigitText cs (w :: vs)) :
      DigitText (c :: '_' :: cs) (v :: w :: vs)

/-- An optional sign; `true` is minus. -/
inductive SignText : List Char → Bool → Prop
  | absent : SignText [] false
  | plus : SignText ['+'] false
  | minus : SignText ['-'] true

/-- Digits with the most significant first, as a number. -/
def decimal (values : List Nat) : Nat :=
  Nat.ofDigits 10 values.reverse

/-- A number with a sign. -/
def signed (negative : Bool) (n : Nat) : Int :=
  if negative then -n else n

/-- Digits, or digits before and after a point, at least one in all. -/
inductive MantissaText : List Char → List Nat → List Nat → Prop
  | whole {cs : List Char} {vs : List Nat} (h : DigitText cs vs) (hne : vs ≠ []) :
      MantissaText cs vs []
  | point {cs cs' : List Char} {vs vs' : List Nat} (h : DigitText cs vs) (h' : DigitText cs' vs')
      (hne : vs ++ vs' ≠ []) : MantissaText (cs ++ '.' :: cs') vs vs'

/-- An optional exponent of ten. -/
inductive ExponentText : List Char → Int → Prop
  | absent : ExponentText [] 0
  | power {c : Char} {sign cs : List Char} {negative : Bool} {vs : List Nat}
      (hc : c = 'e' ∨ c = 'E') (hsign : SignText sign negative) (h : DigitText cs vs)
      (hne : vs ≠ []) : ExponentText (c :: (sign ++ cs)) (signed negative (decimal vs))

/-- The texts of finite numbers, with their sign, digits and exponent of ten. -/
inductive FloatText : List Char → Bool → Nat → Int → Prop
  | mk {sign mantissa tail : List Char} {negative : Bool} {whole fraction : List Nat} {k : Int}
      (hsign : SignText sign negative) (hmantissa : MantissaText mantissa whole fraction)
      (hexponent : ExponentText tail k) :
      FloatText (sign ++ (mantissa ++ tail)) negative (decimal (whole ++ fraction))
        (k - fraction.length)

/-- An optional sign and ASCII digits. -/
inductive IntegerText : List Char → Bool → List Char → Prop
  | mk {sign digits : List Char} {negative : Bool} (hsign : SignText sign negative)
      (hne : digits ≠ []) (hdigits : ∀ c ∈ digits, c.isDigit = true) :
      IntegerText (sign ++ digits) negative digits

namespace Binary64

/-! ## Digits -/

/-- The value of an ASCII digit. -/
def digitValue (c : Char) : Nat := c.toNat - 48

/-- A digit as an ASCII digit, any other character as it is. -/
def asciiDigit (c : Char) : Char :=
  ((Text.decimalValue? c).map fun v => Char.ofNat (48 + v)).getD c

theorem asciiDigits_eq_map (cs : List Char) : asciiDigits cs = cs.map asciiDigit := by
  refine List.map_congr_left fun c _ => ?_
  rw [asciiDigit]
  cases Text.decimalValue? c with
  | none => rfl
  | some v => rfl

theorem le_nine_of_decimalValue? {c : Char} {v : Nat} (h : Text.decimalValue? c = some v) :
    v ≤ 9 := by
  obtain ⟨z, hz, rfl⟩ := Option.map_eq_some_iff.mp h
  have hrange := List.find?_some hz
  simp only [Bool.and_eq_true, decide_eq_true_eq] at hrange
  omega

theorem decimalValue?_of_isNumeral {c : Char} (h : Text.isNumeral c = true) :
    Text.decimalValue? c = some (digitValue c) := by
  have hrange := Text.isNumeral_iff.mp h
  rw [Text.decimalValue?, Text.decimalZeros, List.find?_cons_of_pos]
  · rfl
  · simpa using hrange

theorem asciiDigit_of_some {c : Char} {v : Nat} (h : Text.decimalValue? c = some v) :
    asciiDigit c = Char.ofNat (48 + v) := by
  rw [asciiDigit, h]
  rfl

theorem asciiDigit_of_none {c : Char} (h : Text.decimalValue? c = none) : asciiDigit c = c := by
  rw [asciiDigit, h]
  rfl

/-- A character has a value exactly if its ASCII form is a digit. -/
theorem decimalValue?_eq_some_iff {c : Char} {v : Nat} :
    Text.decimalValue? c = some v ↔
      Text.isNumeral (asciiDigit c) = true ∧ digitValue (asciiDigit c) = v := by
  cases hc : Text.decimalValue? c with
  | some w =>
      have hle := le_nine_of_decimalValue? hc
      have hcode : (Char.ofNat (48 + w)).toNat = 48 + w := Text.toNat_ofNat_of_lt (by omega)
      rw [asciiDigit_of_some hc, Text.isNumeral_iff, digitValue, hcode, Option.some.injEq]
      omega
  | none =>
      rw [asciiDigit_of_none hc]
      constructor
      · intro h
        cases h
      · rintro ⟨hnumeral, -⟩
        rw [decimalValue?_of_isNumeral hnumeral] at hc
        cases hc

/-- A character that is no digit stays as it is. -/
theorem asciiDigit_of_not_isNumeral {c : Char} (h : Text.isNumeral (asciiDigit c) = false) :
    Text.decimalValue? c = none ∧ asciiDigit c = c := by
  cases hc : Text.decimalValue? c with
  | none => exact ⟨rfl, asciiDigit_of_none hc⟩
  | some v =>
      rw [(decimalValue?_eq_some_iff.mp hc).1] at h
      cases h

theorem ne_underscore_of_decimalValue? {c : Char} {v : Nat} (h : Text.decimalValue? c = some v) :
    c ≠ '_' := by
  have hnone : Text.decimalValue? '_' = none := by decide
  rintro rfl
  rw [hnone] at h
  cases h

theorem asciiDigit_eq_underscore_iff {c : Char} : asciiDigit c = '_' ↔ c = '_' := by
  cases hc : Text.decimalValue? c with
  | none => rw [asciiDigit_of_none hc]
  | some v =>
      have hne : asciiDigit c ≠ '_' := by
        intro h
        have hnumeral := (decimalValue?_eq_some_iff.mp hc).1
        rw [h] at hnumeral
        exact absurd hnumeral (by decide)
      exact iff_of_false hne (ne_underscore_of_decimalValue? hc)

/-! ## Underscores -/

theorem dropUnderscores_underscore (cs : List Char) : dropUnderscores ('_' :: cs) = none := by
  rw [dropUnderscores]

/-- A character that no underscore follows is kept. -/
theorem dropUnderscores_cons {a : Char} {cs : List Char} (ha : a ≠ '_')
    (hcs : cs.head? ≠ some '_') :
    dropUnderscores (a :: cs) = (dropUnderscores cs).map (a :: ·) := by
  rw [dropUnderscores]
  · exact ha
  · rintro b rest rfl
    exact hcs rfl

theorem dropUnderscores_between {a : Char} (b : Char) {cs : List Char} (ha : a ≠ '_') :
    dropUnderscores (a :: '_' :: b :: cs) =
      if Text.isNumeral a && Text.isNumeral b then (dropUnderscores (b :: cs)).map (a :: ·)
      else none := by
  rw [dropUnderscores]
  exact ha

theorem dropUnderscores_trailing {a : Char} (ha : a ≠ '_') : dropUnderscores [a, '_'] = none := by
  rw [dropUnderscores, dropUnderscores_underscore]
  · rfl
  · exact ha
  · intro b rest h
    cases h

/-- What is kept of a text begins with its first character; an underscore may follow that. -/
theorem exists_of_dropUnderscores_cons {a : Char} {cs as : List Char}
    (h : dropUnderscores (a :: cs) = some as) :
    a ≠ '_' ∧ ∃ rest, as = a :: rest ∧
      (dropUnderscores cs = some rest ∨ ∃ b cs', cs = '_' :: b :: cs' ∧
        Text.isNumeral a = true ∧ Text.isNumeral b = true ∧
          dropUnderscores (b :: cs') = some rest) := by
  by_cases ha : a = '_'
  · subst ha
    rw [dropUnderscores_underscore] at h
    cases h
  · refine ⟨ha, ?_⟩
    by_cases hcs : cs.head? = some '_'
    · obtain ⟨cs, rfl⟩ := List.head?_eq_some_iff.mp hcs
      cases cs with
      | nil =>
          rw [dropUnderscores_trailing ha] at h
          cases h
      | cons b cs =>
          rw [dropUnderscores_between b ha] at h
          split at h
          · rename_i hdigits
            obtain ⟨hnumeral, hnumeral'⟩ := Bool.and_eq_true_iff.mp hdigits
            obtain ⟨rest, hrest, rfl⟩ := Option.map_eq_some_iff.mp h
            exact ⟨rest, rfl, Or.inr ⟨b, cs, rfl, hnumeral, hnumeral', hrest⟩⟩
          · cases h
    · rw [dropUnderscores_cons ha hcs] at h
      obtain ⟨rest, hrest, rfl⟩ := Option.map_eq_some_iff.mp h
      exact ⟨rest, rfl, Or.inl hrest⟩

/-- A text as it is read: with ASCII digits, and without the underscores between digits. -/
inductive Plain : List Char → List Char → Prop
  | nil : Plain [] []
  | cons {c : Char} {cs as : List Char} (hc : c ≠ '_') (h : Plain cs as) :
      Plain (c :: cs) (asciiDigit c :: as)
  | underscore {c d : Char} {cs as : List Char} {v w : Nat} (hc : Text.decimalValue? c = some v)
      (hd : Text.decimalValue? d = some w) (h : Plain (d :: cs) as) :
      Plain (c :: '_' :: d :: cs) (asciiDigit c :: as)

namespace Plain

theorem head?_ne {cs as : List Char} (h : Plain cs as) : cs.head? ≠ some '_' := by
  cases h with
  | nil => exact nofun
  | cons hc _ => simpa using hc
  | underscore hc _ _ => simpa using ne_underscore_of_decimalValue? hc

end Plain

/-- Reading a text is the relation. -/
theorem plain_iff {cs as : List Char} :
    dropUnderscores (asciiDigits cs) = some as ↔ Plain cs as := by
  rw [asciiDigits_eq_map]
  constructor
  · intro h
    induction as generalizing cs with
    | nil =>
        cases cs with
        | nil => exact .nil
        | cons c cs =>
            obtain ⟨-, rest, heq, -⟩ := exists_of_dropUnderscores_cons h
            cases heq
    | cons a as ih =>
        cases cs with
        | nil => cases h
        | cons c cs =>
            obtain ⟨hc, rest, heq, hrest⟩ := exists_of_dropUnderscores_cons h
            obtain ⟨rfl, rfl⟩ := List.cons.inj heq
            rcases hrest with hrest | ⟨b, bs, hbs, hnumeral, hnumeral', hrest⟩
            · exact .cons (mt asciiDigit_eq_underscore_iff.mpr hc) (ih hrest)
            · obtain ⟨x, ds, rfl, hx, hds⟩ := List.map_eq_cons_iff.mp hbs
              obtain ⟨d, ds, rfl, rfl, rfl⟩ := List.map_eq_cons_iff.mp hds
              obtain rfl := asciiDigit_eq_underscore_iff.mp hx
              have hvalue := decimalValue?_eq_some_iff.mpr ⟨hnumeral, rfl⟩
              have hvalue' := decimalValue?_eq_some_iff.mpr ⟨hnumeral', rfl⟩
              exact .underscore hvalue hvalue' (ih hrest)
  · intro h
    induction h with
    | nil => rfl
    | @cons c cs as hc h ih =>
        have hne : asciiDigit c ≠ '_' := mt asciiDigit_eq_underscore_iff.mp hc
        have hhead : (cs.map asciiDigit).head? ≠ some '_' := by
          rw [List.head?_map]
          intro heq
          obtain ⟨d, hd, hunderscore⟩ := Option.map_eq_some_iff.mp heq
          rw [asciiDigit_eq_underscore_iff.mp hunderscore] at hd
          exact h.head?_ne hd
        rw [List.map_cons, dropUnderscores_cons hne hhead, ih]
        rfl
    | @underscore c d cs as v w hc hd h ih =>
        have hne : asciiDigit c ≠ '_' :=
          mt asciiDigit_eq_underscore_iff.mp (ne_underscore_of_decimalValue? hc)
        have hunderscore : asciiDigit '_' = '_' := asciiDigit_eq_underscore_iff.mpr rfl
        rw [List.map_cons, List.map_cons, List.map_cons, hunderscore,
          dropUnderscores_between _ hne, (decimalValue?_eq_some_iff.mp hc).1,
          (decimalValue?_eq_some_iff.mp hd).1, ← List.map_cons, ih]
        rfl

namespace Plain

variable {cs cs' as as' : List Char}

theorem head?_eq {c : Char} (h : Plain (c :: cs) as) : as.head? = some (asciiDigit c) := by
  cases h with
  | cons _ _ => rfl
  | underscore _ _ _ => rfl

/-- A character that is no digit is read as it is. -/
theorem exists_cons {a : Char} (h : Plain cs (a :: as)) (ha : Text.isNumeral a = false) :
    ∃ back, cs = a :: back ∧ Plain back as := by
  cases h with
  | @cons c cs _ _ h =>
      rw [(asciiDigit_of_not_isNumeral ha).2]
      exact ⟨cs, rfl, h⟩
  | underscore hc _ _ =>
      rw [(decimalValue?_eq_some_iff.mp hc).1] at ha
      cases ha

theorem append (h : Plain cs as) (h' : Plain cs' as') : Plain (cs ++ cs') (as ++ as') := by
  induction h with
  | nil => exact h'
  | cons hc _ ih => exact .cons hc ih
  | underscore hc hd _ ih => exact .underscore hc hd ih

/-- What is read of a text is divided before a character that is no digit as the text is. -/
theorem exists_append (h : Plain cs (as ++ as'))
    (has : ∀ a ∈ as'.head?, Text.isNumeral a = false) :
    ∃ front back, cs = front ++ back ∧ Plain front as ∧ Plain back as' := by
  induction as generalizing cs with
  | nil => exact ⟨[], cs, rfl, .nil, h⟩
  | cons a as ih =>
      rw [List.cons_append] at h
      cases h with
      | @cons c cs _ hc h =>
          obtain ⟨front, back, rfl, hfront, hback⟩ := ih h
          exact ⟨c :: front, back, rfl, .cons hc hfront, hback⟩
      | @underscore c d cs _ v w hc hd h =>
          obtain ⟨front, back, heq, hfront, hback⟩ := ih h
          cases front with
          | nil =>
              -- what follows the underscore is a digit
              obtain rfl : d :: cs = back := heq
              have hnot := has _ (Option.mem_def.mpr hback.head?_eq)
              rw [(decimalValue?_eq_some_iff.mp hd).1] at hnot
              cases hnot
          | cons x front =>
              obtain ⟨rfl, rfl⟩ := List.cons.inj heq
              exact ⟨c :: '_' :: d :: front, back, rfl, .underscore hc hd hfront, hback⟩

theorem digitText (h : Plain cs as) (has : ∀ a ∈ as, Text.isNumeral a = true) :
    DigitText cs (as.map digitValue) := by
  induction h with
  | nil => exact .nil
  | cons _ _ ih =>
      rw [List.forall_mem_cons] at has
      exact .cons (decimalValue?_eq_some_iff.mpr ⟨has.1, rfl⟩) (ih has.2)
  | @underscore c d cs as v w hc hd h ih =>
      rw [List.forall_mem_cons] at has
      obtain ⟨rest, rfl⟩ := List.head?_eq_some_iff.mp h.head?_eq
      exact .underscore (decimalValue?_eq_some_iff.mpr ⟨has.1, rfl⟩) (ih has.2)

end Plain

theorem exists_plain_of_digitText {cs : List Char} {vs : List Nat} (h : DigitText cs vs) :
    ∃ as, Plain cs as ∧ (∀ a ∈ as, Text.isNumeral a = true) ∧ as.map digitValue = vs := by
  induction h with
  | nil => exact ⟨[], .nil, by simp, rfl⟩
  | @cons c cs v vs hc _ ih =>
      obtain ⟨as, hplain, has, rfl⟩ := ih
      obtain ⟨hnumeral, rfl⟩ := decimalValue?_eq_some_iff.mp hc
      exact ⟨asciiDigit c :: as, .cons (ne_underscore_of_decimalValue? hc) hplain,
        List.forall_mem_cons.mpr ⟨hnumeral, has⟩, rfl⟩
  | @underscore c cs v w vs hc h ih =>
      obtain ⟨as, hplain, has, hvalues⟩ := ih
      obtain ⟨hnumeral, rfl⟩ := decimalValue?_eq_some_iff.mp hc
      refine ⟨asciiDigit c :: as, ?_, List.forall_mem_cons.mpr ⟨hnumeral, has⟩,
        congrArg (_ :: ·) hvalues⟩
      cases h with
      | cons hd _ => exact .underscore hc hd hplain
      | underscore hd _ => exact .underscore hc hd hplain

/-! ## Parts of a number -/

theorem naturalOfDigits_eq (cs : List Char) :
    Text.naturalOfDigits cs = decimal (cs.map digitValue) := by
  induction cs using List.reverseRecOn with
  | nil => rfl
  | append_singleton cs c ih =>
      have hstep : Text.naturalOfDigits (cs ++ [c]) =
          10 * Text.naturalOfDigits cs + digitValue c := by
        rw [Text.naturalOfDigits, List.foldl_append]
        rfl
      rw [hstep, ih, decimal, decimal, List.map_append, List.reverse_append, List.map_singleton,
        List.reverse_singleton, List.singleton_append, Nat.ofDigits_cons, Nat.add_comm]

theorem exists_signText {cs rest : List Char} {negative : Bool}
    (h : splitSign cs = (negative, rest)) :
    ∃ sign, SignText sign negative ∧ cs = sign ++ rest := by
  unfold splitSign at h
  split at h
  · obtain ⟨rfl, rfl⟩ := Prod.mk.inj h
    exact ⟨['-'], .minus, rfl⟩
  · obtain ⟨rfl, rfl⟩ := Prod.mk.inj h
    exact ⟨['+'], .plus, rfl⟩
  · obtain ⟨rfl, rfl⟩ := Prod.mk.inj h
    exact ⟨[], .absent, rfl⟩

theorem Plain.exists_sign_append {cs sign rest : List Char} {negative : Bool}
    (h : Plain cs (sign ++ rest)) (hsign : SignText sign negative) :
    ∃ back, cs = sign ++ back ∧ Plain back rest := by
  cases hsign with
  | absent => exact ⟨cs, rfl, h⟩
  | plus => exact h.exists_cons (by decide)
  | minus => exact h.exists_cons (by decide)

theorem splitSign_of_signText {sign rest : List Char} {negative : Bool}
    (h : SignText sign negative) (hrest : ∀ c ∈ rest.head?, c ≠ '-' ∧ c ≠ '+') :
    splitSign (sign ++ rest) = (negative, rest) := by
  cases h with
  | plus => rfl
  | minus => rfl
  | absent =>
      rw [List.nil_append]
      unfold splitSign
      split
      · exact absurd rfl (hrest _ rfl).1
      · exact absurd rfl (hrest _ rfl).2
      · rfl

theorem plain_of_signText {sign : List Char} {negative : Bool} (h : SignText sign negative) :
    Plain sign sign := by
  cases h with
  | absent => exact .nil
  | plus => exact .cons (by decide) .nil
  | minus => exact .cons (by decide) .nil

theorem ne_sign_of_isNumeral {c : Char} (h : Text.isNumeral c = true) : c ≠ '-' ∧ c ≠ '+' := by
  constructor
  · rintro rfl
    exact absurd h (by decide)
  · rintro rfl
    exact absurd h (by decide)

theorem readExponent_power {c : Char} {digits : List Char} {sign : List Char} {negative : Bool}
    (hc : c = 'e' ∨ c = 'E') (hsign : SignText sign negative) (hne : digits ≠ [])
    (hdigits : ∀ a ∈ digits, Text.isNumeral a = true) :
    readExponent (c :: (sign ++ digits)) =
      some (signed negative (decimal (digits.map digitValue))) := by
  have hhead : ∀ c ∈ digits.head?, c ≠ '-' ∧ c ≠ '+' := fun c hc =>
    ne_sign_of_isNumeral (hdigits c (List.mem_of_head? hc))
  have hletter : (c = 'e' || c = 'E') = true := by simpa using hc
  have htest : (digits.isEmpty || !digits.all Text.isNumeral) = false := by
    simpa [hne] using hdigits
  rw [readExponent, if_pos hletter, splitSign_of_signText hsign hhead]
  dsimp only
  rw [htest, naturalOfDigits_eq]
  rfl

theorem exponentText_of_readExponent {cs as : List Char} {k : Int} (h : Plain cs as)
    (hread : readExponent as = some k) : ExponentText cs k := by
  cases as with
  | nil =>
      cases h
      cases hread
      exact .absent
  | cons a as =>
      rw [readExponent] at hread
      split at hread
      · rename_i hletter
        have hc : a = 'e' ∨ a = 'E' := by simpa using hletter
        have hnot : Text.isNumeral a = false := by
          rcases hc with rfl | rfl
          · decide
          · decide
        obtain ⟨back, rfl, hback⟩ := h.exists_cons hnot
        rcases hsplit : splitSign as with ⟨negative, digits⟩
        obtain ⟨sign, hsign, rfl⟩ := exists_signText hsplit
        obtain ⟨ds, rfl, hds⟩ := hback.exists_sign_append hsign
        rw [hsplit] at hread
        dsimp only at hread
        split at hread
        · cases hread
        · rename_i htest
          obtain ⟨hne, hdigits⟩ : digits ≠ [] ∧ ∀ a ∈ digits, Text.isNumeral a = true := by
            simpa using htest
          obtain rfl := Option.some.inj hread
          rw [naturalOfDigits_eq]
          exact .power hc hsign (hds.digitText hdigits) (by simpa using hne)
      · cases hread

theorem exists_plain_of_exponentText {cs : List Char} {k : Int} (h : ExponentText cs k) :
    ∃ as, Plain cs as ∧ readExponent as = some k ∧ ∀ a ∈ as.head?, a = 'e' ∨ a = 'E' := by
  cases h with
  | absent => exact ⟨[], .nil, rfl, by simp⟩
  | @power c sign cs negative vs hc hsign hdigits hne =>
      obtain ⟨as, hplain, hnumerals, rfl⟩ := exists_plain_of_digitText hdigits
      have hletter : Plain [c] [c] := by
        rcases hc with rfl | rfl
        · exact .cons (by decide) .nil
        · exact .cons (by decide) .nil
      refine ⟨c :: (sign ++ as), hletter.append ((plain_of_signText hsign).append hplain),
        readExponent_power hc hsign (by simpa using hne) hnumerals, ?_⟩
      intro a ha
      rw [← Option.some.inj ha]
      exact hc

/-! ## Numbers -/

/-- The digits after a point, if there is one, and what follows them. -/
def splitFraction (cs : List Char) : List Char × List Char :=
  if cs.head? = some '.' then
    (cs.tail.takeWhile Text.isNumeral, cs.tail.dropWhile Text.isNumeral)
  else ([], cs)

theorem readUnsigned_eq (negative : Bool) (cs : List Char) :
    readUnsigned negative cs =
      if (cs.takeWhile Text.isNumeral).isEmpty &&
          (splitFraction (cs.dropWhile Text.isNumeral)).1.isEmpty then none
      else
        (readExponent (splitFraction (cs.dropWhile Text.isNumeral)).2).map fun e =>
          ofDecimal negative
            (Text.naturalOfDigits (cs.takeWhile Text.isNumeral ++
              (splitFraction (cs.dropWhile Text.isNumeral)).1))
            (e - (splitFraction (cs.dropWhile Text.isNumeral)).1.length) := by
  rw [readUnsigned]
  dsimp only
  split
  · rename_i r hr
    rw [hr]
    rfl
  · rename_i hr
    have hhead : (cs.dropWhile Text.isNumeral).head? ≠ some '.' := by
      intro h
      obtain ⟨r, heq⟩ := List.head?_eq_some_iff.mp h
      exact hr r heq
    rw [splitFraction, if_neg hhead]

theorem splitFraction_point {fraction tail : List Char}
    (hfraction : ∀ a ∈ fraction, Text.isNumeral a = true)
    (htail : ∀ a ∈ tail.head?, Text.isNumeral a = false) :
    splitFraction ('.' :: (fraction ++ tail)) = (fraction, tail) := by
  rw [splitFraction, List.head?_cons, if_pos rfl, List.tail_cons,
    takeWhile_append_of_head? hfraction htail, dropWhile_append_of_head? hfraction htail]

/-- A mantissa and an exponent are read as what they say. -/
theorem readUnsigned_of_texts (negative : Bool) {mantissa tail : List Char}
    {whole fraction : List Nat} {k : Int} (hmantissa : MantissaText mantissa whole fraction)
    (hexponent : ExponentText tail k) :
    ∃ as, Plain (mantissa ++ tail) as ∧
      readUnsigned negative as =
        some (ofDecimal negative (decimal (whole ++ fraction)) (k - fraction.length)) ∧
      ∃ a ∈ as.head?, Text.isNumeral a = true ∨ a = '.' := by
  obtain ⟨ts, htail, hread, hletter⟩ := exists_plain_of_exponentText hexponent
  have hnot : ∀ a ∈ ts.head?, Text.isNumeral a = false := by
    intro a ha
    rcases hletter a ha with rfl | rfl
    · decide
    · decide
  cases hmantissa with
  | @whole _ _ h hne =>
      obtain ⟨ws, hplain, hws, rfl⟩ := exists_plain_of_digitText h
      have hpoint : ts.head? ≠ some '.' := by
        intro hdot
        rcases hletter _ hdot with h | h
        · cases h
        · cases h
      have hempty : ws.isEmpty = false := by simpa using hne
      refine ⟨ws ++ ts, hplain.append htail, ?_, ?_⟩
      · rw [readUnsigned_eq, takeWhile_append_of_head? hws hnot, dropWhile_append_of_head? hws hnot,
          splitFraction, if_neg hpoint, hread, hempty, List.append_nil, naturalOfDigits_eq,
          List.append_nil]
        rfl
      · obtain ⟨w, ws, rfl⟩ := List.exists_cons_of_ne_nil (by simpa using hne)
        exact ⟨w, rfl, Or.inl (hws w List.mem_cons_self)⟩
  | @point cs cs' vs vs' h h' hne =>
      obtain ⟨ws, hplain, hws, rfl⟩ := exists_plain_of_digitText h
      obtain ⟨fs, hplain', hfs, rfl⟩ := exists_plain_of_digitText h'
      have hempty : (ws.isEmpty && fs.isEmpty) = false := by
        simpa using hne
      have hpoint : ∀ a ∈ ('.' :: (fs ++ ts)).head?, Text.isNumeral a = false := by
        intro a ha
        rw [← Option.some.inj ha]
        decide
      have hdot : Plain ['.'] ['.'] := .cons (by decide) .nil
      refine ⟨ws ++ '.' :: (fs ++ ts), ?_, ?_, ?_⟩
      · rw [List.append_assoc]
        exact hplain.append (hdot.append (hplain'.append htail))
      · rw [readUnsigned_eq, takeWhile_append_of_head? hws hpoint,
          dropWhile_append_of_head? hws hpoint, splitFraction_point hfs hnot, hread, hempty,
          naturalOfDigits_eq, List.map_append, List.length_map]
        rfl
      · cases ws with
        | nil => exact ⟨'.', rfl, Or.inr rfl⟩
        | cons w ws => exact ⟨w, rfl, Or.inl (hws w List.mem_cons_self)⟩

/-- What is read without a sign is a mantissa and an exponent. -/
theorem exists_of_readUnsigned {negative : Bool} {cs as : List Char} {x : Binary64}
    (h : Plain cs as) (hread : readUnsigned negative as = some x) :
    ∃ mantissa tail whole fraction k, cs = mantissa ++ tail ∧
      MantissaText mantissa whole fraction ∧ ExponentText tail k ∧
        x = ofDecimal negative (decimal (whole ++ fraction)) (k - fraction.length) := by
  rw [readUnsigned_eq] at hread
  -- the text divides wherever a digit is followed by something else
  rw [← List.takeWhile_append_dropWhile (p := Text.isNumeral) (l := as)] at h
  obtain ⟨front, back, rfl, hfront, hback⟩ := h.exists_append fun _ => of_mem_head?_dropWhile
  have hwhole := hfront.digitText fun _ => List.mem_takeWhile_imp
  split at hread
  · cases hread
  · rename_i hempty
    obtain ⟨k, hk, rfl⟩ := Option.map_eq_some_iff.mp hread
    rw [naturalOfDigits_eq, List.map_append]
    by_cases hpoint : (as.dropWhile Text.isNumeral).head? = some '.'
    · obtain ⟨r, hr⟩ := List.head?_eq_some_iff.mp hpoint
      rw [hr] at hback hk hempty ⊢
      rw [splitFraction, List.head?_cons, if_pos rfl, List.tail_cons] at hk hempty ⊢
      obtain ⟨rest, rfl, hrest⟩ := hback.exists_cons (by decide)
      rw [← List.takeWhile_append_dropWhile (p := Text.isNumeral) (l := r)] at hrest
      obtain ⟨digits, tail, rfl, hdigits, htail⟩ := hrest.exists_append fun _ =>
        of_mem_head?_dropWhile
      refine ⟨front ++ '.' :: digits, tail, _, _, k, by simp, .point hwhole
        (hdigits.digitText fun _ => List.mem_takeWhile_imp) ?_,
        exponentText_of_readExponent htail hk, ?_⟩
      · simpa using hempty
      · rw [List.length_map]
    · rw [splitFraction, if_neg hpoint] at hk hempty ⊢
      refine ⟨front, back, _, [], k, rfl, .whole hwhole ?_,
        exponentText_of_readExponent hback hk, ?_⟩
      · simpa using hempty
      · rfl

/-- A number begins like no special word. -/
theorem readSpecial_eq_none (negative : Bool) {as : List Char}
    (h : ∃ a ∈ as.head?, Text.isNumeral a = true ∨ a = '.') : readSpecial negative as = none := by
  obtain ⟨a, ha, hclass⟩ := h
  obtain ⟨rest, rfl⟩ := List.head?_eq_some_iff.mp ha
  have hcode : a.toNat < 65 := by
    rcases hclass with hnumeral | rfl
    · have hrange := Text.isNumeral_iff.mp hnumeral
      omega
    · decide
  have hsame : Text.lowerChar a = a := by
    rw [Text.lowerChar, if_neg]
    rw [Text.isUpper_iff]
    omega
  have hword : ∀ word : String, (∀ c ∈ word.toList.head?, 65 ≤ c.toNat) →
      (String.ofList (a :: rest.map Text.lowerChar) == word) = false := by
    intro word hhead
    rw [beq_eq_false_iff_ne]
    rintro rfl
    rw [String.toList_ofList] at hhead
    exact absurd (hhead a rfl) (not_le.mpr hcode)
  rw [readSpecial, List.map_cons, hsame, hword "inf" (by simp), hword "infinity" (by simp),
    hword "nan" (by simp)]
  rfl

theorem isFinite_eq_false_of_readSpecial {negative : Bool} {as : List Char} {x : Binary64}
    (h : readSpecial negative as = some x) : x.isFinite = false := by
  unfold readSpecial at h
  dsimp only at h
  split at h
  · rw [← Option.some.inj h]
    rfl
  · split at h
    · rw [← Option.some.inj h]
      rfl
    · cases h

/-- A text is read as a finite number exactly if it is in the grammar, and as the nearest one. -/
theorem read?_eq_finite_iff {s : String} {negative : Bool} {m : Nat} {e : Int} :
    read? s = some (.finite negative m e) ↔
      ∃ digits k, FloatText s.toList negative digits k ∧ Nearest (digits * 10 ^ k) m e := by
  rw [read?, Option.bind_eq_some_iff]
  constructor
  · rintro ⟨as, hplain, hread⟩
    rcases hsplit : splitSign as with ⟨t, rest⟩
    obtain ⟨sign, hsign, rfl⟩ := exists_signText hsplit
    obtain ⟨back, heq, hback⟩ := (plain_iff.mp hplain).exists_sign_append hsign
    rw [hsplit] at hread
    dsimp only at hread
    have hunsigned : readUnsigned t rest = some (.finite negative m e) := by
      cases hspecial : readSpecial t rest with
      | none => simpa [hspecial] using hread
      | some x =>
          rw [hspecial] at hread
          obtain rfl : x = .finite negative m e := Option.some.inj hread
          cases isFinite_eq_false_of_readSpecial hspecial
    obtain ⟨mantissa, tail, whole, fraction, k, rfl, hmantissa, hexponent, hx⟩ :=
      exists_of_readUnsigned hback hunsigned
    obtain ⟨rfl, hnearest⟩ := ofDecimal_eq_finite_iff.mp hx.symm
    rw [heq]
    exact ⟨_, _, .mk hsign hmantissa hexponent, hnearest⟩
  · rintro ⟨digits, k, htext, hnearest⟩
    generalize s.toList = cs at htext
    cases htext with
    | @mk sign mantissa tail _ whole fraction k hsign hmantissa hexponent =>
        obtain ⟨as, hplain, hread, hhead⟩ := readUnsigned_of_texts negative hmantissa hexponent
        have hnosign : ∀ c ∈ as.head?, c ≠ '-' ∧ c ≠ '+' := by
          obtain ⟨a, ha, hclass⟩ := hhead
          intro c hc
          obtain rfl : a = c := Option.some.inj (ha.symm.trans hc)
          rcases hclass with hnumeral | rfl
          · exact ne_sign_of_isNumeral hnumeral
          · decide
        refine ⟨sign ++ as, plain_iff.mpr ((plain_of_signText hsign).append hplain), ?_⟩
        rw [splitSign_of_signText hsign hnosign]
        dsimp only
        rw [readSpecial_eq_none negative hhead, Option.orElse_none, hread, Option.some.injEq]
        exact ofDecimal_eq_finite_iff.mpr ⟨rfl, hnearest⟩

end Binary64

/-! ## Whole numbers -/

namespace IntegerText

variable {cs digits : List Char} {negative : Bool}

theorem splitSign_eq (h : IntegerText cs negative digits) :
    Binary64.splitSign cs = (negative, digits) := by
  cases h with
  | mk hsign hne hdigits =>
      exact Binary64.splitSign_of_signText hsign fun c hc =>
        Binary64.ne_sign_of_isNumeral (hdigits c (List.mem_of_head? hc))

theorem isIntegerText_eq (h : IntegerText cs negative digits) : isIntegerText cs = true := by
  rw [isIntegerText, h.splitSign_eq]
  cases h with
  | mk hsign hne hdigits => simpa [hne, Text.isNumeral_eq_isDigit] using hdigits

theorem integerOfText_eq (h : IntegerText cs negative digits) :
    integerOfText cs = signed negative (decimal (digits.map Binary64.digitValue)) := by
  rw [integerOfText, h.splitSign_eq, ← Binary64.naturalOfDigits_eq]
  rfl

end IntegerText

theorem exists_of_isIntegerText {cs : List Char} (h : isIntegerText cs = true) :
    ∃ negative digits, IntegerText cs negative digits := by
  rcases hsplit : Binary64.splitSign cs with ⟨negative, digits⟩
  obtain ⟨sign, hsign, rfl⟩ := Binary64.exists_signText hsplit
  rw [isIntegerText, hsplit] at h
  obtain ⟨hne, hdigits⟩ : digits ≠ [] ∧ ∀ c ∈ digits, Text.isNumeral c = true := by
    simpa using h
  exact ⟨negative, digits, .mk hsign hne hdigits⟩

end ClientForge
