import ClientForge.Document.Json
import ClientForge.Proofs.Basics
import ClientForge.Proofs.Text.Digit
import ClientForge.Text.Quoted
/-!
# String literals as JSON

A text that is written as an ASCII literal is read back from it (`parse_asciiLiteral`).  A literal
is put together character by character, and so it is read: each character costs the reader exactly
the characters of its escape (`stringFrom_asciiChar`), two escapes beyond the basic plane.
-/

namespace ClientForge
namespace Json

/-! ## Hexadecimal digits -/

theorem hexValue?_digitChar {d : Nat} (h : d < 16) : Text.hexValue? d.digitChar = some d := by
  have hdigits : ∀ d < 16, Text.hexValue? (Nat.digitChar d) = some d := by decide
  exact hdigits d h

theorem hexNumber?_append_singleton (cs : List Char) (c : Char) :
    hexNumber? (cs ++ [c]) =
      (hexNumber? cs).bind fun n => (Text.hexValue? c).map (n * 16 + ·) := by
  simp [hexNumber?, List.foldlM_append]

theorem hexNumber?_toDigits (n : Nat) : hexNumber? (Nat.toDigits 16 n) = some n := by
  induction n using Nat.strongRecOn with
  | ind n ih =>
      by_cases hn : n < 16
      · rw [Nat.toDigits_of_lt_base hn]
        simp [hexNumber?, hexValue?_digitChar hn]
      · have hvalue : Text.hexValue? (n % 16).digitChar = some (n % 16) :=
          hexValue?_digitChar (Nat.mod_lt n (by omega))
        rw [Nat.toDigits_of_base_le (by omega) (by omega), hexNumber?_append_singleton,
          ih (n / 16) (by omega), Option.bind_some, hvalue, Option.map_some]
        congr 1
        omega

/-- Padding does not change the number. -/
theorem hexNumber?_hex (width n : Nat) : hexNumber? (Text.hex width n) = some n := by
  have hpadded : ∀ k, hexNumber? (List.replicate k '0' ++ Nat.toDigits 16 n) = some n := by
    intro k
    induction k with
    | zero => exact hexNumber?_toDigits n
    | succ k ih => exact ih
  exact hpadded _

theorem length_hex {n : Nat} (h : n < 0x10000) : (Text.hex 4 n).length = 4 := by
  have hlength : (Nat.toDigits 16 n).length ≤ 4 :=
    (Nat.length_toDigits_le_iff (by omega) (by omega)).mpr h
  simp only [Text.hex, List.length_append, List.length_replicate]
  omega

theorem length_unitEscape {n : Nat} (h : n < 0x10000) : (Text.unitEscape n).length = 6 := by
  rw [Text.unitEscape, List.length_cons, List.length_cons, length_hex h]

section Digits

variable {n : Nat} {tail : List Char}

theorem take_hex_append (h : n < 0x10000) : (Text.hex 4 n ++ tail).take 4 = Text.hex 4 n :=
  List.take_left' (length_hex h)

theorem drop_hex_append (h : n < 0x10000) : (Text.hex 4 n ++ tail).drop 4 = tail :=
  List.drop_left' (length_hex h)

theorem four_lt_length_hex_append (h : n < 0x10000) (htail : tail ≠ []) :
    ¬(Text.hex 4 n ++ tail).length ≤ 4 := by
  have hpos := List.length_pos_iff.mpr htail
  rw [List.length_append, length_hex h]
  omega

theorem fourDigits?_hex_append (h : n < 0x10000) (htail : tail ≠ []) :
    fourDigits? (Text.hex 4 n ++ tail) = some n := by
  rw [fourDigits?, if_neg (four_lt_length_hex_append h htail), take_hex_append h, hexNumber?_hex]

theorem lowSurrogate?_unitEscape_append (h : n < 0x10000) (htail : tail ≠ []) :
    lowSurrogate? (Text.unitEscape n ++ tail) = some (some n) := by
  change (if (Text.hex 4 n ++ tail).length ≤ 4 then none
    else some (hexNumber? ((Text.hex 4 n ++ tail).take 4))) = _
  rw [if_neg (four_lt_length_hex_append h htail), take_hex_append h, hexNumber?_hex]

end Digits

/-! ## Characters of a literal -/

/-- The rest of an escape that has been read is skipped. -/
theorem stringFrom_skip (start offset : Nat) (cs tail : List Char) :
    stringFrom start offset cs.length (cs ++ tail) =
      stringFrom start (offset + cs.length) 0 tail := by
  induction cs generalizing offset with
  | nil => rfl
  | cons c rest ih =>
      rw [List.length_cons, List.cons_append, stringFrom, ih]
      congr 1
      omega

section Steps

variable (start offset : Nat) {tail : List Char}

theorem stringFrom_plain {c : Char} (hquote : c ≠ '"') (hcontrol : 0x1F < c.toNat)
    (hbackslash : c ≠ '\\') :
    stringFrom start offset 0 (c :: tail) =
      (stringFrom start (offset + 1) 0 tail).map (Prod.map (c :: ·) id) := by
  rw [stringFrom.eq_def]
  dsimp only
  rw [if_neg hquote, if_neg (by omega), if_pos hbackslash]
  rfl

theorem stringFrom_simple {e d : Char} (h : simpleEscape? e = some d) :
    stringFrom start offset 0 ('\\' :: e :: tail) =
      (stringFrom start (offset + 2) 0 tail).map (Prod.map (d :: ·) id) := by
  have hunit : e ≠ 'u' := by
    rintro rfl
    cases h
  have hskip := stringFrom_skip start (offset + 1) [e] tail
  rw [stringFrom, if_neg (by decide), if_neg (by decide), if_neg (by decide), h]
  · exact congrArg (Except.map _) hskip
  · exact hunit

/-- One unit is a character unless it is the first half of a pair. -/
theorem stringFrom_unit {n : Nat} (h : n < 0x10000) (hhigh : ¬(0xD800 ≤ n ∧ n ≤ 0xDBFF))
    (htail : tail ≠ []) :
    stringFrom start offset 0 (Text.unitEscape n ++ tail) =
      (stringFrom start (offset + 6) 0 tail).map (Prod.map (unitChar n :: ·) id) := by
  have hskip := stringFrom_skip start (offset + 1) ('u' :: Text.hex 4 n) tail
  rw [List.length_cons, length_hex h] at hskip
  change stringFrom start offset 0 ('\\' :: 'u' :: (Text.hex 4 n ++ tail)) = _
  rw [stringFrom, if_neg (by decide), if_neg (by decide), if_neg (by decide)]
  simp only [fourDigits?_hex_append h htail, Bool.and_eq_true, decide_eq_true_eq, if_neg hhigh]
  exact congrArg (Except.map _) hskip

/-- Two units that make a pair are one character. -/
theorem stringFrom_pair {n k : Nat} (hn : 0xD800 ≤ n ∧ n ≤ 0xDBFF) (hk : 0xDC00 ≤ k ∧ k ≤ 0xDFFF)
    (htail : tail ≠ []) :
    stringFrom start offset 0 (Text.unitEscape n ++ Text.unitEscape k ++ tail) =
      (stringFrom start (offset + 12) 0 tail).map
        (Prod.map (Char.ofNat (0x10000 + (n - 0xD800) * 0x400 + (k - 0xDC00)) :: ·) id) := by
  have hskip := stringFrom_skip start (offset + 1)
    ('u' :: (Text.hex 4 n ++ Text.unitEscape k)) tail
  rw [List.length_cons, List.length_append, Text.unitEscape, List.length_cons, List.length_cons,
    length_hex (by omega), length_hex (by omega), List.cons_append, List.append_assoc] at hskip
  have hlow : Text.unitEscape k ++ tail ≠ [] := by simp [Text.unitEscape]
  rw [List.append_assoc]
  change stringFrom start offset 0
    ('\\' :: 'u' :: (Text.hex 4 n ++ (Text.unitEscape k ++ tail))) = _
  rw [stringFrom, if_neg (by decide), if_neg (by decide), if_neg (by decide)]
  simp only [fourDigits?_hex_append (show n < 0x10000 by omega) hlow, Bool.and_eq_true,
    decide_eq_true_eq, if_pos hn, drop_hex_append (show n < 0x10000 by omega),
    lowSurrogate?_unitEscape_append (show k < 0x10000 by omega) htail, if_pos hk]
  exact congrArg (Except.map _) hskip

/-- A character is read back from what it is written as. -/
theorem stringFrom_asciiChar (c : Char) (htail : tail ≠ []) :
    stringFrom start offset 0 (Text.asciiChar c ++ tail) =
      (stringFrom start (offset + (Text.asciiChar c).length) 0 tail).map
        (Prod.map (c :: ·) id) := by
  have hvalid : c.toNat < 0xD800 ∨ 0xDFFF < c.toNat ∧ c.toNat < 0x110000 := c.valid
  unfold Text.asciiChar
  by_cases hquote : c = '"'
  · subst hquote
    exact stringFrom_simple start offset rfl
  rw [if_neg hquote]
  by_cases hbackslash : c = '\\'
  · subst hbackslash
    exact stringFrom_simple start offset rfl
  rw [if_neg hbackslash]
  by_cases hfeed : c = '\n'
  · subst hfeed
    exact stringFrom_simple start offset rfl
  rw [if_neg hfeed]
  by_cases hreturn : c = '\r'
  · subst hreturn
    exact stringFrom_simple start offset rfl
  rw [if_neg hreturn]
  by_cases htab : c = '\t'
  · subst htab
    exact stringFrom_simple start offset rfl
  rw [if_neg htab]
  by_cases hback : c.toNat = 0x08
  · rw [if_pos hback, ← Char.ofNat_toNat c, hback]
    exact stringFrom_simple start offset rfl
  rw [if_neg hback]
  by_cases hform : c.toNat = 0x0C
  · rw [if_pos hform, ← Char.ofNat_toNat c, hform]
    exact stringFrom_simple start offset rfl
  rw [if_neg hform]
  simp only [Bool.and_eq_true, decide_eq_true_eq]
  by_cases hplain : 0x20 ≤ c.toNat ∧ c.toNat ≤ 0x7E
  · rw [if_pos hplain]
    exact stringFrom_plain start offset hquote (by omega) hbackslash
  rw [if_neg hplain]
  by_cases hbasic : c.toNat < 0x10000
  · have hchar : unitChar c.toNat = c := by
      rw [unitChar, if_neg (by simp; omega), Char.ofNat_toNat]
    rw [if_pos hbasic, stringFrom_unit start offset hbasic (by omega) htail, hchar,
      length_unitEscape hbasic]
  rw [if_neg hbasic]
  -- the two units are below and above what is added to them
  have hjoined : 0x10000 + (0xD800 + (c.toNat - 0x10000) / 0x400 - 0xD800) * 0x400 +
      (0xDC00 + (c.toNat - 0x10000) % 0x400 - 0xDC00) = c.toNat := by
    omega
  rw [stringFrom_pair start offset ⟨by omega, by omega⟩ ⟨by omega, by omega⟩ htail, hjoined,
    Char.ofNat_toNat, List.length_append, length_unitEscape (by omega),
    length_unitEscape (by omega)]

end Steps

/-! ## Literals -/

/-- A text is read back up to the quote that ends its literal. -/
theorem stringFrom_flatMap_asciiChar (start offset : Nat) (cs rest : List Char) :
    stringFrom start offset 0 (cs.flatMap Text.asciiChar ++ '"' :: rest) =
      .ok (cs, ⟨offset + (cs.flatMap Text.asciiChar).length + 1, rest⟩) := by
  induction cs generalizing offset with
  | nil => simp [stringFrom.eq_def]
  | cons c cs ih =>
      have htail : cs.flatMap Text.asciiChar ++ '"' :: rest ≠ [] := by simp
      rw [List.flatMap_cons, List.append_assoc, stringFrom_asciiChar start offset c htail, ih,
        List.length_append, ← Nat.add_assoc]
      rfl

theorem toList_asciiLiteral (s : String) :
    (Text.asciiLiteral s).toList = '"' :: (s.toList.flatMap Text.asciiChar ++ ['"']) := by
  rw [Text.asciiLiteral, String.toList_ofList, List.cons_append]

theorem string_asciiLiteral (s : String) :
    string ⟨0, (Text.asciiLiteral s).toList⟩ =
      .ok (s, ⟨0 + 1 + (s.toList.flatMap Text.asciiChar).length + 1, []⟩) := by
  rw [string, toList_asciiLiteral, List.drop_one, List.tail_cons, stringFrom_flatMap_asciiChar]
  exact congrArg (fun text => Except.ok (text, _)) String.ofList_toList

/-- The document of a string literal is its text. -/
theorem parse_asciiLiteral (s : String) : parse (Text.asciiLiteral s).toList = .ok (.str s) := by
  have hspace : Cursor.skipSpace ⟨0, (Text.asciiLiteral s).toList⟩ =
      ⟨0, (Text.asciiLiteral s).toList⟩ := by
    rw [toList_asciiLiteral]
    rfl
  have hhead : (Text.asciiLiteral s).toList.head? = some '"' := by
    rw [toList_asciiLiteral, List.head?_cons]
  rw [parse, hhead, if_neg (by decide), hspace, value, hhead]
  dsimp only
  rw [string_asciiLiteral]
  rfl

end Json
end ClientForge
