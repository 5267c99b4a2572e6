import Rbo.Foundation.JsonRoundTrip

/-!
# The characters of a JSON text

`JSON.stringify` writes control characters of a string as escapes, so that its
text is one line without a control character, whatever the value holds.
-/

namespace Rbo.Foundation

open Json

/-- A text without control characters below the space. -/
def Printed (text : List Char) : Prop :=
  ∀ char ∈ text, 0x20 ≤ char.toNat

instance (text : List Char) : Decidable (Printed text) :=
  List.decidableBAll _ text

theorem printed_append {first second : List Char} :
    Printed (first ++ second) ↔ Printed first ∧ Printed second :=
  List.forall_mem_append

theorem printed_cons {char : Char} {text : List Char} :
    Printed (char :: text) ↔ 0x20 ≤ char.toNat ∧ Printed text :=
  List.forall_mem_cons

theorem printed_nil : Printed [] :=
  nofun

theorem Printed.subset {text part : List Char} (printed : Printed text)
    (inside : part ⊆ text) : Printed part :=
  fun char member => printed char (inside member)

theorem printed_digits {text : List Char}
    (digits : ∀ char ∈ text, char.isDigit = true) : Printed text := by
  intro char member
  have digit := digits char member
  simp only [Char.isDigit, Bool.and_eq_true, decide_eq_true_eq] at digit
  have low : 48 ≤ char.val.toNat := UInt32.le_iff_toNat_le.mp digit.1
  exact Nat.le_trans (by decide) low

theorem printed_toDigits (value : Nat) : Printed (Nat.toDigits 10 value) :=
  printed_digits fun _ => isDigit_of_mem_stringifyNat

theorem Decimal.printed_text (number : Decimal) : Printed number.text := by
  have digits := printed_toDigits number.digits
  have zeros : ∀ count, Printed (List.replicate count '0') := by
    intro count char member
    rw [List.eq_of_mem_replicate member]
    decide
  unfold Decimal.text
  dsimp only
  split
  · exact printed_append.mpr ⟨digits, zeros _⟩
  · split
    · refine printed_append.mpr ⟨digits.subset (List.take_subset _ _), ?_⟩
      exact printed_cons.mpr ⟨by decide, digits.subset (List.drop_subset _ _)⟩
    · split
      · exact printed_cons.mpr ⟨by decide, printed_cons.mpr ⟨by decide,
          printed_append.mpr ⟨zeros _, digits⟩⟩⟩
      · refine printed_append.mpr ⟨printed_append.mpr
          ⟨digits.subset (List.take_subset _ _), ?_⟩, ?_⟩
        · split
          · exact printed_nil
          · exact printed_cons.mpr ⟨by decide,
              digits.subset (List.drop_subset _ _)⟩
        · refine printed_cons.mpr ⟨by decide, printed_cons.mpr
            ⟨?_, printed_toDigits _⟩⟩
          split <;> decide

theorem printed_null : Printed "null".toList := by
  decide

theorem printed_number (number : JsNumber) : Printed number.text := by
  cases number with
  | nan => exact printed_null
  | infinity negative => exact printed_null
  | zero negative => exact printed_cons.mpr ⟨by decide, printed_nil⟩
  | finite negative magnitude =>
    refine printed_append.mpr ⟨?_, magnitude.printed_text⟩
    split
    · exact printed_cons.mpr ⟨by decide, printed_nil⟩
    · exact printed_nil

theorem printed_hexDigit (value : Nat) : 0x20 ≤ (hexDigit value).toNat := by
  have all : ∀ digit : Fin 16, 0x20 ≤ (Nat.digitChar digit).toNat := by
    decide
  exact all ⟨value % 16, Nat.mod_lt _ (by decide)⟩

theorem printed_escapeUnit (unit : UInt16) : Printed (escapeUnit unit) := by
  have pair : ∀ char : Char, 0x20 ≤ char.toNat → Printed ['\\', char] :=
    fun char printed => printed_cons.mpr ⟨by decide,
      printed_cons.mpr ⟨printed, printed_nil⟩⟩
  unfold escapeUnit
  iterate 7
    split
    · exact pair _ (by decide)
  split
  · exact printed_append.mpr ⟨pair 'u' (by decide),
      printed_cons.mpr ⟨printed_hexDigit _,
        printed_cons.mpr ⟨printed_hexDigit _,
          printed_cons.mpr ⟨printed_hexDigit _,
            printed_cons.mpr ⟨printed_hexDigit _, printed_nil⟩⟩⟩⟩⟩
  · rename_i plain
    rw [not_or, not_or] at plain
    obtain ⟨low, notHigh, notLow⟩ := plain
    refine printed_cons.mpr ⟨?_, printed_nil⟩
    rw [toNat_single notHigh notLow]
    exact UInt16.le_iff_toNat_le.mp (UInt16.not_lt.mp low)

theorem printed_quoteBody (value : JsString) : Printed (quoteBody value) := by
  induction value using quoteBody.induct with
  | case1 => exact printed_nil
  | case2 unit => exact printed_escapeUnit unit
  | case3 first second rest both inductionHypothesis =>
    rw [quoteBody, if_pos both]
    refine printed_cons.mpr ⟨?_, inductionHypothesis⟩
    rw [Bool.and_eq_true] at both
    exact Nat.le_trans (by decide) (charUnits_pair both.1 both.2).1
  | case4 first second rest alone inductionHypothesis =>
    rw [quoteBody, if_neg alone]
    exact printed_append.mpr
      ⟨printed_escapeUnit first, inductionHypothesis⟩

theorem printed_quote (value : JsString) : Printed (quote value) :=
  printed_append.mpr ⟨printed_cons.mpr ⟨by decide, printed_quoteBody value⟩,
    printed_cons.mpr ⟨by decide, printed_nil⟩⟩

theorem printed_bracketed {opening closing : Char}
    {texts : List (List Char)} (opens : 0x20 ≤ opening.toNat)
    (closes : 0x20 ≤ closing.toNat) (all : ∀ text ∈ texts, Printed text) :
    Printed (bracketed opening closing texts) := by
  refine printed_cons.mpr ⟨opens, printed_append.mpr
    ⟨?_, printed_cons.mpr ⟨closes, printed_nil⟩⟩⟩
  induction texts with
  | nil => exact printed_nil
  | cons text rest inductionHypothesis =>
    rw [List.forall_mem_cons] at all
    cases rest with
    | nil =>
      rw [List.intercalate_singleton]
      exact all.1
    | cons next others =>
      rw [List.intercalate_cons_cons, List.append_assoc]
      exact printed_append.mpr ⟨all.1, printed_cons.mpr
        ⟨by decide, inductionHypothesis all.2⟩⟩

/-- What `JSON.stringify` writes has no control characters. -/
theorem printed_stringify {value : JsValue} {text : List Char}
    (written : jsonStringify value = some text) : Printed text := by
  induction value using JsValue.induct generalizing text with
  | undefined => cases written
  | null =>
    cases written
    exact printed_null
  | bool value =>
    cases written
    cases value with
    | false => exact (by decide : Printed "false".toList)
    | true => exact (by decide : Printed "true".toList)
  | number value =>
    cases written
    exact printed_number value
  | string value =>
    cases written
    exact printed_quote value
  | array items induction =>
    cases written
    refine printed_bracketed (by decide) (by decide) ?_
    rw [itemTexts_eq]
    intro text member
    obtain ⟨item, inside, rfl⟩ := List.mem_map.mp member
    cases read : jsonStringify item with
    | none => exact printed_null
    | some text => exact induction item inside read
  | object members induction =>
    cases written
    refine printed_bracketed (by decide) (by decide) ?_
    rw [memberTexts_eq]
    intro text member
    obtain ⟨pair, inside, rfl⟩ := List.mem_map.mp member
    refine printed_append.mpr ⟨printed_quote _, printed_cons.mpr
      ⟨by decide, ?_⟩⟩
    cases read : jsonStringify pair.2 with
    | none => exact printed_nil
    | some text =>
      exact induction pair (List.mem_of_mem_filter inside) read

end Rbo.Foundation
