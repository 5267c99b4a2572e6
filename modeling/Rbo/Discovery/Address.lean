import Mathlib.Data.Nat.Digits.Defs
import Rbo.Foundation.Texts

/-!
# Addresses of discovered controllers

The tests on textual addresses, and the address that an agent dials when a
controller advertises several.
-/

namespace Rbo.Discovery

open Rbo.Foundation

abbrev Text := List Char

/-- `toLowerCase` of a text in ASCII. -/
def lower (text : Text) : Text :=
  text.map Char.toLower

/-- `value.replace(/^::ffff:/i, '')`. -/
def stripMapped (value : Text) : Text :=
  if lower (value.take 7) = [':', ':', 'f', 'f', 'f', 'f', ':'] then
    value.drop 7
  else
    value

def isIpv4Address (value : Text) : Bool :=
  let parts := value.splitOn '.'
  parts.length = 4 && parts.all fun part =>
    part ≠ [] && decide (part.length ≤ 3) && part.all Char.isDigit &&
      decide (Nat.ofDigitChars 10 part 0 ≤ 255)

/-- A character of `[0-9a-fA-F:]`. -/
def isHexOrColon (char : Char) : Bool :=
  char.isDigit || ('a' ≤ char && char ≤ 'f') || ('A' ≤ char && char ≤ 'F') ||
    char = ':'

def isIpv6Address (value : Text) : Bool :=
  value.contains ':' && value.all isHexOrColon

def isIpAddress (value : Text) : Bool :=
  isIpv4Address (stripMapped value) || isIpv6Address value ||
    isIpv4Address value

/-- Unqualified names become `name.local`. -/
def normalizeMdnsHost (host : Text) : Text :=
  let trimmed := ((trim host).reverse.dropWhile (· = '.')).reverse
  if trimmed = [] then
    trimmed
  else if isIpAddress trimmed then
    trimmed
  else if trimmed.contains '.' then
    trimmed
  else
    trimmed ++ ['.', 'l', 'o', 'c', 'a', 'l']

def isRoutableIpAddress (value : Text) : Bool :=
  let normalized := stripMapped value
  isIpAddress normalized &&
    !(normalized = ['0', '.', '0', '.', '0', '.', '0'] ||
      normalized = [':', ':'] || normalized = [':', ':', '1'] ||
      ['1', '2', '7', '.'].isPrefixOf normalized ||
      ['1', '6', '9', '.', '2', '5', '4', '.'].isPrefixOf normalized ||
      ['f', 'e', '8', '0', ':'].isPrefixOf (lower normalized))

/-- `/^172\.(1[6-9]|2[0-9]|3[0-1])\./`. -/
def isLan172 (address : Text) : Bool :=
  (List.range' 16 16).any fun second =>
    (['1', '7', '2', '.'] ++ Nat.toDigits 10 second ++ ['.']).isPrefixOf address

/-- The order in which routable addresses are preferred. -/
def preferred (routable : List Text) : Option Text :=
  let lan172 := routable.filter isLan172
  routable.find? ['1', '9', '2', '.', '1', '6', '8', '.'].isPrefixOf <|>
    routable.find? ['1', '0', '.'].isPrefixOf <|>
    lan172.find? (· ≠ ['1', '7', '2', '.', '1', '7', '.', '0', '.', '1']) <|>
    lan172.head? <|>
    routable.find? (fun address => !address.contains ':') <|>
    routable.head?

/-- The address of `selectBestAddress`, none when it falls back to the name. -/
def selectAddress (addresses : List Text) (responderAddress : Option Text) :
    Option Text :=
  (responderAddress.map stripMapped).filter isRoutableIpAddress <|>
    preferred (addresses.filter isRoutableIpAddress)

def selectBestAddress (addresses : List Text) (fallbackHost : Text)
    (responderAddress : Option Text) : Text :=
  (selectAddress addresses responderAddress).getD
    (normalizeMdnsHost fallbackHost)

/-! ## The characters of addresses -/

theorem toLower_cases (char : Char) :
    char.toLower = char ∨ 65 ≤ char.toNat ∧ char.toNat ≤ 90 ∧
      char.toLower.toNat = char.toNat + 32 := by
  unfold Char.toLower
  split
  · next upper =>
    have least : 65 ≤ char.val.toNat := upper.1
    have most : char.val.toNat ≤ 90 := upper.2
    have gap : ('a'.val - 'A'.val).toNat = 32 := rfl
    refine Or.inr ⟨least, most, ?_⟩
    change (char.val + ('a'.val - 'A'.val)).toNat = char.val.toNat + 32
    rw [UInt32.toNat_add, gap]
    omega
  · exact Or.inl rfl

theorem toLower_of_small {char : Char} (small : char.toNat < 65) :
    char.toLower = char := by
  rcases toLower_cases char with same | ⟨upper, -⟩
  · exact same
  · omega

/-- Only letters have another lower case. -/
theorem eq_of_toLower {char other : Char} (small : other.toNat < 97)
    (same : char.toLower = other) : char = other := by
  rcases toLower_cases char with kept | ⟨upper, -, raised⟩
  · exact kept.symm.trans same
  · rw [same] at raised
    omega

theorem eq_of_toLower_f {char : Char} (same : char.toLower = 'f') :
    char = 'f' ∨ char = 'F' := by
  rcases toLower_cases char with kept | ⟨-, -, raised⟩
  · exact Or.inl (kept.symm.trans same)
  · rw [same] at raised
    have code : char.toNat = 'F'.toNat := by
      change 102 = char.toNat + 32 at raised
      change char.toNat = 70
      omega
    exact Or.inr (Char.toNat_inj.mp code)

/-- Four numbers up to 255, as they are printed, with dots between them. -/
def Dotted (text : Text) : Prop :=
  ∃ first second third fourth : Fin 256, text =
    Nat.toDigits 10 first ++ '.' :: (Nat.toDigits 10 second ++ '.' ::
      (Nat.toDigits 10 third ++ '.' :: Nat.toDigits 10 fourth))

/-- An IPv4 address, plain or mapped, is dotted; other addresses have
colons. -/
def Address (text : Text) : Prop :=
  Dotted (stripMapped text) ∨ ':' ∈ stripMapped text

theorem Dotted.small {text : Text} (dotted : Dotted text) {char : Char}
    (member : char ∈ text) : char.toNat < 58 := by
  obtain ⟨first, second, third, fourth, rfl⟩ := dotted
  have digits : ∀ number : Nat, char ∈ Nat.toDigits 10 number →
      char.toNat < 58 := by
    intro number inDigits
    have digit := Nat.isDigit_of_mem_toDigits (by decide) (by decide) inDigits
    have most : char.toNat ≤ 57 := (Char.isDigit_iff_toNat.mp digit).2
    omega
  simp only [List.mem_append, List.mem_cons] at member
  rcases member with here | rfl | here | rfl | here | rfl | here
  all_goals first | exact digits _ here | decide

theorem Dotted.bare {text : Text} (dotted : Dotted text) : ':' ∉ text :=
  fun member => absurd (dotted.small member) (by decide)

theorem Dotted.lower_eq {text : Text} (dotted : Dotted text) :
    lower text = text := by
  have same : ∀ char ∈ text, char.toLower = char := fun char member =>
    toLower_of_small (Nat.lt_trans (dotted.small member) (by decide))
  exact (List.map_congr_left same).trans (List.map_id _)

/-- A character that occurs in addresses. -/
def isAddressChar (char : Char) : Bool :=
  isHexOrColon char || char = '.'

theorem isAddressChar_stripMapped {value : Text}
    (rest : ∀ char ∈ stripMapped value, isAddressChar char = true) :
    ∀ char ∈ value, isAddressChar char = true := by
  unfold stripMapped at rest
  split at rest
  · next mapped =>
    intro char member
    rw [← List.take_append_drop 7 value, List.mem_append] at member
    rcases member with here | there
    · have lowered : char.toLower ∈ [':', ':', 'f', 'f', 'f', 'f', ':'] :=
        mapped ▸ List.mem_map_of_mem here
      have form : char.toLower = ':' ∨ char.toLower = 'f' := by
        simp only [List.mem_cons, List.not_mem_nil, or_false] at lowered
        tauto
      rcases form with colon | f
      · rw [eq_of_toLower (by decide) colon]
        rfl
      · rcases eq_of_toLower_f f with rfl | rfl <;> rfl
    · exact rest char there
  · exact rest

theorem forall_mem_intercalate {property : Char → Prop} {separator : Char}
    (separates : property separator) :
    ∀ {parts : List Text}, (∀ part ∈ parts, ∀ char ∈ part, property char) →
      ∀ char ∈ [separator].intercalate parts, property char
  | [], _, char, member => absurd member List.not_mem_nil
  | [part], all, char, member =>
    all part List.mem_cons_self char
      (List.intercalate_singleton.subst (motive := (char ∈ ·)) member)
  | part :: next :: rest, all, char, member => by
    rw [List.intercalate_cons_cons, List.append_assoc, List.mem_append,
      List.mem_append, List.mem_singleton] at member
    rcases member with here | rfl | there
    · exact all part List.mem_cons_self char here
    · exact separates
    · exact forall_mem_intercalate separates
        (fun part later => all part (List.mem_cons_of_mem _ later)) char there

theorem isAddressChar_of_isIpv4Address {value : Text}
    (ipv4 : isIpv4Address value = true) :
    ∀ char ∈ value, isAddressChar char = true := by
  have parts := List.all_eq_true.mp (Bool.and_eq_true_iff.mp ipv4).2
  have whole : ['.'].intercalate (value.splitOn '.') = value :=
    List.intercalate_splitOn '.'
  rw [← whole]
  refine forall_mem_intercalate (by decide) fun part here char inPart => ?_
  have all := parts part here
  simp only [Bool.and_eq_true, List.all_eq_true] at all
  simp [isAddressChar, isHexOrColon, all.1.2 char inPart]

theorem isAddressChar_of_isRoutable {value : Text}
    (routable : isRoutableIpAddress value = true) :
    ∀ char ∈ value, isAddressChar char = true := by
  have ip : isIpAddress (stripMapped value) = true :=
    (Bool.and_eq_true_iff.mp routable).1
  refine isAddressChar_stripMapped ?_
  simp only [isIpAddress, Bool.or_eq_true] at ip
  rcases ip with (mapped | ipv6) | ipv4
  · exact isAddressChar_stripMapped (isAddressChar_of_isIpv4Address mapped)
  · intro char member
    have hex := List.all_eq_true.mp (Bool.and_eq_true_iff.mp ipv6).2 char member
    simp [isAddressChar, hex]
  · exact isAddressChar_of_isIpv4Address ipv4

/-- Only texts that begin with a colon are mapped. -/
theorem stripMapped_of_head {value : Text} (head : value.head? ≠ some ':') :
    stripMapped value = value := by
  refine if_neg fun mapped => ?_
  cases value with
  | nil => cases mapped
  | cons first rest =>
    have colon : first.toLower = ':' := (List.cons.inj mapped).1
    exact head (congrArg some (eq_of_toLower (by decide) colon))

theorem stripMapped_of_bare {value : Text} (bare : ':' ∉ value) :
    stripMapped value = value :=
  stripMapped_of_head fun head => bare (List.mem_of_head? head)

theorem lower_eq_colon {value : Text} (member : ':' ∈ lower value) :
    ':' ∈ value := by
  obtain ⟨char, there, same⟩ := List.mem_map.mp member
  exact eq_of_toLower (by decide) same ▸ there

/-! ## Routable addresses -/

theorem not_isRoutable_of_bracket {value : Text}
    (bracket : value.head? = some '[') :
    isRoutableIpAddress value = false := by
  refine Bool.eq_false_iff.mpr fun routable => ?_
  have := isAddressChar_of_isRoutable routable '[' (List.mem_of_head? bracket)
  exact absurd this (by decide)

/-- What is advertised is tested without its mapping; for a dotted address
this is the test that the selection makes. -/
theorem isRoutable_stripMapped {value : Text} (dotted : Dotted (stripMapped value)) :
    isRoutableIpAddress (stripMapped value) = isRoutableIpAddress value := by
  unfold isRoutableIpAddress
  rw [stripMapped_of_bare dotted.bare]

theorem mem_of_preferred {routable : List Text} {address : Text}
    (chosen : preferred routable = some address) : address ∈ routable := by
  simp only [preferred, Option.orElse_eq_orElse, Option.orElse_eq_or,
    Option.or_eq_some_iff] at chosen
  rcases chosen with lan | ⟨-, lan | ⟨-, lan | ⟨-, lan | ⟨-, any | ⟨-, any⟩⟩⟩⟩⟩
  · exact List.mem_of_find?_eq_some lan
  · exact List.mem_of_find?_eq_some lan
  · exact List.mem_of_mem_filter (List.mem_of_find?_eq_some lan)
  · exact List.mem_of_mem_filter (List.mem_of_head? lan)
  · exact List.mem_of_find?_eq_some any
  · exact List.mem_of_head? any

theorem preferred_eq_none {routable : List Text}
    (nothing : preferred routable = none) : routable = [] := by
  simp only [preferred, Option.orElse_eq_orElse, Option.orElse_eq_or,
    Option.or_eq_none_iff] at nothing
  exact List.head?_eq_none_iff.mp nothing.2.2.2.2.2

section Selection

variable {addresses : List Text} {responder : Option Text} {address : Text}

def advertisedAddresses (addresses : List Text) (responder : Option Text) :
    List Text :=
  addresses ++ responder.toList

/-- What is selected is the text of an advertised address, without its mapping
when it is the responder's. -/
theorem selectAddress_eq_some
    (chosen : selectAddress addresses responder = some address) :
    isRoutableIpAddress address = true ∧
      ∃ value ∈ advertisedAddresses addresses responder,
        address = value ∨ address = stripMapped value := by
  unfold selectAddress at chosen
  simp only [Option.orElse_eq_orElse, Option.orElse_eq_or,
    Option.or_eq_some_iff, Option.filter_eq_some_iff, Option.map_eq_some_iff]
    at chosen
  rcases chosen with ⟨⟨value, rfl, rfl⟩, routable⟩ | ⟨-, chosen⟩
  · exact ⟨routable, value, List.mem_append_right _ (by simp), Or.inr rfl⟩
  · have listed := List.mem_filter.mp (mem_of_preferred chosen)
    exact ⟨listed.2, address, List.mem_append_left _ listed.1, Or.inl rfl⟩

theorem selectAddress_eq_none
    (nothing : selectAddress addresses responder = none) :
    ∀ value ∈ advertisedAddresses addresses responder,
      Dotted (stripMapped value) →
      isRoutableIpAddress (stripMapped value) = false := by
  intro value member dotted
  unfold selectAddress at nothing
  simp only [Option.orElse_eq_orElse, Option.orElse_eq_or,
    Option.or_eq_none_iff, Option.filter_eq_none_iff] at nothing
  obtain ⟨responds, listed⟩ := nothing
  rcases List.mem_append.mp member with there | responding
  · rw [isRoutable_stripMapped dotted]
    exact Bool.eq_false_iff.mpr
      (List.filter_eq_nil_iff.mp (preferred_eq_none listed) value there)
  · have is : responder = some value := Option.mem_toList.mp responding
    exact Bool.eq_false_iff.mpr
      (responds (stripMapped value) (by rw [is]; rfl))

end Selection

end Rbo.Discovery
