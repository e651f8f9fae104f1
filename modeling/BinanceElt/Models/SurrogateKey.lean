import BinanceElt.Sql.Calendar
import Mathlib.Data.List.Basic
import Mathlib.Data.Rat.Defs
import Mathlib.Logic.Function.Basic

/-!
# Surrogate keys

Every id of a model is `dbt_utils.generate_surrogate_key` of some of its
columns.  The macro hashes the listed fields; all the models rely on is that
different fields give different keys.

## Main results

* `SurrogateKey.eq_iff` — keys are equal exactly when their fields are.
* `listing` — a key function that can be evaluated: the fields themselves,
  written one after the other.
-/

namespace BinanceElt

open Sql (Timestamp)

/-- A listed field of `dbt_utils.generate_surrogate_key`; ids of other tables
are hashed values themselves.  A column has one type, so that it does no harm
that this key tells the types apart. -/
inductive KeyField (Id : Type) where
  | null
  | text (s : String)
  | id (i : Id)
  | int (n : ℤ)
  | number (q : ℚ)
  | timestamp (t : Timestamp)
deriving DecidableEq, Repr

/-- The field of a nullable column. -/
def KeyField.ofOption {Id α : Type} (field : α → KeyField Id) :
    Option α → KeyField Id
  | none => .null
  | some a => field a

/-- `dbt_utils.generate_surrogate_key` is package code: the models rely on it
only through the injectivity of the key in the listed fields.  That the text the
macro hashes has this property, for the columns of this project, is shown in
`Verified/UnambiguousKeys.lean`; what is left to assume is that MD5 does not
collide. -/
structure SurrogateKey (Id : Type) where
  generateSurrogateKey : List (KeyField Id) → Id
  injective : Function.Injective generateSurrogateKey

section KeyField

variable {Id : Type}

@[simp] theorem KeyField.ofOption_text_inj {x y : Option String} :
    (KeyField.ofOption .text x : KeyField Id) = .ofOption .text y ↔ x = y := by
  cases x <;> cases y <;> simp [KeyField.ofOption]

@[simp] theorem KeyField.ofOption_number_inj {x y : Option ℚ} :
    (KeyField.ofOption .number x : KeyField Id) = .ofOption .number y ↔ x = y := by
  cases x <;> cases y <;> simp [KeyField.ofOption]

@[simp] theorem KeyField.ofOption_timestamp_inj {x y : Option Timestamp} :
    (KeyField.ofOption .timestamp x : KeyField Id) = .ofOption .timestamp y ↔
      x = y := by
  cases x <;> cases y <;> simp [KeyField.ofOption]

@[simp] theorem SurrogateKey.eq_iff (K : SurrogateKey Id)
    {fields fields' : List (KeyField Id)} :
    K.generateSurrogateKey fields = K.generateSurrogateKey fields' ↔
      fields = fields' :=
  K.injective.eq_iff

end KeyField

/-! ## Keys that list their fields -/

section Listing

/-- A field as a self-delimiting word: a tag, then the value, preceded by its
length where the tag does not fix it. -/
def KeyField.word : KeyField (List ℤ) → List ℤ
  | .null => [0]
  | .text s => 1 :: s.length :: s.toList.map fun c => (c.toNat : ℤ)
  | .id i => 2 :: i.length :: i
  | .int n => [3, n]
  | .number q => [4, q.num, q.den]
  | .timestamp t => [5, t]

/-- A text is determined by its code points. -/
private theorem codePoints_injective : Function.Injective fun c : Char => (c.toNat : ℤ) :=
  fun _ _ h => Char.toNat_inj.mp (Int.ofNat.inj h)

/-- The word of a field is recognised whatever follows it. -/
theorem KeyField.word_append_inj {f g : KeyField (List ℤ)} {rest rest' : List ℤ}
    (h : f.word ++ rest = g.word ++ rest') : f = g ∧ rest = rest' := by
  cases f <;> cases g <;>
    simp only [word, List.cons_append, List.nil_append, List.cons.injEq, true_and,
      reduceCtorEq, false_and] at h ⊢
  case null.null => exact h
  case text.text s t =>
      obtain ⟨hlen, htext⟩ := h
      have hlength : (s.toList.map fun c => (c.toNat : ℤ)).length =
          (t.toList.map fun c => (c.toNat : ℤ)).length := by
        rw [List.length_map, List.length_map, String.length_toList, String.length_toList]
        exact_mod_cast hlen
      obtain ⟨hchars, hrest⟩ := List.append_inj htext hlength
      exact ⟨congrArg _ (String.toList_inj.mp (codePoints_injective.list_map hchars)), hrest⟩
  case id.id i j =>
      obtain ⟨hlen, hid⟩ := h
      obtain ⟨rfl, hrest⟩ := List.append_inj hid (by exact_mod_cast hlen)
      exact ⟨rfl, hrest⟩
  case int.int => exact ⟨congrArg _ h.1, h.2⟩
  case number.number p q =>
      obtain ⟨hnum, hden, hrest⟩ := h
      exact ⟨congrArg _ (Rat.ext hnum (by exact_mod_cast hden)), hrest⟩
  case timestamp.timestamp => exact ⟨congrArg _ h.1, h.2⟩
  -- the tags differ
  all_goals exact absurd h.1 (by decide)

/-- Words are non-empty, so that a list of fields is determined by its words. -/
theorem KeyField.word_ne_nil (f : KeyField (List ℤ)) : f.word ≠ [] := by
  cases f <;> simp [word]

theorem flatMap_word_injective :
    Function.Injective fun fields : List (KeyField (List ℤ)) =>
      fields.flatMap KeyField.word := by
  intro fields
  induction fields with
  | nil =>
      intro fields' h
      cases fields' with
      | nil => rfl
      | cons g gs => simp [g.word_ne_nil] at h
  | cons f fs ih =>
      intro fields' h
      cases fields' with
      | nil => simp [f.word_ne_nil] at h
      | cons g gs =>
          simp only [List.flatMap_cons] at h
          obtain ⟨rfl, hrest⟩ := KeyField.word_append_inj h
          rw [ih hrest]

/-- The key that is the list of its fields. -/
def listing : SurrogateKey (List ℤ) where
  generateSurrogateKey fields := fields.flatMap KeyField.word
  injective := flatMap_word_injective

end Listing

end BinanceElt
